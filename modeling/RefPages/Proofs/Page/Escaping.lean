import Mathlib.Algebra.Ring.Parity
import RefPages.Page.FrontMatter

/-!
# Quoted values and their readers

A value stands in front matter between double quotes. A reader goes through it from left to right: a
backslash takes the next character with it, and the first quote that no backslash takes ends the
value.

    a\b "c"   ──escape──▶   a\\b \"c\"   ──unescape──▶   a\b "c"

An escaped value has an odd number of backslashes right before each of its quotes and an even number
at its end, so no quote of it ends the value and none of its backslashes takes the quote behind it.
-/

namespace RefPages.FrontMatter

/-! ### Escaping -/

theorem escape_nil : escape [] = [] := rfl

theorem escape_cons_special {c : Char} (h : c = '\\' ∨ c = '"') (cs : List Char) :
    escape (c :: cs) = '\\' :: c :: escape cs := by
  rw [escape, if_pos (by simpa using h)]

theorem escape_cons_plain {c : Char} (h : ¬(c = '\\' ∨ c = '"')) (cs : List Char) :
    escape (c :: cs) = c :: escape cs := by
  rw [escape, if_neg (by simpa using h)]

def replaceAll (c : Char) (new cs : List Char) : List Char :=
  cs.flatMap fun d => if d = c then new else [d]

/-- The backslashes are doubled first, so that those before quotes stay single. -/
theorem escape_eq_replaceAll (cs : List Char) :
    escape cs = replaceAll '"' ['\\', '"'] (replaceAll '\\' ['\\', '\\'] cs) := by
  induction cs with
  | nil => rfl
  | cons c cs ih =>
    have hcons : replaceAll '"' ['\\', '"'] (replaceAll '\\' ['\\', '\\'] (c :: cs)) =
        replaceAll '"' ['\\', '"'] (if c = '\\' then ['\\', '\\'] else [c]) ++ escape cs := by
      rw [ih, replaceAll, replaceAll, replaceAll, List.flatMap_cons, List.flatMap_append]
      rfl
    rw [hcons]
    -- the second replacement leaves alone what the first one put in, as that has no quote
    by_cases hbackslash : c = '\\'
    · subst hbackslash
      rfl
    · by_cases hquote : c = '"'
      · subst hquote
        rfl
      · rw [escape_cons_plain (not_or.2 ⟨hbackslash, hquote⟩), if_neg hbackslash]
        simp [replaceAll, hquote]

/-! ### Runs of backslashes -/

/-- The number of backslashes that a text ends in. -/
def backslashes (cs : List Char) : Nat := (cs.reverse.takeWhile (· == '\\')).length

theorem backslashes_le (cs : List Char) : backslashes cs ≤ cs.length := by
  have hstart := List.takeWhile_prefix (l := cs.reverse) (· == '\\')
  exact Nat.le_trans hstart.length_le (Nat.le_of_eq List.length_reverse)

/-- A character in front counts only if all that stands behind it are backslashes. -/
theorem backslashes_cons (c : Char) (cs : List Char) :
    backslashes (c :: cs) =
      if c = '\\' ∧ backslashes cs = cs.length then cs.length + 1 else backslashes cs := by
  unfold backslashes
  rw [List.reverse_cons, List.takeWhile_append, List.length_reverse]
  by_cases hall : (cs.reverse.takeWhile (· == '\\')).length = cs.length
  · by_cases hc : c = '\\' <;> simp [hall, hc]
  · simp [hall]

/-- The backslashes at the end stay the same when another character is put in front. -/
theorem backslashes_cons_of_ne {c : Char} (h : c ≠ '\\') (cs : List Char) :
    backslashes (c :: cs) = backslashes cs := by
  rw [backslashes_cons, if_neg fun hc => h hc.1]

/-- What escaping puts in place of a backslash or a quote changes no parity. -/
theorem even_backslashes_special {c : Char} (h : c = '\\' ∨ c = '"') (cs : List Char) :
    Even (backslashes ('\\' :: c :: cs)) ↔ Even (backslashes cs) := by
  have hle := backslashes_le cs
  rw [backslashes_cons, backslashes_cons, List.length_cons]
  rcases h with rfl | rfl
  · by_cases hall : backslashes cs = cs.length
    · simp [hall, Nat.even_add_one]
    · have hne : backslashes cs ≠ cs.length + 1 := by omega
      simp [hall, hne]
  · have hne : backslashes cs ≠ cs.length + 1 := by omega
    simp [hne]

/-- Right before a quote of an escaped text stands an odd number of backslashes. -/
theorem odd_backslashes_of_escape {cs before after : List Char}
    (h : escape cs = before ++ '"' :: after) : Odd (backslashes before) := by
  induction cs generalizing before with
  | nil => simp [escape_nil] at h
  | cons c cs ih =>
    by_cases hc : c = '\\' ∨ c = '"'
    · rw [escape_cons_special hc] at h
      -- the quote is none of the two characters that were written for this one, unless it is the
      -- second
      match before with
      | [] => simp at h
      | [b] =>
        obtain ⟨rfl, -⟩ := List.cons.inj h
        decide
      | b :: d :: before =>
        obtain ⟨rfl, htail⟩ := List.cons.inj h
        obtain ⟨rfl, hrest⟩ := List.cons.inj htail
        rw [← Nat.not_even_iff_odd, even_backslashes_special hc, Nat.not_even_iff_odd]
        exact ih hrest
    · rw [escape_cons_plain hc] at h
      rw [not_or] at hc
      match before with
      | [] =>
        obtain ⟨rfl, -⟩ := List.cons.inj h
        exact absurd rfl hc.2
      | b :: before =>
        obtain ⟨rfl, hrest⟩ := List.cons.inj h
        rw [backslashes_cons_of_ne hc.1]
        exact ih hrest

/-- An escaped text ends in an even number of backslashes. -/
theorem even_backslashes_escape (cs : List Char) : Even (backslashes (escape cs)) := by
  induction cs with
  | nil => decide
  | cons c cs ih =>
    by_cases hc : c = '\\' ∨ c = '"'
    · rw [escape_cons_special hc, even_backslashes_special hc]
      exact ih
    · rw [escape_cons_plain hc, backslashes_cons_of_ne (not_or.1 hc).1]
      exact ih

/-! ### Reading -/

/-- What stands behind an opening quote, cut at the quote that closes it. -/
def scalar? : List Char → Option (List Char × List Char)
  | [] => none
  | '"' :: cs => some ([], cs)
  | '\\' :: c :: cs => (scalar? cs).map fun (inner, rest) => ('\\' :: c :: inner, rest)
  | c :: cs => (scalar? cs).map fun (inner, rest) => (c :: inner, rest)

def unescape : List Char → List Char
  | [] => []
  | '\\' :: '\\' :: cs => '\\' :: unescape cs
  | '\\' :: '"' :: cs => '"' :: unescape cs
  | c :: cs => c :: unescape cs

theorem scalar?_cons_plain {c : Char} (h : ¬(c = '\\' ∨ c = '"')) (cs : List Char) :
    scalar? (c :: cs) = (scalar? cs).map fun (inner, rest) => (c :: inner, rest) := by
  rw [not_or] at h
  rw [scalar?]
  · exact h.2
  · rintro d ds rfl
    exact absurd rfl h.1

theorem unescape_cons_special {c : Char} (h : c = '\\' ∨ c = '"') (cs : List Char) :
    unescape ('\\' :: c :: cs) = c :: unescape cs := by
  rcases h with rfl | rfl <;> rfl

theorem unescape_cons_plain {c : Char} (h : c ≠ '\\') (cs : List Char) :
    unescape (c :: cs) = c :: unescape cs := by
  rw [unescape]
  · rintro ds rfl
    exact absurd rfl h
  · rintro ds rfl
    exact absurd rfl h

/-- No quote of an escaped value closes it, and the one behind it does. -/
theorem scalar?_escape (cs rest : List Char) :
    scalar? (escape cs ++ '"' :: rest) = some (escape cs, rest) := by
  induction cs with
  | nil => rfl
  | cons c cs ih =>
    by_cases hc : c = '\\' ∨ c = '"'
    · rw [escape_cons_special hc, List.cons_append, List.cons_append, scalar?, ih]
      rfl
    · rw [escape_cons_plain hc, List.cons_append, scalar?_cons_plain hc, ih]
      rfl

/-- Reading an escaped text gives the text back. -/
theorem unescape_escape (cs : List Char) : unescape (escape cs) = cs := by
  induction cs with
  | nil => rfl
  | cons c cs ih =>
    by_cases hc : c = '\\' ∨ c = '"'
    · rw [escape_cons_special hc, unescape_cons_special hc, ih]
    · rw [escape_cons_plain hc, unescape_cons_plain (not_or.1 hc).1, ih]

/-- Different texts are escaped differently. -/
theorem escape_injective : Function.Injective escape :=
  Function.LeftInverse.injective unescape_escape

/-- **Escaping can be undone, and an escaped value ends at its quote.** Backslashes are doubled,
then each quote gets one before it. So an odd number of backslashes stands before every quote inside
and an even number before the one behind the value: the value of a key ends there and nowhere else.
It is read back from left to right, and no two values are escaped to the same text. -/
theorem escape_reversible (value : String) :
    escape value.toList = replaceAll '"' ['\\', '"'] (replaceAll '\\' ['\\', '\\'] value.toList) ∧
      (∀ before after, escape value.toList = before ++ '"' :: after → Odd (backslashes before)) ∧
      Even (backslashes (escape value.toList)) ∧
      (∀ key : String, ∃ behind,
        (keyLine key value).toList = key.toList ++ ": \"".toList ++ behind ∧
          scalar? behind = some (escape value.toList, ['\n'])) ∧
      unescape (escape value.toList) = value.toList ∧
      ∀ other : String, other ≠ value → escape other.toList ≠ escape value.toList := by
  refine ⟨escape_eq_replaceAll _, fun _ _ => odd_backslashes_of_escape,
    even_backslashes_escape _, fun key => ?_, unescape_escape _, fun other hne heq => ?_⟩
  · refine ⟨escape value.toList ++ ['"', '\n'], ?_, scalar?_escape _ _⟩
    simp [keyLine]
  · exact hne (String.toList_injective (escape_injective heq))

end RefPages.FrontMatter
