import Mathlib.Data.List.Infix
import Mathlib.Logic.Basic
import RefPages.Comment.Basic

/-!
# Types in braces

A parameter's text may start with a type in braces, and types have braces of their own. The scan
over them counts how many are open and ends at the brace that closes the first one, or nowhere if
one stays open:

    {Record<string, {a: 1}>} map        1 … 2 … 1 … 0      behind it   map
    {Record<string, {a: 1> map          1 … 2 …            nothing

The same reading can be done by position, with a counter that may not fall below zero and with cuts
that have to lie in the text. Nothing of that ever fails (`readByPosition_eq`).
-/

namespace RefPages.Comment

open Text

/-! ### Counting braces -/

variable {depth : Nat} {cs type : List Char}

@[simp] theorem afterBraces_nil (depth : Nat) : afterBraces depth [] = none := rfl

@[simp] theorem afterBraces_open (depth : Nat) (cs : List Char) :
    afterBraces depth ('{' :: cs) = afterBraces (depth + 1) cs := rfl

@[simp] theorem afterBraces_last (cs : List Char) : afterBraces 1 ('}' :: cs) = some cs := rfl

@[simp] theorem afterBraces_close (depth : Nat) (cs : List Char) :
    afterBraces (depth + 2) ('}' :: cs) = afterBraces (depth + 1) cs := rfl

theorem afterBraces_other {c : Char} (hopen : c ≠ '{') (hclose : c ≠ '}') (depth : Nat)
    (cs : List Char) : afterBraces depth (c :: cs) = afterBraces depth cs := by
  rw [afterBraces, if_neg hopen, if_neg hclose]

/-- Of some open braces, one stays open all along a text. -/
def StaysOpen (depth : Nat) (cs : List Char) : Prop :=
  ∀ before, before <+: cs → before.count '}' < depth + before.count '{'

/-- In every part that a text starts with, no more braces are closed than are opened, and in the
whole text all are closed. -/
structure Balanced (cs : List Char) : Prop where
  before : ∀ before, before <+: cs → before.count '}' ≤ before.count '{'
  all : cs.count '{' = cs.count '}'

instance (cs : List Char) : Decidable (Balanced cs) :=
  decidable_of_iff ((cs.inits.all fun before => before.count '}' ≤ before.count '{') = true ∧
      cs.count '{' = cs.count '}')
    ⟨fun ⟨hbefore, hall⟩ => ⟨by simpa using hbefore, hall⟩,
      fun ⟨hbefore, hall⟩ => ⟨by simpa using hbefore, hall⟩⟩

/-- Behind one brace a text stays inside if no part that it starts with closes more braces than it
opens. -/
theorem staysOpen_one_iff : StaysOpen 1 cs ↔ ∀ before, before <+: cs →
    before.count '}' ≤ before.count '{' := by
  simp only [StaysOpen, Nat.lt_iff_add_one_le, Nat.add_comm 1, Nat.add_le_add_iff_right]

theorem staysOpen_nil_iff : StaysOpen depth [] ↔ 0 < depth := by
  simp [StaysOpen]

theorem staysOpen_cons_iff {c : Char} : StaysOpen depth (c :: cs) ↔
    0 < depth ∧ ∀ before, before <+: cs →
      (c :: before).count '}' < depth + (c :: before).count '{' := by
  constructor
  · refine fun h => ⟨h [] List.nil_prefix, fun before hbefore => ?_⟩
    exact h (c :: before) (List.cons_prefix_cons.2 ⟨rfl, hbefore⟩)
  · rintro ⟨hdepth, h⟩ before hbefore
    rcases List.prefix_cons_iff.1 hbefore with rfl | ⟨rest, rfl, hrest⟩
    · exact hdepth
    · exact h rest hrest

theorem staysOpen_open_iff (hdepth : 0 < depth) :
    StaysOpen depth ('{' :: cs) ↔ StaysOpen (depth + 1) cs := by
  rw [staysOpen_cons_iff, StaysOpen, and_iff_right hdepth]
  refine forall₂_congr fun before _ => ?_
  rw [List.count_cons_of_ne (by decide), List.count_cons_self]
  omega

/-- Behind one brace a closing one leads outside. -/
theorem not_staysOpen_last : ¬StaysOpen 1 ('}' :: cs) := by
  rw [staysOpen_cons_iff]
  rintro ⟨-, h⟩
  have hclosed := h [] List.nil_prefix
  simp at hclosed

theorem staysOpen_close_iff :
    StaysOpen (depth + 2) ('}' :: cs) ↔ StaysOpen (depth + 1) cs := by
  rw [staysOpen_cons_iff, StaysOpen, and_iff_right (Nat.succ_pos _)]
  refine forall₂_congr fun before _ => ?_
  rw [List.count_cons_self, List.count_cons_of_ne (by decide)]
  omega

theorem staysOpen_other_iff {c : Char} (hopen : c ≠ '{') (hclose : c ≠ '}') (hdepth : 0 < depth) :
    StaysOpen depth (c :: cs) ↔ StaysOpen depth cs := by
  rw [staysOpen_cons_iff, StaysOpen, and_iff_right hdepth]
  refine forall₂_congr fun before _ => ?_
  rw [List.count_cons_of_ne hopen, List.count_cons_of_ne hclose]

/-- The rows of the scan over braces where one brace and `depth` more are open. -/
theorem braces_induction {motive : Nat → List Char → Prop} (nil : ∀ depth, motive depth [])
    (opens : ∀ depth cs, motive (depth + 1) cs → motive depth ('{' :: cs))
    (last : ∀ cs, motive 0 ('}' :: cs))
    (closes : ∀ depth cs, motive depth cs → motive (depth + 1) ('}' :: cs))
    (other : ∀ depth c cs, c ≠ '{' → c ≠ '}' → motive depth cs → motive depth (c :: cs))
    (depth : Nat) (cs : List Char) : motive depth cs := by
  induction cs generalizing depth with
  | nil => exact nil depth
  | cons c cs ih =>
    by_cases hopen : c = '{'
    · subst hopen
      exact opens depth cs (ih (depth + 1))
    by_cases hclose : c = '}'
    · subst hclose
      -- a closing brace at depth zero is the one that was looked for
      cases depth with
      | zero => exact last cs
      | succ depth => exact closes depth cs (ih depth)
    · exact other depth c cs hopen hclose (ih depth)

/-- A scan ends nowhere just if a brace stays open. -/
theorem afterBraces_eq_none_iff (depth : Nat) (cs : List Char) :
    afterBraces (depth + 1) cs = none ↔ StaysOpen (depth + 1) cs := by
  induction depth, cs using braces_induction with
  | nil depth => simp [staysOpen_nil_iff]
  | opens depth cs ih => rw [afterBraces_open, ih, staysOpen_open_iff (Nat.succ_pos _)]
  | last cs => simp [not_staysOpen_last]
  | closes depth cs ih => rw [afterBraces_close, ih, staysOpen_close_iff]
  | other depth c cs hopen hclose ih =>
    rw [afterBraces_other hopen hclose, ih, staysOpen_other_iff hopen hclose (Nat.succ_pos _)]

/-- A scan ends behind the brace that closes the last open one. -/
theorem afterBraces_append {depth : Nat} {type : List Char} (hopen : StaysOpen (depth + 1) type)
    (hall : depth + type.count '{' = type.count '}') (rest : List Char) :
    afterBraces (depth + 1) (type ++ '}' :: rest) = some rest := by
  -- each brace moves the depth and the text together
  induction depth, type using braces_induction with
  | nil depth =>
    obtain rfl : depth = 0 := by simpa using hall
    rfl
  | opens depth cs ih =>
    rw [staysOpen_open_iff (Nat.succ_pos _)] at hopen
    rw [List.count_cons_self, List.count_cons_of_ne (by decide)] at hall
    exact ih hopen (by omega)
  -- here the braces in front would all be closed before the text ends
  | last cs => exact absurd hopen not_staysOpen_last
  | closes depth cs ih =>
    rw [staysOpen_close_iff] at hopen
    rw [List.count_cons_self, List.count_cons_of_ne (by decide)] at hall
    exact ih hopen (by omega)
  | other depth c cs hc hc' ih =>
    rw [staysOpen_other_iff hc hc' (Nat.succ_pos _)] at hopen
    rw [List.count_cons_of_ne hc, List.count_cons_of_ne hc'] at hall
    rw [List.cons_append, afterBraces_other hc hc']
    exact ih hopen hall

/-- A balanced text is passed together with the brace that closes the one in front of it. -/
theorem afterBraces_balanced (h : Balanced type) (rest : List Char) :
    afterBraces 1 (type ++ '}' :: rest) = some rest :=
  afterBraces_append (staysOpen_one_iff.2 h.before) (by rw [Nat.zero_add, h.all]) rest

/-! ### Reading by position

The same reading with a counter that may not fall below zero and with cuts at positions in bytes,
which have to lie in the text and between two characters. Nothing of that ever fails. -/

/-- What can go wrong with a count or a position. -/
inductive Fault where
  /-- The count is zero and is to be decreased. -/
  | count
  /-- The position is behind the end of the text or inside a character. -/
  | position
deriving DecidableEq, Repr

def byteLength : List Char → Nat
  | [] => 0
  | c :: cs => c.utf8Size + byteLength cs

def cutAt : Nat → List Char → Except Fault (List Char × List Char)
  | n, [] => if n = 0 then .ok ([], []) else .error .position
  | n, c :: cs =>
    if n = 0 then .ok ([], c :: cs)
    else if n < c.utf8Size then .error .position
    else (cutAt (n - c.utf8Size) cs).map fun (before, after) => (c :: before, after)

def decrease : Nat → Except Fault Nat
  | 0 => .error .count
  | n + 1 => .ok n

/-- The position of the brace at which all are closed, if there is one. -/
def closingBrace? : Nat → Nat → List Char → Except Fault (Option Nat)
  | _, _, [] => .ok none
  | depth, position, c :: cs =>
    if c = '{' then closingBrace? (depth + 1) (position + c.utf8Size) cs
    else if c = '}' then
      match decrease depth with
      | .error fault => .error fault
      | .ok 0 => .ok (some position)
      | .ok depth => closingBrace? depth (position + c.utf8Size) cs
    else closingBrace? depth (position + c.utf8Size) cs

/-- The position of the first blank, or of the end. -/
def wordEnd (cs : List Char) : Nat := byteLength (cs.takeWhile fun c => !isBlank c)

/-- What stands behind the brace at a position, without blanks. -/
def behindBrace (cs : List Char) : Option Nat → Except Fault (Option (List Char))
  | none => .ok none
  | some position => (cutAt (position + 1) cs).map fun (_, rest) => some (trimStart rest)

def dropTypeAt (cs : List Char) : Except Fault (Option (List Char)) :=
  if cs.head? = some '{' then (closingBrace? 0 0 cs).bind (behindBrace cs) else .ok (some cs)

/-- The name and the text that the first word and what follows it give. -/
def nameAndText (word text : List Char) : Option (List Char × List Char) :=
  if (paramName word).isEmpty then none else some (paramName word, trim (afterDash text))

/-- The name and the text of a parameter without a type. -/
def readWord : Option (List Char) → Except Fault (Option (List Char × List Char))
  | none => .ok none
  | some cs => (cutAt (wordEnd cs) cs).map fun (word, text) => nameAndText word text

/-- The name and the text that the body of a parameter tag gives. -/
def readByPosition (body : List Char) : Except Fault (Option (List Char × List Char)) :=
  (dropTypeAt (trimStart body)).bind readWord

theorem byteLength_append (before after : List Char) :
    byteLength (before ++ after) = byteLength before + byteLength after := by
  induction before with
  | nil => rw [List.nil_append, byteLength, Nat.zero_add]
  | cons c cs ih => rw [List.cons_append, byteLength, byteLength, ih, Nat.add_assoc]

theorem cutAt_append (before after : List Char) :
    cutAt (byteLength before) (before ++ after) = .ok (before, after) := by
  induction before with
  | nil => cases after <;> rfl
  | cons c cs ih =>
    have hpos : c.utf8Size + byteLength cs ≠ 0 := by
      have := c.utf8Size_pos
      omega
    rw [byteLength, List.cons_append, cutAt, if_neg hpos, if_neg (by omega),
      Nat.add_sub_cancel_left, ih]
    rfl

/-- Both scans end at the same brace, or both find none. -/
def ScansAgree (depth position : Nat) (cs : List Char) : Prop :=
  (closingBrace? depth position cs = .ok none ∧ afterBraces depth cs = none) ∨
    ∃ type rest, cs = type ++ '}' :: rest ∧ afterBraces depth cs = some rest ∧
      closingBrace? depth position cs = .ok (some (position + byteLength type))

/-- A character that both scans pass in the same way keeps them in agreement. -/
theorem ScansAgree.cons {depth depth' position : Nat} {c : Char} {cs : List Char}
    (hposition : closingBrace? depth position (c :: cs) =
      closingBrace? depth' (position + c.utf8Size) cs)
    (hafter : afterBraces depth (c :: cs) = afterBraces depth' cs)
    (h : ScansAgree depth' (position + c.utf8Size) cs) : ScansAgree depth position (c :: cs) := by
  rcases h with ⟨hnone, hnone'⟩ | ⟨type, rest, rfl, hrest, hsome⟩
  · exact .inl ⟨hposition.trans hnone, hafter.trans hnone'⟩
  · refine .inr ⟨c :: type, rest, rfl, hafter.trans hrest, ?_⟩
    rw [hposition, hsome, Nat.add_assoc, byteLength]

/-- As long as a brace is open, the counter is above zero. -/
theorem scansAgree (depth position : Nat) (cs : List Char) :
    ScansAgree (depth + 1) position cs := by
  induction depth, cs using braces_induction generalizing position with
  | nil depth => exact .inl ⟨rfl, rfl⟩
  | opens depth cs ih => exact .cons rfl rfl (ih _)
  | last cs => exact .inr ⟨[], cs, rfl, rfl, rfl⟩
  | closes depth cs ih => exact .cons rfl rfl (ih _)
  | other depth c cs hc hc' ih =>
    refine .cons ?_ (afterBraces_other hc hc' _ _) (ih _)
    rw [closingBrace?, if_neg hc, if_neg hc']

theorem dropType_of_head? (h : cs.head? ≠ some '{') : dropType cs = some cs := by
  unfold dropType
  split
  · exact absurd rfl h
  · rfl

/-- Dropping a type by position never goes wrong, and it drops what is dropped by counting braces.
-/
theorem dropTypeAt_eq (cs : List Char) : dropTypeAt cs = .ok (dropType cs) := by
  unfold dropTypeAt
  split
  · next hhead =>
    obtain ⟨cs, rfl⟩ := List.head?_eq_some_iff.1 hhead
    have hopen : closingBrace? 0 0 ('{' :: cs) = closingBrace? 1 1 cs := rfl
    rw [hopen, dropType]
    -- both scans find none, or both stop at the same brace
    rcases scansAgree 0 1 cs with ⟨hposition, hafter⟩ | ⟨type, rest, rfl, hafter, hposition⟩
    · rw [hposition, hafter]
      rfl
    · -- the brace that closes is the last character of what is cut off
      have hlength : 1 + byteLength type + 1 = byteLength ('{' :: type ++ ['}']) := by
        rw [byteLength_append]
        rfl
      have hcut : cutAt (1 + byteLength type + 1) ('{' :: (type ++ '}' :: rest)) =
          .ok ('{' :: type ++ ['}'], rest) := by
        rw [hlength, ← cutAt_append]
        simp
      rw [hposition, hafter, Except.bind, behindBrace, hcut]
      rfl
  · next hhead => rw [dropType_of_head? hhead]

/-- The body of a parameter tag is read in two parts: the first word behind the type, and what
follows this word. -/
theorem paramOfBody?_eq (body : List Char) :
    paramOfBody? body = (dropType (trimStart body)).bind fun cs =>
      nameAndText (cs.takeWhile fun c => !isBlank c) (cs.dropWhile fun c => !isBlank c) := by
  unfold paramOfBody?
  cases dropType (trimStart body) <;> rfl

/-- Reading by position never fails, and gives the name and the text of the parameter. -/
theorem readByPosition_eq (body : List Char) :
    readByPosition body = .ok (paramOfBody? body) := by
  rw [readByPosition, dropTypeAt_eq, paramOfBody?_eq]
  cases dropType (trimStart body) with
  | none => rfl
  | some cs =>
    have hcut := cutAt_append (cs.takeWhile fun c => !isBlank c) (cs.dropWhile fun c => !isBlank c)
    rw [List.takeWhile_append_dropWhile] at hcut
    rw [Except.bind, readWord, wordEnd, hcut]
    rfl

end RefPages.Comment
