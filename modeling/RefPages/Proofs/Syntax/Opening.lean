import RefPages.Syntax.Form
import Mathlib.Data.List.Infix

/-!
# The next characters

An `Opening` is what is known of the characters ahead, after blanks. It tells which lexemes cannot
stand there (`Opening.admits`), and where there is an opening there is no comment to pass, so that
skipping and the ends of statements become simple.
-/

namespace RefPages.Syntax

theorem Cursor.rest_start (cs : List Char) : (Cursor.start cs).rest = cs := rfl

/-! ### Openings -/

/-- Does the name in front, if there is one, end among these characters? -/
def endsName : List Char → Bool
  | [] => false
  | c :: cs => if isNameChar c then endsName cs else c != '\\'

/-- The first characters ahead, after blanks. The first of them starts a lexeme and no comment, and
if it starts a name, the name ends among them. -/
structure Opening where
  chars : List Char
  startsLexeme : chars.head?.any (fun c => !isSpace c && c != '/') = true
  endsName : endsName chars = true

namespace Opening

/-- Are the characters of the opening ahead, after blanks? -/
def Faces (o : Opening) (cs : List Char) : Prop := o.chars <+: cs.dropWhile isSpace

def begins (o : Opening) (p : Char → Bool) : Bool := o.chars.head?.any p

def name (o : Opening) : String := String.ofList (o.chars.take (nameLength o.chars))

/-- Could the lexeme stand in front? -/
def admits (o : Opening) : Lexeme → Bool
  | .symbol text => o.begins fun c => text.toList.head?.all (· == c)
  | .operator texts => o.begins fun c => texts.any fun text => text.toList.head?.all (· == c)
  | .word texts => texts.contains o.name
  | .name excluded => !(nameLength o.chars == 0 || excluded.contains o.name)
  | .number => o.begins fun c => c.isDigit || c == '.'
  | .string => o.begins fun c => c == '"' || c == '\''
  | .regex => o.begins (· == '/')
  | .privateName | .hashBang => o.begins (· == '#')
  | .optionalStep | .condition => o.begins (· == '?')
  | _ => true

variable {o : Opening} {cs : List Char}

/-- An opening has a first character, which is no blank and starts no comment. -/
theorem chars_eq_cons (o : Opening) :
    ∃ c cs, o.chars = c :: cs ∧ isSpace c = false ∧ c ≠ '/' := by
  have h := o.startsLexeme
  cases hchars : o.chars with
  | nil => simp [hchars] at h
  | cons c cs =>
    refine ⟨c, cs, rfl, ?_⟩
    simpa [hchars] using h

theorem eq_cons_of_chars (h : o.chars <+: cs) :
    ∃ c rest, cs = c :: rest ∧ isSpace c = false ∧ c ≠ '/' ∧ ∀ p, o.begins p = p c := by
  obtain ⟨c, known, hchars, hspace, hslash⟩ := o.chars_eq_cons
  obtain ⟨rest, rfl⟩ := h
  refine ⟨c, known ++ rest, by rw [hchars]; rfl, hspace, hslash, ?_⟩
  intro p
  simp [begins, hchars]

theorem faces_of_chars (h : o.chars <+: cs) : o.Faces cs := by
  obtain ⟨c, rest, rfl, hspace, -⟩ := eq_cons_of_chars h
  unfold Faces
  rwa [List.dropWhile_cons_of_neg (by simp [hspace])]

/-! ### Lexemes -/

theorem nameCharsFrom_cons {c : Char} (hc : c ≠ '\\') (cs : List Char) :
    nameCharsFrom 0 (c :: cs) = if isNameChar c then 1 + nameCharsFrom 0 cs else 0 := by
  rw [nameCharsFrom]
  exact hc

/-- The name in front ends where the known characters end it, whatever follows them. -/
theorem nameCharsFrom_append {s : List Char} (h : Syntax.endsName s = true) (t : List Char) :
    nameCharsFrom 0 (s ++ t) = nameCharsFrom 0 s ∧ nameCharsFrom 0 s ≤ s.length := by
  induction s with
  | nil => cases h
  | cons c s ih =>
    have hc : c ≠ '\\' := by
      rintro rfl
      revert h
      simp [Syntax.endsName, show isNameChar '\\' = false by decide]
    rw [List.cons_append, nameCharsFrom_cons hc, nameCharsFrom_cons hc]
    -- the count stops in `s` at the latest, where its last character ends a name
    cases hname : isNameChar c with
    | false => simp
    | true =>
      simp only [Syntax.endsName, hname, if_true] at h
      obtain ⟨heq, hle⟩ := ih h
      simp only [if_true, heq, List.length_cons, true_and]
      omega

/-- The name in front of a text is the one that the opening shows. -/
theorem name_eq (h : o.chars <+: cs) :
    nameLength cs = nameLength o.chars ∧ String.ofList (cs.take (nameLength cs)) = o.name := by
  obtain ⟨t, rfl⟩ := h
  obtain ⟨heq, hle⟩ := nameCharsFrom_append o.endsName t
  have hlength : nameLength (o.chars ++ t) = nameLength o.chars ∧
      nameLength o.chars ≤ o.chars.length := by
    obtain ⟨c, known, hchars, -⟩ := o.chars_eq_cons
    rw [hchars] at heq hle ⊢
    simp only [List.cons_append, nameLength, nameCharsLength] at heq ⊢
    split
    · exact ⟨heq, hle⟩
    · simp
  refine ⟨hlength.1, ?_⟩
  rw [hlength.1, List.take_append_of_le_length hlength.2]
  rfl

/-- A name that is read where an opening stands has the length that the opening tells. -/
theorem eq_nameLength {excluded : List String} {n : Nat} (h : o.chars <+: cs)
    (hn : (Lexeme.name excluded).length? cs = some n) : n = nameLength o.chars := by
  rw [← (name_eq h).1]
  simp only [Lexeme.length?] at hn
  split at hn
  · cases hn
  · exact (Option.some.inj hn).symm

/-- A mark that is read there starts with the first character of the opening. -/
theorem begins_of_symbol {text : String} (h : o.chars <+: cs)
    (htext : text.toList.isPrefixOf cs = true) :
    (o.begins fun c => text.toList.head?.all (· == c)) = true := by
  obtain ⟨c, rest, rfl, -, -, hbegins⟩ := eq_cons_of_chars h
  rw [hbegins]
  cases htoList : text.toList with
  | nil => rfl
  | cons d ds =>
    rw [htoList] at htext
    have hhead : (d == c) = true := (Bool.and_eq_true_iff.1 htext).1
    exact hhead

theorem isPrefixOf_of_operatorAt? {op : String} (hop : operatorAt? cs = some op) :
    op.toList.isPrefixOf cs = true := by
  rw [operatorAt?, List.find?_eq_some_iff_append] at hop
  exact hop.1

/-- A number starts with a digit or a dot. -/
theorem numberLength?_eq_none {c : Char} (hdigit : c.isDigit = false) (hdot : ¬c = '.')
    (rest : List Char) : numberLength? (c :: rest) = none := by
  have hzero : c ≠ '0' := by
    rintro rfl
    cases hdigit
  simp [numberLength?, decimalLength?, digitsLength, hdigit, hdot, hzero]

/-- A lexeme that stands in front is admitted. -/
theorem admits_of_length? {l : Lexeme} {n : Nat} (h : o.chars <+: cs)
    (hlength : l.length? cs = some n) : o.admits l = true := by
  obtain ⟨c, rest, rfl, -, hslash, hbegins⟩ := eq_cons_of_chars h
  obtain ⟨hname, htext⟩ := name_eq h
  cases l with
  | symbol text =>
    simp only [Lexeme.length?] at hlength
    split at hlength
    · next hprefix => exact begins_of_symbol h hprefix
    · cases hlength
  | operator texts =>
    simp only [Lexeme.length?] at hlength
    split at hlength
    · cases hlength
    · next op hop =>
      split at hlength
      · next hmem =>
        have hsymbol := begins_of_symbol h (isPrefixOf_of_operatorAt? hop)
        rw [hbegins] at hsymbol
        rw [admits, hbegins]
        exact List.any_eq_true.2 ⟨op, List.contains_iff_mem.1 hmem, hsymbol⟩
      · cases hlength
  | word texts =>
    simp only [Lexeme.length?, htext] at hlength
    split at hlength
    · next hmem => exact (Bool.and_eq_true_iff.1 hmem).2
    · cases hlength
  | name excluded =>
    simp only [Lexeme.length?, htext] at hlength
    split at hlength
    · cases hlength
    · next hmem =>
      rw [hname, Bool.not_eq_true] at hmem
      simp only [admits, hmem, Bool.not_false]
  -- a number starts with a digit or a point
  | number =>
    rw [admits, hbegins]
    by_contra hc
    simp only [Bool.or_eq_true, beq_iff_eq, not_or, Bool.not_eq_true] at hc
    rw [Lexeme.length?, numberLength?_eq_none hc.1 hc.2 rest] at hlength
    cases hlength
  -- The length of each of these is read off the first character.
  | string | privateName | hashBang | regex | optionalStep =>
    rw [admits, hbegins]
    simp only [Lexeme.length?, stringLength?, regexLength?] at hlength
    split at hlength <;> simp_all
  | condition =>
    rw [admits, hbegins]
    simp only [Lexeme.length?] at hlength
    split at hlength
    · next hcondition =>
      unfold isCondition at hcondition
      split at hcondition <;> simp_all
    · cases hlength
  | _ => rfl

/-! ### Places -/

theorem drop_blanksLength (cs : List Char) : cs.drop (blanksLength cs) = cs.dropWhile isSpace := by
  induction cs with
  | nil => rfl
  | cons c cs ih =>
    cases hspace : isSpace c with
    | false => simp [blanksLength, hspace]
    | true => simpa [blanksLength, hspace] using ih

/-- No comment stands where an opening stands. -/
theorem commentLength?_eq_none (h : o.chars <+: cs) : commentLength? cs = none := by
  obtain ⟨c, rest, rfl, -, hslash, -⟩ := eq_cons_of_chars h
  unfold commentLength?
  split <;> simp_all

theorem commentLength?_after_blanks {c : Cursor} (h : o.Faces c.rest) :
    commentLength? (c.advance (blanksLength c.rest)).rest = none := by
  apply commentLength?_eq_none (o := o)
  rw [Cursor.advance, drop_blanksLength]
  exact h

theorem rest_ne_nil (h : o.Faces cs) : ∃ c rest, cs = c :: rest := by
  cases cs with
  | nil =>
    obtain ⟨_, _, hnil, -⟩ := eq_cons_of_chars h
    cases hnil
  | cons c rest => exact ⟨c, rest, rfl⟩

/-- Before an opening there are only blanks to pass. -/
theorem skip_eq {c : Cursor} (h : o.Faces c.rest) :
    c.skip = ([], c.advance (blanksLength c.rest)) := by
  obtain ⟨x, rest, hrest⟩ := rest_ne_nil h
  have hskip : c.skip = Cursor.skipUpTo (x :: rest) c := by rw [Cursor.skip, hrest]
  rw [hskip, Cursor.skipUpTo, commentLength?_after_blanks h]

/-- Passing blanks and comments leads to the opening: no comment stands before it. -/
theorem chars_skip {c : Cursor} (h : o.Faces c.rest) : o.chars <+: c.skip.2.rest := by
  rw [skip_eq h, Cursor.advance, drop_blanksLength]
  exact h

/-- Once they are passed, the opening is still faced. -/
theorem faces_skip {c : Cursor} (h : o.Faces c.rest) : o.Faces c.skip.2.rest :=
  faces_of_chars (chars_skip h)

/-- Where a statement ends before an opening, it ends right there. -/
theorem eq_of_end? {c : Cursor} {tail : Tail} {r : List Node × Cursor} (h : o.Faces c.rest)
    (hend : c.end? tail = some r) : endsHere tail c.rest = true ∧ r.2 = c := by
  obtain ⟨x, rest, hrest⟩ := rest_ne_nil h
  have heq : c.end? tail = Cursor.end?UpTo (x :: rest) tail c := by rw [Cursor.end?, hrest]
  rw [heq, Cursor.end?UpTo] at hend
  split at hend
  · next hends =>
    cases hend
    exact ⟨hends, rfl⟩
  · simp only [commentLength?_after_blanks h] at hend
    cases hend

/-- A statement ends in front of a line end if no other line can go on with it. -/
theorem endsHere_cons {tail : Tail} {c : Char} (hbrace : c ≠ '\x7d') :
    endsHere tail (c :: cs) =
      if c == '\n' then startsStatement tail (Cursor.start cs).skip.2.rest
      else if isSpace c then endsHere tail cs else false := by
  rw [endsHere]
  exact hbrace

/-- A statement does not end where a new one cannot start. -/
theorem endsHere_eq_false {tail : Tail} (h : o.Faces cs) (hbrace : o.begins (· == '\x7d') = false)
    (hstart : ∀ rest, startsStatement tail (o.chars ++ rest) = false) :
    endsHere tail cs = false := by
  -- blanks are passed one by one until the opening is in front
  induction cs with
  | nil =>
    obtain ⟨_, _, hnil⟩ := rest_ne_nil h
    cases hnil
  | cons d cs ih =>
    cases hspace : isSpace d with
    | true =>
      have hd : d ≠ '\x7d' := by
        rintro rfl
        cases hspace
      have hlater : o.Faces cs := by
        unfold Faces at h ⊢
        rwa [List.dropWhile_cons_of_pos hspace] at h
      -- behind a line end a statement would have to start, which it cannot with this opening
      rw [endsHere_cons hd, hspace, ih hlater]
      obtain ⟨rest, hrest⟩ := chars_skip (c := Cursor.start cs) hlater
      rw [← hrest, hstart]
      simp
    | false =>
      have hfront : o.chars <+: d :: cs := by
        unfold Faces at h
        rwa [List.dropWhile_cons_of_neg (by simp [hspace])] at h
      obtain ⟨c, rest, hcons, -, -, hbegins⟩ := eq_cons_of_chars hfront
      obtain ⟨rfl, rfl⟩ := List.cons.inj hcons
      have hd : d ≠ '\x7d' := by simpa [hbegins] using hbrace
      have hnewline : (d == '\n') = false := by
        rw [beq_eq_false_iff_ne]
        rintro rfl
        cases hspace
      rw [endsHere_cons hd, hnewline, hspace]
      rfl

end Opening

end RefPages.Syntax
