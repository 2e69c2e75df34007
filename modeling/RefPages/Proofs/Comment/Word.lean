import Mathlib.Data.List.Infix
import RefPages.Proofs.Comment.Removal

/-!
# Words in a comment

A word has no blanks in it, so it never reaches from one line into the next, and no blank that is
dropped belongs to it. A comment holds a word just if its description or one of its tags does, and
taking tags away takes away the words that stand only in these:

    One.                          One.
    @default 1 (@internal)  ──▶
    @see two                      @see two
-/

namespace RefPages.Comment

open Text

/-! ### Words in a text -/

structure IsWord (w : List Char) : Prop where
  ne_nil : w ≠ []
  blank : ∀ c ∈ w, isBlank c = false

variable {w : List Char}

theorem IsWord.not_mem (hw : IsWord w) {c : Char} (hc : isBlank c = true) : c ∉ w := by
  intro hmem
  rw [hw.blank c hmem] at hc
  cases hc

/-- Looking for a pattern finds every contiguous occurrence. -/
theorem contains_iff {cs : List Char} : Text.contains w cs = true ↔ w <:+: cs := by
  induction cs with
  | nil => simp [Text.contains]
  | cons c cs ih =>
    rw [Text.contains, Bool.or_eq_true, ih, List.isPrefixOf_iff_prefix, List.infix_cons_iff]

theorem eq_nil_of_prefix_cons {c : Char} (hc : c ∉ w) {cs : List Char} (h : w <+: c :: cs) :
    w = [] := by
  cases w with
  | nil => rfl
  | cons d ds =>
    obtain ⟨rfl, -⟩ := List.cons_prefix_cons.1 h
    exact absurd List.mem_cons_self hc

/-- What has no separator in it stands on one side of every separator. -/
theorem infix_append_cons_iff {c : Char} (hc : c ∉ w) {as bs : List Char} :
    w <:+: as ++ c :: bs ↔ w <:+: as ∨ w <:+: bs := by
  constructor
  · intro h
    -- the word lies before the character, behind it, or across it, which its letters rule out
    rcases List.infix_append_iff.1 h with has | hbs | ⟨u, v, rfl, hu, hv⟩
    · exact .inl has
    · rcases List.infix_cons_iff.1 hbs with hprefix | hbs
      · rw [eq_nil_of_prefix_cons hc hprefix]
        exact .inl List.nil_infix
      · exact .inr hbs
    · rw [eq_nil_of_prefix_cons (fun hmem => hc (List.mem_append_right u hmem)) hv,
        List.append_nil]
      exact .inl hu.isInfix
  · rintro (has | hbs)
    · exact has.trans (List.prefix_append as (c :: bs)).isInfix
    · exact hbs.trans ((List.suffix_cons c bs).trans (List.suffix_append as (c :: bs))).isInfix

/-- A blank is not the first character of a word. -/
theorem IsWord.infix_cons_iff (hw : IsWord w) {c : Char} (hc : isBlank c = true)
    {cs : List Char} : w <:+: c :: cs ↔ w <:+: cs := by
  have hcut : w <:+: [] ++ c :: cs ↔ w <:+: [] ∨ w <:+: cs :=
    infix_append_cons_iff (hw.not_mem hc)
  simpa [hw.ne_nil] using hcut

theorem IsWord.not_infix_of_blank (hw : IsWord w) {l : Line} (hl : isBlankText l = true) :
    ¬w <:+: l := by
  intro h
  obtain ⟨c, cs, rfl⟩ := List.exists_cons_of_ne_nil hw.ne_nil
  have hblank : isBlank c = true := List.all_eq_true.1 hl c (h.subset List.mem_cons_self)
  exact hw.not_mem hblank List.mem_cons_self

theorem IsWord.infix_trimStart_iff (hw : IsWord w) {l : Line} : w <:+: trimStart l ↔ w <:+: l := by
  induction l with
  | nil => rfl
  | cons c cs ih =>
    by_cases hc : isBlank c = true
    · rw [trimStart, List.dropWhile_cons_of_pos hc, ← trimStart, ih, hw.infix_cons_iff hc]
    · rw [trimStart, List.dropWhile_cons_of_neg hc]

theorem IsWord.reverse (hw : IsWord w) : IsWord w.reverse where
  ne_nil := by simpa using hw.ne_nil
  blank := by simpa using hw.blank

theorem IsWord.infix_trimEnd_iff (hw : IsWord w) {l : Line} : w <:+: trimEnd l ↔ w <:+: l := by
  have hreverse : trimEnd l = (trimStart l.reverse).reverse := rfl
  rw [hreverse, ← List.reverse_infix, List.reverse_reverse, hw.reverse.infix_trimStart_iff,
    List.reverse_infix]

/-- Trimming loses no word. -/
theorem IsWord.infix_trim_iff (hw : IsWord w) {l : Line} : w <:+: trim l ↔ w <:+: l := by
  rw [trim, hw.infix_trimEnd_iff, hw.infix_trimStart_iff]

/-! ### Words in lines -/

/-- One of the lines has the word in it. -/
def Holds (w : List Char) (ls : List Line) : Prop := ∃ l ∈ ls, w <:+: l

theorem holds_nil : ¬Holds w [] := by
  rintro ⟨l, hl, -⟩
  cases hl

theorem holds_cons {l : Line} {ls : List Line} : Holds w (l :: ls) ↔ w <:+: l ∨ Holds w ls := by
  simp [Holds]

theorem holds_append {ls ms : List Line} : Holds w (ls ++ ms) ↔ Holds w ls ∨ Holds w ms := by
  simp [Holds, or_and_right, exists_or]

/-- A word of joined lines is in one of them: it cannot reach across a line end. -/
theorem IsWord.infix_unlines_iff (hw : IsWord w) {ls : List Line} :
    w <:+: unlines ls ↔ Holds w ls := by
  induction ls with
  | nil => simpa [unlines, hw.ne_nil] using holds_nil
  | cons l ls ih =>
    cases ls with
    | nil => simp [unlines, Holds]
    | cons m ls =>
      rw [unlines_cons_cons, infix_append_cons_iff (hw.not_mem (by decide)), ih, ← holds_cons]

theorem IsWord.holds_dropWhile_iff (hw : IsWord w) {ls : List Line} :
    Holds w (ls.dropWhile isBlankText) ↔ Holds w ls := by
  induction ls with
  | nil => rfl
  | cons l ls ih =>
    by_cases hl : isBlankText l = true
    · rw [List.dropWhile_cons_of_pos hl, ih, holds_cons]
      simp [hw.not_infix_of_blank hl]
    · rw [List.dropWhile_cons_of_neg hl]

theorem IsWord.holds_dropBlankEnds_iff (hw : IsWord w) {ls : List Line} :
    Holds w (dropBlankEnds ls) ↔ Holds w ls := by
  have hreverse : ∀ ms : List Line, Holds w ms.reverse ↔ Holds w ms := by
    intro ms
    simp [Holds]
  rw [dropBlankEnds, hreverse, hw.holds_dropWhile_iff, hreverse, hw.holds_dropWhile_iff]

/-! ### Words in comments -/

/-- A word does not reach into what starts with a blank. -/
theorem IsWord.infix_append_of_blank_iff (hw : IsWord w) {as bs : List Char}
    (hbs : ∀ c ∈ bs.head?, isBlank c = true) : w <:+: as ++ bs ↔ w <:+: as ∨ w <:+: bs := by
  cases bs with
  | nil => simp [hw.ne_nil]
  | cons b bs =>
    have hb : isBlank b = true := hbs b rfl
    rw [infix_append_cons_iff (hw.not_mem hb), hw.infix_cons_iff hb]

theorem IsWord.infix_besideName_iff (hw : IsWord w) {first : Line} :
    w <:+: besideName first ↔ w <:+: first := by
  cases first with
  | nil => rfl
  | cons c cs =>
    rw [besideName, if_neg (by simp)]
    exact hw.infix_cons_iff (by decide)

/-- The first line of a tag holds the words of the line that it was read from. -/
theorem IsWord.infix_tagLine_iff (hw : IsWord w) {l first : Line} {name : List Char}
    (h : tagHead? l = some (name, first)) :
    w <:+: '@' :: name ++ besideName first ↔ w <:+: l := by
  obtain ⟨rest, hline, -, hrest, rfl⟩ := tagHead?_eq_some h
  have hbeside : ∀ c ∈ (besideName (trim rest)).head?, isBlank c = true := by
    intro c hc
    unfold besideName at hc
    split at hc
    · cases hc
    · cases hc
      decide
  rw [← hw.infix_trimStart_iff (l := l), hline, hw.infix_append_of_blank_iff hrest,
    hw.infix_append_of_blank_iff hbeside, hw.infix_besideName_iff, hw.infix_trim_iff]

/-- Cutting lines into a description and tags loses no word. -/
theorem IsWord.holds_sections_iff (hw : IsWord w) (opened : Option Fence) (ls : List Line) :
    Holds w (printedLines (sections opened ls).1 (sections opened ls).2) ↔ Holds w ls := by
  induction ls generalizing opened with
  | nil => rfl
  | cons l ls ih =>
    rcases text_or_tag opened l with htext | ⟨name, first, rfl, hfence, hhead⟩
    · rw [sections_cons_text ls htext, holds_cons, ← ih (Fence.after opened l)]
      exact holds_cons
    -- a line that starts a tag is printed with its blanks moved, which no word contains
    · have hwritten : printedLines [] (⟨name, first :: (sections none ls).1⟩ ::
          (sections none ls).2) = ('@' :: name ++ besideName first) ::
            printedLines (sections none ls).1 (sections none ls).2 := by
        rw [printedLines, List.flatMap_cons, Tag.written_eq rfl]
        rfl
      rw [sections_cons_tag ls hfence hhead, hwritten, holds_cons, holds_cons,
        hw.infix_tagLine_iff hhead, ih none]

/-- A word that is written is in the description or in a tag. -/
theorem holds_printedLines_iff {part : List Line} {tags : List Tag} :
    Holds w (printedLines part tags) ↔ Holds w part ∨ ∃ t ∈ tags, Holds w t.written := by
  rw [printedLines, holds_append]
  refine or_congr_right ?_
  simp only [Holds, List.mem_flatMap]
  constructor
  · rintro ⟨l, ⟨t, ht, hl⟩, hinfix⟩
    exact ⟨t, ht, l, hl, hinfix⟩
  · rintro ⟨t, ht, l, hl, hinfix⟩
    exact ⟨l, ⟨t, ht, hl⟩, hinfix⟩

/-- The word stands in the description of a comment, or in a tag whose name is none of the given
ones. -/
def HoldsOutside (w : List Char) (names : List (List Char)) (c : Comment) : Prop :=
  Holds w c.description ∨ ∃ t ∈ c.tags, t.name ∉ names ∧ Holds w t.written

/-- The word stands in a tag with one of the names. -/
def HoldsInside (w : List Char) (names : List (List Char)) (c : Comment) : Prop :=
  ∃ t ∈ c.tags, t.name ∈ names ∧ Holds w t.written

/-- Taking tags away leaves the words that stand outside of them. -/
theorem IsWord.infix_textWithout_iff (hw : IsWord w) (names : List (List Char)) (c : Comment) :
    w <:+: (c.textWithout names).toList ↔ c.HoldsOutside w names := by
  have hkept : ∀ t, t ∈ c.tags.filter (fun t => !names.contains t.name) ↔
      t ∈ c.tags ∧ t.name ∉ names := by
    intro t
    simp
  rw [textWithout_eq_without, String.toList_ofList, hw.infix_unlines_iff,
    hw.holds_dropBlankEnds_iff, without, holds_printedLines_iff, HoldsOutside]
  simp only [hkept, and_assoc]

/-- The words of a comment stand inside of given tags or outside of them. -/
theorem IsWord.infix_text_iff (hw : IsWord w) (names : List (List Char)) (raw : List Char) :
    w <:+: (parse raw).text.toList ↔
      (parse raw).HoldsOutside w names ∨ (parse raw).HoldsInside w names := by
  have hsections := hw.holds_sections_iff none (parse raw).lines
  have hcut : sections none (parse raw).lines = ((parse raw).description, (parse raw).tags) := rfl
  rw [hcut] at hsections
  rw [text, String.toList_ofList, hw.infix_unlines_iff, ← hsections, holds_printedLines_iff,
    HoldsOutside, HoldsInside, or_assoc, ← exists_or]
  refine or_congr_right (exists_congr fun t => ?_)
  by_cases hname : t.name ∈ names <;> simp [hname]

end RefPages.Comment
