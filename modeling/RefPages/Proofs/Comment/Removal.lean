import RefPages.Proofs.Comment.Cleaned
import RefPages.Proofs.Comment.RoundTrip
import RefPages.Proofs.Path

/-!
# Removing tags from a comment

A comment without some of its tags can be written down as a comment of its own and read again: it
has the tags that were left, and all questions about them have the answers they had before.

    raw   ──parse──▶   comment   ──textWithout, wrapped──▶   raw   ──parse──▶   comment

This is the other direction of reading what was printed. Here nothing is asked of the comment: that
its parts do not run into each other (`Cut`) comes from how they were cut. A tag starts where no
fence is open, so a part that others follow has closed its fences, and taking a tag away changes
nothing for the parts after it. What may change is the end of the last part, which can have lost
blank lines, and no question looks at these.
-/

namespace RefPages.Comment

open Text

/-! ### The line of a tag -/

/-- What a line that starts a tag looks like. -/
theorem tagHead?_eq_some {l first : Line} {name : List Char} (h : tagHead? l = some (name, first)) :
    ∃ rest, trimStart l = '@' :: name ++ rest ∧ isTagName name = true ∧
      (∀ c ∈ rest.head?, isBlank c = true) ∧ first = trim rest := by
  unfold tagHead? at h
  split at h
  · next c cs hline =>
    dsimp only at h
    split at h
    · next hname =>
      rw [Bool.and_eq_true] at hname
      obtain ⟨rfl, rfl⟩ := Prod.mk.inj (Option.some.inj h)
      refine ⟨(c :: cs).dropWhile Char.isAlphanum, ?_, ?_, fun d hd => ?_, rfl⟩
      · rw [List.cons_append, List.takeWhile_append_dropWhile, hline]
      · have hc : c.isAlphanum = true := by simp [Char.isAlphanum, hname.1]
        rw [List.takeWhile_cons_of_pos hc, isTagName, hname.1, Bool.true_and, List.all_eq_true]
        exact fun x hx => List.mem_takeWhile_imp hx
      · obtain ⟨more, hmore⟩ := List.head?_eq_some_iff.1 hd
        simpa [hmore] using hname.2
    · cases h
  · cases h

/-- A line that starts a tag neither opens nor closes fenced code. -/
theorem fence_of_tagHead? {opened : Option Fence} {l first : Line} {name : List Char}
    (h : tagHead? l = some (name, first)) : Fence.after opened l = opened := by
  obtain ⟨rest, hline, -⟩ := tagHead?_eq_some h
  have hnone : Fence.ofLine? l = none := by
    rw [Fence.ofLine?, hline]
    rfl
  simp only [Fence.after, hnone]

theorem trim_trim (l : Line) : trim (trim l) = trim l := by
  have hhead : ∀ c ∈ (trim l).head?, isBlank c = false := by
    intro c hc
    have hstop := List.head?_dropWhile_not isBlank l
    obtain ⟨blanks, hblanks⟩ := trimEnd_prefix (trimStart l)
    rw [← trimStart, ← hblanks, List.head?_append, ← trim, Option.mem_def.1 hc] at hstop
    simpa using hstop
  have hstart : trimStart (trim l) = trim l := dropWhile_of_head? hhead
  have hend : trimEnd (trim l) = trim l := trimEnd_of_getLast? (isBlank_getLast?_trimEnd _)
  rw [trim, hstart, hend]

theorem isPrintable_of_tagHead? {l first : Line} {name : List Char}
    (h : tagHead? l = some (name, first)) (more : List Line) :
    Tag.IsPrintable ⟨name, first :: more⟩ := by
  obtain ⟨rest, -, hname, -, rfl⟩ := tagHead?_eq_some h
  refine ⟨hname, by simp, ?_⟩
  simpa using trim_trim rest

theorem unclosed_append_word {w cs : List Char} (hw : ∀ c ∈ w, c.isAlphanum = true) :
    Unclosed true (w ++ cs) ↔ Unclosed true cs := by
  induction w with
  | nil => rfl
  | cons c w ih =>
    rw [List.forall_mem_cons] at hw
    have hne : ∀ d : Char, d.isAlphanum = false → c ≠ d := by
      rintro d hd rfl
      simp [hw.1] at hd
    have hgap : isGap c = false := by
      simp [isGap, hne ' ' rfl, hne '\t' rfl, hne '\r' rfl]
    -- an alphanumeric character is neither a star nor a slash
    have hplain : IsPlain true c (w ++ cs) := ⟨hne '*' rfl, fun _ _ => rfl⟩
    rw [List.cons_append, unclosed_text hplain (hne '\n' rfl) hgap, ih hw.2]

/-- The `@` and the name of a tag close nothing. -/
theorem unclosed_tagLine {name : List Char} (hname : isTagName name = true) (cs : List Char) :
    Unclosed false ('@' :: name ++ cs) ↔ Unclosed true cs := by
  have hplain : IsPlain false '@' (name ++ cs) := ⟨by decide, fun h => absurd h (by decide)⟩
  rw [List.cons_append, unclosed_text hplain (by decide) (by decide),
    unclosed_append_word (isAlphanum_of_isTagName hname)]

/-- A tag's line is written with one blank after the name, whatever stood there before. -/
theorem isClean_written {l first : Line} {name : List Char} (hl : IsClean l)
    (h : tagHead? l = some (name, first)) : IsClean ('@' :: name ++ besideName first) := by
  obtain ⟨rest, hline, hname, -, rfl⟩ := tagHead?_eq_some h
  -- the text of the tag is a part of the line, and parts of clean lines are clean
  have hfirst : IsClean (trim rest) := by
    refine isClean_trimEnd ?_ ?_
    · intro hmem
      apply hl.newline
      have hrest : '\n' ∈ rest := (List.dropWhile_suffix isBlank).mem hmem
      apply (List.dropWhile_suffix isBlank).mem
      rw [← trimStart, hline]
      exact List.mem_append_right _ hrest
    · have hunclosed := hl.unclosed.trimStart
      rw [hline, unclosed_tagLine hname] at hunclosed
      exact hunclosed.trimStart
  refine ⟨newline_not_mem_written hname hfirst.newline, ?_,
    isBlank_getLast?_written hname hfirst.blank⟩
  -- a name closes nothing, so only what stands beside it is left
  rw [unclosed_tagLine hname]
  cases hcs : trim rest with
  | nil =>
    show Unclosed true []
    decide
  | cons c cs =>
    show Unclosed true (' ' :: c :: cs)
    rw [unclosed_blank (by decide), ← hcs]
    exact hfirst.unclosed

/-! ### How lines are cut -/

/-- A line is text of the part that it stands in, or it starts a tag where no fence is open. -/
theorem text_or_tag (opened : Option Fence) (l : Line) :
    (Fence.after opened l = none → tagHead? l = none) ∨
      ∃ name first, opened = none ∧ Fence.after opened l = none ∧
        tagHead? l = some (name, first) := by
  cases hhead : tagHead? l with
  | none => exact .inl fun _ => rfl
  | some tag =>
    obtain ⟨name, first⟩ := tag
    rw [fence_of_tagHead? hhead]
    cases opened with
    | none => exact .inr ⟨name, first, rfl, rfl, rfl⟩
    | some fence => exact .inl fun h => nomatch h

/-- The parts of lines that were cut do not run into each other. -/
structure Cut (opened : Option Fence) (part : List Line) (tags : List Tag) : Prop where
  tag : ∀ t ∈ tags, t.IsPrintable
  tagless : Tagless opened part
  below : ∀ t ∈ tags, Tagless none t.lines.tail
  closed : tags ≠ [] → Fence.afterAll opened part = none
  closedBelow : ∀ p ∈ (tags.map fun t => t.lines.tail).dropLast, Fence.afterAll none p = none

/-- A line that starts no tag goes to the part before it. -/
theorem Cut.text {opened : Option Fence} {l : Line} {part : List Line} {tags : List Tag}
    (hl : Fence.after opened l = none → tagHead? l = none)
    (h : Cut (Fence.after opened l) part tags) : Cut opened (l :: part) tags :=
  ⟨h.tag, ⟨hl, h.tagless⟩, h.below, h.closed, h.closedBelow⟩

/-- A line that starts a tag ends the part before it. -/
theorem Cut.start {l first : Line} {name : List Char} {part : List Line} {tags : List Tag}
    (hl : tagHead? l = some (name, first)) (h : Cut none part tags) :
    Cut none [] (⟨name, first :: part⟩ :: tags) := by
  refine ⟨?_, trivial, ?_, fun _ => rfl, ?_⟩
  · rw [List.forall_mem_cons]
    exact ⟨isPrintable_of_tagHead? hl part, h.tag⟩
  · rw [List.forall_mem_cons]
    exact ⟨h.tagless, h.below⟩
  · rw [List.map_cons]
    cases tags with
    | nil => simp
    | cons t tags =>
      rw [List.dropLast_cons_of_ne_nil (by simp), List.forall_mem_cons]
      exact ⟨h.closed (by simp), h.closedBelow⟩

/-- Cutting a comment into its sections leaves parts that do not run into each other. -/
theorem cut_sections (opened : Option Fence) (ls : List Line) :
    Cut opened (sections opened ls).1 (sections opened ls).2 := by
  induction ls generalizing opened with
  | nil => exact ⟨by simp [sections], trivial, by simp [sections], by simp [sections],
      by simp [sections]⟩
  | cons l ls ih =>
    rcases text_or_tag opened l with htext | ⟨name, first, rfl, hfence, hhead⟩
    · rw [sections_cons_text ls htext]
      exact .text htext (ih _)
    · rw [sections_cons_tag ls hfence hhead]
      exact .start hhead (ih none)

theorem dropLast_sublist_dropLast {α : Type} {xs ys : List α} (h : xs.Sublist ys) :
    xs.dropLast.Sublist ys.dropLast := by
  have htail := h.reverse.tail
  rwa [List.tail_reverse, List.tail_reverse, List.reverse_sublist] at htail

/-- Taking tags away leaves every other part as it is. -/
theorem Cut.filter {part : List Line} {tags : List Tag} (h : Cut none part tags)
    (kept : Tag → Bool) : Cut none part (tags.filter kept) := by
  have hsub : (tags.filter kept).Sublist tags := List.filter_sublist
  refine ⟨fun t ht => h.tag t (hsub.mem ht), h.tagless, fun t ht => h.below t (hsub.mem ht), ?_, ?_⟩
  · intro hne
    apply h.closed
    rintro rfl
    exact hne rfl
  · intro p hp
    exact h.closedBelow p ((dropLast_sublist_dropLast (hsub.map _)).mem hp)

/-- Such parts are cut at the same places when they are written down again. -/
theorem Cut.sections_printedLines {part : List Line} {tags : List Tag} (h : Cut none part tags) :
    sections none (printedLines part tags) = (part, tags) := by
  apply Comment.sections_printedLines h.tag
  · rw [parts, List.forall_mem_cons]
    refine ⟨h.tagless, fun p hp => ?_⟩
    obtain ⟨t, ht, rfl⟩ := List.mem_map.1 hp
    exact h.below t ht
  · rw [parts]
    by_cases hne : tags = []
    · simp [hne]
    · rw [List.dropLast_cons_of_ne_nil (by simpa using hne), List.forall_mem_cons]
      exact ⟨h.closed hne, h.closedBelow⟩

/-! ### The lines of the parts -/

theorem isClean_printedLines_sections (opened : Option Fence) {ls : List Line}
    (h : ∀ l ∈ ls, IsClean l) :
    ∀ l ∈ printedLines (sections opened ls).1 (sections opened ls).2, IsClean l := by
  -- printing gives a text line back as it is; a line that starts a tag is written anew
  induction ls generalizing opened with
  | nil => simp [sections, printedLines]
  | cons l ls ih =>
    rw [List.forall_mem_cons] at h
    rcases text_or_tag opened l with htext | ⟨name, first, rfl, hfence, hhead⟩
    · rw [sections_cons_text ls htext, printedLines, List.cons_append, List.forall_mem_cons]
      exact ⟨h.1, ih _ h.2⟩
    · rw [sections_cons_tag ls hfence hhead, printedLines, List.nil_append, List.flatMap_cons,
        Tag.written_eq rfl, List.cons_append, List.forall_mem_cons]
      exact ⟨isClean_written h.1 hhead, ih none h.2⟩

/-- The description starts with the first line of the comment, if with any. -/
theorem head?_sections {opened : Option Fence} {ls : List Line} {l : Line}
    (h : (sections opened ls).1.head? = some l) : ls.head? = some l := by
  cases ls with
  | nil => simp [sections] at h
  | cons m ls =>
    rcases text_or_tag opened m with htext | ⟨name, first, rfl, hfence, hhead⟩
    · rw [sections_cons_text ls htext] at h
      simpa using h
    · rw [sections_cons_tag ls hfence hhead] at h
      simp at h

/-- The line of a tag is not blank, so only the description could start with a blank line. -/
theorem isBlankText_head?_printedLines {part : List Line} {tags : List Tag}
    (htag : ∀ t ∈ tags, t.IsPrintable) (hpart : ∀ l ∈ part.head?, isBlankText l = false) :
    ∀ l ∈ (printedLines part tags).head?, isBlankText l = false := by
  intro l hl
  rw [printedLines, List.head?_append] at hl
  -- without a description the first printed line starts with the name of a tag
  cases part with
  | cons m part => exact hpart l (by simpa using hl)
  | nil =>
    cases tags with
    | nil => simp at hl
    | cons t tags =>
      obtain ⟨first, more, hlines, -⟩ := (htag t List.mem_cons_self).exists_first
      rw [List.flatMap_cons, Tag.written_eq hlines] at hl
      obtain rfl : '@' :: t.name ++ besideName first = l := by simpa using hl
      simp [isBlankText, isBlank]

/-! ### Blank lines at the end -/

/-- Where the first line is not blank, dropping blank lines drops some at the end. -/
theorem exists_blank_append {ls : List Line} (hfirst : ∀ l ∈ ls.head?, isBlankText l = false) :
    ∃ blanks, (∀ l ∈ blanks, isBlankText l = true) ∧ ls = dropBlankEnds ls ++ blanks := by
  obtain ⟨blanks, hls, hblanks⟩ := exists_dropWhile_end isBlankText ls
  refine ⟨blanks, hblanks, ?_⟩
  rw [dropBlankEnds, dropWhile_of_head? hfirst]
  exact hls

theorem tagless_of_blank {opened : Option Fence} {blanks : List Line}
    (h : ∀ l ∈ blanks, isBlankText l = true) : Tagless opened blanks := by
  induction blanks generalizing opened with
  | nil => trivial
  | cons l ls ih =>
    rw [List.forall_mem_cons] at h
    have htrim : trimStart l = [] := List.dropWhile_eq_nil_iff.2 (List.all_eq_true.1 h.1)
    exact ⟨fun _ => by simp [tagHead?, htrim], ih h.2⟩

/-- Blank lines at the end belong to the last part. -/
theorem sections_append_blank (opened : Option Fence) (ls : List Line) {blanks : List Line}
    (h : ∀ l ∈ blanks, isBlankText l = true) :
    ((sections opened ls).2 = [] ∧
        sections opened (ls ++ blanks) = ((sections opened ls).1 ++ blanks, [])) ∨
      ∃ before t, (sections opened ls).2 = before ++ [t] ∧
        sections opened (ls ++ blanks) =
          ((sections opened ls).1, before ++ [⟨t.name, t.lines ++ blanks⟩]) := by
  induction ls generalizing opened with
  | nil =>
    have htagless : Tagless opened blanks := tagless_of_blank h
    have hblanks := sections_append htagless []
    simp only [sections, List.append_nil] at hblanks
    exact .inl ⟨by simp [sections], by simpa [sections] using hblanks⟩
  | cons l ls ih =>
    rw [List.cons_append]
    -- the last tag takes the blank lines, or the description if there is no tag
    rcases text_or_tag opened l with htext | ⟨name, first, rfl, hfence, hhead⟩
    · rw [sections_cons_text _ htext, sections_cons_text _ htext]
      rcases ih (Fence.after opened l) with ⟨hnone, heq⟩ | ⟨before, t, htags, heq⟩
      · exact .inl ⟨hnone, by rw [heq, List.cons_append]⟩
      · exact .inr ⟨before, t, htags, by rw [heq]⟩
    · rw [sections_cons_tag _ hfence hhead, sections_cons_tag _ hfence hhead]
      right
      rcases ih none with ⟨hnone, heq⟩ | ⟨before, t, htags, heq⟩
      · exact ⟨[], ⟨name, first :: (sections none ls).1⟩, by simp [hnone], by simp [heq]⟩
      · exact ⟨⟨name, first :: (sections none ls).1⟩ :: before, t, by simp [htags], by simp [heq]⟩

/-- Blank lines at the end are not in the text that is shown. -/
theorem textWithout_append_blank {blanks : List Line} (h : ∀ l ∈ blanks, isBlankText l = true)
    (ls : List Line) (removed : List (List Char)) :
    (ofLines (ls ++ blanks)).textWithout removed = (ofLines ls).textWithout removed := by
  have hcut := cut_sections none ls
  simp only [ofLines, textWithout]
  rcases sections_append_blank none ls h with ⟨hnone, heq⟩ | ⟨before, t, htags, heq⟩
  · rw [heq, hnone]
    simp only [List.filter_nil, List.flatMap_nil, List.append_nil, dropBlankEnds]
    rw [dropWhile_both_append h]
  · rw [heq, htags]
    obtain ⟨first, more, hlines, -⟩ := (hcut.tag t (by simp [htags])).exists_first
    have hwritten : Tag.written ⟨t.name, t.lines ++ blanks⟩ = t.written ++ blanks := by
      rw [hlines, List.cons_append, Tag.written_eq rfl, Tag.written_eq hlines]
      rfl
    simp only [List.filter_append, List.flatMap_append, List.filter_singleton]
    -- a tag that is taken away takes its blank lines with it
    cases removed.contains t.name with
    | true => rfl
    | false =>
      simp only [Bool.not_false, cond_true, List.flatMap_singleton, hwritten, dropBlankEnds,
        ← List.append_assoc]
      rw [dropWhile_both_append h]

/-- What questions about parameters and defaults look at: the tags' names and texts. -/
def bodies (c : Comment) : List (List Char × List Char) := c.tags.map fun t => (t.name, t.body)

theorem unlines_append {ls : List Line} (hne : ls ≠ []) (more : List Line) :
    unlines (ls ++ more) = unlines ls ++ more.flatMap ('\n' :: ·) := by
  obtain ⟨l, ls, rfl⟩ := List.exists_cons_of_ne_nil hne
  rw [List.cons_append, unlines_cons, unlines_cons, List.flatMap_append, List.append_assoc]

/-- Blank lines at the end do not change what tags say. -/
theorem bodies_append_blank {blanks : List Line} (h : ∀ l ∈ blanks, isBlankText l = true)
    (ls : List Line) : bodies (ofLines (ls ++ blanks)) = bodies (ofLines ls) := by
  have hcut := cut_sections none ls
  simp only [bodies, ofLines]
  -- the blank lines end the description, or the last tag
  rcases sections_append_blank none ls h with ⟨hnone, heq⟩ | ⟨before, t, htags, heq⟩
  · rw [heq, hnone]
  · have hne := (hcut.tag t (by simp [htags])).lines
    have hblank : ∀ c ∈ blanks.flatMap ('\n' :: ·), isBlank c = true := by
      intro c hc
      obtain ⟨l, hl, hc⟩ := List.mem_flatMap.1 hc
      rcases List.mem_cons.1 hc with rfl | hc
      · decide
      · exact List.all_eq_true.1 (h l hl) c hc
    have hbody : Tag.body ⟨t.name, t.lines ++ blanks⟩ = t.body := by
      simp only [Tag.body, trim, trimEnd, trimStart]
      rw [unlines_append hne, dropWhile_both_append hblank]
    rw [heq, htags, List.map_append, List.map_append, List.map_singleton, List.map_singleton, hbody]

/-- The text for a parameter is a function of the tags' names and bodies. -/
theorem param?_eq_bodies (c : Comment) (name : String) :
    c.param? name =
      ((((bodies c).filter fun b => b.1 == paramTag).filterMap fun b => paramOfBody? b.2).find?
        fun p => p.1 == name.toList).map fun p => String.ofList p.2 := by
  simp only [param?, bodies, List.filter_map, List.filterMap_map, Function.comp_def]

theorem defaultValue?_eq_bodies (c : Comment) :
    c.defaultValue? =
      match (bodies c).find? fun b => defaultTags.contains b.1 with
      | none => none
      | some b =>
        if (collapse b.2).isEmpty then none else some (String.ofList (collapse b.2)) := by
  rw [bodies, List.find?_map, defaultValue?]
  simp only [Function.comp_def]
  cases c.tags.find? fun t => defaultTags.contains t.name with
  | none => rfl
  | some t => rfl

/-! ### Writing a comment down again -/

/-- Clean lines are found again in the text that joins them, if the last one is not blank. -/
theorem lines_unlines {ls : List Line} (h : ∀ l ∈ ls, IsClean l)
    (hlast : ∀ l ∈ ls.getLast?, isBlankText l = false) : Text.lines (unlines ls) = ls := by
  have hpieces : ls ≠ [] → splitOn '\n' (unlines ls) = ls := by
    intro hne
    rw [splitOn_eq, unlines]
    exact List.splitOn_intercalate '\n' (fun l hl => (h l hl).newline) hne
  -- only an empty last piece would be dropped, and only a carriage return at an end
  have hof : linesOfPieces ls = ls := by
    clear hpieces
    induction ls with
    | nil => rfl
    | cons l ls ih =>
      rw [List.forall_mem_cons] at h
      cases ls with
      | nil =>
        have hl : isBlankText l = false := hlast l rfl
        have hne : l.isEmpty = false := by
          cases l with
          | nil => cases hl
          | cons c cs => rfl
        simp [linesOfPieces, hne]
      | cons m ls =>
        have hreturn : dropReturn l = l := by
          have hblank := h.1.blank
          rw [List.getLast?_eq_head?_reverse] at hblank
          unfold dropReturn
          split
          · next r hr => simp [hr, isBlank] at hblank
          · rfl
        rw [linesOfPieces, hreturn, ih h.2 (by simpa using hlast)]
        simp
  by_cases hne : ls = []
  · subst hne
    rfl
  · rw [Text.lines, hpieces hne, hof]

def rewrapped (text : String) : List Char := wrapped (Text.lines text.toList)

/-- The comment that is left when the tags of some names are taken away. -/
def without (c : Comment) (removed : List (List Char)) : Comment :=
  let kept := c.tags.filter fun t => !removed.contains t.name
  ⟨printedLines c.description kept, c.description, kept⟩

theorem ofLines_eq (ls : List Line) :
    ofLines ls = ⟨ls, (sections none ls).1, (sections none ls).2⟩ := rfl

theorem lines_parse (raw : List Char) : (parse raw).lines = cleanLines raw := rfl

theorem ofLines_lines (raw : List Char) : ofLines (parse raw).lines = parse raw := rfl

/-- The text without some tags is the text of the comment that is left without them. -/
theorem textWithout_eq_without (c : Comment) (removed : List (List Char)) :
    c.textWithout removed = String.ofList (unlines (dropBlankEnds (c.without removed).lines)) := rfl

theorem cut_parse (raw : List Char) : Cut none (parse raw).description (parse raw).tags :=
  cut_sections none (cleanLines raw)

theorem ofLines_without (raw : List Char) (removed : List (List Char)) :
    ofLines ((parse raw).without removed).lines = (parse raw).without removed := by
  have hcut := (cut_parse raw).filter fun t => !removed.contains t.name
  rw [ofLines_eq, without, hcut.sections_printedLines]

theorem isClean_without (raw : List Char) (removed : List (List Char)) :
    ∀ l ∈ ((parse raw).without removed).lines, IsClean l := by
  intro l hl
  have hall : ∀ l ∈ printedLines (parse raw).description (parse raw).tags, IsClean l :=
    isClean_printedLines_sections none isClean_of_mem_cleanLines
  apply hall
  rcases List.mem_append.1 hl with hl | hl
  · exact List.mem_append_left _ hl
  · obtain ⟨t, ht, hl⟩ := List.mem_flatMap.1 hl
    exact List.mem_append_right _ (List.mem_flatMap.2 ⟨t, (List.mem_filter.1 ht).1, hl⟩)

theorem isBlankText_head?_without (raw : List Char) (removed : List (List Char)) :
    ∀ l ∈ ((parse raw).without removed).lines.head?, isBlankText l = false := by
  have hcut := (cut_parse raw).filter fun t => !removed.contains t.name
  refine isBlankText_head?_printedLines hcut.tag fun l hl => ?_
  exact isBlankText_head?_dropBlankEnds _ l (head?_sections hl)

/-- A comment that is written down without some tags is read as what was left of it, but for blank
lines at its end. -/
theorem lines_parse_rewrapped (raw : List Char) (removed : List (List Char)) :
    ∃ blanks, (∀ l ∈ blanks, isBlankText l = true) ∧
      ((parse raw).without removed).lines =
        (parse (rewrapped ((parse raw).textWithout removed))).lines ++ blanks := by
  have hends : ∀ l ∈ dropBlankEnds ((parse raw).without removed).lines, IsClean l := fun l hl =>
    isClean_without raw removed l ((dropBlankEnds_sublist _).mem hl)
  have hlast := isBlankText_getLast?_dropBlankEnds ((parse raw).without removed).lines
  have hread : cleanLines (rewrapped ((parse raw).textWithout removed)) =
      dropBlankEnds ((parse raw).without removed).lines := by
    rw [textWithout_eq_without, rewrapped, String.toList_ofList, lines_unlines hends hlast]
    exact cleanLines_wrapped_of_clean hends (isBlankText_head?_dropBlankEnds _) hlast
  obtain ⟨blanks, hblanks, hsplit⟩ := exists_blank_append (isBlankText_head?_without raw removed)
  refine ⟨blanks, hblanks, ?_⟩
  rw [lines_parse, hread]
  exact hsplit

/-! ### Questions about what was left -/

/-- Taking tags away in two turns takes all of them away. -/
theorem textWithout_without (c : Comment) (removed further : List (List Char)) :
    (c.without removed).textWithout further = c.textWithout (removed ++ further) := by
  have hkept : ∀ t : Tag, (!further.contains t.name && !removed.contains t.name) =
      !(removed ++ further).contains t.name := by
    intro t
    rw [List.contains_append, Bool.not_or, Bool.and_comm]
  simp only [textWithout, without, List.filter_filter, hkept]

/-- The text for a parameter stays as it is, unless its tags are taken away. -/
theorem param?_without (c : Comment) (removed : List (List Char)) (name : String) :
    (c.without removed).param? name =
      if removed.contains paramTag then none else c.param? name := by
  have hfilter : ∀ t : Tag, (t.name == paramTag && !removed.contains t.name) =
      (t.name == paramTag && !removed.contains paramTag) := by
    intro t
    by_cases ht : t.name = paramTag
    · rw [ht]
    · rw [beq_eq_false_iff_ne.2 ht, Bool.false_and, Bool.false_and]
  simp only [param?, without, List.filter_filter, hfilter]
  cases removed.contains paramTag with
  | true => simp
  | false => simp

/-- The default stays as it is, unless one of its tags is taken away. -/
theorem defaultValue?_without (c : Comment) {removed : List (List Char)}
    (h : ∀ name ∈ defaultTags, name ∉ removed) :
    (c.without removed).defaultValue? = c.defaultValue? := by
  -- a tag that holds a default is never among those removed
  have hfind : (c.tags.filter fun t => !removed.contains t.name).find?
      (fun t => defaultTags.contains t.name) =
        c.tags.find? fun t => defaultTags.contains t.name := by
    rw [List.find?_filter]
    congr 1
    funext t
    by_cases ht : t.name ∈ defaultTags
    · simp [ht, h t.name ht]
    · simp [ht]
  simp only [defaultValue?, without, hfind]

/-- What is left of a comment without some tags, written down and read again. -/
def reread (c : Comment) (removed : List (List Char)) : Comment :=
  parse (rewrapped (c.textWithout removed))

/-- **Removing tags commutes with reading.** What is left of a comment without some tags is written
down and read again: removing further tags gives what removing all of them at once gives, parameters
are found as before unless their tags are gone, and so is the default value. -/
theorem parse_rewrapped (raw : List Char) (removed further : List (List Char)) :
    (reread (parse raw) removed).textWithout further =
        (parse raw).textWithout (removed ++ further) ∧
      (∀ name, (reread (parse raw) removed).param? name =
        if removed.contains paramTag then none else (parse raw).param? name) ∧
      ((∀ name ∈ defaultTags, name ∉ removed) →
        (reread (parse raw) removed).defaultValue? = (parse raw).defaultValue?) := by
  obtain ⟨blanks, hblanks, hlines⟩ := lines_parse_rewrapped raw removed
  have hc : ofLines (reread (parse raw) removed).lines = reread (parse raw) removed :=
    ofLines_lines _
  -- blank lines at the end are all that is lost on the way
  have hleft : ofLines ((reread (parse raw) removed).lines ++ blanks) =
      (parse raw).without removed := by
    rw [reread, ← hlines]
    exact ofLines_without raw removed
  have hbodies : bodies (reread (parse raw) removed) = bodies ((parse raw).without removed) := by
    rw [← hleft, bodies_append_blank hblanks, hc]
  refine ⟨?_, fun name => ?_, fun hdefault => ?_⟩
  · rw [← textWithout_without, ← hleft, textWithout_append_blank hblanks, hc]
  · rw [← param?_without, param?_eq_bodies, hbodies, ← param?_eq_bodies]
  · rw [← defaultValue?_without (parse raw) hdefault, defaultValue?_eq_bodies, hbodies,
      ← defaultValue?_eq_bodies]

end RefPages.Comment
