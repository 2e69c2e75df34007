import RefPages.Proofs.Comment.Lines

/-!
# Printing and reading a documentation comment

A description and block tags can be printed as a comment (`printed`) and are read back from it as
they were. This needs that the parts do not run into each other, which `Printable` says part by
part: no line of the description and no line below a tag starts a tag by itself, and fenced code
that one part opens is closed in it. Only in the last part may a fence stay open.

    description, tags   ──printed──▶   comment   ──parse──▶   description, tags

The comment goes through three stages, and each has its own lemma: `cleanLines_wrapped` for tokens
and gutter, `sections_append` for fences, `sections_printedLines` for tags.
-/

namespace RefPages.Comment

open Text

/-! ### Fences and tags in a part -/

def Fence.afterAll (opened : Option Fence) (ls : List Line) : Option Fence :=
  ls.foldl Fence.after opened

/-- No line outside of fenced code starts a tag. -/
def Tagless : Option Fence → List Line → Prop
  | _, [] => True
  | opened, l :: ls =>
    (Fence.after opened l = none → tagHead? l = none) ∧ Tagless (Fence.after opened l) ls

instance Tagless.decidable :
    (opened : Option Fence) → (ls : List Line) → Decidable (Tagless opened ls)
  | _, [] => inferInstanceAs (Decidable True)
  | opened, l :: ls =>
    have := Tagless.decidable (Fence.after opened l) ls
    inferInstanceAs (Decidable ((Fence.after opened l = none → tagHead? l = none) ∧
      Tagless (Fence.after opened l) ls))

/-- A line that starts no tag is the first one of the description. -/
theorem sections_cons_text {opened : Option Fence} {l : Line} (ls : List Line)
    (h : Fence.after opened l = none → tagHead? l = none) :
    sections opened (l :: ls) =
      (l :: (sections (Fence.after opened l) ls).1, (sections (Fence.after opened l) ls).2) := by
  rw [sections]
  cases hfence : Fence.after opened l with
  | none => simp only [h hfence]
  | some f => rfl

/-- A line that starts a tag leaves no description in front of it. -/
theorem sections_cons_tag {opened : Option Fence} {l first : Line} {name : List Char}
    (ls : List Line) (hfence : Fence.after opened l = none)
    (htag : tagHead? l = some (name, first)) :
    sections opened (l :: ls) =
      ([], ⟨name, first :: (sections none ls).1⟩ :: (sections none ls).2) := by
  rw [sections]
  simp only [hfence, htag]

/-- Lines that start no tag stand before all that is cut from the lines after them. -/
theorem sections_append {opened : Option Fence} {ls : List Line} (h : Tagless opened ls)
    (rest : List Line) :
    sections opened (ls ++ rest) =
      (ls ++ (sections (Fence.afterAll opened ls) rest).1,
        (sections (Fence.afterAll opened ls) rest).2) := by
  induction ls generalizing opened with
  | nil => rfl
  | cons l ls ih =>
    rw [List.cons_append, sections_cons_text _ h.1, ih h.2]
    rfl

/-! ### The line of a tag -/

def isTagName : List Char → Bool
  | [] => false
  | c :: cs => c.isAlpha && cs.all Char.isAlphanum

/-- A tag that can be printed: it has a name and a first line without blanks at its ends. -/
structure Tag.IsPrintable (t : Tag) : Prop where
  name : isTagName t.name = true
  lines : t.lines ≠ []
  first : ∀ l ∈ t.lines.head?, trim l = l

instance (t : Tag) : Decidable t.IsPrintable :=
  decidable_of_iff
    (isTagName t.name = true ∧ t.lines ≠ [] ∧ ∀ l ∈ t.lines.head?, trim l = l)
    ⟨fun ⟨hname, hlines, hfirst⟩ => ⟨hname, hlines, hfirst⟩, fun h => ⟨h.name, h.lines, h.first⟩⟩

theorem Tag.IsPrintable.exists_first {t : Tag} (h : t.IsPrintable) :
    ∃ first more, t.lines = first :: more ∧ trim first = first := by
  obtain ⟨first, more, hlines⟩ := List.exists_cons_of_ne_nil h.lines
  exact ⟨first, more, hlines, h.first first (by simp [hlines])⟩

theorem isAlphanum_of_isTagName {name : List Char} (h : isTagName name = true) :
    ∀ c ∈ name, c.isAlphanum = true := by
  cases name with
  | nil => simp
  | cons c cs =>
    simp only [isTagName, Bool.and_eq_true, List.all_eq_true] at h
    rw [List.forall_mem_cons]
    exact ⟨by simp [Char.isAlphanum, h.1], h.2⟩

theorem toNat_of_isAlphanum {c : Char} (h : c.isAlphanum = true) :
    (48 ≤ c.toNat ∧ c.toNat ≤ 57) ∨ (65 ≤ c.toNat ∧ c.toNat ≤ 90) ∨
      (97 ≤ c.toNat ∧ c.toNat ≤ 122) := by
  have hcases : (decide (65 ≤ c.val ∧ c.val ≤ 90) ||
      (decide (97 ≤ c.val) && decide (c.val ≤ 122)) ||
      (decide (48 ≤ c.val) && decide (c.val ≤ 57))) = true := h
  simp only [Bool.or_eq_true, Bool.and_eq_true, decide_eq_true_eq,
    UInt32.le_iff_toNat_le] at hcases
  change ((65 ≤ c.toNat ∧ c.toNat ≤ 90) ∨ (97 ≤ c.toNat ∧ c.toNat ≤ 122)) ∨
    (48 ≤ c.toNat ∧ c.toNat ≤ 57) at hcases
  omega

theorem isBlank_of_isAlphanum {c : Char} (h : c.isAlphanum = true) : isBlank c = false := by
  have hrange := toNat_of_isAlphanum h
  simp only [isBlank, Bool.or_eq_false_iff, Bool.and_eq_false_iff, decide_eq_false_iff_not,
    beq_eq_false_iff_ne]
  omega

def besideName (first : Line) : List Char := if first.isEmpty then [] else ' ' :: first

theorem Tag.written_eq {t : Tag} {first : Line} {more : List Line} (h : t.lines = first :: more) :
    t.written = ('@' :: t.name ++ besideName first) :: more := by
  rw [Tag.written, h]
  rfl

theorem Fence.after_at (opened : Option Fence) (cs : List Char) :
    Fence.after opened ('@' :: cs) = opened := by
  have hline : Fence.ofLine? ('@' :: cs) = none := rfl
  simp only [Fence.after, hline]

theorem trim_besideName {first : Line} (h : trim first = first) :
    trim (besideName first) = first := by
  cases first with
  | nil => rfl
  | cons c cs => exact h

/-- A line of the form of a tag starts one: the name is taken as far as it goes. -/
theorem tagHead?_of_trimStart {l rest : Line} {name : List Char}
    (hline : trimStart l = '@' :: name ++ rest) (hname : isTagName name = true)
    (hrest : ∀ c ∈ rest.head?, isBlank c = true) : tagHead? l = some (name, trim rest) := by
  have halnum := isAlphanum_of_isTagName hname
  obtain ⟨c, cs, rfl, hc⟩ : ∃ c cs, name = c :: cs ∧ c.isAlpha = true := by
    cases name with
    | nil => cases hname
    | cons c cs => exact ⟨c, cs, rfl, (Bool.and_eq_true _ _ ▸ hname).1⟩
  -- behind the name stands nothing or a blank, so the name goes no further
  have hstop : rest.takeWhile Char.isAlphanum = [] ∧ rest.dropWhile Char.isAlphanum = rest ∧
      (rest.isEmpty || rest.head?.any isBlank) = true := by
    cases rest with
    | nil => exact ⟨rfl, rfl, rfl⟩
    | cons d ds =>
      have hd : isBlank d = true := hrest d rfl
      have hword : d.isAlphanum ≠ true := fun h => by simp [isBlank_of_isAlphanum h] at hd
      exact ⟨List.takeWhile_cons_of_neg hword, List.dropWhile_cons_of_neg hword, hd⟩
  have hword : (c :: (cs ++ rest)).takeWhile Char.isAlphanum = c :: cs := by
    rw [← List.cons_append, List.takeWhile_append_of_pos halnum, hstop.1, List.append_nil]
  have hafter : (c :: (cs ++ rest)).dropWhile Char.isAlphanum = rest := by
    rw [← List.cons_append, List.dropWhile_append_of_pos halnum, hstop.2.1]
  simp only [tagHead?, hline, List.cons_append, hword, hafter, hc, hstop.2.2, Bool.and_self,
    ↓reduceIte]

/-- The first line of a written tag is read back as its name and its text. -/
theorem tagHead?_written {name : List Char} {first : Line} (hname : isTagName name = true)
    (hfirst : trim first = first) :
    tagHead? ('@' :: name ++ besideName first) = some (name, first) := by
  have hbeside : ∀ c ∈ (besideName first).head?, isBlank c = true := by
    cases first with
    | nil => simp [besideName]
    | cons c cs => simp [besideName, isBlank]
  rw [tagHead?_of_trimStart rfl hname hbeside, trim_besideName hfirst]

/-! ### Printing -/

/-- The parts of a comment that are read without regard to what stands before them: the description,
and for each tag the lines below the first. -/
def parts (description : List Line) (tags : List Tag) : List (List Line) :=
  description :: tags.map fun t => t.lines.tail

theorem parts_cons {part more : List Line} {t : Tag} {first : Line} (tags : List Tag)
    (h : t.lines = first :: more) : parts part (t :: tags) = part :: parts more tags := by
  simp [parts, h]

/-- The lines of a comment with a description and tags. -/
def printedLines (description : List Line) (tags : List Tag) : List Line :=
  description ++ tags.flatMap Tag.written

def printed (description : List Line) (tags : List Tag) : List Char :=
  wrapped (printedLines description tags)

/-- A description and tags that can be printed and read back. -/
structure Printable (description : List Line) (tags : List Tag) : Prop where
  tag : ∀ t ∈ tags, t.IsPrintable
  line : ∀ l ∈ description ++ tags.flatMap Tag.lines, IsLine l
  /-- No part starts a tag by itself. -/
  tagless : ∀ part ∈ parts description tags, Tagless none part
  /-- No part but the last leaves a fence open. -/
  closed : ∀ part ∈ (parts description tags).dropLast, Fence.afterAll none part = none
  first : ∀ l ∈ (printedLines description tags).head?, isBlankText l = false
  last : ∀ l ∈ (printedLines description tags).getLast?, isBlankText l = false

/-- Cutting printed lines gives the description and the tags. The induction is on the tags: the
lines below a tag are for the tags after it what the description is for all of them. -/
theorem sections_printedLines {part : List Line} {tags : List Tag}
    (htag : ∀ t ∈ tags, t.IsPrintable) (htagless : ∀ p ∈ parts part tags, Tagless none p)
    (hclosed : ∀ p ∈ (parts part tags).dropLast, Fence.afterAll none p = none) :
    sections none (printedLines part tags) = (part, tags) := by
  have hpart : Tagless none part := htagless part List.mem_cons_self
  induction tags generalizing part with
  | nil =>
    rw [printedLines, sections_append hpart]
    simp [sections]
  | cons t tags ih =>
    obtain ⟨first, more, hlines, htrim⟩ := (htag t List.mem_cons_self).exists_first
    have hname := (htag t List.mem_cons_self).name
    rw [parts_cons tags hlines] at htagless hclosed
    rw [List.dropLast_cons_of_ne_nil (by simp [parts])] at hclosed
    rw [List.forall_mem_cons] at htagless hclosed htag
    have hmore : sections none (printedLines more tags) = (more, tags) :=
      ih htag.2 htagless.2 hclosed.2 (htagless.2 more List.mem_cons_self)
    have hat : Fence.after none ('@' :: t.name ++ besideName first) = none := Fence.after_at none _
    -- the part in front closes its fences, so the tag starts where none is open
    calc sections none (printedLines part (t :: tags))
        = (part ++ (sections none (t.written ++ tags.flatMap Tag.written)).1,
            (sections none (t.written ++ tags.flatMap Tag.written)).2) := by
          rw [printedLines, sections_append hpart, hclosed.1, List.flatMap_cons]
      _ = (part ++ [], ⟨t.name, first :: more⟩ :: tags) := by
          rw [Tag.written_eq hlines, List.cons_append,
            sections_cons_tag _ hat (tagHead?_written hname htrim), ← printedLines, hmore]
      _ = (part, t :: tags) := by rw [List.append_nil, ← hlines]

/-! ### Printed lines are lines -/

/-- No closing marker appears where a text without stars is put in front. -/
theorem not_closing_infix_append {cs ds : List Char} (hcs : '*' ∉ cs) (hds : ¬closing <:+: ds) :
    ¬closing <:+: cs ++ ds := by
  induction cs with
  | nil => exact hds
  | cons c cs ih =>
    rw [List.mem_cons, not_or] at hcs
    rw [List.cons_append, List.infix_cons_iff, not_or]
    refine ⟨fun hprefix => ?_, ih hcs.2⟩
    rw [closing, List.cons_prefix_cons] at hprefix
    exact hcs.1 hprefix.1

theorem not_mem_of_isTagName {name : List Char} {c : Char} (hname : isTagName name = true)
    (hc : c.isAlphanum = false) : c ∉ name := by
  intro hmem
  rw [isAlphanum_of_isTagName hname c hmem] at hc
  cases hc

theorem newline_not_mem_written {name : List Char} {first : Line} (hname : isTagName name = true)
    (hfirst : '\n' ∉ first) : '\n' ∉ '@' :: name ++ besideName first := by
  have hbeside : '\n' ∉ besideName first := by
    cases first with
    | nil => exact hfirst
    | cons c cs => simpa [besideName] using hfirst
  simp only [List.cons_append, List.mem_cons, List.mem_append, not_or]
  exact ⟨by decide, not_mem_of_isTagName hname rfl, hbeside⟩

theorem isBlank_getLast?_written {name : List Char} {first : Line} (hname : isTagName name = true)
    (hfirst : ∀ c ∈ first.getLast?, isBlank c = false) :
    ∀ c ∈ ('@' :: name ++ besideName first).getLast?, isBlank c = false := by
  have hbeside : ∀ c ∈ (besideName first).getLast?, isBlank c = false := by
    cases first with
    | nil => exact hfirst
    | cons c cs => simpa [besideName] using hfirst
  intro c hc
  rw [Option.mem_def, List.getLast?_append, Option.or_eq_some_iff] at hc
  rcases hc with hc | ⟨-, hc⟩
  · exact hbeside c hc
  · rcases List.mem_cons.1 (List.mem_of_getLast? hc) with rfl | hc
    · decide
    · exact isBlank_of_isAlphanum (isAlphanum_of_isTagName hname c hc)

/-- The first line of a written tag can stand in a comment. -/
theorem isLine_written {name : List Char} {first : Line} (hname : isTagName name = true)
    (hfirst : IsLine first) : IsLine ('@' :: name ++ besideName first) := by
  have hbeside : ¬closing <:+: besideName first := by
    cases first with
    | nil => exact hfirst.closing
    | cons c cs =>
      have hspace : '*' ∉ [' '] := by decide
      exact not_closing_infix_append hspace hfirst.closing
  refine ⟨newline_not_mem_written hname hfirst.newline, ?_,
    isBlank_getLast?_written hname hfirst.blank⟩
  -- no star stands in the at sign and the name, so a closing marker would lie in what is beside
  -- them
  refine not_closing_infix_append ?_ hbeside
  rw [List.mem_cons, not_or]
  exact ⟨by decide, not_mem_of_isTagName hname rfl⟩

/-- All lines of a printed comment can stand in one. -/
theorem isLine_of_mem_printedLines {description : List Line} {tags : List Tag}
    (htag : ∀ t ∈ tags, t.IsPrintable)
    (hline : ∀ l ∈ description ++ tags.flatMap Tag.lines, IsLine l) :
    ∀ l ∈ printedLines description tags, IsLine l := by
  intro l hl
  rcases List.mem_append.1 hl with hl | hl
  · exact hline l (List.mem_append_left _ hl)
  · obtain ⟨t, ht, hl⟩ := List.mem_flatMap.1 hl
    obtain ⟨first, more, hlines, -⟩ := (htag t ht).exists_first
    have hmem : ∀ l ∈ first :: more, IsLine l := fun l hl =>
      hline l (List.mem_append_right _ (List.mem_flatMap.2 ⟨t, ht, hlines ▸ hl⟩))
    rw [Tag.written_eq hlines] at hl
    rcases List.mem_cons.1 hl with rfl | hl
    · exact isLine_written (htag t ht).name (hmem first List.mem_cons_self)
    · exact hmem l (List.mem_cons_of_mem _ hl)

/-- **Reading undoes printing.** A comment that was printed from a description and tags is read as
these, line by line and tag by tag. -/
theorem parse_printed {description : List Line} {tags : List Tag} (h : Printable description tags) :
    parse (printed description tags) = ⟨printedLines description tags, description, tags⟩ := by
  have hlines : cleanLines (printed description tags) = printedLines description tags :=
    cleanLines_wrapped (isLine_of_mem_printedLines h.tag h.line) h.first h.last
  have hsections : sections none (printedLines description tags) = (description, tags) :=
    sections_printedLines h.tag h.tagless h.closed
  rw [parse, hlines, ofLines, hsections]

/-! ### A comment with fences -/

namespace Fenced

/-- A description with a fence, which hides what looks like a tag. -/
def description : List Line := ["One.".toList, "```".toList, "@no tag".toList, "```".toList]

/-- A tag with an indented line below it, and one without text whose fence is still open at the
end. -/
def tags : List Tag :=
  [⟨"param".toList, ["a * b /".toList, [], "  /** @x".toList]⟩,
    ⟨"internal".toList, [[], "~~~".toList, "@see".toList]⟩]

def text : String :=
  "/**
 * One.
 * ```
 * @no tag
 * ```
 * @param a * b /
 * 
 *   /** @x
 * @internal
 * ~~~
 * @see
 */"

end Fenced

theorem parse_printed_fenced :
    Printable Fenced.description Fenced.tags ∧
      printed Fenced.description Fenced.tags = Fenced.text.toList ∧
      parse Fenced.text.toList =
        ⟨printedLines Fenced.description Fenced.tags, Fenced.description, Fenced.tags⟩ := by
  have hprintable : Printable Fenced.description Fenced.tags :=
    ⟨by decide +kernel, by decide +kernel, by decide +kernel, by decide +kernel, by decide +kernel,
      by decide +kernel⟩
  have htext : printed Fenced.description Fenced.tags = Fenced.text.toList := by decide +kernel
  exact ⟨hprintable, htext, htext ▸ parse_printed hprintable⟩

end RefPages.Comment
