import RefPages.Proofs.Comment.Lines

/-!
# Cleaned lines are clean

Whatever a raw comment looks like, the lines that cleaning makes of it can be wrapped and cleaned
again (`isClean_of_mem_cleanLines`), and are the same lines then. The walk over the tokens is
followed character by character, and two facts about it are carried along:

* `Continues`: the open line stays unclosed as long as the characters after it do;
* `Cleans`: from there on every line is clean, also where the walk stands at the start of a line or
  just behind the gutter.
-/

namespace RefPages.Comment

open Text

/-! ### The end of a line -/

theorem exists_trimEnd (l : Line) : ∃ tail, l = trimEnd l ++ tail ∧ ∀ c ∈ tail, isBlank c = true :=
  exists_dropWhile_end isBlank l

theorem trimEnd_prefix (l : Line) : trimEnd l <+: l := by
  obtain ⟨tail, hl, -⟩ := exists_trimEnd l
  exact ⟨tail, hl.symm⟩

theorem isBlank_getLast?_trimEnd (l : Line) : ∀ c ∈ (trimEnd l).getLast?, isBlank c = false :=
  getLast?_dropWhile_end isBlank l

theorem isBlank_getLast?_trimStart {l : Line} (h : ∀ c ∈ l.getLast?, isBlank c = false) :
    ∀ c ∈ (trimStart l).getLast?, isBlank c = false := by
  intro c hc
  obtain ⟨blanks, hblanks⟩ := List.dropWhile_suffix (l := l) isBlank
  apply h c
  rw [← hblanks, List.getLast?_append, ← trimStart, Option.mem_def.1 hc]
  rfl

theorem isClean_trimEnd {l : Line} (hnewline : '\n' ∉ l) (hunclosed : Unclosed false l) :
    IsClean (trimEnd l) := by
  obtain ⟨blanks, hblanks⟩ := trimEnd_prefix l
  refine ⟨?_, ?_, isBlank_getLast?_trimEnd l⟩
  · intro hmem
    apply hnewline
    rw [← hblanks]
    exact List.mem_append_left _ hmem
  · rw [← hblanks] at hunclosed
    exact hunclosed.of_append

theorem isClean_nil : IsClean [] := ⟨by simp, by decide, by simp⟩

theorem isBlank_of_isGap {c : Char} (h : isGap c = true) : isBlank c = true := by
  simp only [isGap, Bool.or_eq_true, beq_iff_eq, or_assoc] at h
  rcases h with rfl | rfl | rfl <;> decide

/-! ### The open line -/

structure Continues (opened : Bool) (line : Line) (cs : List Char) : Prop where
  newline : '\n' ∉ line
  unclosed : ∀ l, l <+: cs → Unclosed opened l → Unclosed false (line ++ l)

theorem continues_nil (opened : Bool) (cs : List Char) : Continues opened [] cs := by
  refine ⟨by simp, fun l _ h => ?_⟩
  cases opened with
  | false => exact h
  | true => exact h.of_opened

namespace Continues

variable {opened : Bool} {line : Line} {cs : List Char}

/-- A line that may end here ends as a clean one. -/
theorem isClean (h : Continues opened line cs) : IsClean (trimEnd line) := by
  refine isClean_trimEnd h.newline ?_
  have hnil := h.unclosed [] List.nil_prefix (by simp [Unclosed])
  rwa [List.append_nil] at hnil

/-- Characters that were read go to the open line. -/
theorem append {read : List Char} {opened' : Bool} (h : Continues opened line (read ++ cs))
    (hnewline : '\n' ∉ read)
    (hread : ∀ l, l <+: cs → Unclosed opened' l → Unclosed opened (read ++ l)) :
    Continues opened' (line ++ read) cs := by
  refine ⟨?_, fun l hl hunclosed => ?_⟩
  · rw [List.mem_append, not_or]
    exact ⟨h.newline, hnewline⟩
  · rw [List.append_assoc]
    exact h.unclosed (read ++ l) (by simpa using hl) (hread l hl hunclosed)

/-- One character that was read goes to the open line, if what is unclosed behind it was unclosed
from it on. -/
theorem append_char {c : Char} {opened' : Bool} (h : Continues opened line (c :: cs))
    (hc : c ≠ '\n') (hread : ∀ l, l <+: cs → Unclosed opened' l → Unclosed opened (c :: l)) :
    Continues opened' (line ++ [c]) cs := by
  have hread' : Continues opened line ([c] ++ cs) := h
  exact hread'.append (by simpa using Ne.symm hc) hread

end Continues

/-! ### All lines of a walk -/

structure Cleans (opened : Bool) (cs : List Char) : Prop where
  body : ∀ line, Continues opened line cs → ∀ l ∈ walk .body line (Token.scan opened cs), IsClean l
  gutter : ∀ l ∈ walk .lineStart [] (.star :: Token.scan opened cs), IsClean l
  start : ∀ l ∈ walk .lineStart [] (Token.scan opened cs), IsClean l

theorem head?_ne_of_leading {l cs : List Char} {c : Char} (hl : l <+: cs) (h : cs.head? ≠ some c) :
    l.head? ≠ some c := by
  obtain ⟨rest, rfl⟩ := hl
  cases l with
  | nil => simp
  | cons a l => simpa using h

namespace Cleans

variable {opened : Bool} {c : Char} {cs : List Char}

theorem nil (opened : Bool) : Cleans opened [] := by
  refine ⟨fun line h l hl => ?_, fun l hl => ?_, fun l hl => ?_⟩
  · rw [scan_nil, walk_nil] at hl
    split at hl
    · simp at hl
    · rw [List.mem_singleton.1 hl]
      exact h.isClean
  · rw [scan_nil, walk_lineStart_star [] (by simp), walk_nil] at hl
    simp at hl
  · rw [scan_nil, walk_nil] at hl
    simp at hl

/-- At the start of a line a token that is no gutter and ends no line is text, as it is inside. -/
theorem of_body {t : Token} {ts : List Token} (hscan : Token.scan opened cs = t :: ts)
    (ht : t = .docOpen ∨ t = .blockOpen ∨ ∃ w, t = .text w)
    (hbody : ∀ line, Continues opened line cs →
      ∀ l ∈ walk .body line (Token.scan opened cs), IsClean l) : Cleans opened cs := by
  have hnil := hbody [] (continues_nil opened cs)
  have hblanks : ∀ w, (Token.scan opened cs).head? ≠ some (.blanks w) := by
    intro w
    rw [hscan]
    rcases ht with rfl | rfl | ⟨w, rfl⟩ <;> simp
  have hstar : (Token.scan opened cs).head? ≠ some .star := by
    rw [hscan]
    rcases ht with rfl | rfl | ⟨w, rfl⟩ <;> simp
  -- a token that is neither a blank nor a star ends the gutter and is read as a body
  refine ⟨hbody, ?_, ?_⟩
  · rwa [walk_lineStart_star [] hblanks]
  · rwa [walk_lineStart_of_head? [] hblanks hstar]

/-- An opening marker adds its three characters to the line, and none of them belongs to a closing
marker. -/
theorem docOpen (ih : Cleans false cs) : Cleans false ('/' :: '*' :: '*' :: cs) := by
  refine of_body (scan_docOpen cs) (.inl rfl) fun line h => ?_
  rw [scan_docOpen, walk_body_cons _ _ (by simp) (by simp)]
  exact ih.body _ (h.append (by decide) fun l _ hl => unclosed_docOpen.2 hl)

/-- The same for the marker of a block comment. No star may follow: with it the marker would be
another one. -/
theorem blockOpen (hcs : cs.head? ≠ some '*') (ih : Cleans false cs) :
    Cleans false ('/' :: '*' :: cs) := by
  refine of_body (scan_blockOpen hcs) (.inr (.inl rfl)) fun line h => ?_
  rw [scan_blockOpen hcs, walk_body_cons _ _ (by simp) (by simp)]
  refine ih.body _ (h.append (by decide) fun l hl hunclosed => ?_)
  exact (unclosed_blockOpen (head?_ne_of_leading hl hcs)).2 hunclosed

/-- A closing marker ends the comment, and what follows it is not looked at. -/
theorem close (opened : Bool) (cs : List Char) : Cleans opened ('*' :: '/' :: cs) := by
  have hempty : ∀ l ∈ [trimEnd []], IsClean l := by
    simpa [trimEnd] using isClean_nil
  refine ⟨fun line h => ?_, ?_, ?_⟩
  · rw [scan_close, walk_body_close]
    simpa using h.isClean
  · rwa [scan_close, walk_lineStart_star [] (by simp), walk_body_close]
  · rwa [scan_close, walk_lineStart_of_head? [] (by simp) (by simp), walk_body_close]

/-- A star that no slash follows is text inside a line and the gutter at its start. -/
theorem star (hcs : cs.head? ≠ some '/') (ih : Cleans false cs) : Cleans opened ('*' :: cs) := by
  have hbody : ∀ line, Continues opened line ('*' :: cs) →
      ∀ l ∈ walk .body line (.star :: Token.scan false cs), IsClean l := by
    intro line h
    rw [walk_body_cons _ _ (by simp) (by simp)]
    refine ih.body _ (h.append_char (by decide) fun l hl hunclosed => ?_)
    exact (unclosed_star (head?_ne_of_leading hl hcs)).2 hunclosed
  refine ⟨?_, ?_, ?_⟩
  · rwa [scan_star hcs]
  · rw [scan_star hcs, walk_lineStart_star [] (by simp)]
    exact hbody [] (continues_nil opened _)
  · rw [scan_star hcs]
    exact ih.gutter

theorem newline (opened : Bool) (ih : Cleans false cs) : Cleans opened ('\n' :: cs) := by
  have hlines : ∀ line, IsClean (trimEnd line) →
      ∀ l ∈ walk .body line (.newline :: Token.scan false cs), IsClean l := by
    intro line hline
    rw [walk_body_newline, List.forall_mem_cons]
    exact ⟨hline, ih.start⟩
  refine ⟨fun line h => ?_, ?_, ?_⟩
  · rw [scan_newline]
    exact hlines line h.isClean
  · rw [scan_newline, walk_lineStart_star [] (by simp)]
    exact hlines [] isClean_nil
  · rw [scan_newline, walk_lineStart_of_head? [] (by simp) (by simp)]
    exact hlines [] isClean_nil

theorem blank (hgap : isGap c = true) (ih : Cleans false cs) : Cleans opened (c :: cs) := by
  have hc : c ≠ '\n' := by
    rintro rfl
    simp [isGap] at hgap
  refine ⟨fun line h => ?_, ?_, ?_⟩
  · rw [scan_blank cs hgap, walk_body_consBlank]
    refine ih.body _ (h.append_char hc fun l _ hunclosed => ?_)
    exact (unclosed_blank hgap).2 hunclosed
  · -- the blank behind the gutter belongs to the gutter
    rw [scan_blank cs hgap, walk_gutter]
    exact ih.body [] (continues_nil false cs)
  · rw [scan_blank cs hgap, walk_lineStart_consBlank]
    exact ih.start

theorem text (hplain : IsPlain opened c cs) (hnewline : c ≠ '\n') (hgap : isGap c = false)
    (ih : Cleans true cs) : Cleans opened (c :: cs) := by
  obtain ⟨w, us, hus⟩ := consText_eq c (Token.scan true cs)
  refine of_body ((scan_text hplain hnewline hgap).trans hus) (.inr (.inr ⟨w, rfl⟩)) ?_
  intro line h
  rw [scan_text hplain hnewline hgap, walk_body_consText]
  refine ih.body _ (h.append_char hnewline ?_)
  intro l hl hunclosed
  refine (unclosed_text ⟨hplain.1, fun hc hstar => hplain.2 hc ?_⟩ hnewline hgap).2 hunclosed
  by_contra hne
  exact head?_ne_of_leading hl hne hstar

end Cleans

/-- From every place in a comment the lines that are read are clean. By induction on the tokenizer,
with one lemma above for each of its branches. -/
theorem cleans_scan (opened : Bool) (cs : List Char) : Cleans opened cs := by
  induction opened, cs using scan_induction with
  | nil opened => exact .nil opened
  | docOpen cs ih => exact .docOpen ih
  | blockOpen cs hcs ih => exact .blockOpen hcs ih
  | close opened cs ih => exact .close opened cs
  | star opened cs hcs ih => exact .star hcs ih
  | newline opened cs ih => exact .newline opened ih
  | blank opened c cs hgap ih => exact .blank hgap ih
  | text opened c cs hplain hnewline hgap ih => exact .text hplain hnewline hgap ih

/-- Before the opening marker nothing is read, whatever the tokens are. -/
theorem isClean_of_mem_walk_outside (opened : Bool) (cs : List Char) :
    ∀ l ∈ walk .outside [] (Token.scan opened cs), IsClean l := by
  induction opened, cs using scan_induction with
  | nil opened => simp [walk_nil]
  -- only an opening marker leads into the body; every other token is passed over
  | docOpen cs ih =>
    rw [scan_docOpen, walk_outside_docOpen]
    exact (cleans_scan false cs).body [] (continues_nil false cs)
  | blockOpen cs hcs ih =>
    rw [scan_blockOpen hcs, walk_outside_blockOpen]
    exact (cleans_scan false cs).body [] (continues_nil false cs)
  | close opened cs ih => rwa [scan_close, walk_outside_cons _ _ (by simp) (by simp)]
  | star opened cs hcs ih => rwa [scan_star hcs, walk_outside_cons _ _ (by simp) (by simp)]
  | newline opened cs ih => rwa [scan_newline, walk_outside_cons _ _ (by simp) (by simp)]
  | blank opened c cs hgap ih => rwa [scan_blank cs hgap, walk_outside_consBlank]
  | text opened c cs hplain hnewline hgap ih =>
    rwa [scan_text hplain hnewline hgap, walk_outside_consText]

/-! ### Cleaned lines -/

theorem IsClean.trimStart {l : Line} (h : IsClean l) : IsClean (trimStart l) := by
  refine ⟨fun hmem => ?_, h.unclosed.trimStart, isBlank_getLast?_trimStart h.blank⟩
  exact h.newline ((List.dropWhile_suffix isBlank).mem hmem)

theorem dropBlankEnds_sublist (ls : List Line) : (dropBlankEnds ls).Sublist ls := by
  have hend :=
    (List.dropWhile_sublist (l := (ls.dropWhile isBlankText).reverse) isBlankText).reverse
  rw [List.reverse_reverse] at hend
  exact hend.trans (List.dropWhile_sublist isBlankText)

/-- The cleaned lines of every raw comment are clean. -/
theorem isClean_of_mem_cleanLines {raw : List Char} : ∀ l ∈ cleanLines raw, IsClean l := by
  intro l hl
  have hwalk := isClean_of_mem_walk_outside false raw
  have hmem : l ∈ trimFirst (walk .outside [] (Token.scan false raw)) :=
    (dropBlankEnds_sublist _).mem hl
  cases hlines : walk .outside [] (Token.scan false raw) with
  | nil =>
    rw [hlines] at hmem
    simp [trimFirst] at hmem
  | cons first more =>
    rw [hlines, trimFirst, List.mem_cons] at hmem
    rw [hlines, List.forall_mem_cons] at hwalk
    -- only the first line is trimmed at its start
    rcases hmem with rfl | hmem
    · exact hwalk.1.trimStart
    · exact hwalk.2 l hmem

theorem isBlankText_head?_dropBlankEnds (ls : List Line) :
    ∀ l ∈ (dropBlankEnds ls).head?, isBlankText l = false := by
  intro l hl
  have hstop := List.head?_dropWhile_not isBlankText ls
  -- the blank lines at the end are cut off behind the first line
  have hprefix : dropBlankEnds ls <+: ls.dropWhile isBlankText := by
    rw [dropBlankEnds, ← List.reverse_suffix, List.reverse_reverse]
    exact List.dropWhile_suffix isBlankText
  obtain ⟨rest, hrest⟩ := hprefix
  rw [← hrest, List.head?_append, Option.mem_def.1 hl] at hstop
  simpa using hstop

theorem isBlankText_getLast?_dropBlankEnds (ls : List Line) :
    ∀ l ∈ (dropBlankEnds ls).getLast?, isBlankText l = false :=
  getLast?_dropWhile_end isBlankText _

/-! ### The normal form -/

/-- Lines as cleaning leaves them: no line end is in them, no blank stands at the end of a line, and
no blank line at either end of all. -/
structure IsNormal (ls : List Line) : Prop where
  newline : ∀ l ∈ ls, '\n' ∉ l
  blank : ∀ l ∈ ls, ∀ c ∈ l.getLast?, isBlank c = false
  first : ∀ l ∈ ls.head?, isBlankText l = false
  last : ∀ l ∈ ls.getLast?, isBlankText l = false

theorem isNormal_cleanLines (raw : List Char) : IsNormal (cleanLines raw) :=
  ⟨fun l hl => (isClean_of_mem_cleanLines l hl).newline,
    fun l hl => (isClean_of_mem_cleanLines l hl).blank,
    isBlankText_head?_dropBlankEnds _, isBlankText_getLast?_dropBlankEnds _⟩

/-- Lines in normal form give an empty text only if there are none. -/
theorem IsNormal.unlines_eq_nil_iff {ls : List Line} (h : IsNormal ls) :
    unlines ls = [] ↔ ls = [] := by
  refine ⟨fun hempty => ?_, fun hnil => hnil ▸ rfl⟩
  cases ls with
  | nil => rfl
  | cons l ls =>
    rw [unlines_cons, List.append_eq_nil_iff] at hempty
    have hl := h.first l rfl
    rw [hempty.1] at hl
    exact absurd hl (by decide)

/-- A comment says nothing if and only if its text is empty. -/
theorem isEmpty_iff_text (raw : List Char) :
    (parse raw).isEmpty = true ↔ (parse raw).text = "" := by
  have htext : (parse raw).text = "" ↔ unlines (cleanLines raw) = [] := by
    rw [← String.toList_inj]
    exact Iff.of_eq (by rw [text, String.toList_ofList]; rfl)
  rw [htext, (isNormal_cleanLines raw).unlines_eq_nil_iff]
  exact List.isEmpty_iff

/-- **Cleaning gives a normal form.** Whatever the raw comment is, its lines are normal, the comment
is empty if and only if its text is, and its lines written down as a comment are cleaned to
themselves. -/
theorem cleanLines_normal (raw : List Char) :
    IsNormal (cleanLines raw) ∧ ((parse raw).isEmpty = true ↔ (parse raw).text = "") ∧
      cleanLines (wrapped (cleanLines raw)) = cleanLines raw := by
  have hnormal := isNormal_cleanLines raw
  refine ⟨hnormal, isEmpty_iff_text raw, ?_⟩
  exact cleanLines_wrapped_of_clean isClean_of_mem_cleanLines hnormal.first hnormal.last

end RefPages.Comment
