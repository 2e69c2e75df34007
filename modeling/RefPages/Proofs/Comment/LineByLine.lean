import Mathlib.Data.List.Forall2
import RefPages.Proofs.Comment.Cleaned
import RefPages.Proofs.Path

/-!
# Comments line by line

What cleaning does can be said without tokens. A comment whose text has no closing marker in it is
cut at its line ends; every line but the first loses its gutter, and all lines lose the blanks at
their end:

    ␣␣ * ␣ One.␣    ──ungutter──▶   ␣One.␣   ──trimEnd──▶   ␣One.
    lead, star, gap

So `textLines` is the plain reading of a comment. The walk over the tokens gives the same lines
(`cleanLines_line_by_line`), however the stars and slashes of the text are cut into tokens. It is
followed line by line: at the start of a line it reads what stands behind the gutter
(`walk_lineStart_scan`), and from there on characters are just characters.
-/

namespace RefPages.Comment

open Text

/-! ### The gutter -/

/-- A text without its first character if that is a space, a tab or a carriage return. -/
def dropGap : List Char → List Char
  | [] => []
  | c :: cs => if isGap c then cs else c :: cs

/-- A line without its gutter: without the gaps at its start, and without one star there and at most
one gap after it. -/
def ungutter (l : Line) : Line :=
  match l.dropWhile isGap with
  | '*' :: cs => dropGap cs
  | cs => cs

theorem ungutter_gap {c : Char} (l : Line) (h : isGap c = true) :
    ungutter (c :: l) = ungutter l := by
  rw [ungutter, List.dropWhile_cons_of_pos h, ungutter]

theorem ungutter_star (l : Line) : ungutter ('*' :: l) = dropGap l := rfl

theorem ungutter_other {c : Char} (l : Line) (hgap : isGap c = false) (hc : c ≠ '*') :
    ungutter (c :: l) = c :: l := by
  rw [ungutter, List.dropWhile_cons_of_neg (by simp [hgap])]
  split
  · next cs heq => exact absurd (List.cons.inj heq).1 hc
  · rfl

/-- Nothing, or a star and at most one gap after it. -/
def IsGutter (g : List Char) : Prop := g = [] ∨ g = ['*'] ∨ ∃ c, isGap c = true ∧ g = ['*', c]

/-- A line is some gaps, a gutter, and what is left of it without both. -/
theorem exists_gutter (l : Line) :
    ∃ lead gutter, l = lead ++ gutter ++ ungutter l ∧ (∀ c ∈ lead, isGap c = true) ∧
      IsGutter gutter := by
  induction l with
  | nil => exact ⟨[], [], rfl, by simp, .inl rfl⟩
  | cons c l ih =>
    by_cases hgap : isGap c = true
    · obtain ⟨lead, gutter, hl, hlead, hgutter⟩ := ih
      refine ⟨c :: lead, gutter, ?_, ?_, hgutter⟩
      · rw [ungutter_gap l hgap, List.cons_append, List.cons_append, ← hl]
      · rw [List.forall_mem_cons]
        exact ⟨hgap, hlead⟩
    · rw [Bool.not_eq_true] at hgap
      by_cases hc : c = '*'
      · subst hc
        rw [ungutter_star]
        cases l with
        | nil => exact ⟨[], ['*'], rfl, by simp, .inr (.inl rfl)⟩
        | cons d l =>
          rw [dropGap]
          split
          · next hd => exact ⟨[], ['*', d], rfl, by simp, .inr (.inr ⟨d, hd, rfl⟩)⟩
          · exact ⟨[], ['*'], rfl, by simp, .inr (.inl rfl)⟩
      -- without a star in front the line has no gutter
      · rw [ungutter_other l hgap hc]
        exact ⟨[], [], rfl, by simp, .inl rfl⟩

theorem newline_not_mem_ungutter {l : Line} (h : '\n' ∉ l) : '\n' ∉ ungutter l := by
  obtain ⟨lead, gutter, hl, -, -⟩ := exists_gutter l
  intro hmem
  apply h
  rw [hl]
  exact List.mem_append_right _ hmem

theorem Unclosed.ungutter {l : Line} (h : Unclosed false l) : Unclosed false (ungutter l) := by
  induction l with
  | nil => exact h
  | cons c l ih =>
    by_cases hgap : isGap c = true
    · rw [ungutter_gap l hgap]
      exact ih ((unclosed_blank hgap).1 h)
    · rw [Bool.not_eq_true] at hgap
      by_cases hc : c = '*'
      · subst hc
        -- a slash behind the star would close the comment
        have hl : Unclosed false l := (unclosed_star (head?_ne_of_unclosed_star h)).1 h
        rw [ungutter_star]
        cases l with
        | nil => exact hl
        | cons d l =>
          rw [dropGap]
          split
          · next hd => exact (unclosed_blank hd).1 hl
          · exact hl
      · rwa [ungutter_other l hgap hc]

/-! ### The plain reading -/

def lineText (l : Line) : Line := trimEnd (ungutter l)

/-- The text in each line of a comment. No gutter stands in the first line. -/
def textLines (cs : List Char) : List Line :=
  match splitOn '\n' cs with
  | [] => []
  | first :: more => trim first :: more.map lineText

/-- A line has a text in it: around the text there are only blanks and a gutter. -/
def HasText (l text : Line) : Prop :=
  ∃ lead gutter tail, l = lead ++ gutter ++ text ++ tail ∧ (∀ c ∈ lead, isBlank c = true) ∧
    IsGutter gutter ∧ ∀ c ∈ tail, isBlank c = true

theorem hasText_lineText (l : Line) : HasText l (lineText l) := by
  obtain ⟨lead, gutter, hl, hlead, hgutter⟩ := exists_gutter l
  obtain ⟨tail, htext, htail⟩ := exists_trimEnd (ungutter l)
  refine ⟨lead, gutter, tail, ?_, fun c hc => isBlank_of_isGap (hlead c hc), hgutter, htail⟩
  rw [List.append_assoc, lineText, ← htext]
  exact hl

theorem hasText_trim (l : Line) : HasText l (trim l) := by
  obtain ⟨tail, htext, htail⟩ := exists_trimEnd (trimStart l)
  refine ⟨l.takeWhile isBlank, [], tail, ?_, fun c hc => List.mem_takeWhile_imp hc, .inl rfl, htail⟩
  rw [List.append_nil, List.append_assoc, trim, ← htext]
  exact List.takeWhile_append_dropWhile.symm

/-- Every line has its text in it, and no line is lost or read twice. -/
theorem forall₂_hasText (cs : List Char) :
    List.Forall₂ HasText (splitOn '\n' cs) (textLines cs) := by
  rw [textLines]
  split
  · next hnil =>
    rw [hnil]
    exact .nil
  · next first more hlines =>
    rw [hlines]
    refine .cons (hasText_trim first) ?_
    rw [List.forall₂_map_right_iff]
    exact List.forall₂_same.2 fun l _ => hasText_lineText l

/-! ### What is lost

A character that is no blank and no star stands in the text of its line. -/

def isInk (c : Char) : Bool := !isBlank c && c != '*'

theorem filter_isInk_of_blank {l : Line} (h : ∀ c ∈ l, isBlank c = true) : l.filter isInk = [] := by
  rw [List.filter_eq_nil_iff]
  intro c hc
  simp [isInk, h c hc]

theorem filter_isInk_of_isGutter {g : List Char} (h : IsGutter g) : g.filter isInk = [] := by
  rcases h with rfl | rfl | ⟨c, hc, rfl⟩
  · rfl
  · rfl
  · simp [isInk, isBlank_of_isGap hc]

/-- A line and its text have the same characters that are neither blanks nor stars. -/
theorem HasText.filter_isInk {l text : Line} (h : HasText l text) :
    l.filter isInk = text.filter isInk := by
  obtain ⟨lead, gutter, tail, rfl, hlead, hgutter, htail⟩ := h
  simp only [List.filter_append, filter_isInk_of_blank hlead, filter_isInk_of_isGutter hgutter,
    filter_isInk_of_blank htail, List.nil_append, List.append_nil]

theorem filter_isInk_unlines (ls : List Line) :
    (unlines ls).filter isInk = ls.flatten.filter isInk := by
  cases ls with
  | nil => rfl
  | cons l ls =>
    have hmore : (ls.flatMap ('\n' :: ·)).filter isInk = ls.flatten.filter isInk := by
      induction ls with
      | nil => rfl
      | cons m ls ih =>
        rw [List.flatMap_cons, List.cons_append, List.filter_cons_of_neg (by decide),
          List.filter_append, ih, List.flatten_cons, List.filter_append]
    rw [unlines_cons, List.filter_append, hmore, List.flatten_cons, List.filter_append]

theorem unlines_splitOn (cs : List Char) : unlines (splitOn '\n' cs) = cs := by
  rw [splitOn_eq]
  exact List.intercalate_splitOn '\n'

/-- The lines of a text keep, in order, all that is neither a blank nor a star. -/
theorem filter_isInk_textLines (cs : List Char) :
    (textLines cs).flatten.filter isInk = cs.filter isInk := by
  have hlines : ∀ {ls texts : List Line}, List.Forall₂ HasText ls texts →
      texts.flatten.filter isInk = ls.flatten.filter isInk := by
    intro ls texts h
    induction h with
    | nil => rfl
    | cons hl _ ih =>
      rw [List.flatten_cons, List.flatten_cons, List.filter_append, List.filter_append, ih,
        hl.filter_isInk]
  rw [hlines (forall₂_hasText cs), ← filter_isInk_unlines, unlines_splitOn]

/-- Dropping blank lines loses only blanks. -/
theorem filter_isInk_dropBlankEnds (ls : List Line) :
    (dropBlankEnds ls).flatten.filter isInk = ls.flatten.filter isInk := by
  have hblank : ∀ {ms : List Line}, (∀ l ∈ ms, isBlankText l = true) →
      ms.flatten.filter isInk = [] := by
    intro ms hms
    apply filter_isInk_of_blank
    intro c hc
    obtain ⟨l, hl, hc⟩ := List.mem_flatten.1 hc
    exact List.all_eq_true.1 (hms l hl) c hc
  obtain ⟨last, hlast, hlastBlank⟩ := exists_dropWhile_end isBlankText (ls.dropWhile isBlankText)
  calc (dropBlankEnds ls).flatten.filter isInk
      = (dropBlankEnds ls ++ last).flatten.filter isInk := by
        rw [List.flatten_append, List.filter_append, hblank hlastBlank, List.append_nil]
    _ = (ls.dropWhile isBlankText).flatten.filter isInk := by rw [dropBlankEnds, ← hlast]
    _ = (ls.takeWhile isBlankText ++ ls.dropWhile isBlankText).flatten.filter isInk := by
        rw [List.flatten_append, List.filter_append, hblank fun l hl => List.mem_takeWhile_imp hl,
          List.nil_append]
    _ = ls.flatten.filter isInk := by rw [List.takeWhile_append_dropWhile]

/-! ### The start of a line -/

/-- Tokens that end a line, with the lines that are read after it. -/
structure EndsLine (ts : List Token) (more : List Line) : Prop where
  blanks : ∀ w, ts.head? ≠ some (.blanks w)
  star : ts.head? ≠ some .star
  walk : ∀ line, walk .body line ts = trimEnd line :: more

theorem endsLine_newline (ts : List Token) : EndsLine (.newline :: ts) (walk .lineStart [] ts) :=
  ⟨by simp, by simp, fun line => walk_body_newline line ts⟩

theorem endsLine_close (ts : List Token) : EndsLine (.close :: ts) [] :=
  ⟨by simp, by simp, fun line => walk_body_close line ts⟩

section

variable {ts : List Token} {more : List Line}

/-- The first token stems from the first character, or the text is empty and it is the first one of
what follows. -/
theorem head?_scan_append {cs : List Char} {t : Token}
    (h : (Token.scan false cs ++ ts).head? = some t) :
    ts.head? = some t ∨ ∃ c, cs.head? = some c ∧ t.Starts c := by
  rw [List.head?_append, Option.or_eq_some_iff] at h
  rcases h with h | ⟨-, h⟩
  · exact .inr (starts_head?_scan h)
  · exact .inl h

theorem EndsLine.head?_ne_blanks (h : EndsLine ts more) {cs : List Char}
    (hgap : ∀ c ∈ cs.head?, isGap c = false) (w : List Char) :
    (Token.scan false cs ++ ts).head? ≠ some (.blanks w) := by
  intro hhead
  rcases head?_scan_append hhead with hts | ⟨c, hc, hstart⟩
  · exact h.blanks w hts
  · exact absurd hstart (by simp [Token.Starts, hgap c hc])

/-- A gap goes to the blanks ahead of it, and never to the tokens behind the line. -/
theorem EndsLine.scan_gap (h : EndsLine ts more) {c : Char} (cs : List Char)
    (hgap : isGap c = true) :
    Token.scan false (c :: cs) ++ ts = Token.consBlank c (Token.scan false cs ++ ts) := by
  rw [scan_blank cs hgap, consBlank_append c fun _ => h.blanks]

/-- At the start of a line the walk reads what stands behind the gutter. The induction is on the
gaps before the star. -/
theorem walk_lineStart_scan (h : EndsLine ts more) {l : Line} (hl : Unclosed false l) :
    walk .lineStart [] (Token.scan false l ++ ts) =
      walk .body [] (Token.scan false (ungutter l) ++ ts) := by
  induction l with
  | nil => exact walk_lineStart_of_head? [] h.blanks h.star
  | cons c l ih =>
    by_cases hgap : isGap c = true
    -- blanks at the start are passed, whether or not more of them follow
    · rw [h.scan_gap l hgap, walk_lineStart_consBlank, ungutter_gap l hgap]
      exact ih ((unclosed_blank hgap).1 hl)
    · rw [Bool.not_eq_true] at hgap
      by_cases hc : c = '*'
      · subst hc
        rw [scan_star (head?_ne_of_unclosed_star hl), ungutter_star, List.cons_append]
        cases l with
        | nil => exact walk_lineStart_star [] h.blanks
        | cons d l =>
          by_cases hd : isGap d = true
          · rw [h.scan_gap l hd, walk_gutter, dropGap, if_pos hd]
          · rw [dropGap, if_neg hd]
            exact walk_lineStart_star [] (h.head?_ne_blanks (by simpa using hd))
      · rw [ungutter_other l hgap hc]
        refine walk_lineStart_of_head? [] (h.head?_ne_blanks (by simpa using hgap)) ?_
        -- a star can only come from the line itself, as none is behind it
        intro hhead
        rcases head?_scan_append hhead with hts | ⟨d, hd, hstart⟩
        · exact h.star hts
        · obtain rfl := Option.some.inj hd
          exact hc (Option.some.inj hstart).symm

/-! ### All lines -/

/-- A whole line is read as its text, whatever ends it. -/
theorem walk_lineStart_line (h : EndsLine ts more) {l : Line} (hnewline : '\n' ∉ l)
    (hunclosed : Unclosed false l) :
    walk .lineStart [] (Token.scan false l ++ ts) = lineText l :: more := by
  rw [walk_lineStart_scan h hunclosed,
    walk_body_scan (newline_not_mem_ungutter hnewline) hunclosed.ungutter, h.walk, List.nil_append,
    lineText]

theorem scan_unlines_append (l m : Line) (ls : List Line) :
    Token.scan false (unlines (l :: m :: ls)) ++ ts =
      Token.scan false l ++ .newline :: (Token.scan false (unlines (m :: ls)) ++ ts) := by
  rw [unlines_cons_cons, scan_append_newline, List.append_assoc, List.cons_append]

theorem unclosed_unlines_cons {l m : Line} {ls : List Line} :
    Unclosed false (unlines (l :: m :: ls)) ↔
      Unclosed false l ∧ Unclosed false (unlines (m :: ls)) := by
  rw [unlines_cons_cons, unclosed_append (apart_newline ..), unclosed_newline]

theorem unlines_singleton (l : Line) : unlines [l] = l := by
  rw [unlines_cons, List.flatMap_nil, List.append_nil]

/-- Lines that follow each other are read one by one, each as its text. -/
theorem walk_lineStart_lines (h : EndsLine ts more) {l : Line} {ls : List Line}
    (hnewline : ∀ m ∈ l :: ls, '\n' ∉ m) (hunclosed : Unclosed false (unlines (l :: ls))) :
    walk .lineStart [] (Token.scan false (unlines (l :: ls)) ++ ts) =
      lineText l :: (ls.map lineText ++ more) := by
  -- the first line is read up to its line end, and the rest starts afresh behind it
  induction ls generalizing l with
  | nil =>
    rw [unlines_singleton] at hunclosed ⊢
    exact walk_lineStart_line h (hnewline l List.mem_cons_self) hunclosed
  | cons m ls ih =>
    rw [List.forall_mem_cons] at hnewline
    rw [unclosed_unlines_cons] at hunclosed
    rw [scan_unlines_append, walk_lineStart_line (endsLine_newline _) hnewline.1 hunclosed.1,
      ih hnewline.2 hunclosed.2]
    rfl

/-- On the line of the opening marker nothing is a gutter, so the first line keeps its start. -/
theorem walk_body_lines (h : EndsLine ts more) {l : Line} {ls : List Line}
    (hnewline : ∀ m ∈ l :: ls, '\n' ∉ m) (hunclosed : Unclosed false (unlines (l :: ls))) :
    walk .body [] (Token.scan false (unlines (l :: ls)) ++ ts) =
      trimEnd l :: (ls.map lineText ++ more) := by
  rw [List.forall_mem_cons] at hnewline
  cases ls with
  | nil =>
    rw [unlines_singleton] at hunclosed ⊢
    rw [walk_body_scan hnewline.1 hunclosed, h.walk]
    rfl
  | cons m ls =>
    rw [unclosed_unlines_cons] at hunclosed
    rw [scan_unlines_append, walk_body_scan hnewline.1 hunclosed.1, walk_body_newline,
      walk_lineStart_lines h hnewline.2 hunclosed.2]
    rfl

theorem trimStart_trimEnd (l : Line) : trimStart (trimEnd l) = trim l := by
  obtain ⟨tail, hl, htail⟩ := exists_trimEnd l
  calc trimStart (trimEnd l)
      = trim (trimEnd l) :=
        (trimEnd_of_getLast? (isBlank_getLast?_trimStart (isBlank_getLast?_trimEnd l))).symm
    _ = trim (trimEnd l ++ tail) := (dropWhile_both_append htail).symm
    _ = trim l := by rw [← hl]

def opening : List Char := ['/', '*', '*']

/-- Behind the opening marker the walk stands inside of a line. -/
theorem cleanLines_opening (cs : List Char) :
    cleanLines (opening ++ cs) =
      dropBlankEnds (trimFirst (walk .body [] (Token.scan false cs))) := by
  have hscan : tokens (opening ++ cs) = .docOpen :: Token.scan false cs := scan_docOpen cs
  rw [cleanLines, hscan, walk_outside_docOpen]

/-- The walk gives the lines of the plain reading, and after them what the tokens at the end
give. -/
theorem trimFirst_walk_scan (h : EndsLine ts more) {cs : List Char}
    (hunclosed : Unclosed false cs) :
    trimFirst (walk .body [] (Token.scan false cs ++ ts)) = textLines cs ++ more := by
  have hcs : unlines (splitOn '\n' cs) = cs := unlines_splitOn cs
  have hnewline : ∀ l ∈ splitOn '\n' cs, '\n' ∉ l := fun l hl => not_mem_of_mem_splitOn l hl
  have hne : splitOn '\n' cs ≠ [] := by
    rw [splitOn_eq]
    exact List.splitOn_ne_nil '\n' cs
  obtain ⟨first, rest, hlines⟩ := List.exists_cons_of_ne_nil hne
  rw [hlines] at hcs hnewline
  rw [← hcs, walk_body_lines h hnewline (hcs ▸ hunclosed), trimFirst, trimStart_trimEnd, hcs,
    textLines, hlines]
  rfl

theorem dropBlankEnds_append_blank (ls : List Line) (h : ∀ l ∈ more, isBlankText l = true) :
    dropBlankEnds (ls ++ more) = dropBlankEnds ls :=
  dropWhile_both_append h

/-- A comment whose text is unclosed has the lines of this text, if behind them only blank lines are
read. -/
theorem cleanLines_of_endsLine (h : EndsLine ts more) (hmore : ∀ l ∈ more, isBlankText l = true)
    {cs tail : List Char} (hunclosed : Unclosed false cs)
    (htail : Token.scan false (cs ++ tail) = Token.scan false cs ++ ts) :
    cleanLines (opening ++ (cs ++ tail)) = dropBlankEnds (textLines cs) := by
  rw [cleanLines_opening, htail, trimFirst_walk_scan h hunclosed,
    dropBlankEnds_append_blank _ hmore]

end

/-- A comment that is closed on a line of its own. -/
def closedBelow (cs : List Char) : List Char := opening ++ (cs ++ '\n' :: ' ' :: closing)

theorem cleanLines_closedBelow {cs : List Char} (h : Unclosed false cs) :
    cleanLines (closedBelow cs) = dropBlankEnds (textLines cs) := by
  have htail : Token.scan false (cs ++ '\n' :: ' ' :: closing) =
      Token.scan false cs ++ [.newline, .blanks [' '], .close] := by
    rw [scan_append_newline]
    rfl
  exact cleanLines_of_endsLine (endsLine_newline _) (by decide) h htail

/-- **Comments are read line by line.** Whatever stars and slashes stand in a text without a closing
marker, its comment has the lines of the plain reading. Every line has its text in it, with nothing
but blanks and a gutter around it, and no other character is lost or read twice. -/
theorem cleanLines_line_by_line {cs : List Char} (h : ¬closing <:+: cs) :
    cleanLines (closedBelow cs) = dropBlankEnds (textLines cs) ∧
      List.Forall₂ HasText (splitOn '\n' cs) (textLines cs) ∧
      (cleanLines (closedBelow cs)).flatten.filter isInk = cs.filter isInk := by
  have hlines : cleanLines (closedBelow cs) = dropBlankEnds (textLines cs) :=
    cleanLines_closedBelow (unclosed_of_not_closing h)
  refine ⟨hlines, forall₂_hasText cs, ?_⟩
  rw [hlines, filter_isInk_dropBlankEnds, filter_isInk_textLines]

namespace Starred

/-- A text with stars and slashes that look like markers, and gutters of all kinds. -/
def text : String := " /* One **\n  * * a/*\r\n\t*\t/** b\n\n*   c /\n *\n"

def lines : List Line := ["/* One **", "* a/*", "/** b", "", "  c /"].map String.toList

end Starred

theorem cleanLines_line_by_line_starred :
    ¬closing <:+: Starred.text.toList ∧
      cleanLines (closedBelow Starred.text.toList) = Starred.lines ∧
      List.Forall₂ HasText (splitOn '\n' Starred.text.toList) (textLines Starred.text.toList) ∧
      Starred.lines.flatten.filter isInk = Starred.text.toList.filter isInk := by
  have hclosing : ¬closing <:+: Starred.text.toList := by decide +kernel
  have hlines : dropBlankEnds (textLines Starred.text.toList) = Starred.lines := by decide +kernel
  obtain ⟨hclean, htexts, hink⟩ := cleanLines_line_by_line hclosing
  rw [hlines] at hclean
  rw [hclean] at hink
  exact ⟨hclosing, hclean, htexts, hink⟩

end RefPages.Comment
