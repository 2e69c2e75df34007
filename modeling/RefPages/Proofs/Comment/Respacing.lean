import RefPages.Proofs.Comment.Cleaned

/-!
# Blanks around line ends

Spaces, tabs and carriage returns may be put before and after the line ends of a comment without a
change in what it says (`parse_respaced`), also where it is no well-formed comment. So a comment can
be moved to the right, and its lines can end in a carriage return:

    "/**\n * One.\n */"      "/**\r\n\t * One.\r\n\t */"

Blanks before a line end stand at the end of a line, which is trimmed, and blanks after it stand
before the gutter. They may join blanks that stood there, so the text before them is cut where its
own blanks begin.
-/

namespace RefPages.Comment

open Text

/-- A text with spaces, tabs and carriage returns put before and after its line ends. -/
inductive Respaced : List Char → List Char → Prop where
  | nil : Respaced [] []
  | char (c : Char) {cs ds : List Char} : Respaced cs ds → Respaced (c :: cs) (c :: ds)
  | newline (before after : List Char) {cs ds : List Char} (hbefore : ∀ c ∈ before, isGap c = true)
      (hafter : ∀ c ∈ after, isGap c = true) :
      Respaced cs ds → Respaced ('\n' :: cs) (before ++ '\n' :: (after ++ ds))

/-! ### Blanks before a line end -/

/-- Gaps before a line end are one token, so they belong to no other. -/
theorem scan_gaps {gaps : List Char} (hgaps : ∀ c ∈ gaps, isGap c = true) (hne : gaps ≠ [])
    (cs : List Char) :
    Token.scan false (gaps ++ '\n' :: cs) = .blanks gaps :: .newline :: Token.scan false cs := by
  induction gaps with
  | nil => exact absurd rfl hne
  | cons c gaps ih =>
    rw [List.forall_mem_cons] at hgaps
    rw [List.cons_append, scan_blank _ hgaps.1]
    -- the run is one token, however long it is
    by_cases hnil : gaps = []
    · rw [hnil, List.nil_append, scan_newline]
      rfl
    · rw [ih hgaps.2 hnil]
      rfl

theorem trimEnd_append_gaps (line : Line) {gaps : List Char} (hgaps : ∀ c ∈ gaps, isGap c = true) :
    trimEnd (line ++ gaps) = trimEnd line := by
  have hblank : ∀ c ∈ gaps.reverse, isBlank c = true := fun c hc =>
    isBlank_of_isGap (hgaps c (List.mem_reverse.1 hc))
  rw [trimEnd, List.reverse_append, List.dropWhile_append_of_pos hblank, ← trimEnd]

/-- Blanks before a line end are not read, wherever the walk stands. -/
theorem walk_gaps_newline {gaps : List Char} (hgaps : ∀ c ∈ gaps, isGap c = true)
    (ts us : List Token) (place : Place) (line : Line) :
    walk place line (ts ++ .blanks gaps :: .newline :: us) =
      walk place line (ts ++ .newline :: us) := by
  refine walk_append_rel (fun _ => rfl) (fun l _ _ h => congrArg (l :: ·) h) ?_ ?_ place line ts
  · intro place line
    cases place with
    | outside => rfl
    | lineStart => rfl
    -- in a body the gap is trimmed from the end of the line
    | body =>
      rw [walk_body_cons _ _ (by simp) (by simp), walk_body_newline, Token.chars,
        trimEnd_append_gaps line hgaps, walk_body_newline]
  -- behind a star the first run of blanks is the gutter's; what is left of it is trimmed
  · intro line
    have htail : ∀ c ∈ gaps.tail, isGap c = true := fun c hc => hgaps c (List.mem_of_mem_tail hc)
    rw [walk_lineStart_star_blanks, walk_body_newline, trimEnd_append_gaps line htail]
    rfl

/-- Gaps before a line end change nothing, whatever stands in front of them. -/
theorem cleanLines_gaps_before (pre : List Char) {gaps : List Char}
    (hgaps : ∀ c ∈ gaps, isGap c = true) (cs : List Char) :
    cleanLines (pre ++ (gaps ++ '\n' :: cs)) = cleanLines (pre ++ '\n' :: cs) := by
  -- the blanks join those at the end of the text before them
  obtain ⟨own, hpre, hown⟩ := exists_dropWhile_end isGap pre
  have hlast := getLast?_dropWhile_end isGap pre
  generalize (pre.reverse.dropWhile isGap).reverse = text at hpre hlast
  have hany : ∀ {gaps : List Char}, (∀ c ∈ gaps, isGap c = true) →
      cleanLines (text ++ (gaps ++ '\n' :: cs)) = cleanLines (text ++ '\n' :: cs) := by
    intro gaps hgaps
    by_cases hne : gaps = []
    · rw [hne, List.nil_append]
    · obtain ⟨c, more, rfl⟩ := List.exists_cons_of_ne_nil hne
      have hc : isGap c = true := hgaps c List.mem_cons_self
      have hapart : Apart false text (c :: more ++ '\n' :: cs) := by
        refine ⟨?_, fun _ _ _ => hlast, ?_⟩
        · rintro d ⟨⟩ htext
          simp [endsText, hc] at htext
        · rintro ⟨⟩
          exact absurd hc (by decide)
      rw [cleanLines, tokens, scan_append hapart, scan_gaps hgaps hne, walk_gaps_newline hgaps,
        ← scan_append_newline, ← tokens, ← cleanLines]
  have hboth : ∀ c ∈ own ++ gaps, isGap c = true := fun c hc =>
    (List.mem_append.1 hc).elim (hown c) (hgaps c)
  rw [hpre, List.append_assoc, ← List.append_assoc own, hany hboth, List.append_assoc, hany hown]

/-! ### Blanks after a line end -/

/-- Gaps at the start of a line, or outside of the comment, are passed. -/
theorem walk_scan_gaps {place : Place} (hplace : place ≠ .body) (line : Line) {gaps : List Char}
    (hgaps : ∀ c ∈ gaps, isGap c = true) (cs : List Char) :
    walk place line (Token.scan false (gaps ++ cs)) = walk place line (Token.scan false cs) := by
  induction gaps with
  | nil => rfl
  | cons c gaps ih =>
    rw [List.forall_mem_cons] at hgaps
    rw [List.cons_append, scan_blank _ hgaps.1, ← ih hgaps.2]
    cases place with
    | outside => exact walk_outside_consBlank line c _
    | lineStart => exact walk_lineStart_consBlank line c _
    | body => exact absurd rfl hplace

/-- Gaps behind a line end change nothing, whatever follows them. -/
theorem cleanLines_gaps_after (pre : List Char) {gaps : List Char}
    (hgaps : ∀ c ∈ gaps, isGap c = true) (cs : List Char) :
    cleanLines (pre ++ '\n' :: (gaps ++ cs)) = cleanLines (pre ++ '\n' :: cs) := by
  have houtside : ∀ line, walk .outside line (Token.scan false (gaps ++ cs)) =
      walk .outside line (Token.scan false cs) := fun line => walk_scan_gaps (by simp) line hgaps cs
  have hstart : walk .lineStart [] (Token.scan false (gaps ++ cs)) =
      walk .lineStart [] (Token.scan false cs) := walk_scan_gaps (by simp) [] hgaps cs
  -- the line end brings the walk back to the start of a line, where a gap is passed
  have hwalk :
      walk .outside [] (Token.scan false pre ++ .newline :: Token.scan false (gaps ++ cs)) =
        walk .outside [] (Token.scan false pre ++ .newline :: Token.scan false cs) := by
    refine walk_append_rel (fun _ => rfl) (fun l _ _ h => congrArg (l :: ·) h) ?_ ?_ .outside [] _
    · intro place line
      cases place with
      | outside => exact houtside line
      | _ => exact congrArg (trimEnd line :: ·) hstart
    · intro line
      exact congrArg (trimEnd line :: ·) hstart
  rw [cleanLines, tokens, scan_append_newline, hwalk, ← scan_append_newline, ← tokens, ← cleanLines]

/-! ### All line ends -/

/-- The text before the blanks may be any text, so one line end after the other can be followed. -/
theorem cleanLines_append_respaced {cs ds : List Char} (h : Respaced cs ds) (pre : List Char) :
    cleanLines (pre ++ ds) = cleanLines (pre ++ cs) := by
  induction h generalizing pre with
  | nil => rfl
  | char c h ih => simpa using ih (pre ++ [c])
  | @newline before after cs ds hbefore hafter h ih =>
    calc cleanLines (pre ++ (before ++ '\n' :: (after ++ ds)))
        = cleanLines (pre ++ '\n' :: (after ++ ds)) := cleanLines_gaps_before pre hbefore _
      _ = cleanLines (pre ++ '\n' :: ds) := cleanLines_gaps_after pre hafter ds
      _ = cleanLines (pre ++ '\n' :: cs) := by simpa using ih (pre ++ ['\n'])

/-- **Blanks around line ends say nothing.** -/
theorem parse_respaced {raw raw' : List Char} (h : Respaced raw raw') :
    cleanLines raw' = cleanLines raw ∧ parse raw' = parse raw := by
  have hlines : cleanLines raw' = cleanLines raw := cleanLines_append_respaced h []
  exact ⟨hlines, by rw [parse, hlines, parse]⟩

/-- A text with the same blanks at every line end. -/
def padded (before after : List Char) (cs : List Char) : List Char :=
  cs.flatMap fun c => if c = '\n' then before ++ '\n' :: after else [c]

theorem respaced_padded {before after : List Char} (hbefore : ∀ c ∈ before, isGap c = true)
    (hafter : ∀ c ∈ after, isGap c = true) (cs : List Char) :
    Respaced cs (padded before after cs) := by
  induction cs with
  | nil => exact .nil
  | cons c cs ih =>
    rw [padded, List.flatMap_cons, ← padded]
    split
    · next hc =>
      rw [hc, List.append_assoc, List.cons_append]
      exact .newline before after hbefore hafter ih
    · exact .char c ih

namespace Indented

def raw : List Char := "/**\n * One.\n *   Two.\n */".toList

/-- The comment one tab further to the right, with line ends of two characters. -/
def raw' : List Char := "/**\r\n\t * One.\r\n\t *   Two.\r\n\t */".toList

end Indented

theorem parse_respaced_indented :
    Respaced Indented.raw Indented.raw' ∧
      cleanLines Indented.raw' = ["One.", "  Two."].map String.toList ∧
      parse Indented.raw' = parse Indented.raw := by
  have hpadded : padded ['\r'] ['\t'] Indented.raw = Indented.raw' := by decide +kernel
  have hrespaced : Respaced Indented.raw (padded ['\r'] ['\t'] Indented.raw) :=
    respaced_padded (by simp [isGap]) (by simp [isGap]) Indented.raw
  rw [hpadded] at hrespaced
  have hlines : cleanLines Indented.raw = ["One.", "  Two."].map String.toList := by decide +kernel
  obtain ⟨hclean, hparse⟩ := parse_respaced hrespaced
  exact ⟨hrespaced, hclean.trans hlines, hparse⟩

end RefPages.Comment
