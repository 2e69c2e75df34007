import RefPages.Proofs.Comment.LineByLine

/-!
# Where a comment is closed

A comment can be closed on a line of its own or on the last line of its text, and both should give
the same lines. They do unless the text ends in a slash that stands at the start of a word, or in
such a slash and a star. There the longest token is an opening marker, which takes the star of the
closing marker away:

    /** One. */     [docOpen, blanks, text, blanks, close]       One.
    /** and/or/*/   [docOpen, blanks, text, close]               and/or/
    /** /*/         [docOpen, blanks, blockOpen, text "/"]       /*/

Nothing closes the last comment, and its closing marker is read as text.
-/

namespace RefPages.Comment

open Text

/-- A comment that is closed on the last line of its text. -/
def closedBeside (cs : List Char) : List Char := opening ++ (cs ++ closing)

/-- Where the last line does not end in a slash, closing the comment beside it is like closing it
below. -/
theorem cleanLines_closedBeside_of_not_endsInSlash {cs : List Char} (h : ¬closing <:+: cs)
    (hslash : ¬EndsInSlash false cs) :
    cleanLines (closedBeside cs) = dropBlankEnds (textLines cs) := by
  have hapart : Apart false cs closing := by
    refine ⟨?_, ?_, fun _ => ⟨h, hslash⟩⟩
    · rintro c ⟨⟩ htext
      exact absurd htext (by decide)
    · rintro c ⟨⟩ hgap
      exact absurd hgap (by decide)
  exact cleanLines_of_endsLine (endsLine_close []) (by simp) (unclosed_of_not_closing h)
    (scan_append hapart)

/-! ### A comment that nothing closes -/

/-- A slash at the end of the text takes the star of the closing marker, so the comment stays
unclosed. -/
theorem unclosed_append_closing {cs : List Char} (h : ¬closing <:+: cs)
    (hslash : EndsInSlash false cs) : Unclosed false (cs ++ closing) := by
  obtain ⟨before, hcs, -, hlast⟩ := hslash
  have hstart : before ++ ['/'] <+: cs := by
    rcases hcs with rfl | rfl
    · exact List.prefix_rfl
    · exact ⟨['*'], by simp⟩
  have hbefore : ¬closing <:+: before := fun hin =>
    h (hin.trans ((List.prefix_append before ['/']).trans hstart).isInfix)
  -- no token reaches the slash, so it starts a marker with the star behind it
  have hapart : ∀ m, Apart false before ('/' :: m) := by
    intro m
    refine ⟨fun c _ _ => ⟨fun _ => rfl, fun d hd => ?_⟩, ?_, ?_⟩
    -- in front of the slash stands what ends a text
    · have hends := hlast d hd
      simp only [endsText, Bool.or_eq_true, beq_iff_eq, or_assoc] at hends
      rcases hends with hgap | hnewline | rfl
      · exact .inl hgap
      · exact .inr hnewline
      · -- a star before the slash would have closed the comment
        obtain ⟨more, rfl⟩ := List.getLast?_eq_some_iff.1 hd
        refine absurd (List.IsInfix.trans ⟨more, [], ?_⟩ hstart.isInfix) h
        simp [closing]
    · rintro c ⟨⟩ hgap
      exact absurd hgap (by decide)
    · simp
  rcases hcs with rfl | rfl
  · rw [List.append_assoc]
    exact (unclosed_append (hapart _)).2 ⟨unclosed_of_not_closing hbefore, by decide⟩
  · rw [List.append_assoc]
    exact (unclosed_append (hapart _)).2 ⟨unclosed_of_not_closing hbefore, by decide⟩

/-- The same lines, but for an empty line that may stand after them. -/
def SameButEmpty (ls ms : List Line) : Prop := ls = ms ∨ ls = ms ++ [[]]

theorem SameButEmpty.cons {ls ms : List Line} (h : SameButEmpty ls ms) (l : Line) :
    SameButEmpty (l :: ls) (l :: ms) := by
  rcases h with rfl | rfl
  · exact .inl rfl
  · exact .inr rfl

/-- Closing a comment that is not closed changes nothing in its lines. -/
theorem walk_append_close (line : Line) (ts : List Token) :
    SameButEmpty (walk .body line (ts ++ [.close])) (walk .body line ts) := by
  -- the marker finishes a line only where one was begun
  have hends : ∀ place line, SameButEmpty (walk place line [.close]) (walk place line []) := by
    intro place line
    cases place with
    | outside => exact .inl rfl
    | _ =>
      cases line with
      | nil => exact .inr rfl
      | cons c line => exact .inl rfl
  have hstar : ∀ line,
      SameButEmpty (walk .lineStart line [.star, .close]) (walk .lineStart line [.star]) := by
    intro line
    rw [walk_lineStart_star line (by simp), walk_lineStart_star line (by simp)]
    exact hends .body line
  have hall : SameButEmpty (walk .body line (ts ++ [.close])) (walk .body line (ts ++ [])) :=
    walk_append_rel (fun _ => .inl rfl) (fun l _ _ h => h.cons l) hends hstar .body line ts
  rwa [List.append_nil] at hall

theorem trimFirst_append_nil (ls : List Line) : trimFirst (ls ++ [[]]) = trimFirst ls ++ [[]] := by
  cases ls <;> rfl

/-- A comment that is not closed is read to its end. -/
theorem cleanLines_unclosed {cs : List Char} (h : Unclosed false cs) :
    cleanLines (opening ++ cs) = dropBlankEnds (textLines cs) := by
  have hclosed := trimFirst_walk_scan (endsLine_close []) h
  rw [cleanLines_opening]
  rcases walk_append_close [] (Token.scan false cs) with hwalk | hwalk
  · rw [← hwalk, hclosed, List.append_nil]
  · have hblank : ∀ l ∈ [([] : Line)], isBlankText l = true := by simp [isBlankText]
    rw [← List.append_nil (textLines cs), ← hclosed, hwalk, trimFirst_append_nil,
      dropBlankEnds_append_blank _ hblank]

/-- **The closing marker is no text unless a slash takes its star.** A comment that is closed beside
its text has the lines that it has when it is closed below if and only if no slash at the end of the
text starts a token there. Otherwise the closing marker is read as part of the text. -/
theorem cleanLines_closedBeside {cs : List Char} (h : ¬closing <:+: cs) :
    (cleanLines (closedBeside cs) = cleanLines (closedBelow cs) ↔ ¬EndsInSlash false cs) ∧
      (EndsInSlash false cs →
        cleanLines (closedBeside cs) = dropBlankEnds (textLines (cs ++ closing))) := by
  have hbelow : cleanLines (closedBelow cs) = dropBlankEnds (textLines cs) :=
    cleanLines_closedBelow (unclosed_of_not_closing h)
  have hread : EndsInSlash false cs →
      cleanLines (closedBeside cs) = dropBlankEnds (textLines (cs ++ closing)) := fun hslash =>
    cleanLines_unclosed (unclosed_append_closing h hslash)
  refine ⟨⟨fun hsame hslash => ?_, fun hslash => ?_⟩, hread⟩
  · -- the slash of the closing marker is one slash more
    have hink : (cs ++ closing).filter isInk = cs.filter isInk := by
      rw [← filter_isInk_textLines, ← filter_isInk_dropBlankEnds, ← hread hslash, hsame, hbelow,
        filter_isInk_dropBlankEnds, filter_isInk_textLines]
    have hclosing : closing.filter isInk = ['/'] := by decide
    rw [List.filter_append, hclosing] at hink
    simp at hink
  · rw [hbelow, cleanLines_closedBeside_of_not_endsInSlash h hslash]

/-- The closing marker is recognised behind a slash that belongs to a word. -/
theorem cleanLines_closedBeside_word :
    ¬closing <:+: " One /* and/or/".toList ∧ ¬EndsInSlash false " One /* and/or/".toList ∧
      cleanLines (closedBeside " One /* and/or/".toList) =
        cleanLines (closedBelow " One /* and/or/".toList) := by
  have hclosing : ¬closing <:+: " One /* and/or/".toList := by decide +kernel
  have hslash : ¬EndsInSlash false " One /* and/or/".toList := by decide +kernel
  exact ⟨hclosing, hslash, (cleanLines_closedBeside hclosing).1.2 hslash⟩

/-- Behind a slash of its own it is read as text. -/
theorem closing_marker_is_read :
    ¬closing <:+: " One /".toList ∧
      cleanLines (closedBeside " One /".toList) = ["One /*/".toList] ∧
      cleanLines (closedBelow " One /".toList) = ["One /".toList] ∧
      cleanLines (closedBeside " One /".toList) ≠ cleanLines (closedBelow " One /".toList) := by
  refine ⟨?_, ?_, ?_, ?_⟩ <;> decide +kernel

end RefPages.Comment
