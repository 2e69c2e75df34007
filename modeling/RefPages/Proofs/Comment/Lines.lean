import Mathlib.Data.List.TakeWhile
import RefPages.Comment.Basic
import RefPages.Proofs.Comment.Walk

/-!
# Cleaning a wrapped comment

The canonical way to write lines as a comment puts the gutter before each of them:

    ["One.", "", "  Two."]   ──wrapped──▶   "/**\n * One.\n * \n *   Two.\n */"

Cleaning takes the gutter away again, from every line that is clean (`cleanLines_wrapped_of_clean`).
-/

namespace RefPages.Comment

open Text

/-! ### Lines joined -/

theorem unlines_cons (l : Line) (ls : List Line) :
    unlines (l :: ls) = l ++ ls.flatMap ('\n' :: ·) := by
  rw [unlines]
  induction ls generalizing l with
  | nil => simp
  | cons m ls ih =>
    rw [List.intercalate_cons_cons, ih m, List.flatMap_cons]
    simp

theorem unlines_cons_cons (l m : Line) (ls : List Line) :
    unlines (l :: m :: ls) = l ++ '\n' :: unlines (m :: ls) := by
  rw [unlines_cons, unlines_cons, List.flatMap_cons, List.cons_append]

/-! ### One line -/

/-- A line that can be written in a comment and read back: it has no line end and no closing marker
in it and no blank at its end. -/
structure IsLine (l : Line) : Prop where
  newline : '\n' ∉ l
  closing : ¬closing <:+: l
  blank : ∀ c ∈ l.getLast?, isBlank c = false

instance (l : Line) : Decidable (IsLine l) :=
  -- only the last character is looked at, not every character there is
  have : Decidable (∀ c ∈ l.getLast?, isBlank c = false) := Option.decidableForallMem _
  decidable_of_iff ('\n' ∉ l ∧ ¬Comment.closing <:+: l ∧ ∀ c ∈ l.getLast?, isBlank c = false)
    ⟨fun ⟨hnewline, hclosing, hblank⟩ => ⟨hnewline, hclosing, hblank⟩,
      fun h => ⟨h.newline, h.closing, h.blank⟩⟩

/-- Where a line has no closing marker, none is read in it. -/
theorem unclosed_of_not_closing {opened : Bool} {l : Line} (h : ¬closing <:+: l) :
    Unclosed opened l := by
  intro hmem
  obtain ⟨before, after, hscan⟩ := List.append_of_mem hmem
  apply h
  rw [← chars_scan opened l, hscan, List.flatMap_append, List.flatMap_cons]
  exact ⟨before.flatMap Token.chars, after.flatMap Token.chars, by simp [closing, Token.chars]⟩

/-- A line as cleaning leaves it: it has no line end in it and no blank at its end, and nothing in
it is read as a closing marker. -/
structure IsClean (l : Line) : Prop where
  newline : '\n' ∉ l
  unclosed : Unclosed false l
  blank : ∀ c ∈ l.getLast?, isBlank c = false

theorem IsLine.isClean {l : Line} (h : IsLine l) : IsClean l :=
  ⟨h.newline, unclosed_of_not_closing h.closing, h.blank⟩

theorem dropWhile_of_head? {α : Type} {p : α → Bool} {xs : List α}
    (h : ∀ x ∈ xs.head?, p x = false) : xs.dropWhile p = xs := by
  cases xs with
  | nil => rfl
  | cons x xs => exact List.dropWhile_cons_of_neg (by simpa using h x rfl)

/-- What is dropped at the end of a list can be put back. -/
theorem exists_dropWhile_end {α : Type} (p : α → Bool) (xs : List α) :
    ∃ ys, xs = (xs.reverse.dropWhile p).reverse ++ ys ∧ ∀ y ∈ ys, p y = true := by
  refine ⟨(xs.reverse.takeWhile p).reverse, ?_, fun y hy => ?_⟩
  · rw [← List.reverse_append, List.takeWhile_append_dropWhile, List.reverse_reverse]
  · exact List.mem_takeWhile_imp (List.mem_reverse.1 hy)

theorem getLast?_dropWhile_end {α : Type} (p : α → Bool) (xs : List α) :
    ∀ x ∈ (xs.reverse.dropWhile p).reverse.getLast?, p x = false := by
  intro x hx
  rw [List.getLast?_reverse] at hx
  have hstop := List.head?_dropWhile_not p xs.reverse
  rw [Option.mem_def.1 hx] at hstop
  simpa using hstop

/-- Both ways of trimming, of blanks in a text and of blank lines, ignore what they trim. -/
theorem dropWhile_both_append {α : Type} {p : α → Bool} {xs ys : List α}
    (h : ∀ y ∈ ys, p y = true) :
    (((xs ++ ys).dropWhile p).reverse.dropWhile p).reverse =
      ((xs.dropWhile p).reverse.dropWhile p).reverse := by
  rw [List.dropWhile_append]
  split
  · next hempty =>
    rw [List.isEmpty_iff] at hempty
    have hys : ys.dropWhile p = [] := List.dropWhile_eq_nil_iff.2 h
    rw [hempty, hys]
  · have hreverse : ∀ y ∈ ys.reverse, p y = true := fun y hy => h y (List.mem_reverse.1 hy)
    rw [List.reverse_append, List.dropWhile_append_of_pos hreverse]

theorem trimEnd_of_getLast? {l : Line} (h : ∀ c ∈ l.getLast?, isBlank c = false) :
    trimEnd l = l := by
  rw [List.getLast?_eq_head?_reverse] at h
  rw [trimEnd, dropWhile_of_head? h, List.reverse_reverse]

/-! ### The whole comment -/

def gutterLine (l : Line) : List Char := ' ' :: '*' :: ' ' :: l ++ ['\n']

def wrapped (ls : List Line) : List Char :=
  ['/', '*', '*', '\n'] ++ ls.flatMap gutterLine ++ [' ', '*', '/']

/-- A clean line is read behind its gutter as it is. -/
theorem walk_gutterLine {l : Line} (h : IsClean l) (cs : List Char) :
    walk .lineStart [] (Token.scan false (gutterLine l ++ cs)) =
      l :: walk .lineStart [] (Token.scan false cs) := by
  have hscan : Token.scan false (gutterLine l ++ cs) =
      .blanks [' '] :: .star :: Token.consBlank ' ' (Token.scan false (l ++ '\n' :: cs)) := by
    simp [gutterLine, Token.scan, isGap, Token.consBlank]
  rw [hscan, walk_lineStart_blanks, walk_gutter, walk_body_line h.newline h.unclosed,
    List.nil_append, trimEnd_of_getLast? h.blank]

/-- Clean lines behind gutters are read one by one, up to the line of the closing marker. -/
theorem walk_gutterLines {ls : List Line} (h : ∀ l ∈ ls, IsClean l) :
    walk .lineStart [] (Token.scan false (ls.flatMap gutterLine ++ [' ', '*', '/'])) =
      ls ++ [[]] := by
  induction ls with
  | nil => rfl
  | cons l ls ih =>
    rw [List.forall_mem_cons] at h
    rw [List.flatMap_cons, List.append_assoc, walk_gutterLine h.1, ih h.2, List.cons_append]

/-- Between two blank lines, lines whose ends are not blank are kept. -/
theorem dropBlankEnds_of_ends {ls : List Line} (hfirst : ∀ l ∈ ls.head?, isBlankText l = false)
    (hlast : ∀ l ∈ ls.getLast?, isBlankText l = false) : dropBlankEnds ([] :: ls ++ [[]]) = ls := by
  have hblank : isBlankText [] = true := rfl
  rw [List.getLast?_eq_head?_reverse] at hlast
  rw [dropBlankEnds, List.cons_append, List.dropWhile_cons_of_pos hblank]
  cases ls with
  | nil => rfl
  | cons l ls =>
    have hl : (l :: ls ++ [[]]).dropWhile isBlankText = l :: ls ++ [[]] := dropWhile_of_head? hfirst
    rw [hl, List.reverse_append, List.reverse_singleton, List.singleton_append,
      List.dropWhile_cons_of_pos hblank, dropWhile_of_head? hlast, List.reverse_reverse]

/-- **Cleaning a wrapped comment gives its lines.** -/
theorem cleanLines_wrapped_of_clean {ls : List Line} (h : ∀ l ∈ ls, IsClean l)
    (hfirst : ∀ l ∈ ls.head?, isBlankText l = false)
    (hlast : ∀ l ∈ ls.getLast?, isBlankText l = false) : cleanLines (wrapped ls) = ls := by
  have hwalk : walk .outside [] (tokens (wrapped ls)) = [] :: ls ++ [[]] := by
    rw [tokens, wrapped, List.append_assoc]
    change walk .body [] (Token.scan false
      ([] ++ '\n' :: (ls.flatMap gutterLine ++ [' ', '*', '/']))) = _
    rw [walk_body_line (by simp) (by decide), walk_gutterLines h]
    rfl
  rw [cleanLines, hwalk]
  exact dropBlankEnds_of_ends hfirst hlast

/-- Lines that are written as a documentation comment are read back. -/
theorem cleanLines_wrapped {ls : List Line} (h : ∀ l ∈ ls, IsLine l)
    (hfirst : ∀ l ∈ ls.head?, isBlankText l = false)
    (hlast : ∀ l ∈ ls.getLast?, isBlankText l = false) : cleanLines (wrapped ls) = ls :=
  cleanLines_wrapped_of_clean (fun l hl => (h l hl).isClean) hfirst hlast

end RefPages.Comment
