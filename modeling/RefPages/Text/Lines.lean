import RefPages.Text.Blank

/-!
# Lines of a text

`splitOn` cuts at every occurrence of one character and never loses a piece: a text with `n`
separators has `n + 1` pieces, so joining them with the separator gives the text back. `lines` is
the reading used when a text is indented line by line: a final line end starts no new line, and a
carriage return before a line end belongs to the line end.
-/

namespace RefPages.Text

/-- A line of text, without its line end. -/
abbrev Line := List Char

def splitOn (sep : Char) : List Char → List (List Char)
  | [] => [[]]
  | c :: cs =>
    if c = sep then [] :: splitOn sep cs
    else prependToFirst c (splitOn sep cs)

/-- Join lines with line ends between them. -/
def unlines (ls : List Line) : List Char := ['\n'].intercalate ls

/-- A line without one carriage return at its end. -/
def dropReturn (l : Line) : Line :=
  match l.reverse with
  | '\r' :: r => r.reverse
  | _ => l

/-- Turn the pieces between line ends into lines: all but the last piece ended in a line end, and
an empty last piece is no line. -/
def linesOfPieces : List Line → List Line
  | [] => []
  | [l] => if l.isEmpty then [] else [l]
  | l :: ls => dropReturn l :: linesOfPieces ls

def lines (cs : List Char) : List Line := linesOfPieces (splitOn '\n' cs)

/-- Drop the blank lines at both ends of a list of lines. -/
def dropBlankEnds (ls : List Line) : List Line :=
  ((ls.dropWhile isBlankText).reverse.dropWhile isBlankText).reverse

/-! ### Occurrences -/

/-- Does the text contain the pattern as a contiguous part? -/
def contains (pattern : List Char) : List Char → Bool
  | [] => pattern.isEmpty
  | c :: cs => pattern.isPrefixOf (c :: cs) || contains pattern cs

end RefPages.Text
