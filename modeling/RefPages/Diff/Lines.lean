import RefPages.Diff.Compact
import RefPages.Diff.Shortest

/-!
# Differences of texts

Two texts are compared line by line. A line keeps its line end, which is a line feed, a carriage
return or both.
-/

namespace RefPages.Diff

/-- The lines of a text with their line ends; the given characters, last one first, stand before
it in its first line. -/
def linesFrom : List Char → List Char → List (List Char)
  | [], [] => []
  | line, [] => [line.reverse]
  | line, '\r' :: '\n' :: cs => ('\n' :: '\r' :: line).reverse :: linesFrom [] cs
  | line, c :: cs =>
    if c == '\r' || c == '\n' then (c :: line).reverse :: linesFrom [] cs
    else linesFrom (c :: line) cs

def lines (s : String) : List String := (linesFrom [] s.toList).map String.ofList

/-- A line with a line end, its own or a new one. -/
def ended (line : String) : String :=
  match line.toList.getLast? with
  | some '\n' | some '\r' => line
  | _ => line ++ "\n"

/-- The changes from one text to another, line by line. -/
def ofTexts (current expected : String) : List (Change String) :=
  changes (compact (shortest (lines current) (lines expected)))

end RefPages.Diff
