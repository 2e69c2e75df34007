import RefPages.Comment.Token
import RefPages.Text.Lines

/-!
# Cleaned lines of a block comment

`cleanLines` takes the markers and the gutter of stars away and gives the lines of text that remain:

    "/**\n * One.\n *\n *   Two.\n */"  ──cleanLines──▶  ["One.", "", "  Two."]

The walk over the tokens knows where in a line it stands. At the start of a line blanks are
skipped, and one star with at most one blank after it is the gutter; everything after that is
text, with its indentation kept. Lines lose the blanks at their end, the first line also those at
its start, and blank lines at both ends of the comment are dropped.
-/

namespace RefPages.Comment

open Text

/-- Where in a comment the walk over its tokens stands. -/
inductive Place where
  /-- Before the opening marker. -/
  | outside
  /-- At the start of a line, where the gutter may stand. -/
  | lineStart
  /-- Inside the text of a line. -/
  | body
deriving DecidableEq, Repr

/-- The lines of a token list, walked from the given place with the given open line. Nothing after
the closing marker counts, and a comment that is not closed ends with its last character. -/
def walk : Place → Line → List Token → List Line
  | _, line, [] => if line.isEmpty then [] else [trimEnd line]
  | .outside, line, .docOpen :: ts => walk .body line ts
  | .outside, line, .blockOpen :: ts => walk .body line ts
  | .outside, line, _ :: ts => walk .outside line ts
  | _, line, .close :: _ => [trimEnd line]
  | _, line, .newline :: ts => trimEnd line :: walk .lineStart [] ts
  | .lineStart, line, .blanks _ :: ts => walk .lineStart line ts
  -- the first of these blanks belongs to the gutter, the others are indentation
  | .lineStart, line, .star :: .blanks cs :: ts => walk .body (line ++ cs.tail) ts
  | .lineStart, line, .star :: ts => walk .body line ts
  | _, line, t :: ts => walk .body (line ++ t.chars) ts

/-- Drop the blanks at the start of the first line. -/
def trimFirst : List Line → List Line
  | [] => []
  | l :: ls => trimStart l :: ls

/-- The cleaned lines of a raw comment. -/
def cleanLines (raw : List Char) : List Line :=
  dropBlankEnds (trimFirst (walk .outside [] (tokens raw)))

/-- Is the raw comment a documentation comment? The empty block comment of four characters is
not. -/
def isDocumentation : List Char → Bool
  | '/' :: '*' :: '*' :: '/' :: _ => false
  | '/' :: '*' :: '*' :: _ => true
  | _ => false

end RefPages.Comment
