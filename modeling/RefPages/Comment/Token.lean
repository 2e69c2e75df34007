import RefPages.Text.Blank

/-!
# Tokens of a block comment

A comment is first cut into tokens: the opening markers, the closing marker, single stars, line
ends, runs of blanks and runs of other text. The longest possible token is taken at each place, so
a slash inside a run of text belongs to the text: `a/*` is the text `a/` and a star.

    "/** a\n*/"  ──tokens──▶  [docOpen, blanks " ", text "a", newline, close]

No character is lost: the tokens' characters are the comment again.
-/

namespace RefPages.Comment

inductive Token where
  /-- The marker of a documentation comment, a slash and two stars. -/
  | docOpen
  /-- The marker of a plain block comment, a slash and a star. -/
  | blockOpen
  /-- The closing marker, a star and a slash. -/
  | close
  /-- A single star. -/
  | star
  /-- A line end. -/
  | newline
  /-- A run of spaces, tabs and carriage returns. -/
  | blanks (cs : List Char)
  /-- A run of anything else. -/
  | text (cs : List Char)
deriving DecidableEq, Repr

def Token.chars : Token → List Char
  | .docOpen => ['/', '*', '*']
  | .blockOpen => ['/', '*']
  | .close => ['*', '/']
  | .star => ['*']
  | .newline => ['\n']
  | .blanks cs => cs
  | .text cs => cs

/-- The characters of a run of blanks inside a line. -/
def isGap (c : Char) : Bool := c == ' ' || c == '\t' || c == '\r'

/-- Put a blank in front of tokens, into a leading run of blanks if there is one. -/
def Token.consBlank (c : Char) : List Token → List Token
  | .blanks cs :: ts => .blanks (c :: cs) :: ts
  | ts => .blanks [c] :: ts

/-- Put a text character in front of tokens, into a leading run of text if there is one. -/
def Token.consText (c : Char) : List Token → List Token
  | .text cs :: ts => .text (c :: cs) :: ts
  | ts => .text [c] :: ts

/-- Cut characters into tokens. The flag says that a run of text is open just before them; there
a slash is one more character of that run. -/
def Token.scan : Bool → List Char → List Token
  | _, [] => []
  | false, '/' :: '*' :: '*' :: cs => .docOpen :: Token.scan false cs
  | false, '/' :: '*' :: cs => .blockOpen :: Token.scan false cs
  -- a star ends a run of text, whether or not one is open
  | _, '*' :: '/' :: cs => .close :: Token.scan false cs
  | _, '*' :: cs => .star :: Token.scan false cs
  | _, c :: cs =>
    -- with a run of text open a slash comes down here
    if c = '\n' then .newline :: Token.scan false cs
    else if isGap c then Token.consBlank c (Token.scan false cs)
    else Token.consText c (Token.scan true cs)

def tokens (raw : List Char) : List Token := Token.scan false raw

end RefPages.Comment
