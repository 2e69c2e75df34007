/-!
# Blank characters, trimming and words

Every place of the library that trims a text or splits it into words uses the same class of
blank characters, the ones with Unicode's `White_Space` property. The functions work on character
lists; `trimmed` and `collapsed` are the two that are also wanted on strings.

    "  a \t b\n"  ──words──▶  ["a", "b"]  ──joined by one space──▶  "a b"
-/

namespace RefPages.Text

/-- The characters with Unicode's `White_Space` property. -/
def isBlank (c : Char) : Bool :=
  let n := c.toNat
  (9 ≤ n && n ≤ 13) || n == 0x20 || n == 0x85 || n == 0xA0 || n == 0x1680 ||
    (0x2000 ≤ n && n ≤ 0x200A) || n == 0x2028 || n == 0x2029 || n == 0x202F || n == 0x205F ||
    n == 0x3000

/-! ### Trimming -/

def trimStart (cs : List Char) : List Char := cs.dropWhile isBlank

def trimEnd (cs : List Char) : List Char := (cs.reverse.dropWhile isBlank).reverse

def trim (cs : List Char) : List Char := trimEnd (trimStart cs)

def isBlankText (cs : List Char) : Bool := cs.all isBlank

/-! ### Words -/

/-- Put a character in front of the first word of a list of words. -/
def prependToFirst (c : Char) : List (List Char) → List (List Char)
  | [] => [[c]]
  | w :: ws => (c :: w) :: ws

/-- The maximal blank-free runs of a text, in order. -/
def words : List Char → List (List Char)
  | [] => []
  | c :: cs =>
    if isBlank c then words cs
    else
      match cs with
      | [] => [[c]]
      | d :: _ => if isBlank d then [c] :: words cs else prependToFirst c (words cs)

/-- The words of a text, one space between any two. -/
def collapse (cs : List Char) : List Char := [' '].intercalate (words cs)

/-! ### The same on strings -/

/-- A string without the blanks at its ends. -/
def trimmed (s : String) : String := String.ofList (trim s.toList)

/-- A string with every run of blanks made one space, and none at its ends. -/
def collapsed (s : String) : String := String.ofList (collapse s.toList)

def blank (s : String) : Bool := isBlankText s.toList

end RefPages.Text
