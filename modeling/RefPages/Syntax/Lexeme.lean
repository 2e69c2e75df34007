/-!
# Lexemes

The words, marks and literals that TypeScript is written with. `Lexeme.length? l cs` is the number
of characters that the lexeme `l` takes at the start of `cs`, and `none` if it does not stand there.

    length? (.word ["get"]) "get x"     = some 3
    length? (.word ["get"]) "getter"    = none       a word ends where its name ends
    length? (.operator [">"]) ">= 1"    = none       the longest operator wins
    length? (.symbol ">") ">= 1"        = some 1

Whether a word is a keyword depends on what may stand at a place, so there is no list of reserved
words: a name says which words it may not be.
-/

namespace RefPages.Syntax

/-! ### Characters -/

def isSpace (c : Char) : Bool :=
  let n := c.toNat
  (9 ≤ n && n ≤ 13) || n == 0x20 || n == 0x85 || n == 0xA0 || n == 0x1680 ||
    (0x2000 ≤ n && n ≤ 0x200B) || n == 0x2028 || n == 0x2029 || n == 0x202F || n == 0x205F ||
    n == 0x2060 || n == 0x3000 || n == 0xFEFF

/-- The characters that end a name although they are neither blank nor control characters. -/
def marks : List Char := ":;`\"'@#.,|^&<=>+-*/\\%?!~()[]\x7b\x7d".toList

def isNameChar (c : Char) : Bool := 0x20 < c.toNat && !isSpace c && !marks.contains c

def isNameStart (c : Char) : Bool := isNameChar c && !c.isDigit

def isHexDigit (c : Char) : Bool :=
  c.isDigit || ('a' ≤ c && c ≤ 'f') || ('A' ≤ c && c ≤ 'F')

def endsLine (c : Char) : Bool := c == '\n' || c == '\r' || c == '\u2028' || c == '\u2029'

/-! ### Names -/

/-- The number of characters of a code in braces in front, up to its closing brace. -/
def bracedCodeLength? (cs : List Char) : Option Nat :=
  let digits := (cs.takeWhile isHexDigit).length
  if digits != 0 && (cs.drop digits).head? == some '}' then some (digits + 1) else none

/-- The number of name characters in front. A character may also be written by its code. The count
says how many characters of a code are still to be passed. -/
def nameCharsFrom : Nat → List Char → Nat
  | _, [] => 0
  | skip + 1, _ :: cs => 1 + nameCharsFrom skip cs
  | 0, '\\' :: cs =>
    match cs with
    | 'u' :: '{' :: rest =>
      match bracedCodeLength? rest with
      | none => 0
      | some n => 1 + nameCharsFrom (n + 2) cs
    | 'u' :: a :: b :: c :: d :: _ =>
      if [a, b, c, d].all isHexDigit then 1 + nameCharsFrom 5 cs else 0
    | _ => 0
  | 0, c :: cs => if isNameChar c then 1 + nameCharsFrom 0 cs else 0

def nameCharsLength (cs : List Char) : Nat := nameCharsFrom 0 cs

/-- The length of the name in front, zero if there is none. -/
def nameLength (cs : List Char) : Nat :=
  match cs with
  | [] => 0
  | c :: _ => if isNameStart c || c == '\\' then nameCharsLength cs else 0

/-! ### Numbers -/

/-- The length of what continues a run of digits: digits, with single low lines between them. -/
def moreDigitsLength (isDigit : Char → Bool) : List Char → Nat
  | [] => 0
  | '_' :: d :: cs => if isDigit d then 2 + moreDigitsLength isDigit cs else 0
  | c :: cs => if isDigit c then 1 + moreDigitsLength isDigit cs else 0

def digitsLength (isDigit : Char → Bool) (cs : List Char) : Nat :=
  if cs.head?.any isDigit then moreDigitsLength isDigit cs else 0

def exponentLength (cs : List Char) : Nat :=
  match cs with
  | e :: rest =>
    if e == 'e' || e == 'E' then
      let (signs, rest) := match rest with
        | '+' :: r | '-' :: r => (1, r)
        | r => (0, r)
      let digits := digitsLength Char.isDigit rest
      if digits == 0 then 0 else 1 + signs + digits
    else 0
  | [] => 0

/-- The digits of the base that a letter after a zero stands for. -/
def baseDigits? (base : Char) : Option (Char → Bool) :=
  if base == 'x' || base == 'X' then some isHexDigit
  else if base == 'b' || base == 'B' then some fun c => c == '0' || c == '1'
  else if base == 'o' || base == 'O' then some fun c => '0' ≤ c && c ≤ '7'
  else none

def decimalLength? (cs : List Char) : Option Nat :=
  let whole := digitsLength Char.isDigit cs
  match cs.drop whole with
  | '.' :: rest =>
    let fraction := digitsLength Char.isDigit rest
    if whole + fraction == 0 then none
    else some (whole + 1 + fraction + exponentLength (rest.drop fraction))
  | rest =>
    if whole == 0 then none
    else if rest.head? == some 'n' then some (whole + 1)
    else some (whole + exponentLength rest)

def numberLength? (cs : List Char) : Option Nat :=
  match cs with
  | '0' :: base :: rest =>
    match baseDigits? base with
    | none => decimalLength? cs
    | some isDigit =>
      let digits := digitsLength isDigit rest
      if digits == 0 then some 1
      else if (rest.drop digits).head? == some 'n' then some (digits + 3)
      else some (digits + 2)
  | _ => decimalLength? cs

/-! ### Strings -/

def escapeLength? : List Char → Option Nat
  | '\\' :: 'x' :: a :: b :: _ => if isHexDigit a && isHexDigit b then some 4 else none
  | '\\' :: 'u' :: '{' :: cs => (bracedCodeLength? cs).map (· + 3)
  | '\\' :: 'u' :: a :: b :: c :: d :: _ =>
    if [a, b, c, d].all isHexDigit then some 6 else none
  | '\\' :: '\r' :: '\n' :: _ => some 3
  | '\\' :: c :: cs =>
    if c == 'x' || c == 'u' then none
    else if '0' ≤ c && c ≤ '7' then
      some (2 + ((cs.take 2).takeWhile fun d => '0' ≤ d && d ≤ '7').length)
    else some 2
  | _ => none

/-- The length of a string up to its closing quote. The count says how many characters of an
escape sequence are still to be passed. Before the closing quote there may be line ends. -/
def stringTail? (quote : Char) : Nat → List Char → Option Nat
  | _, [] => none
  | skip + 1, _ :: cs => (stringTail? quote skip cs).map (· + 1)
  | 0, c :: cs =>
    if c == quote then some 1
    else if c == '\\' then
      match escapeLength? (c :: cs) with
      | none => none
      | some n => (stringTail? quote (n - 1) cs).map (· + 1)
    else if c == '\n' || c == '\r' then
      let blanks := (cs.takeWhile isSpace).length
      if (cs.drop blanks).head? == some quote then some (blanks + 2) else none
    else (stringTail? quote 0 cs).map (· + 1)

def stringLength? : List Char → Option Nat
  | '"' :: cs => (stringTail? '"' 0 cs).map (· + 1)
  | '\'' :: cs => (stringTail? '\'' 0 cs).map (· + 1)
  | _ => none

def templateLength : List Char → Nat
  | [] => 0
  | '`' :: _ | '\\' :: _ | '$' :: '{' :: _ => 0
  | _ :: cs => 1 + templateLength cs

/-! ### Regular expressions -/

/-- The length of a regular expression up to its closing slash; the flag says that a class in
brackets is open. -/
def regexTail? : Bool → List Char → Option Nat
  | _, [] => none
  | inClass, c :: cs =>
    if c == '\n' then none
    else if c == '\\' then
      match cs with
      | [] => none
      | d :: ds => if d == '\n' then none else (regexTail? inClass ds).map (· + 2)
    else if inClass then (regexTail? (c != ']') cs).map (· + 1)
    else if c == '/' then some 1
    else (regexTail? (c == '[') cs).map (· + 1)

def regexLength? : List Char → Option Nat
  | '/' :: c :: cs =>
    if c == '/' then none
    else
      match regexTail? false (c :: cs) with
      | none => none
      | some n =>
        let flags := ((c :: cs).drop n).takeWhile fun f => 'a' ≤ f && f ≤ 'z'
        some (1 + n + flags.length)
  | _ => none

/-! ### Markup -/

def referenceLength? : List Char → Option Nat
  | '&' :: '#' :: x :: cs =>
    let isHex := x == 'x' || x == 'X'
    let body := if isHex then cs else x :: cs
    let digits := (body.takeWhile (if isHex then isHexDigit else Char.isDigit)).length
    let limit := if isHex then 6 else 5
    if digits != 0 && digits ≤ limit && (body.drop digits).head? == some ';' then
      some (digits + (if isHex then 4 else 3))
    else none
  | '&' :: cs =>
    let letters := (cs.takeWhile Char.isAlpha).length
    if letters != 0 && letters ≤ 30 && (cs.drop letters).head? == some ';' then some (letters + 2)
    else none
  | _ => none

/-- The length of an attribute's string up to its closing quote. The count says how many
characters are still to be passed. -/
def attributeTail? (quote : Char) : Nat → List Char → Option Nat
  | _, [] => none
  | skip + 1, _ :: cs => (attributeTail? quote skip cs).map (· + 1)
  | 0, c :: cs =>
    if c == quote then some 1
    else if c == '&' then
      match referenceLength? (c :: cs), cs with
      | some n, _ => (attributeTail? quote (n - 1) cs).map (· + 1)
      | none, d :: _ =>
        if d == '#' || d.isAlpha then none else (attributeTail? quote 1 cs).map (· + 1)
      | none, [] => none
    else (attributeTail? quote 0 cs).map (· + 1)

def attributeLength? : List Char → Option Nat
  | '"' :: cs => (attributeTail? '"' 0 cs).map (· + 1)
  | '\'' :: cs => (attributeTail? '\'' 0 cs).map (· + 1)
  | _ => none

/-- Does a text between tags hold more than line ends and the blanks after them? -/
def showsText (atLineEnd : Bool) : List Char → Bool
  | [] => false
  | c :: cs =>
    if c == '\n' then showsText true cs
    else if atLineEnd && isSpace c then showsText true cs
    else true

/-- The length of the text between tags in front. -/
def markupTextLength? (cs : List Char) : Option Nat :=
  let text := cs.takeWhile fun c => ! ['<', '>', '{', '}', '&'].contains c
  if showsText false text then some text.length else none

/-- The length of a name with dashes in front. -/
def markupNameLength? (cs : List Char) : Option Nat :=
  let isPlain (c : Char) := c.isAlphanum || c == '_' || c == '$'
  match cs with
  | [] => none
  | c :: _ =>
    let n := (cs.takeWhile fun d => isPlain d || d == '-').length
    if isPlain c && !c.isDigit && (cs.take n).contains '-' then some n else none

/-! ### Operators -/

/-- All operators, so that the longest one at a place can be told. -/
def operators : List String :=
  [">>>=", "===", "!==", "**=", "<<=", ">>=", ">>>", "&&=", "||=", "??=", "...", "=>", "==", "!=",
   "<=", ">=", "&&", "||", "??", "?.", "++", "--", "+=", "-=", "*=", "/=", "%=", "&=", "|=", "^=",
   "<<", ">>", "**", "=", "!", "<", ">", "+", "-", "*", "/", "%", "&", "|", "^", "~", "?", ":", ".",
   ","]

def operatorAt? (cs : List Char) : Option String :=
  operators.find? fun op => op.toList.isPrefixOf cs

/-! ### All lexemes -/

/-- A word, a mark or a literal. -/
inductive Lexeme where
  /-- Exactly these characters. -/
  | symbol (text : String)
  /-- One of these operators, and no longer one. -/
  | operator (texts : List String)
  /-- One of these words. -/
  | word (texts : List String)
  /-- Any name but these. -/
  | name (excluded : List String)
  /-- A name after a hash. -/
  | privateName
  | number
  | string
  | escape
  | templateText
  | regex
  | markupText
  | markupName
  | markupReference
  | attribute
  /-- The mark of an optional step, which no digit follows. -/
  | optionalStep
  /-- The question mark of a condition. -/
  | condition
  /-- A first line that names an interpreter. -/
  | hashBang
deriving DecidableEq, Repr

/-- Does the question mark in front ask for a condition? What follows tells it apart from the marks
of optional steps and optional parameters. -/
def isCondition : List Char → Bool
  | '?' :: '?' :: _ => false
  | '?' :: cs =>
    match cs.dropWhile isSpace with
    | ':' :: _ | ')' :: _ | ',' :: _ => false
    | '.' :: rest => rest.head?.any Char.isDigit
    | _ => true
  | _ => false

def Lexeme.length? (l : Lexeme) (cs : List Char) : Option Nat :=
  match l with
  | .symbol text => if text.toList.isPrefixOf cs then some text.length else none
  | .operator texts =>
    match operatorAt? cs with
    | none => none
    | some op => if texts.contains op then some op.length else none
  | .word texts =>
    let n := nameLength cs
    if n != 0 && texts.contains (String.ofList (cs.take n)) then some n else none
  | .name excluded =>
    let n := nameLength cs
    if n == 0 || excluded.contains (String.ofList (cs.take n)) then none else some n
  | .privateName =>
    match cs with
    | '#' :: rest => if nameLength rest == 0 then none else some (1 + nameLength rest)
    | _ => none
  | .number => numberLength? cs
  | .string => stringLength? cs
  | .escape => escapeLength? cs
  | .templateText => if templateLength cs == 0 then none else some (templateLength cs)
  | .regex => regexLength? cs
  | .markupText => markupTextLength? cs
  | .markupName => markupNameLength? cs
  | .markupReference => referenceLength? cs
  | .attribute => attributeLength? cs
  | .optionalStep =>
    match cs with
    | '?' :: '.' :: rest => if rest.head?.any Char.isDigit then none else some 2
    | _ => none
  | .condition => if isCondition cs then some 1 else none
  | .hashBang =>
    match cs with
    | '#' :: '!' :: rest => some (2 + (rest.takeWhile fun c => c != '\n').length)
    | _ => none

end RefPages.Syntax
