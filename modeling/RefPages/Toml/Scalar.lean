import RefPages.Toml.Value

/-!
# Keys, texts, numbers and moments of TOML

Readers for the parts of a TOML document that hold no other values. Each takes the characters that
are left and gives what it read with the characters after it, or `none` where it does not fit.
-/

namespace RefPages.Toml

/-- What a reader gives: a result and the characters after it. -/
abbrev Read (α : Type) := Option (α × List Char)

/-! ### Blanks, comments and line ends -/

def isGap (c : Char) : Bool := c == ' ' || c == '\t'

/-- The characters that may stand in a comment or a text: all but controls other than the tab. -/
def isVisible (c : Char) : Bool := c == '\t' || (0x20 ≤ c.toNat && c.toNat != 0x7F)

def dropGap (cs : List Char) : List Char := cs.dropWhile isGap

def lineEnd? : List Char → Option (List Char)
  | '\n' :: cs | '\r' :: '\n' :: cs => some cs
  | _ => none

/-- Drop blanks and a comment up to the end of a line. -/
def dropComment (cs : List Char) : List Char :=
  match dropGap cs with
  | '#' :: cs => cs.dropWhile isVisible
  | cs => cs

/-- Drop the rest of a line: blanks, a comment and the line end. The last line may have none. -/
def restOfLine? (cs : List Char) : Option (List Char) :=
  match dropComment cs with
  | [] => some []
  | cs => lineEnd? cs

/-- Drop blanks, comments and line ends. At most as many lines are dropped as the number says. -/
def dropLinesUpTo : Nat → List Char → List Char
  | 0, cs => cs
  | limit + 1, cs =>
    match lineEnd? (dropComment cs) with
    | some rest => dropLinesUpTo limit rest
    | none => dropComment cs

def dropLines (cs : List Char) : List Char := dropLinesUpTo (cs.length + 1) cs

/-! ### Texts -/

def hexValue? (c : Char) : Option Nat :=
  if c.isDigit then some (c.toNat - '0'.toNat)
  else if 'a' ≤ c && c ≤ 'f' then some (c.toNat - 'a'.toNat + 10)
  else if 'A' ≤ c && c ≤ 'F' then some (c.toNat - 'A'.toNat + 10)
  else none

/-- The number that exactly so many hexadecimal digits in front stand for. -/
def hexDigits? : Nat → Nat → List Char → Read Nat
  | 0, n, cs => some (n, cs)
  | _ + 1, _, [] => none
  | count + 1, n, c :: cs =>
    match hexValue? c with
    | none => none
    | some d => hexDigits? count (16 * n + d) cs

/-- The character with the code that so many hexadecimal digits in front stand for. -/
def codePoint? (count : Nat) (cs : List Char) : Read Char :=
  match hexDigits? count 0 cs with
  | none => none
  | some (n, rest) =>
    if n.isValidChar then some (Char.ofNat n, rest) else none

def escape? : List Char → Read Char
  | 'b' :: cs => some ('\x08', cs)
  | 't' :: cs => some ('\t', cs)
  | 'n' :: cs => some ('\n', cs)
  | 'f' :: cs => some ('\x0c', cs)
  | 'r' :: cs => some ('\r', cs)
  | 'e' :: cs => some ('\x1b', cs)
  | '"' :: cs => some ('"', cs)
  | '\\' :: cs => some ('\\', cs)
  | 'x' :: cs => codePoint? 2 cs
  | 'u' :: cs => codePoint? 4 cs
  | 'U' :: cs => codePoint? 8 cs
  | _ => none

def basicTail? : Nat → List Char → Read (List Char)
  | 0, _ => none
  | _ + 1, [] => none
  | _ + 1, '"' :: cs => some ([], cs)
  | limit + 1, '\\' :: cs =>
    match escape? cs with
    | none => none
    | some (c, cs) => (basicTail? limit cs).map fun (text, rest) => (c :: text, rest)
  | limit + 1, c :: cs =>
    if isVisible c then (basicTail? limit cs).map fun (text, rest) => (c :: text, rest) else none

def literalTail? : List Char → Read (List Char)
  | [] => none
  | '\'' :: cs => some ([], cs)
  | c :: cs =>
    if isVisible c then (literalTail? cs).map fun (text, rest) => (c :: text, rest) else none

/-- The end of a text of several lines: three quotes, before which up to two more belong to the
text. -/
def closing? (quote : Char) (cs : List Char) : Read (List Char) :=
  let quotes := (cs.takeWhile (· == quote)).length
  if quotes < 3 then none
  else
    let inner := min (quotes - 3) 2
    some (List.replicate inner quote, cs.drop (inner + 3))

/-- Drop a line end after a backslash, and all blanks and line ends after it. -/
def continuation? (cs : List Char) : Option (List Char) :=
  (lineEnd? (dropGap cs)).map fun rest => rest.dropWhile fun c => isGap c || c == '\n' || c == '\r'

/-- The rest of a text of several lines. In double quotes a backslash escapes a character or joins
two lines. -/
def linesTail? (quote : Char) : Nat → List Char → Read (List Char)
  | 0, _ => none
  | limit + 1, cs =>
    match closing? quote cs with
    | some r => some r
    | none =>
      let more (text : List Char) (rest : List Char) : Read (List Char) :=
        (linesTail? quote limit rest).map fun (after, rest) => (text ++ after, rest)
      match cs with
      | [] => none
      | '\n' :: rest | '\r' :: '\n' :: rest => more ['\n'] rest
      | c :: rest =>
        if c == '\\' && quote == '"' then
          match continuation? rest, escape? rest with
          | some after, _ => more [] after
          | none, some (e, after) => more [e] after
          | none, none => none
        else if isVisible c then more [c] rest
        else none

/-- A line end right after the opening quotes is no part of a text. -/
def dropFirstLineEnd (cs : List Char) : List Char := (lineEnd? cs).getD cs

def quoted? : List Char → Read (List Char)
  | '"' :: cs => basicTail? (cs.length + 1) cs
  | '\'' :: cs => literalTail? cs
  | _ => none

def text? (cs : List Char) : Read (List Char) :=
  match cs with
  | '"' :: '"' :: '"' :: cs =>
    let cs := dropFirstLineEnd cs
    linesTail? '"' (cs.length + 1) cs
  | '\'' :: '\'' :: '\'' :: cs =>
    let cs := dropFirstLineEnd cs
    linesTail? '\'' (cs.length + 1) cs
  | cs => quoted? cs

/-! ### Keys -/

/-- The characters of a key without quotes. -/
def isBare (c : Char) : Bool := c.isAlphanum || c == '_' || c == '-'

def keyPart? (cs : List Char) : Read String :=
  match quoted? cs with
  | some (name, rest) => some (String.ofList name, rest)
  | none =>
    let name := cs.takeWhile isBare
    if name.isEmpty then none else some (String.ofList name, cs.dropWhile isBare)

/-- The further parts of a key, each after a dot. -/
def keyTail? : Nat → List Char → Read (List String)
  | 0, _ => none
  | limit + 1, cs =>
    match dropGap cs with
    | '.' :: rest =>
      match keyPart? (dropGap rest) with
      | none => none
      | some (part, rest) => (keyTail? limit rest).map fun (parts, rest) => (part :: parts, rest)
    | rest => some ([], rest)

def key? (cs : List Char) : Read (String × List String) :=
  match keyPart? (dropGap cs) with
  | none => none
  | some (part, rest) =>
    (keyTail? (rest.length + 1) rest).map fun (parts, rest) => ((part, parts), rest)

/-! ### Numbers -/

def digits? (base : Nat) (cs : List Char) : Option (Nat × Nat) :=
  let rec go : Nat → Nat → Bool → List Char → Option (Nat × Nat)
    | n, count, afterDigit, [] => if afterDigit then some (n, count) else none
    | n, count, afterDigit, c :: cs =>
      if c == '_' then if afterDigit then go n count false cs else none
      else
        match hexValue? c with
        | none => none
        | some d => if d < base then go (base * n + d) (count + 1) true cs else none
  go 0 0 false cs

/-- Digits of a decimal integer: no zero stands before others. -/
def wholeDigits? (cs : List Char) : Option (Nat × Nat) :=
  match cs with
  | '0' :: _ :: _ => none
  | cs => digits? 10 cs

def sign : List Char → Bool × List Char
  | '-' :: cs => (true, cs)
  | '+' :: cs => (false, cs)
  | cs => (false, cs)

/-- The number nearest to `digits · 10 ^ exponent`. -/
def nearestFloat? (negative : Bool) (digits count : Nat) (exponent : Int) : Option FloatValue :=
  let order : Int := count + exponent
  if digits = 0 || order < -400 then some (.finite negative ⟨0, 0⟩)
  else if 400 < order then none
  else
    let (num, den) :=
      if 0 ≤ exponent then (digits * Nat.pow 10 exponent.toNat, 1)
      else (digits, Nat.pow 10 (-exponent).toNat)
    (Decimal.Binary.nearest? num den).map (.finite negative)

def exponent? (cs : List Char) : Option Int :=
  match cs with
  | [] => some 0
  | _ :: cs =>
    let (negative, cs) := sign cs
    (digits? 10 cs).map fun (n, _) => if negative then -(n : Int) else n

/-- A decimal number from its characters. -/
def decimal? (cs : List Char) : Option Value :=
  let (negative, cs) := sign cs
  if cs == "inf".toList then some (.float (.infinite negative))
  else if cs == "nan".toList then some (.float .nan)
  else
    let isExponent (c : Char) := c == 'e' || c == 'E'
    let mantissa := cs.takeWhile fun c => !isExponent c
    let exponent := cs.dropWhile fun c => !isExponent c
    let whole := mantissa.takeWhile (· != '.')
    let fraction := mantissa.dropWhile (· != '.')
    match wholeDigits? whole, fraction, exponent? exponent with
    | some (n, count), [], some e =>
      if exponent.isEmpty then some (.integer (if negative then -(n : Int) else n))
      else (nearestFloat? negative n count e).map .float
    | some (n, count), _ :: fraction, some e =>
      match digits? 10 fraction with
      | none => none
      | some (f, places) =>
        let digits := n * Nat.pow 10 places + f
        (nearestFloat? negative digits (count + places) (e - places)).map .float
    | _, _, _ => none

def number? (cs : List Char) : Option Value :=
  let based (base : Nat) (cs : List Char) := (digits? base cs).map fun (n, _) => Value.integer n
  match cs with
  | '0' :: 'x' :: cs => based 16 cs
  | '0' :: 'o' :: cs => based 8 cs
  | '0' :: 'b' :: cs => based 2 cs
  | cs => decimal? cs

/-! ### Moments -/

/-- The number that exactly so many digits in front stand for. -/
def fixed? (count : Nat) (cs : List Char) : Read Nat :=
  let front := cs.take count
  if front.length == count && front.all Char.isDigit then
    some (front.foldl (fun n c => 10 * n + (c.toNat - '0'.toNat)) 0, cs.drop count)
  else none

def monthDays (year month : Nat) : Nat :=
  if month == 2 then
    if year % 4 == 0 && (year % 100 != 0 || year % 400 == 0) then 29 else 28
  else if [4, 6, 9, 11].contains month then 30
  else 31

def dropDate? (cs : List Char) : Option (List Char) := do
  let (year, cs) ← fixed? 4 cs
  let '-' :: cs := cs | none
  let (month, cs) ← fixed? 2 cs
  let '-' :: cs := cs | none
  let (day, cs) ← fixed? 2 cs
  if 1 ≤ month && month ≤ 12 && 1 ≤ day && day ≤ monthDays year month then some cs else none

/-- Drop the hours and minutes of a time. -/
def dropMinutes? (cs : List Char) : Option (List Char) := do
  let (hour, cs) ← fixed? 2 cs
  let ':' :: cs := cs | none
  let (minute, cs) ← fixed? 2 cs
  if hour ≤ 23 && minute ≤ 59 then some cs else none

def dropTime? (cs : List Char) : Option (List Char) := do
  let cs ← dropMinutes? cs
  match cs with
  | ':' :: cs =>
    let (second, cs) ← fixed? 2 cs
    if 60 < second then none
    else
      match cs with
      | '.' :: cs => if cs.head?.any Char.isDigit then some (cs.dropWhile Char.isDigit) else none
      | cs => some cs
  | cs => some cs

/-- Drop the offset of a time from the common one, which may be missing. -/
def dropOffset? : List Char → Option (List Char)
  | 'Z' :: cs | 'z' :: cs => some cs
  | '+' :: cs | '-' :: cs => dropMinutes? cs
  | cs => some cs

/-- Are the characters a date, a time or both? -/
def isMoment (cs : List Char) : Bool :=
  match dropDate? cs with
  | some [] => true
  | some (c :: rest) =>
    (c == 'T' || c == 't' || c == ' ') && (dropTime? rest).bind dropOffset? == some []
  | none => dropTime? cs == some []

/-! ### Scalars without quotes -/

/-- The characters of a number or a moment. -/
def isScalarChar (c : Char) : Bool :=
  c.isAlphanum || c == '_' || c == '+' || c == '-' || c == '.' || c == ':'

/-- The characters of a scalar in front. The time after a date may have a blank before it. -/
def scalarChars (cs : List Char) : List Char :=
  let first := cs.takeWhile isScalarChar
  match dropDate? first, cs.dropWhile isScalarChar with
  | some [], ' ' :: rest =>
    if rest.head?.any Char.isDigit then first ++ ' ' :: rest.takeWhile isScalarChar else first
  | _, _ => first

/-- A boolean, a number or a moment. -/
def scalar? (cs : List Char) : Read Value :=
  let front := scalarChars cs
  let rest := cs.drop front.length
  if front == "true".toList then some (.boolean true, rest)
  else if front == "false".toList then some (.boolean false, rest)
  else if isMoment front then some (.moment, rest)
  else (number? front).map fun v => (v, rest)

end RefPages.Toml
