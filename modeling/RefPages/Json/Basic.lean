/-!
# JSON texts

The JSON values that reports are made of, written on one line or with one item on each line.
-/

namespace RefPages

inductive Json where
  | string (text : String)
  | boolean (value : Bool)
  | array (items : List Json)
  | object (fields : List (String × Json))
deriving Repr

namespace Json

/-! ### Strings -/

/-- A character inside a string. -/
def escapeChar (c : Char) : List Char :=
  if c = '"' || c = '\\' then ['\\', c]
  else if c = '\n' then ['\\', 'n']
  else if c = '\r' then ['\\', 'r']
  else if c = '\t' then ['\\', 't']
  else if c = '\x08' then ['\\', 'b']
  else if c = '\x0c' then ['\\', 'f']
  else if c.toNat < 0x20 then
    let digits := Nat.toDigits 16 c.toNat
    '\\' :: 'u' :: List.replicate (4 - digits.length) '0' ++ digits
  else [c]

def quoted (s : String) : String := "\"" ++ String.ofList (s.toList.flatMap escapeChar) ++ "\""

/-! ### Values -/

mutual

/-- The text of a value on one line. -/
def compact : Json → String
  | .string text => quoted text
  | .boolean value => if value then "true" else "false"
  | .array items => "[" ++ ",".intercalate (compactAll items) ++ "]"
  | .object fields => "\x7b" ++ ",".intercalate (compactFields fields) ++ "\x7d"

def compactAll : List Json → List String
  | [] => []
  | item :: items => compact item :: compactAll items

def compactFields : List (String × Json) → List String
  | [] => []
  | (key, value) :: fields => (quoted key ++ ":" ++ compact value) :: compactFields fields

end

/-- Items on lines of their own, between brackets. -/
def block (left right : String) (depth : Nat) (items : List String) : String :=
  let indent (n : Nat) := String.ofList (List.replicate (2 * n) ' ')
  if items.isEmpty then left ++ right
  else
    let lines := items.map fun item => indent (depth + 1) ++ item
    left ++ "\n" ++ ",\n".intercalate lines ++ "\n" ++ indent depth ++ right

mutual

/-- The text of a value with its parts on lines of their own, at a depth. -/
def prettyAt (depth : Nat) : Json → String
  | .string text => quoted text
  | .boolean value => if value then "true" else "false"
  | .array items => block "[" "]" depth (prettyAll (depth + 1) items)
  | .object fields => block "\x7b" "\x7d" depth (prettyFields (depth + 1) fields)

def prettyAll (depth : Nat) : List Json → List String
  | [] => []
  | item :: items => prettyAt depth item :: prettyAll depth items

def prettyFields (depth : Nat) : List (String × Json) → List String
  | [] => []
  | (key, value) :: fields =>
    (quoted key ++ ": " ++ prettyAt depth value) :: prettyFields depth fields

end

/-- The text of a value with its parts on lines of their own. -/
def pretty (j : Json) : String := prettyAt 0 j

end Json

end RefPages
