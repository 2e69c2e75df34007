import RefPages.Decimal.Shortest
import RefPages.Failure
import RefPages.Page.Options
import RefPages.Text.Quoted
import RefPages.Toml.Value

/-!
# Settings from TOML values

The settings of a project and the entries of its pages, read from TOML values. The keys of a table
are looked at in the order of their characters and the first one that does not fit is reported;
after that a missing path is, and last a subject that is missing or not the only one.

An entry has six fields, three of which go by two names. It may also be an array that gives the
fields by their position.
-/

namespace RefPages.Settings

open Toml

abbrev Decoded (α : Type) := Except String α

/-! ### What stands where something else was expected -/

/-- A number of TOML in a message. -/
def floatText : FloatValue → String
  | .nan => "NaN"
  | .infinite negative => if negative then "-inf" else "inf"
  | .finite negative value => (if negative then "-" else "") ++ Decimal.render value

/-- The power of two with 63 zeros, the first integer that does not fit 64 digits with a sign. -/
def bound64 : Int := 0x8000000000000000

/-- The power of two with 127 zeros, the first integer that does not fit 128 digits with a sign. -/
def bound128 : Int := 0x80000000000000000000000000000000

/-- The description of an integer. One that does not fit 64 digits is said to be wider. -/
def integerText (n : Int) : String :=
  let text := "integer `" ++ toString n ++ "`"
  if -bound64 ≤ n && n < 2 * bound64 then text
  else if n < bound128 then text ++ " as i128"
  else text ++ " as u128"

def describe : Value → String
  | .string text => "string " ++ Text.quote text
  | .integer n => integerText n
  | .float x => "floating point `" ++ floatText x ++ "`"
  | .boolean b => "boolean `" ++ (if b then "true" else "false") ++ "`"
  | .moment => "map"
  | .array _ => "sequence"
  | .table _ => "map"

def wrongType (value : Value) (expected : String) : String :=
  "invalid type: " ++ describe value ++ ", expected " ++ expected

def text (expected : String) : Value → Decoded String
  | .string s => .ok s
  | v => .error (wrongType v expected)

def items : Value → Decoded (List Value)
  | .array vs => .ok vs
  | v => .error (wrongType v "a sequence")

/-! ### Fields of an entry -/

inductive EntryField where
  | sourcePath
  | destinationPath
  | className
  | component
  | hook
  | description
deriving DecidableEq, Repr

namespace EntryField

def word : EntryField → String
  | .sourcePath => "source_path"
  | .destinationPath => "destination_path"
  | .className => "class_name"
  | .component => "component"
  | .hook => "hook"
  | .description => "description"

/-- The keys that a field can be given by, in the order in which messages list them. -/
def keys : List (String × EntryField) :=
  [("sourcePath", .sourcePath), ("source_path", .sourcePath),
   ("destinationPath", .destinationPath), ("destination_path", .destinationPath),
   ("className", .className), ("class_name", .className), ("component", .component),
   ("hook", .hook), ("description", .description)]

/-- The field that a key gives. -/
def ofKey? (key : String) : Option EntryField := (keys.find? fun k => k.1 == key).map Prod.snd

/-- The fields by their position in an array. -/
def all : List EntryField :=
  [.sourcePath, .destinationPath, .className, .component, .hook, .description]

end EntryField

/-- The values of the fields that are given. -/
abbrev Fields := EntryField → Option String

def Fields.put (fields : Fields) (field : EntryField) (value : String) : Fields :=
  fun f => if f = field then some value else fields f

def Fields.none : Fields := fun _ => Option.none

def unknownKey (key : String) : String :=
  let known := ", ".intercalate (EntryField.keys.map fun k => "`" ++ k.1 ++ "`")
  "unknown field `" ++ key ++ "`, expected one of " ++ known

/-- Read the fields from keys with values, one after the other. -/
def fieldsOfKeys : Fields → List (String × Value) → Decoded Fields
  | fields, [] => .ok fields
  | fields, (key, value) :: more =>
    match EntryField.ofKey? key with
    | Option.none => .error (unknownKey key)
    | some field =>
      -- two spellings of one field are the same field
      if (fields field).isSome then .error ("duplicate field `" ++ field.word ++ "`")
      else
        match text "a string" value with
        | .error reason => .error reason
        | .ok s => fieldsOfKeys (fields.put field s) more

/-- Read the fields from values by their position. -/
def fieldsOfArray : Fields → List EntryField → List Value → Decoded Fields
  | fields, field :: more, value :: values =>
    match text "a string" value with
    | .error reason => .error reason
    | .ok s => fieldsOfArray (fields.put field s) more values
  | fields, _, _ => .ok fields

/-- The keys of a table in the order of their characters. -/
def sorted (entries : List (String × Value)) : List (String × Value) :=
  entries.mergeSort fun a b => decide (a.1 ≤ b.1)

/-! ### Entries -/

def required (fields : Fields) (field : EntryField) : Decoded String :=
  match fields field with
  | Option.none => .error ("missing field `" ++ field.word ++ "`")
  | some s => .ok s

/-- The entry that fields give. A blank description is none. -/
def entryOfFields (fields : Fields) : Decoded Entry :=
  match required fields .sourcePath, required fields .destinationPath with
  | .error reason, _ => .error reason
  | _, .error reason => .error reason
  | .ok source, .ok destination =>
    match Subject.ofFields (fields .className) (fields .component) (fields .hook) with
    | .error problem => .error (Failure.message (.invalidSubject problem))
    | .ok subject =>
      -- the subject is checked before the description is looked at
      let description? := (fields .description).filter fun d => !Text.blank d
      .ok ⟨source, destination, subject, description?⟩

/-- What an entry is called in messages. -/
def entryName : String := "struct RawReferenceDoc"

def tooShort (length : Nat) : String :=
  "invalid length " ++ toString length ++ ", expected " ++ entryName ++ " with 6 elements"

/-- The key that a moment has where a table was expected. -/
def momentKey : String := "$__toml_private_datetime"

def entry : Value → Decoded Entry
  | .table entries =>
    match fieldsOfKeys Fields.none (sorted entries) with
    | .error reason => .error reason
    | .ok fields => entryOfFields fields
  | .array values =>
    match fieldsOfArray Fields.none EntryField.all values with
    | .error reason => .error reason
    | .ok fields =>
      -- the two paths are required, and the others may be left out
      if values.length < 2 then .error (tooShort values.length) else entryOfFields fields
  | .moment => .error (unknownKey momentKey)
  | v => .error (wrongType v entryName)

end RefPages.Settings
