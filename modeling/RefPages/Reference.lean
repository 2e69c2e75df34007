import RefPages.Comment.Basic
import RefPages.Subject

/-!
# References

What a page shows of a declaration: its comment, the properties of its options interface or the
parameters of its constructor, and its methods. Types are kept as they are written, on one line.
-/

namespace RefPages

/-! ### Types -/

structure TypeText where
  text : String
deriving DecidableEq, Repr

namespace TypeText

/-- The type written by the given text: blanks are collapsed, and the bar that may lead a union is
dropped. -/
def ofSource (s : String) : TypeText :=
  match Text.collapse s.toList with
  | '|' :: ' ' :: cs => ⟨String.ofList (Text.trimStart cs)⟩
  | cs => ⟨String.ofList cs⟩

/-- The type of what has no annotation. -/
def any : TypeText := ⟨"any"⟩

end TypeText

/-- A text inside the double quotes of an attribute: its own double quotes become single ones. -/
def attributeValue (s : String) : String :=
  String.ofList (s.toList.map fun c => if c = '"' then '\'' else c)

/-! ### Members, interfaces and methods -/

structure Member where
  name : String
  type : TypeText
  comment : String
  required : Bool
  default? : Option String := none
deriving DecidableEq, Repr

/-- Is the member marked as deprecated anywhere in its comment? -/
def Member.isDeprecated (m : Member) : Bool :=
  Text.contains Comment.deprecatedMarker m.comment.toList

/-- A named list of properties. -/
structure Interface where
  name : String
  properties : List Member
deriving DecidableEq, Repr

structure Method where
  name : String
  /-- The name with the list of parameters, `name(a: A, b?: B)`. -/
  signature : String
  comment : String
  parameters : List Member
deriving DecidableEq, Repr

/-- A parameter inside a signature. It is marked as optional if it may be left out and has no
default. -/
def Member.inSignature (m : Member) : String :=
  m.name ++ (if m.required || m.default?.isSome then "" else "?") ++ ": " ++ m.type.text

namespace Method

def argumentList (parameters : List Member) : String :=
  ", ".intercalate (parameters.map Member.inSignature)

def of (name comment : String) (parameters : List Member) : Method :=
  ⟨name, name ++ "(" ++ argumentList parameters ++ ")", comment, parameters⟩

/-- What stands between the first opening parenthesis of the signature and a closing one at its
end. -/
def arguments (m : Method) : String :=
  match m.signature.toList.dropWhile (· != '(') with
  | [] => ""
  | _ :: rest =>
    match rest.reverse with
    | ')' :: inner => String.ofList inner.reverse
    | _ => ""

end Method

/-! ### The reference itself -/

/-- What fills the section of parameters on a page. -/
inductive Parameters where
  | ofInterface (definition : Interface)
  | ofConstructor (definition : Method)
  | none
deriving DecidableEq, Repr

/-- An interface goes before a constructor. -/
def Parameters.resolve : Option Interface → Option Method → Parameters
  | some i, _ => .ofInterface i
  | Option.none, some c => .ofConstructor c
  | Option.none, Option.none => .none

/-- Everything a page is made from. -/
structure Reference where
  subject : Subject
  comment : String
  parameters : Parameters
  methods : List Method
deriving DecidableEq, Repr

end RefPages
