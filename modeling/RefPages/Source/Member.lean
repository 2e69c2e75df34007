import RefPages.Reference
import RefPages.Source.Declaration

/-!
# Members and parameters

The properties that an interface or an object type lists, the methods of a class, and the
parameters of a function, as they stand in the tree.
-/

namespace RefPages.Source

open Syntax

/-- The type in an annotation. A comment counts as one if it stands first. -/
def annotated? (ascription : Node) : Option Node := ascription.named.head?

def ascribedText (ascription? : Option Node) : TypeText :=
  match ascription?.bind annotated? with
  | none => TypeText.any
  | some type => TypeText.ofSource type.text

/-- The characters that quote a name. -/
def isQuote (c : Char) : Bool := c == '"' || c == '\''

/-- The name of a member, without the quotes of a string. -/
def propertyName (n : Node) : String :=
  if n.is .string then
    let inner := n.text.toList.dropWhile isQuote
    String.ofList (inner.reverse.dropWhile isQuote).reverse
  else n.text

/-! ### Members of interfaces and object types -/

/-- The type of a member. A method is shown as a function. -/
def memberType? (n : Node) : Option TypeText :=
  match n.kind with
  | .propertySignature => some (ascribedText (n.field? .type))
  | .methodSignature =>
    -- the parameters are shown as they are written, with their parentheses
    let parameters := ((n.field? .parameters).map Node.text).getD "()"
    let result := (((n.field? .returnType).bind annotated?).map Node.text).getD "void"
    some (TypeText.ofSource (parameters ++ " => " ++ result))
  | _ => none

/-- A member of an interface or an object type, with the siblings before it. -/
def member? (before : List Node) (n : Node) : Option Member :=
  match memberType? n, n.field? .name with
  | some type, some name =>
    let doc := (leadingComment? before).getD Comment.empty
    let optional := n.children.any fun child => child.is .questionMark
    some ⟨propertyName name, type, doc.propertyText, !optional, doc.defaultValue?⟩
  | _, _ => none

def members (body : Node) : List Member :=
  body.placed.filterMap fun (before, n) => member? before n

/-! ### Parameters -/

def parameterNodes (function : Node) : List Node :=
  match function.field? .parameters with
  | some parameters =>
    parameters.named.filter fun n => n.is .requiredParameter || n.is .optionalParameter
  -- an arrow function with one bare parameter has no list
  | none => (function.field? .parameter).toList

/-- A name without the dots of a rest parameter. -/
def dropDots : List Char → List Char
  | '.' :: '.' :: '.' :: cs => dropDots cs
  | cs => cs

/-- The parameter that binds a pattern. -/
def parameterOf? (doc : Comment) (pattern : Node) (type : TypeText) (default? : Option String)
    (optional : Bool) : Option Member :=
  if pattern.is .this then none
  else
    let name := Text.collapsed pattern.text
    let comment := (doc.param? (String.ofList (dropDots name.toList))).getD ""
    -- a rest parameter or one with a default need not be given
    let required := !optional && !pattern.is .restPattern && default?.isNone
    some ⟨name, type, comment, required, default?⟩

/-- A parameter as a page shows it. The type of the object that a method is called on is none. -/
def parameter? (doc : Comment) (n : Node) : Option Member :=
  match n.kind with
  | .requiredParameter | .optionalParameter =>
    match n.field? .pattern with
    | none => none
    | some pattern =>
      let default? := (n.field? .value).map fun value => Text.collapsed value.text
      parameterOf? doc pattern (ascribedText (n.field? .type)) default? (n.is .optionalParameter)
  | .identifier => parameterOf? doc n TypeText.any none false
  | _ => none

/-! ### Methods -/

/-- The members of a class, each with the siblings before it. -/
def classMembers (classNode : Node) : List (List Node × Node) :=
  match classNode.field? .body with
  | none => []
  | some body => body.placed

/-- The name of a method as it is written. -/
def writtenName? (n : Node) : Option String := (n.field? .name).map Node.text

def isConstructor (n : Node) : Bool :=
  n.is .methodDefinition && writtenName? n == some "constructor"

/-- The constructor of a class, with the siblings before it. -/
def constructor? (classNode : Node) : Option (List Node × Node) :=
  (classMembers classNode).find? fun (_, n) => isConstructor n

/-- Does a word before a method hide it from pages? -/
def hidesMethod (n : Node) : Bool :=
  match n.kind with
  | .accessorWord => true
  | .accessModifier => n.text == "private" || n.text == "protected"
  | _ => false

def isPublicMethod (n : Node) : Bool :=
  n.is .methodDefinition &&
    (match n.field? .name with
      | none => false
      | some name =>
        !name.is .privateName && name.text != "constructor" && !n.children.any hidesMethod)

/-- A method or constructor as a page shows it. -/
def methodOf (before : List Node) (n : Node) : Method :=
  let before := match writtenName? n with
    | none => before
    | some name => beforeOverloads name before
  let doc := (leadingComment? before).getD Comment.empty
  -- the quotes of a name that is a string are dropped here, after its overloads were found
  let name := ((n.field? .name).map propertyName).getD ""
  let parameters := (parameterNodes n).filterMap (parameter? doc)
  Method.of name (doc.textWithout [Comment.paramTag]) parameters

end RefPages.Source
