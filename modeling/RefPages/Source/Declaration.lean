import RefPages.Comment.Basic
import RefPages.Syntax.Tree

/-!
# Declarations of a source file

The names that the statements at the top of a file declare, in order, each with the siblings before
its statement. Exports and ambient declarations are looked through. A variable whose value is a
function counts as one, also where the function is wrapped in a call or in parentheses:

    const Button = forwardRef((props: Props) => …)      function Button

The comment of a declaration is the nearest documentation comment before it. Other comments and
decorators may stand between the two, and where the declaration has overloads it is the comment of
the first one.
-/

namespace RefPages.Source

open Syntax

/-- What a declaration declares. -/
inductive Shape where
  | classShape
  /-- A function, or a variable with a function as its value. -/
  | function
  | interface
  | alias
  /-- Any other variable. -/
  | value
deriving DecidableEq, Repr

structure Declaration where
  name : String
  shape : Shape
  /-- The siblings before the statement, nearest first. -/
  before : List Node
  /-- The class, function, interface or alias itself. -/
  node : Node
deriving Repr

/-! ### Functions as values -/

mutual

/-- The function that a value is or wraps. -/
def functionIn? : Node → Option Node
  | .mk kind role? text children =>
    match kind with
    | .arrowFunction | .functionExpression => some (.mk kind role? text children)
    | .callExpression => functionInArguments? children
    | .parenthesizedExpression | .asExpression | .satisfiesExpression =>
      functionInFirst? children
    | _ => none

/-- The function that the first named node is or wraps. -/
def functionInFirst? : List Node → Option Node
  | [] => none
  | n :: ns => if n.isNamed then functionIn? n else functionInFirst? ns

/-- The first function that one of the nodes is or wraps. -/
def functionInAny? : List Node → Option Node
  | [] => none
  | n :: ns =>
    match functionIn? n with
    | some f => some f
    | none => functionInAny? ns

/-- The first function among the arguments of a call with these children. -/
def functionInArguments? : List Node → Option Node
  | [] => none
  | .mk _ role? _ children :: ns =>
    if role? == some .arguments then functionInAny? children else functionInArguments? ns

end

/-! ### Declared names -/

/-- The declaration of a node that has its name in a field. -/
def Declaration.ofNode? (shape : Shape) (before : List Node) (n : Node) : Option Declaration :=
  (n.field? .name).map fun name => ⟨name.text, shape, before, n⟩

def Declaration.ofVariable? (before : List Node) (n : Node) : Option Declaration :=
  if n.is .variableDeclarator then
    match n.field? .name with
    | none => none
    | some name =>
      match (n.field? .value).bind functionIn? with
      | some f => some ⟨name.text, .function, before, f⟩
      | none => some ⟨name.text, .value, before, n⟩
  else none

mutual

/-- The names that a statement declares. -/
def declared (before : List Node) : Node → List Declaration
  | .mk kind role? text children =>
    let self := Node.mk kind role? text children
    match kind with
    | .exportStatement => declaredInExport before children
    | .ambientDeclaration => declaredInAll before children
    -- one statement may declare several variables
    | .variableDeclaration => self.named.filterMap (Declaration.ofVariable? before)
    | .classDeclaration => (Declaration.ofNode? .classShape before self).toList
    | .functionDeclaration => (Declaration.ofNode? .function before self).toList
    | .interfaceDeclaration => (Declaration.ofNode? .interface before self).toList
    | .typeAlias => (Declaration.ofNode? .alias before self).toList
    | _ => []

/-- The names that the declaration of an export with these children declares. -/
def declaredInExport (before : List Node) : List Node → List Declaration
  | [] => []
  | n :: ns =>
    if n.role? == some .declaration then declared before n else declaredInExport before ns

def declaredInAll (before : List Node) : List Node → List Declaration
  | [] => []
  | n :: ns => declared before n ++ declaredInAll before ns

end

def declarations (root : Node) : List Declaration :=
  root.placed.flatMap fun (before, statement) => declared before statement

/-- The first declaration of a name in one of the accepted shapes. -/
def find? (ds : List Declaration) (name : String) (accepts : Shape → Bool) : Option Declaration :=
  ds.find? fun d => d.name == name && accepts d.shape

/-! ### Comments -/

/-- The nearest documentation comment among siblings, nearest first. -/
def leadingComment? : List Node → Option Comment
  | [] => none
  | n :: before =>
    match n.kind with
    | .comment =>
      let raw := n.text.toList
      -- a plain comment between the two is passed
      if Comment.isDocumentation raw then some (Comment.parse raw) else leadingComment? before
    | .decorator => leadingComment? before
    | _ => none

mutual

/-- The name of a function or method without a body, which may be exported. -/
def overloadName? : Node → Option String
  | .mk kind role? text children =>
    match kind with
    | .functionSignature | .methodSignature =>
      ((Node.mk kind role? text children).field? .name).map Node.text
    | .exportStatement => overloadNameInExport? children
    | _ => none

/-- The name of the overload that an export with these children declares. -/
def overloadNameInExport? : List Node → Option String
  | [] => none
  | n :: ns => if n.role? == some .declaration then overloadName? n else overloadNameInExport? ns

end

/-- The siblings before the first of the overloads of a name. -/
def beforeOverloads (name : String) : List Node → List Node
  | [] => []
  | n :: before =>
    if overloadName? n == some name then beforeOverloads name before else n :: before

/-- The comment that documents what has the given name and siblings before it. -/
def commentOf? (name : String) (before : List Node) : Option Comment :=
  leadingComment? (beforeOverloads name before)

end RefPages.Source
