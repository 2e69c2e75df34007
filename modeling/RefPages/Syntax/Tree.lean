/-!
# Syntax trees

A syntax tree holds, for every node, its kind, the text it was written with and its children. A
child may have a role in its parent, such as its name or its body. Comments are nodes like all
others and stand among the children wherever they were written, so the siblings before a declaration
include the comment that documents it.

Only the kinds that some lookup asks for have a name of their own; all other nodes are `other`.
-/

namespace RefPages.Syntax

inductive Kind where
  -- statements
  | program
  | exportStatement
  | ambientDeclaration
  | variableDeclaration
  | variableDeclarator
  | classDeclaration
  | functionDeclaration
  | functionSignature
  | interfaceDeclaration
  | typeAlias
  -- parts of declarations
  | comment
  | decorator
  | methodDefinition
  | methodSignature
  | propertySignature
  | requiredParameter
  | optionalParameter
  | restPattern
  | ascription
  | extendsClause
  | accessModifier
  -- names
  | identifier
  | privateName
  | string
  | this
  -- types
  | typeIdentifier
  | nestedTypeIdentifier
  | genericType
  | parenthesizedType
  | intersectionType
  | objectType
  -- expressions
  | arrowFunction
  | functionExpression
  | callExpression
  | parenthesizedExpression
  | asExpression
  | satisfiesExpression
  | memberExpression
  | subscriptExpression
  | nonNullExpression
  | objectExpression
  | arrayExpression
  -- everything else
  | other
  /-- The mark of an optional member. -/
  | questionMark
  /-- The word that makes a method a getter or a setter. -/
  | accessorWord
deriving DecidableEq, Repr

/-- Marks and words are no nodes of their own when siblings are walked. -/
def Kind.isNamed : Kind → Bool
  | .questionMark | .accessorWord => false
  | _ => true

inductive Field where
  | name
  | value
  | declaration
  | body
  | parameters
  | parameter
  | pattern
  | type
  | returnType
  | typeArguments
  | arguments
deriving DecidableEq, Repr

inductive Node where
  | mk (kind : Kind) (role? : Option Field) (text : String) (children : List Node)
deriving Repr

namespace Node

def kind : Node → Kind
  | .mk kind _ _ _ => kind

def role? : Node → Option Field
  | .mk _ role? _ _ => role?

def text : Node → String
  | .mk _ _ text _ => text

def children : Node → List Node
  | .mk _ _ _ children => children

def leaf (kind : Kind) (text : String) : Node := .mk kind none text []

def withRole (role : Field) : Node → Node
  | .mk kind _ text children => .mk kind (some role) text children

def is (n : Node) (kind : Kind) : Bool := n.kind == kind

/-- Is the node more than a mark or a word? -/
def isNamed (n : Node) : Bool := n.kind.isNamed

/-- The children that are nodes of their own, in order. -/
def named (n : Node) : List Node := n.children.filter isNamed

/-- The first child in a role. -/
def field? (n : Node) (role : Field) : Option Node :=
  n.children.find? fun child => child.role? == some role

@[simp] theorem kind_mk (k : Kind) (r : Option Field) (t : String) (cs : List Node) :
    (mk k r t cs).kind = k := rfl

@[simp] theorem role?_mk (k : Kind) (r : Option Field) (t : String) (cs : List Node) :
    (mk k r t cs).role? = r := rfl

@[simp] theorem text_mk (k : Kind) (r : Option Field) (t : String) (cs : List Node) :
    (mk k r t cs).text = t := rfl

@[simp] theorem children_mk (k : Kind) (r : Option Field) (t : String) (cs : List Node) :
    (mk k r t cs).children = cs := rfl

/-! ### Children are smaller -/

/-- Children are smaller than their node, which recursion over trees rests on. -/
theorem sizeOf_lt_of_mem_children {n m : Node} (h : m ∈ n.children) : sizeOf m < sizeOf n := by
  cases n with
  | mk k r t cs =>
    have hm : sizeOf m < sizeOf cs := List.sizeOf_lt_of_mem h
    have hn : sizeOf cs < sizeOf (mk k r t cs) := by
      rw [mk.sizeOf_spec]
      omega
    omega

theorem sizeOf_lt_of_mem_named {n m : Node} (h : m ∈ n.named) : sizeOf m < sizeOf n :=
  sizeOf_lt_of_mem_children (List.mem_filter.1 h).1

theorem sizeOf_lt_of_field? {n m : Node} {f : Field} (h : n.field? f = some m) :
    sizeOf m < sizeOf n :=
  sizeOf_lt_of_mem_children (List.mem_of_find?_eq_some h)

/-! ### Siblings -/

/-- Nodes, each with the ones before it, nearest first. -/
def withBefore : List Node → List Node → List (List Node × Node)
  | _, [] => []
  | before, n :: ns => (before, n) :: withBefore (n :: before) ns

/-- The named children of a node, each with its siblings before it, nearest first. -/
def placed (n : Node) : List (List Node × Node) := withBefore [] n.named

end Node

end RefPages.Syntax
