import RefPages.Syntax.Form

/-!
# Rules of the grammar

The names of the forms that are used in more than one place or inside themselves, and the two
dialects of the language. With markup, a bracket before a value opens an element; without it, a
bracket opens a type that the value is taken for.
-/

namespace RefPages.Syntax

inductive Dialect where
  /-- TypeScript without markup. -/
  | plain
  /-- TypeScript with markup elements among its values. -/
  | markup
deriving DecidableEq, Repr

inductive Rule where
  | program
  -- statements
  | statement
  | block
  | declaration
  | declarators
  | functionDeclaration
  | classDeclaration
  | classBody
  | decorator
  -- types
  | type
  | unionOperand
  | typeOperand
  | postfixType
  | primaryType
  | namedType
  | objectBody
  | typeArguments
  | typeParameters
  | ascription
  | resultAscription
  -- names and patterns
  | propertyName
  | parameters
  | pattern
  | target
  | destructuring
  -- expressions
  | expressions
  | expression
  | operation
  | unary
  | operand
  | primary
  | arrow
  | object
  | template
  | arguments
  -- markup
  | element
  | markupName
deriving DecidableEq, Repr

end RefPages.Syntax
