import RefPages.Syntax.Grammar.Markup
import RefPages.Syntax.Grammar.Statements

/-!
# Reading a source file

The forms of all rules together are the grammar, and `parse?` reads a whole file by it. A file that
does not fit has no tree at all: there is no recovery from errors.
-/

namespace RefPages.Syntax

open Grammar in
/-- The form of each rule. -/
def grammar (dialect : Dialect) : Rule → Form Rule
  | .program => programForm
  | .statement => statementForm
  | .block => blockForm
  | .declaration => declarationForm
  | .declarators => declaratorsForm
  | .functionDeclaration => functionDeclaration
  | .classDeclaration => classDeclaration
  | .classBody => classBody
  | .decorator => decorator
  | .type => typeForm
  | .unionOperand => unionOperand
  | .typeOperand => typeOperand
  | .postfixType => postfixType
  | .primaryType => primaryType
  | .namedType => namedTypeOf []
  | .objectBody => objectBody
  | .typeArguments => typeArguments
  | .typeParameters => typeParameters
  | .ascription => ascription
  | .resultAscription => resultAscription
  | .propertyName => propertyName
  | .parameters => parametersForm
  | .pattern => patternForm
  | .target => targetForm
  | .destructuring => destructuring
  | .expressions => expressionsForm
  | .expression => expressionForm
  | .operation => operationForm
  | .unary => unaryForm
  | .operand => postfixForm
  | .primary => primaryForm dialect
  | .arrow => arrowForm
  | .object => objectForm
  | .template => templateForm
  | .arguments => argumentsForm
  | .element => elementForm
  | .markupName => markupNameForm

def parse? (dialect : Dialect) (source : String) : Option Node :=
  (parseBy (grammar dialect) .program source.toList).map fun children =>
    .mk .program none source children

end RefPages.Syntax
