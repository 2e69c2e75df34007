import RefPages.Syntax.Grammar.Patterns

/-!
# Expressions

From loose to tight: conditions, binary operators, operators before a value, and values with calls,
steps and assignments after them. Binary operators are read one after the other, all with the same
strength: which of two binds more tightly changes no lookup.
-/

namespace RefPages.Syntax.Grammar

open Form

/-! ### Operators -/

def binaryOperators : List String :=
  ["&&", "||", ">>", ">>>", "<<", "&", "^", "|", "+", "-", "*", "/", "%", "**", "<", "<=", "==",
   "===", "!=", "!==", ">=", ">", "??"]

def augmentedOperators : List String :=
  ["+=", "-=", "*=", "/=", "%=", "^=", "&=", "|=", ">>=", ">>>=", "<<=", "**=", "&&=", "||=",
   "??="]

def expressionsForm : Form Rule :=
  .chain (.rule .expression) (.node .other (.seq (sym ",") (.rule .expression)))

def expressionForm : Form Rule :=
  let first (consequence : Form Rule) := Form.seq consequence (sym ":")
  .chain (.rule .operation)
    (.node .other
      (all [.token .condition,
        .choice (first (.rule .expression)) (first (.untypedArrows (.rule .expression))),
        .rule .expression]))

/-- Values with binary operators and type annotations between and after them. -/
def operationForm : Form Rule :=
  .chain (.rule .unary)
    (any
      [.node .other (.seq (.token (.operator binaryOperators)) (.rule .unary)),
       .node .other (.seq (.token (.word ["in", "instanceof"])) (.rule .unary)),
       .node .asExpression (all [.unbroken .expression, word "as", .rule .type])]
      (.node .satisfiesExpression
        (all [.unbroken .expression, word "satisfies", .rule .type])))

def unaryForm : Form Rule :=
  any
    [.node .other (.seq (.token (.operator ["!", "~", "+", "-", "++", "--"])) (.rule .unary)),
     .node .other
       (.seq (.token (.word ["typeof", "void", "delete", "await"])) (.rule .unary)),
     .node .other (all [word "yield",
       .choice (.seq (sym "*") (.rule .expression))
         (opt (.seq (.unbroken .plain) (.rule .expression)))]),
     .seq (.leaf .privateName .privateName) (.peek (word "in"))]
    (.rule .operand)

/-! ### Steps after a value -/

/-- The values that can be assigned to. -/
def assignable : List Kind :=
  [.identifier, .memberExpression, .subscriptExpression, .nonNullExpression,
   .parenthesizedExpression, .objectExpression, .arrayExpression]

/-- The characters and words that a value starts with. -/
def startsValue : Form Rule :=
  any
    [.token (.name []), .token .number, .token .string, .token .privateName, sym "(", sym "[",
     sym "\x7b", sym "`", sym "/", sym "<", sym "+", sym "-", sym "!", sym "~"]
    (sym "@")

def callStep : Form Rule :=
  .node .callExpression
    (all [opt (.token .optionalStep), opt (.rule .typeArguments),
      .field .arguments (.rule .arguments)])

/-- A template as the argument of a call. -/
def templateStep : Form Rule := .node .callExpression (.field .arguments (.rule .template))

def postfixForm : Form Rule :=
  .chain (.rule .primary)
    (any
      [memberStep, elementStep, callStep, templateStep, presentStep,
       .node .other (.seq (.unbroken .expression) (.token (.operator ["++", "--"]))),
       .node .other (all [.after assignable, op "=", .rule .expression]),
       .node .other (all [.after assignable, .token (.operator augmentedOperators),
         .rule .expression])]
      (.node .other (.seq (.rule .typeArguments) (.unless startsValue))))

def argumentsForm : Form Rule :=
  let spread := Form.node .other (.seq (sym "...") (.rule .expression))
  .node .other (between "(" ")" (gaps (.choice spread (.rule .expression))))

/-! ### Functions -/

def arrowBody : Form Rule :=
  .seq (sym "=>") (.field .body (.choice (.rule .block) (.rule .expression)))

def arrowForm : Form Rule :=
  let annotated := all [opt (.rule .typeParameters), .field .parameters (.rule .parameters),
    opt (.seq .ifTypedArrows (.field .returnType (.rule .resultAscription)))]
  let head := Form.choice (.seq (.field .parameter valueName) (.peek (sym "=>"))) annotated
  .choice
    (.node .arrowFunction (all [word "async", .unbroken .plain, head, arrowBody]))
    (.node .arrowFunction (.seq head arrowBody))

def functionValue : Form Rule :=
  .node .functionExpression
    (all [opt (.seq (word "async") (.unbroken .expression)), word "function", opt (sym "*"),
      opt (.field .name (.leaf .identifier (.name []))), callSignature,
      .field .body (.rule .block)])

/-- A method with a body, whose name is none of the given words. -/
def methodOf (excluded : List String) : Form Rule :=
  .node .methodDefinition
    (all [methodModifiers, memberName excluded, optionalMark, callSignature,
      .field .body (.rule .block)])

/-! ### Single values -/

def objectForm : Form Rule :=
  let property := any
    [methodOf [],
     .node .other (all [.rule .propertyName, sym ":", .rule .expression]),
     .node .other (.seq (sym "...") (.rule .expression))]
    (.leaf .identifier (.name []))
  .node .objectExpression (between "\x7b" "\x7d" (gaps property))

def templateForm : Form Rule :=
  let substitution := Form.node .other
    (all [.glued (.symbol "$\x7b"), .bracketed true (.rule .expressions), sym "\x7d"])
  .node .other
    (all [sym "`", .many (any [.glued .templateText, .glued .escape] substitution),
      .glued (.symbol "`")])

/-- What follows the name of a class: its type parameters and the types it is built on. -/
def heritage : Form Rule :=
  let base := Form.seq (.rule .operand) (opt (.rule .typeArguments))
  let extended := Form.seq (word "extends") (sepBy1 base (sym ","))
  let implemented := Form.seq (word "implements") (sepBy1 (.rule .type) (sym ","))
  all [opt (.rule .typeParameters), opt extended, opt implemented]

def className : Form Rule :=
  .field .name (.leaf .typeIdentifier (.name ["extends", "implements"]))

def classValue : Form Rule :=
  .node .other
    (all [.many (.rule .decorator), word "class", opt className, heritage,
      .field .body (.rule .classBody)])

def newValue : Form Rule :=
  let callee := Form.chain (.rule .primary) (any [memberStep, elementStep] presentStep)
  .choice
    (.node .other (all [word "new", sym ".", word "target"]))
    (.node .other (all [word "new", callee, opt (.rule .typeArguments), opt (.rule .arguments)]))

/-- A value that a bracket opens. -/
def bracketValue : Dialect → Form Rule
  | .plain => .node .other (.seq (.rule .typeArguments) (.rule .unary))
  | .markup => .rule .element

/-- An assignment to a value that is given up at the end of its block. -/
def usingValue : Form Rule :=
  .node .other (all [word "using", .unbroken .expression, .rule .target, op "=",
    .rule .expression])

/-- A value with nothing before or after it. -/
def primaryForm (dialect : Dialect) : Form Rule :=
  any
    [.rule .arrow,
     .node .parenthesizedExpression
       (between "(" ")" (.seq (.rule .expressions) (opt (.rule .ascription)))),
     .rule .object,
     .node .other (all [.rule .destructuring, op "=", .rule .expression]),
     .node .arrayExpression (between "[" "]"
       (gaps (.choice (.node .other (.seq (sym "...") (.rule .expression))) (.rule .expression)))),
     .leaf .string .string,
     .rule .template,
     .leaf .other .number,
     .leaf .other .regex,
     functionValue,
     classValue,
     newValue,
     usingValue,
     bracketValue dialect,
     .leaf .other (.word ["import", "true", "false", "null", "super"]),
     .leaf .this (.word ["this"])]
    valueName

end RefPages.Syntax.Grammar
