import RefPages.Syntax.Grammar.Types

/-!
# Names, patterns and parameters

A pattern says which names a value is bound to: a name, a place such as `a.b`, or the shape of an
object or an array. A parameter is a pattern with words before it and a type and a default after
it.
-/

namespace RefPages.Syntax.Grammar

open Form

/-- The words that start an expression of their own and so are no names of values. -/
def valueWords : List String :=
  ["function", "class", "new", "typeof", "void", "delete", "yield", "await", "import", "true",
   "false", "null", "this", "super"]

def valueName : Form Rule := .leaf .identifier (.name valueWords)

def initializer : Form Rule := .seq (op "=") (.field .value (.rule .expression))

def propertyName : Form Rule :=
  any
    [.leaf .identifier (.name []),
     .leaf .privateName .privateName,
     .leaf .string .string,
     .leaf .other .number]
    (.node .other (between "[" "]" (.rule .expression)))

/-! ### Patterns -/

/-- A step from a place to one inside it. -/
def memberStep : Form Rule :=
  .node .memberExpression
    (.seq (.choice (sym ".") (.token .optionalStep))
      (.choice (.leaf .privateName .privateName) (.leaf .identifier (.name []))))

/-- A step from a place to one of its elements. -/
def elementStep : Form Rule :=
  .node .subscriptExpression
    (.seq (opt (.token .optionalStep)) (between "[" "]" (.rule .expressions)))

/-- The mark that a value is there. -/
def presentStep : Form Rule :=
  .node .nonNullExpression (.seq (.unbroken .expression) (op "!"))

/-- What a value can be bound to: a name, a place, or the shape of an object or an array. -/
def targetForm : Form Rule :=
  .chain (.choice (.rule .destructuring) valueName)
    (any [memberStep, elementStep] presentStep)

def restPattern : Form Rule := .node .restPattern (.seq (sym "...") (.rule .target))

def patternForm : Form Rule := .choice restPattern (.rule .target)

def defaultedPattern : Form Rule := .seq (.rule .pattern) (opt initializer)

/-- The shape of an object or an array. -/
def destructuring : Form Rule :=
  let property := any
    [all [.rule .propertyName, sym ":", defaultedPattern],
     restPattern,
     .seq (.leaf .identifier (.name [])) (opt initializer)]
    (.seq (.rule .destructuring) initializer)
  .choice
    (.node .other (between "\x7b" "\x7d" (gaps property)))
    (.node .other (between "[" "]" (gaps defaultedPattern)))

/-! ### Parameters -/

/-- A word before a pattern. It is one only if the pattern follows. -/
def patternModifier (lexeme : Form Rule) : Form Rule :=
  opt (.seq lexeme (.peek (any [.token (.name []), sym "\x7b", sym "["] (sym "..."))))

def parameterName : Form Rule :=
  all [.many (.rule .decorator),
    patternModifier (.leaf .accessModifier (.word ["public", "private", "protected"])),
    patternModifier (word "override"),
    patternModifier (word "readonly"),
    .field .pattern (.choice (.leaf .this (.word ["this"])) (.rule .pattern))]

def parameter : Form Rule :=
  let tail := Form.seq (opt (.field .type (.rule .ascription))) (opt initializer)
  .choice
    (.node .optionalParameter (all [parameterName, sym "?", tail]))
    (.node .requiredParameter (.seq parameterName tail))

def parametersForm : Form Rule := .node .other (between "(" ")" (opt (commas parameter)))

/-! ### Decorators -/

def decorator : Form Rule :=
  let path := Form.seq (.leaf .identifier (.name []))
    (.many (.seq (sym ".") (.leaf .identifier (.name []))))
  let called := Form.seq path (opt (.seq (opt (.rule .typeArguments)) (.rule .arguments)))
  .node .decorator (.seq (sym "@") (.choice called (between "(" ")" called)))

end RefPages.Syntax.Grammar
