import RefPages.Syntax.Grammar.Expressions

/-!
# Statements and declarations

A statement that starts with a word of its own is tried before the expression that the same word
could start. Words such as `type` or `declare` start a declaration only if it goes on in their
line; otherwise they are names.
-/

namespace RefPages.Syntax.Grammar

open Form

/-- A word that starts a declaration if it goes on in the same line. -/
def leadingWord (text : String) : Form Rule := .seq (word text) (.unbroken .expression)

/-- The word before an asynchronous function. -/
def asyncWord : Form Rule := opt (leadingWord "async")

def anyName : Form Rule := .leaf .identifier (.name [])

/-! ### Variables -/

/-- Declared variables with commas between them, up to the end of the statement. What stands before
the end says where it may be. -/
def declaratorsForm : Form Rule :=
  let name := Form.leaf .identifier (.name ["enum"])
  let bound := Form.field .name (.choice (.rule .destructuring) name)
  let ascribed := opt (.field .type (.rule .ascription))
  let next (tail : Tail) := Form.choice (.seq (sym ",") (.rule .declarators)) (.semicolon tail)
  any
    [.seq (.node .variableDeclarator (all [bound, ascribed, initializer])) (next .expression),
     .seq (.node .variableDeclarator (all [bound, op "!", .field .type (.rule .ascription)]))
       (next .plain)]
    (.seq (.node .variableDeclarator (.seq bound ascribed)) (next .plain))

def variableDeclaration : Form Rule :=
  .node .variableDeclaration
    (.seq (.choice (.token (.word ["const", "var"])) (leadingWord "let")) (.rule .declarators))

/-! ### Functions and classes -/

def functionDeclaration : Form Rule :=
  .node .functionDeclaration
    (all [asyncWord, word "function", opt (sym "*"), .field .name anyName, callSignature,
      .field .body (.rule .block), .softEnd])

def functionSignature : Form Rule :=
  .node .functionSignature
    (all [asyncWord, word "function", .field .name anyName, callSignature, .semicolon .head])

def classDeclaration : Form Rule :=
  let tail := all [word "class", className, heritage, .field .body (.rule .classBody)]
  .choice
    (.node .classDeclaration (all [.many (.rule .decorator), tail, .softEnd]))
    (.node .classDeclaration (all [.many (.rule .decorator), word "abstract", tail]))

/-- The words that a member's name cannot be in a class. -/
def memberWords : List String := ["abstract", "accessor"]

def fieldModifiers : Form Rule :=
  let declared := modifier "declare"
  all [.many (.rule .decorator), declared, accessModifier, declared,
    any
      [.seq (word "abstract") (modifier "readonly"),
       .seq (modifierOf (word "readonly")) (word "abstract"),
       word "accessor"]
      (all [modifier "static", modifier "override", modifier "readonly"])]

/-- A field of a class up to its value. -/
def fieldHead : Form Rule :=
  all [fieldModifiers, memberName memberWords,
    opt (.choice (.leaf .questionMark (.symbol "?")) (op "!")),
    opt (.field .type (.rule .ascription))]

def classMember : Form Rule :=
  let ended (tail : Tail) := Form.choice (sym ",") (.semicolon tail)
  let abstractMethod := Form.node .other
    (all [accessModifier, word "abstract", modifier "override",
      opt (.choice (modifierOf (word "get")) (.choice (modifierOf (word "set")) (sym "*"))),
      .field .name (.rule .propertyName), optionalMark, callSignature])
  any
    [sym ";",
     .node .other (.seq (word "static") (.rule .block)),
     all [.many (.rule .decorator), methodOf memberWords, opt (.semicolon .plain)],
     .seq (methodSignature memberWords) (ended .head),
     .seq abstractMethod (ended .plain),
     .seq indexSignature (ended .plain),
     .seq (.node .other (.seq fieldHead initializer)) (ended .expression)]
    (.seq (.node .other fieldHead) (ended .plain))

def classBody : Form Rule :=
  .node .other (all [sym "\x7b", .bracketed false (.many classMember), sym "\x7d"])

/-! ### Types and modules -/

def interfaceDeclaration : Form Rule :=
  .node .interfaceDeclaration
    (all [word "interface", .field .name (.leaf .typeIdentifier (.name [])),
      opt (.rule .typeParameters),
      opt (.node .extendsClause
        (.seq (word "extends") (sepBy1 (.rule .namedType) (sym ",")))),
      .field .body (.node .other (.rule .objectBody))])

def typeAlias : Form Rule :=
  .node .typeAlias
    (all [leadingWord "type", .field .name (.leaf .typeIdentifier (.name [])),
      opt (.rule .typeParameters), op "=", .field .value (.rule .type), .semicolon .plain])

def enumDeclaration : Form Rule :=
  let item := Form.seq (.rule .propertyName) (opt initializer)
  .node .other
    (all [opt (word "const"), word "enum", .field .name anyName,
      .node .other (between "\x7b" "\x7d" (opt (commas item)))])

def dottedName : Form Rule := sepBy1 anyName (sym ".")

/-- A module or a namespace, which may have no body. -/
def moduleDeclaration : Form Rule :=
  .node .other
    (all [.choice (leadingWord "namespace") (leadingWord "module"),
      .choice (.leaf .string .string) dottedName, opt (.rule .block)])

/-- A name for something in a namespace. -/
def importAlias : Form Rule :=
  .node .other (all [word "import", anyName, op "=", dottedName, .semicolon .plain])

/-- A declaration of what exists elsewhere. -/
def ambientDeclaration : Form Rule :=
  .node .ambientDeclaration
    (.seq (leadingWord "declare")
      (any
        [.rule .declaration, .seq (word "global") (.rule .block)]
        (all [word "module", sym ".", anyName, sym ":", .rule .type, .semicolon .plain])))

def declarationForm : Form Rule :=
  any
    [.rule .functionDeclaration, functionSignature, .rule .classDeclaration, enumDeclaration,
     variableDeclaration, interfaceDeclaration, typeAlias, importAlias, ambientDeclaration]
    moduleDeclaration

/-! ### Imports and exports -/

def specifiers : Form Rule :=
  let name := Form.choice (.leaf .string .string) anyName
  let renamed := all [name, opt (.seq (word "as") name),
    .peek (.choice (sym ",") (sym "\x7d"))]
  let item := Form.choice (.seq (.token (.word ["type", "typeof"])) renamed) renamed
  .node .other (between "\x7b" "\x7d" (opt (commas item)))

/-- The file that names come from. -/
def fromFile : Form Rule := .seq (word "from") (.leaf .string .string)

def importStatement : Form Rule :=
  let whole := all [sym "*", word "as", anyName]
  let clause := any [whole, specifiers]
    (.seq anyName (opt (.seq (sym ",") (.choice whole specifiers))))
  let required := all [anyName, op "=", word "require", between "(" ")" (.leaf .string .string)]
  let kind := Form.token (.word ["type", "typeof"])
  .node .other
    (all [word "import",
      any [.leaf .string .string, all [kind, clause, fromFile], .seq clause fromFile,
        .seq kind required] required,
      opt (.seq (.token (.word ["with", "assert"])) (.rule .object)),
      .semicolon .plain])

/-- A function or a class with a name. -/
def namedValue : Form Rule :=
  .choice (all [opt (word "async"), word "function", opt (sym "*"), .token (.name [])])
    (all [.many (.rule .decorator), word "class", className])

def exportStatement : Form Rule :=
  let whole := all [sym "*", opt (.seq (word "as") (.choice (.leaf .string .string) anyName)),
    fromFile, .semicolon .plain]
  let listed := all [opt (word "type"), specifiers, opt fromFile, .semicolon .plain]
  let declared := Form.field .declaration (.rule .declaration)
  let standard := .seq (word "default")
    (.choice declared
      (all [.unless namedValue, .field .value (.rule .expression), .semicolon .expression]))
  .choice
    (.node .exportStatement
      (.seq (leadingWord "export")
        (any
          [whole, listed, importAlias,
           all [op "=", .rule .expression, .semicolon .expression]]
          (all [word "as", word "namespace", anyName, .semicolon .plain]))))
    (.node .exportStatement
      (all [.many (.rule .decorator), leadingWord "export", .choice standard declared]))

/-! ### Control flow -/

def conditionForm : Form Rule := .node .other (between "(" ")" (.rule .expressions))

def forStatement : Form Rule :=
  let bound := Form.choice (.rule .destructuring) anyName
  let declared := Form.choice (all [word "var", bound, opt initializer])
    (.seq (.token (.word ["let", "const"])) bound)
  let ranging := all [opt (word "await"),
    between "(" ")" (all [any [declared, .rule .target] (.rule .operand),
      .token (.word ["of", "in"]), .rule .expressions])]
  let counter := Form.seq bound (.seq (opt (.rule .ascription)) (opt initializer))
  let start := Form.choice
    (.seq (.token (.word ["var", "let", "const"])) (sepBy1 counter (sym ",")))
    (opt (.rule .expressions))
  let counting := between "(" ")" (all [start, sym ";", opt (.rule .expressions), sym ";",
    opt (.rule .expressions)])
  .node .other (all [word "for", .choice ranging counting, .rule .statement])

def switchStatement : Form Rule :=
  let label := Form.choice
    (all [word "case", .rule .expressions, sym ":"]) (.seq (word "default") (sym ":"))
  let inner := Form.seq (.unless (.token (.word ["case", "default"]))) (.rule .statement)
  .node .other
    (all [word "switch", conditionForm, sym "\x7b",
      .bracketed false (.many (.seq label (.many inner))), sym "\x7d"])

def tryStatement : Form Rule :=
  let caught := between "(" ")"
    (.seq (.choice (.rule .destructuring) anyName) (opt (.rule .ascription)))
  .node .other
    (all [word "try", .rule .block, opt (all [word "catch", opt caught, .rule .block]),
      opt (.seq (word "finally") (.rule .block))])

/-- A jump, to a label if there is one in its line. -/
def jumpStatement : Form Rule :=
  .node .other
    (all [.token (.word ["break", "continue"]), opt (.seq (.unbroken .plain) anyName),
      .semicolon .plain])

/-- The end of a function, with a value if there is one in its line. -/
def returnStatement : Form Rule :=
  .node .other (.seq (word "return")
    (.choice (all [.unbroken .plain, .rule .expressions, .semicolon .expression])
      (.semicolon .plain)))

/-! ### Statements -/

/-- The words that start a statement of their own. -/
def statementWords : List String :=
  ["if", "for", "while", "do", "switch", "break", "continue", "return", "throw", "try", "with",
   "debugger", "var", "const", "enum", "interface", "abstract"]

def expressionStatement : Form Rule :=
  .node .other
    (all [.unless (.token (.word statementWords)), .unless namedValue, .rule .expressions,
      .semicolon .expression])

def blockForm : Form Rule :=
  .node .other
    (all [sym "\x7b", .bracketed false (.many (.rule .statement)), sym "\x7d", .softEnd])

def statementForm : Form Rule :=
  any
    [exportStatement,
     importStatement,
     .rule .declaration,
     .rule .block,
     .node .other (all [word "if", conditionForm, .rule .statement,
       opt (.seq (word "else") (.rule .statement))]),
     switchStatement,
     forStatement,
     .node .other (all [word "while", conditionForm, .rule .statement]),
     .node .other (all [word "do", .rule .statement, word "while", conditionForm,
       opt (.semicolon .plain)]),
     tryStatement,
     .node .other (all [word "with", conditionForm, .rule .statement]),
     jumpStatement,
     returnStatement,
     .node .other (all [word "throw", .rule .expressions, .semicolon .expression]),
     .node .other (.seq (word "debugger") (.semicolon .plain)),
     .leaf .other (.symbol ";"),
     .node .other (all [.leaf .identifier (.name (statementWords ++ valueWords)), sym ":",
       .rule .statement])]
    expressionStatement

def programForm : Form Rule :=
  all [opt (.token .hashBang), .many (.rule .statement), .endOfFile]

end RefPages.Syntax.Grammar
