import RefPages.Syntax.Grammar.Rule

/-!
# Types

From loose to tight: conditions, unions, intersections, and then single types with the brackets of
arrays and look-ups after them. A function type, a constructor type and `readonly` reach as far to
the right as they can, so they stand only as the last operand.
-/

namespace RefPages.Syntax.Grammar

open Form

/-! ### Operators -/

/-- The words that start a type of their own and so are no names of types. -/
def typeWords : List String :=
  ["any", "number", "boolean", "string", "symbol", "void", "unknown", "never", "object", "unique",
   "typeof", "keyof", "readonly", "new", "abstract", "infer", "this", "true", "false", "null",
   "undefined", "const", "import"]

def typeForm : Form Rule :=
  .chain
    (.chain (.rule .unionOperand) (.node .other (.seq (op "|") (.rule .unionOperand))))
    (.node .other (all [.unbroken .plain, word "extends", .rule .type, sym "?", .rule .type,
      sym ":", .rule .type]))

def unionOperand : Form Rule :=
  let part := Form.node .intersectionType (.seq (op "&") (.rule .typeOperand))
  .choice (.node .other (.seq (op "|") (.rule .unionOperand)))
    (.chain (.choice part (.rule .typeOperand)) part)

/-- What a function gives: a type, or what its result tells about an argument. -/
def resultForm : Form Rule :=
  let argument := Form.leaf .identifier (.name [])
  let predicate := Form.node .other (all [argument, .unbroken .plain, word "is", .rule .type])
  any
    [.node .other (all [word "asserts", .unbroken .plain, .choice predicate argument]), predicate]
    (.rule .type)

/-- A function's parameters and, after an arrow, what it gives. -/
def arrowTail : Form Rule :=
  all [opt (.rule .typeParameters), .rule .parameters, sym "=>", resultForm]

/-- An operand of an intersection. -/
def typeOperand : Form Rule :=
  any
    [.node .other arrowTail,
     .node .other (all [opt (word "abstract"), word "new", arrowTail]),
     .node .other (.seq (word "readonly") (.rule .type)),
     .node .other (all [word "infer", .leaf .typeIdentifier (.name []),
       opt (.seq (word "extends") (.rule .type))])]
    (.rule .postfixType)

def postfixType : Form Rule :=
  .chain (.rule .primaryType)
    (.node .other (.seq (.unbroken .plain) (between "[" "]" (opt (.rule .type)))))

/-! ### Single types -/

/-- A name, a name with a path before it, or one of them with arguments. -/
def namedTypeOf (excluded : List String) : Form Rule :=
  let simple := Form.leaf .typeIdentifier (.name excluded)
  let nested := Form.node .nestedTypeIdentifier
    (all [.leaf .identifier (.name excluded), sym ".", .leaf .identifier (.name []),
      .many (.seq (sym ".") (.leaf .identifier (.name [])))])
  .choice
    (.node .genericType (.seq (.field .name (.choice nested simple))
      (.field .typeArguments (.rule .typeArguments))))
    (.choice nested simple)

/-- A type given by the file that declares it. -/
def importedType : Form Rule :=
  all [word "import", between "(" ")" (commas (.rule .type)),
    .many (.seq (sym ".") (.token (.name [])))]

/-- The type of a value. -/
def typeQuery : Form Rule :=
  all [word "typeof",
    .choice importedType
      (.seq (.leaf .identifier (.name []))
        (.many (.seq (.choice (sym ".") (.token .optionalStep))
          (.choice (.leaf .privateName .privateName) (.leaf .identifier (.name [])))))),
    opt (.rule .typeArguments)]

def templateType : Form Rule :=
  all [sym "`",
    .many (.choice (.glued .templateText)
      (all [.glued (.symbol "$\x7b"), .bracketed true (.rule .type), sym "\x7d"])),
    .glued (.symbol "`")]

def tupleMember : Form Rule :=
  any
    [.node .other (all [opt (sym "..."), .leaf .identifier (.name []), opt (sym "?"),
      .rule .ascription]),
     .node .other (.seq (sym "...") (.rule .type))]
    (.chain (.rule .type) (.node .other (sym "?")))

/-- A type with no operators around it. -/
def primaryType : Form Rule :=
  any
    [.node .parenthesizedType (between "(" ")" (.rule .type)),
     .node .objectType (.rule .objectBody),
     .node .other (between "[" "]" (opt (commas tupleMember))),
     .node .other templateType,
     .leaf .other .string,
     .leaf .other .number,
     .node .other (.seq (.token (.operator ["-", "+"])) (.token .number)),
     .node .other typeQuery,
     .node .other (.seq (word "keyof") (.rule .postfixType)),
     .node .other (.seq (word "unique") (word "symbol")),
     .leaf .other (.word ["any", "number", "boolean", "string", "symbol", "void", "unknown",
       "never", "object", "this", "true", "false", "null", "undefined", "const"]),
     .node .other (.seq importedType (opt (.rule .typeArguments))),
     .leaf .other (.symbol "*"),
     .node .other (.seq (sym "?") (.rule .primaryType))]
    (namedTypeOf typeWords)

/-! ### Arguments, parameters and annotations -/

def typeArguments : Form Rule := .node .other (between "<" ">" (commas (.rule .type)))

def typeParameters : Form Rule :=
  let parameter := Form.node .other
    (all [opt (.seq (word "const") (.peek (.token (.name [])))), .leaf .typeIdentifier (.name []),
      opt (.seq (.choice (word "extends") (sym ":")) (.rule .type)),
      opt (.seq (op "=") (.rule .type))])
  .node .other (between "<" ">" (commas parameter))

/-- The annotation of a value with its type. -/
def ascription : Form Rule := .node .ascription (.seq (sym ":") (.rule .type))

/-- The annotation of a function with what it gives. -/
def resultAscription : Form Rule := .node .ascription (.seq (sym ":") resultForm)

/-! ### Members of interfaces and object types -/

def callSignature : Form Rule :=
  all [opt (.rule .typeParameters), .field .parameters (.rule .parameters),
    opt (.field .returnType (.rule .resultAscription))]

/-- A word before the name of a member. It is one only if the name follows on its line. -/
def modifierOf (lexeme : Form Rule) : Form Rule :=
  all [lexeme, .unbroken .plain,
    .peek (any [.token (.name []), .token .string, .token .number, .token .privateName, sym "["]
      (sym "*"))]

/-- The given word before the name of a member, if it is there. -/
def modifier (text : String) : Form Rule := opt (modifierOf (word text))

def accessModifier : Form Rule :=
  opt (modifierOf (.leaf .accessModifier (.word ["public", "private", "protected"])))

def methodModifiers : Form Rule :=
  all [accessModifier, modifier "static", modifier "override", modifier "readonly",
    modifier "async",
    opt (.choice (modifierOf (.leaf .accessorWord (.word ["get", "set"]))) (sym "*"))]

def optionalMark : Form Rule := opt (.leaf .questionMark (.symbol "?"))

/-- A name that no word before it spoils. -/
def memberName (excluded : List String) : Form Rule :=
  .seq (.unless (.token (.word excluded))) (.field .name (.rule .propertyName))

def methodSignature (excluded : List String) : Form Rule :=
  .node .methodSignature (all [methodModifiers, memberName excluded, optionalMark, callSignature])

/-- A member for all keys of a type. -/
def indexSignature : Form Rule :=
  let sign := Form.token (.operator ["-", "+"])
  let key := all [.leaf .identifier (.name []), sym ":", .rule .type]
  let mapped := all [.leaf .typeIdentifier (.name []), word "in", .rule .type,
    opt (.seq (word "as") (.rule .type))]
  let mark (text : String) := Form.node .other (.seq (sym text) (.rule .type))
  .node .other
    (all [opt (.seq (opt sign) (word "readonly")), between "[" "]" (.choice key mapped),
      .field .type (any [.rule .ascription, mark "-?:", mark "+?:"] (mark "?:"))])

def typeMember : Form Rule :=
  any
    [indexSignature,
     .node .other (all [opt (word "abstract"), word "new", opt (.rule .typeParameters),
       .rule .parameters, opt (.rule .ascription)]),
     .node .other callSignature,
     methodSignature ["abstract"]]
    (.node .propertySignature
      (all [accessModifier, modifier "static", modifier "override", modifier "readonly",
        memberName ["abstract"], optionalMark, opt (.field .type (.rule .ascription))]))

def objectBody : Form Rule :=
  let separator := Form.choice (sym ",") (.semicolon .plain)
  let members := all [opt (.choice (sym ",") (sym ";")), sepBy1 typeMember separator,
    opt separator]
  all [sym "\x7b", .bracketed false (opt members), sym "\x7d"]

end RefPages.Syntax.Grammar
