import RefPages.Syntax.Cursor

/-!
# Grammars as data

A grammar gives every rule a `Form`, and `Form.run` reads a text by a form. What is read is a list
of children, so putting two forms one after the other appends their children and a form makes a
node of its own only where it says so.

Choices are ordered: the second form of a choice is tried where the first one does not fit. A
`chain` reads what would be left-recursive: a head, and then steps, each a node that takes all that
was read so far as its first children.

    chain name (node call arguments)     f(a)(b)  ──▶  call [call [f, (a)], (b)]

Comments stand before the node that follows them, inside the node that goes on after them.
-/

namespace RefPages.Syntax

/-- What a form can ask about the place where it is read. -/
structure Context where
  /-- Is the place inside brackets, where line ends mean nothing? -/
  bracketed : Bool := false
  /-- May an arrow function give its return type? Between the marks of a condition it may not where
  the colon is the condition's own. -/
  typedArrows : Bool := true
  /-- In a step of a chain, the kind of what was read so far. -/
  left? : Option Kind := none
deriving Repr

/-- A pattern for a part of a source file, with rules from `ρ`. -/
inductive Form (ρ : Type) where
  /-- Nothing at all. -/
  | empty
  /-- A lexeme, after blanks and comments. -/
  | token (lexeme : Lexeme)
  /-- A lexeme as a node, after blanks and comments. -/
  | leaf (kind : Kind) (lexeme : Lexeme)
  /-- A lexeme right here. -/
  | glued (lexeme : Lexeme)
  /-- The form of a rule. -/
  | rule (r : ρ)
  /-- One form and then another. -/
  | seq (first second : Form ρ)
  /-- One form, or else another. -/
  | choice (first second : Form ρ)
  /-- A form as often as it fits. -/
  | many (item : Form ρ)
  /-- A node with what the form reads as its children. -/
  | node (kind : Kind) (body : Form ρ)
  /-- What the form reads, marked with a field. -/
  | field (role : Field) (body : Form ρ)
  /-- A head and then steps that take what was read so far into a node. -/
  | chain (head step : Form ρ)
  /-- Nothing, where the form would fit. -/
  | peek (form : Form ρ)
  /-- Nothing, where the form would not fit. -/
  | unless (form : Form ρ)
  /-- Nothing, where what was read so far is of one of these kinds. -/
  | after (kinds : List Kind)
  /-- The form, inside or outside of brackets. -/
  | bracketed (inside : Bool) (form : Form ρ)
  /-- The form, without return types of arrow functions. -/
  | untypedArrows (form : Form ρ)
  /-- Nothing, where an arrow function may give its return type. -/
  | ifTypedArrows
  /-- Nothing, where no statement ends. -/
  | unbroken (tail : Tail)
  /-- The end of a statement. -/
  | semicolon (tail : Tail)
  /-- The end of a statement where there is one with no semicolon, else nothing. -/
  | softEnd
  /-- The end of the file, after blanks and comments. -/
  | endOfFile

namespace Form

variable {ρ : Type}

/-! ### Derived forms -/

/-- Forms one after the other. -/
def all (forms : List (Form ρ)) : Form ρ := forms.foldr .seq .empty

/-- The first of some forms that fits, with a last one to try. -/
def any (forms : List (Form ρ)) (last : Form ρ) : Form ρ := forms.foldr .choice last

/-- A form or nothing. -/
def opt (form : Form ρ) : Form ρ := .choice form .empty

/-- Forms with a separator between any two. -/
def sepBy1 (item separator : Form ρ) : Form ρ := .seq item (.many (.seq separator item))

def sym (text : String) : Form ρ := .token (.symbol text)

def op (text : String) : Form ρ := .token (.operator [text])

def word (text : String) : Form ρ := .token (.word [text])

def commas (item : Form ρ) : Form ρ := .seq (sepBy1 item (sym ",")) (opt (sym ","))

/-- Items between commas, any of which may be missing. -/
def gaps (item : Form ρ) : Form ρ := sepBy1 (opt item) (sym ",")

/-- A form inside the given brackets. -/
def between (left right : String) (form : Form ρ) : Form ρ :=
  all [sym left, .bracketed true form, sym right]

/-! ### Reading -/

/-- Mark nodes, but not comments, with a field. -/
def mark (role : Field) (children : List Node) : List Node :=
  children.map fun child => if child.is .comment then child else child.withRole role

/-- Take what was read so far into a node that was read after it. Comments between the two become
children of the node. -/
def pull (start finish : Cursor) (left : List Node) : List Node → List Node
  | [] => left
  | [.mk kind role? _ children] => [.mk kind role? (start.textTo finish) (left ++ children)]
  | comment :: more => pull start finish (left ++ [comment]) more

/-- Read a text by a form: the children that were read and the place after them. The number limits
how deeply forms may be nested. -/
def run (grammar : ρ → Form ρ) : Nat → Context → Form ρ → Cursor → Option (List Node × Cursor)
  | 0, _, _, _ => none
  | limit + 1, context, form, c =>
    match form with
    | .empty => some ([], c)
    | .token lexeme =>
      let (comments, d) := c.skip
      (lexeme.length? d.rest).map fun n => (comments, d.advance n)
    | .leaf kind lexeme =>
      let (comments, d) := c.skip
      (lexeme.length? d.rest).map fun n =>
        (comments ++ [Node.leaf kind (d.textTo (d.advance n))], d.advance n)
    | .glued lexeme => (lexeme.length? c.rest).map fun n => ([], c.advance n)
    | .rule r => run grammar limit context (grammar r) c
    | .seq first second =>
      match run grammar limit context first c with
      | none => none
      | some (xs, d) =>
        match run grammar limit context second d with
        | none => none
        | some (ys, e) => some (xs ++ ys, e)
    | .choice first second =>
      match run grammar limit context first c with
      | some r => some r
      | none => run grammar limit context second c
    | .many item =>
      match run grammar limit context item c with
      | none => some ([], c)
      | some (xs, d) =>
        -- an item that reads nothing would go on for ever
        if d.offset ≤ c.offset then some (xs, d)
        else
          match run grammar limit context (.many item) d with
          | none => none
          | some (ys, e) => some (xs ++ ys, e)
    | .node kind body =>
      let (comments, d) := c.skip
      match run grammar limit context body d with
      | none => none
      | some (xs, e) => some (comments ++ [.mk kind none (d.textTo e) xs], e)
    | .field role body =>
      match run grammar limit context body c with
      | none => none
      | some (xs, d) => some (mark role xs, d)
    | .chain head step =>
      let (comments, d) := c.skip
      match run grammar limit context head d with
      | none => none
      | some (xs, e) =>
        match steps grammar limit context step d xs e with
        | none => none
        | some (ys, f) => some (comments ++ ys, f)
    | .peek form =>
      match run grammar limit context form c with
      | none => none
      | some _ => some ([], c)
    | .unless form =>
      match run grammar limit context form c with
      | none => some ([], c)
      | some _ => none
    -- only the steps of a chain have something on their left
    | .after kinds => if context.left?.any kinds.contains then some ([], c) else none
    -- a condition outside of the brackets does not reach into them
    | .bracketed inside form => run grammar limit ⟨inside, true, none⟩ form c
    | .untypedArrows form => run grammar limit ⟨context.bracketed, false, none⟩ form c
    | .ifTypedArrows => if context.typedArrows then some ([], c) else none
    | .unbroken tail =>
      if context.bracketed || (c.end? tail).isNone then some ([], c) else none
    | .semicolon tail =>
      match c.end? tail with
      | some r => some r
      | none => run grammar limit context (sym ";") c
    | .softEnd => some ((c.end? .plain).getD ([], c))
    | .endOfFile =>
      let (comments, d) := c.skip
      if d.rest.isEmpty then some (comments, d) else none
where
  /-- Read the steps of a chain that starts at the given place and has come so far. -/
  steps (grammar : ρ → Form ρ) :
      Nat → Context → Form ρ → Cursor → List Node → Cursor → Option (List Node × Cursor)
    | 0, _, _, _, _, _ => none
    | limit + 1, context, step, start, left, c =>
      let kind? := left.getLast?.map Node.kind
      match run grammar limit ⟨context.bracketed, context.typedArrows, kind?⟩ step c with
      | none => some (left, c)
      | some (xs, d) =>
        steps grammar limit context step start (pull start d left xs) d

end Form

/-- Read a whole text by a rule. Every form consumes a character after boundedly many others, so
the limit is far above the depth that is reached. -/
def parseBy {ρ : Type} (grammar : ρ → Form ρ) (start : ρ) (source : List Char) :
    Option (List Node) :=
  let limit := 1000 * (source.length + 20)
  (Form.run grammar limit {} (.rule start) (Cursor.start source)).map Prod.fst

end RefPages.Syntax
