import RefPages.Syntax.Lexeme
import RefPages.Syntax.Tree

/-!
# Places in a source file

A cursor is a place in a source file: the characters that follow it and how many stand before it.
Between two lexemes there may be blanks and comments; `Cursor.skip` passes them and keeps the
comments as nodes.

A statement ends at a semicolon, or at a line end after which it cannot go on, or before a closing
brace, or at the end of the file. `endsHere` is the rule for the places where no semicolon is
written.
-/

namespace RefPages.Syntax

structure Cursor where
  rest : List Char
  offset : Nat
deriving Repr

namespace Cursor

def start (source : List Char) : Cursor := ⟨source, 0⟩

def advance (c : Cursor) (n : Nat) : Cursor := ⟨c.rest.drop n, c.offset + n⟩

def textTo (c d : Cursor) : String := String.ofList (c.rest.take (d.offset - c.offset))

end Cursor

/-! ### Comments -/

/-- The length of a block comment up to its end. -/
def blockTail? : List Char → Option Nat
  | [] => none
  | '*' :: '/' :: _ => some 2
  | _ :: cs => (blockTail? cs).map (· + 1)

/-- The length of the comment in front. -/
def commentLength? : List Char → Option Nat
  | '/' :: '/' :: cs => some (2 + (cs.takeWhile fun c => !endsLine c).length)
  | '/' :: '*' :: cs => (blockTail? cs).map (· + 2)
  | _ => none

/-- The number of blanks in front. -/
def blanksLength (cs : List Char) : Nat := (cs.takeWhile isSpace).length

/-- Pass blanks and comments, at most one comment for each of the given characters. -/
def Cursor.skipUpTo : List Char → Cursor → List Node × Cursor
  | [], c => ([], c)
  | _ :: limit, c =>
    let c := c.advance (blanksLength c.rest)
    match commentLength? c.rest with
    | none => ([], c)
    | some n =>
      let d := c.advance n
      let (comments, e) := skipUpTo limit d
      (Node.leaf .comment (c.textTo d) :: comments, e)

/-- Pass all blanks and comments. There are not more comments than characters. -/
def Cursor.skip (c : Cursor) : List Node × Cursor := skipUpTo c.rest c

/-! ### Where statements end -/

/-- What stands before a place where a statement may end. -/
inductive Tail where
  /-- An expression, which an opening bracket on the next line continues. -/
  | expression
  /-- A type or a name, which it does not. -/
  | plain
  /-- The head of a function, which a brace on the next line continues. -/
  | head
deriving DecidableEq, Repr

/-- The characters that never start a new statement. -/
def continuing : List Char := "`,.;*%><=?^|&/:".toList

/-- Can the characters after a line end start a new statement? -/
def startsStatement (tail : Tail) : List Char → Bool
  | [] => true
  | '+' :: cs => cs.head? == some '+'
  | '-' :: cs => cs.head? == some '-'
  | '!' :: cs => cs.head? != some '='
  | 'i' :: 'n' :: cs =>
    if cs.head?.any Char.isAlpha then
      !("stanceof".toList.isPrefixOf cs && !(cs.drop 8).head?.any Char.isAlpha)
    else false
  | c :: _ =>
    if continuing.contains c then false
    else if c == '{' then tail != .head
    else if c == '(' || c == '[' then tail != .expression
    else true

/-- Does a statement end right here, with no semicolon? -/
def endsHere (tail : Tail) : List Char → Bool
  | [] => true
  | '}' :: cs =>
    if (cs.dropWhile isSpace).head? == some ':' then tail == .expression else true
  | c :: cs =>
    if c == '\n' then
      let after := ((Cursor.start cs).skip).2
      startsStatement tail after.rest
    else if isSpace c then endsHere tail cs
    else false

/-- The place where a statement ends with no semicolon. Comments on the line of its last lexeme are
passed, at most one for each of the given characters, and still belong to it. -/
def Cursor.end?UpTo : List Char → Tail → Cursor → Option (List Node × Cursor)
  | [], tail, c => if endsHere tail c.rest then some ([], c) else none
  | _ :: limit, tail, c =>
    if endsHere tail c.rest then some ([], c)
    else
      let c := c.advance (blanksLength c.rest)
      match commentLength? c.rest with
      | none => none
      | some n =>
        let d := c.advance n
        match Cursor.end?UpTo limit tail d with
        | none => none
        | some (comments, e) =>
          some (Node.leaf .comment (c.textTo d) :: comments, e)

/-- The place where a statement ends with no semicolon. There are not more comments than
characters. -/
def Cursor.end? (tail : Tail) (c : Cursor) : Option (List Node × Cursor) :=
  Cursor.end?UpTo c.rest tail c

end RefPages.Syntax
