import RefPages.Comment.Lines

/-!
# Documentation comments

A cleaned comment is a description followed by block tags. A tag starts at a line whose first word
is `@name`, outside of fenced code, and takes all lines up to the next tag:

    One.            description  ["One."]
    @default 3      tag default  ["3"]
    @see x          tag see      ["x", "  y"]
      y

Fenced code is told by its marker alone: a line that starts with three backticks or three tildes
opens a block, and the next line that starts with the same three characters closes it.
-/

namespace RefPages

open Text

namespace Comment

/-! ### Fences -/

inductive Fence where
  | backtick
  | tilde
deriving DecidableEq, Repr

/-- The fence that a line starts with, after its indentation. -/
def Fence.ofLine? (l : Line) : Option Fence :=
  match trimStart l with
  -- three of them are enough: longer fences are the same fence here
  | '`' :: '`' :: '`' :: _ => some .backtick
  | '~' :: '~' :: '~' :: _ => some .tilde
  | _ => none

/-- The open fence after a line, given the open fence before it. -/
def Fence.after (opened : Option Fence) (l : Line) : Option Fence :=
  match Fence.ofLine? l, opened with
  | none, o => o
  | some f, none => some f
  -- inside a block only its own kind of fence counts
  | some f, some o => if f = o then none else some o

/-! ### Tags -/

/-- A block tag: its name and the text after it, line by line. The first line stands beside the
name, the others below it. -/
structure Tag where
  name : List Char
  lines : List Line
deriving DecidableEq, Repr

/-- The name and the rest of a line that starts a tag. The name is one word of letters and digits
that starts with a letter, so `@scope/package` starts no tag. -/
def tagHead? (l : Line) : Option (List Char × Line) :=
  match trimStart l with
  | '@' :: c :: cs =>
    let name := (c :: cs).takeWhile Char.isAlphanum
    let rest := (c :: cs).dropWhile Char.isAlphanum
    if c.isAlpha && (rest.isEmpty || rest.head?.any isBlank) then some (name, trim rest) else none
  | _ => none

/-- Cut lines into the ones before the first tag and the tags. -/
def sections : Option Fence → List Line → List Line × List Tag
  | _, [] => ([], [])
  | opened, l :: ls =>
    let opened := Fence.after opened l
    let (before, tags) := sections opened ls
    match opened, tagHead? l with
    -- the lines up to the next tag belong to this one
    | none, some (name, first) => ([], ⟨name, first :: before⟩ :: tags)
    | _, _ => (l :: before, tags)

def Tag.written (t : Tag) : List Line :=
  match t.lines with
  | [] => []
  | first :: more => ('@' :: t.name ++ if first.isEmpty then [] else ' ' :: first) :: more

def Tag.body (t : Tag) : List Char := trim (unlines t.lines)

end Comment

structure Comment where
  /-- All lines, in order. -/
  lines : List Line
  /-- The lines before the first tag. -/
  description : List Line
  /-- The block tags, in order. -/
  tags : List Comment.Tag
deriving DecidableEq, Repr

namespace Comment

/-- The comment with the given cleaned lines. -/
def ofLines (ls : List Line) : Comment :=
  let (description, tags) := sections none ls
  ⟨ls, description, tags⟩

def parse (raw : List Char) : Comment := ofLines (cleanLines raw)

def empty : Comment := ⟨[], [], []⟩

def isEmpty (c : Comment) : Bool := c.lines.isEmpty

def text (c : Comment) : String := String.ofList (unlines c.lines)

def textWithout (excluded : List (List Char)) (c : Comment) : String :=
  let kept := c.tags.filter fun t => !excluded.contains t.name
  String.ofList (unlines (dropBlankEnds (c.description ++ kept.flatMap Tag.written)))

/-! ### Default values -/

def defaultTags : List (List Char) := ["default".toList, "defaultValue".toList]

/-- The value of the first default tag on one line, unless it is empty. -/
def defaultValue? (c : Comment) : Option String :=
  match c.tags.find? fun t => defaultTags.contains t.name with
  | none => none
  | some t =>
    let value := collapse t.body
    if value.isEmpty then none else some (String.ofList value)

/-- The comment shown for a property: all but the default value. -/
def propertyText (c : Comment) : String := c.textWithout defaultTags

/-- The text that hides a property from pages. -/
def deprecatedMarker : List Char := "@deprecated".toList

/-! ### Parameters -/

/-- What follows a type in braces, given how many braces are open. -/
def afterBraces : Nat → List Char → Option (List Char)
  | _, [] => none
  | depth, c :: cs =>
    if c = '{' then afterBraces (depth + 1) cs
    else if c = '}' then
      -- the brace that closes the type
      if depth ≤ 1 then some cs else afterBraces (depth - 1) cs
    else afterBraces depth cs

/-- Drop a type in braces that a parameter's text starts with. A type that does not end makes the
text unreadable. -/
def dropType : List Char → Option (List Char)
  | '{' :: cs => (afterBraces 1 cs).map trimStart
  | cs => some cs

/-- The name in a parameter's first word: without the brackets of an optional parameter and
without its default. -/
def paramName (word : List Char) : List Char :=
  let inner := word.dropWhile (· == '[')
  let inner := (inner.reverse.dropWhile (· == ']')).reverse
  trim (inner.takeWhile (· != '='))

/-- A parameter's text without the dash that may stand before it. -/
def afterDash (cs : List Char) : List Char :=
  match trimStart cs with
  | '-' :: cs => trimStart cs
  | cs => cs

/-- The name and the text that the body of a parameter tag gives. The body is one of
`{Type} name - text`, `[name=default] text` and `name text`. -/
def paramOfBody? (body : List Char) : Option (List Char × List Char) :=
  match dropType (trimStart body) with
  | none => none
  | some cs =>
    -- the word ends at the first blank, also inside brackets
    let name := paramName (cs.takeWhile fun c => !isBlank c)
    let text := cs.dropWhile fun c => !isBlank c
    if name.isEmpty then none else some (name, trim (afterDash text))

def paramTag : List Char := "param".toList

/-- The text of the first parameter tag for the given name. -/
def param? (c : Comment) (name : String) : Option String :=
  let params := c.tags.filter fun t => t.name == paramTag
  let params := params.filterMap fun t => paramOfBody? t.body
  (params.find? fun p => p.1 == name.toList).map fun p => String.ofList p.2

end Comment

end RefPages
