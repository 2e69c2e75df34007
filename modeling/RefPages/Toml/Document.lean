import RefPages.Toml.Scalar

/-!
# TOML documents

A document is read line by line into a tree of tables. A table remembers how it came to be, because
that decides what may be added to it:

* a *headed* table has a header of its own and gets no second one;
* an *implied* table stands on the path of a header and may still get its own;
* a *dotted* table stands on the path of a key and gets none.

The tables of a list are all headed, and only the last one is still open.
-/

namespace RefPages.Toml

/-! ### Open tables -/

/-- How a table came to be. -/
inductive Standing where
  | headed
  | implied
  | dotted
deriving DecidableEq, Repr

/-- What a key stands for while a document is read. -/
inductive Item where
  | value (value : Value)
  | table (standing : Standing) (entries : List (String × Item))
  /-- A list of tables, the last one first. -/
  | tables (last : List (String × Item)) (before : List (List (String × Item)))
deriving Repr

abbrev Entries := List (String × Item)

/-- What a key stands for in a table. -/
def lookup? (key : String) (entries : Entries) : Option Item :=
  (entries.find? fun e => e.1 == key).map Prod.snd

def assign (key : String) (item : Item) : Entries → Entries
  | [] => [(key, item)]
  | e :: es => if e.1 == key then (key, item) :: es else e :: assign key item es

/-- Change the open table at the end of a header's path. Missing tables on the way are implied. -/
def within (change : Entries → Option Entries) : List String → Entries → Option Entries
  | [], entries => change entries
  | key :: path, entries =>
    match lookup? key entries with
    | none => (within change path []).map fun es => assign key (.table .implied es) entries
    | some (.value _) => none
    | some (.table standing es) =>
      (within change path es).map fun es => assign key (.table standing es) entries
    | some (.tables last before) =>
      (within change path last).map fun es => assign key (.tables es before) entries

def openTable (key : String) (entries : Entries) : Option Entries :=
  match lookup? key entries with
  | none => some (assign key (.table .headed []) entries)
  | some (.table .implied es) => some (assign key (.table .headed es) entries)
  | _ => none

/-- Open one more table of a list. -/
def openListed (key : String) (entries : Entries) : Option Entries :=
  match lookup? key entries with
  | none => some (assign key (.tables [] []) entries)
  | some (.tables last before) => some (assign key (.tables [] (last :: before)) entries)
  | _ => none

def addValue (key : String) (value : Value) (entries : Entries) : Option Entries :=
  match lookup? key entries with
  | none => some (entries ++ [(key, .value value)])
  | some _ => none

/-- Give a key with dots a value. The tables on its way may not be headed, and the last one must be
dotted. -/
def addDotted (value : Value) : String → List String → Entries → Option Entries
  | key, [], entries => addValue key value entries
  | key, next :: path, entries =>
    let isLast := path.isEmpty
    match lookup? key entries with
    | none =>
      (addDotted value next path []).map fun es => assign key (.table .dotted es) entries
    | some (.table standing es) =>
      if standing == .headed || (isLast && standing != .dotted) then none
      else
        (addDotted value next path es).map fun es => assign key (.table standing es) entries
    | _ => none

mutual

def Item.finish : Item → Value
  | .value v => v
  | .table _ entries => .table (finishEntries entries)
  | .tables last before => .array ((Value.table (finishEntries last) :: finishAll before).reverse)

def finishEntries : List (String × Item) → List (String × Value)
  | [] => []
  | (key, item) :: entries => (key, item.finish) :: finishEntries entries

def finishAll : List (List (String × Item)) → List Value
  | [] => []
  | entries :: more => .table (finishEntries entries) :: finishAll more

end

/-! ### Values -/

/-- The items of an array up to its closing bracket. -/
def arrayTail? (value? : List Char → Read Value) : Nat → List Char → Read (List Value)
  | 0, _ => none
  | limit + 1, cs =>
    match dropLines cs with
    | ']' :: rest => some ([], rest)
    | cs =>
      match value? cs with
      | none => none
      | some (v, rest) =>
        match dropLines rest with
        | ']' :: rest => some ([v], rest)
        | ',' :: rest => (arrayTail? value? limit rest).map fun (vs, rest) => (v :: vs, rest)
        | _ => none

/-- The entries of an inline table up to its closing brace, added to the ones before. -/
def tableTail? (value? : List Char → Read Value) : Nat → Entries → List Char → Read Entries
  | 0, _, _ => none
  | limit + 1, entries, cs =>
    match dropLines cs with
    | '}' :: rest => some (entries, rest)
    | cs =>
      match key? cs with
      | none => none
      | some ((key, path), rest) =>
        match rest with
        | '=' :: rest =>
          match value? (dropGap rest) with
          | none => none
          | some (v, rest) =>
            match addDotted v key path entries, dropLines rest with
            | some entries, '}' :: rest => some (entries, rest)
            | some entries, ',' :: rest => tableTail? value? limit entries rest
            | _, _ => none
        | _ => none

/-- A value. The number limits how deeply arrays and inline tables may be nested. -/
def value? : Nat → List Char → Read Value
  | depth, cs =>
    match cs, depth with
    | '[' :: rest, depth + 1 =>
      (arrayTail? (value? depth) (rest.length + 1) rest).map fun (vs, rest) => (.array vs, rest)
    | '[' :: _, 0 => none
    | '{' :: rest, depth + 1 =>
      (tableTail? (value? depth) (rest.length + 1) [] rest).map fun (es, rest) =>
        (.table (finishEntries es), rest)
    | '{' :: _, 0 => none
    | cs, _ =>
      match text? cs with
      | some (text, rest) => some (.string (String.ofList text), rest)
      | none => scalar? cs

def maxDepth : Nat := 80

/-! ### Lines -/

inductive Statement where
  /-- The header of a table, as the path to it and its name. -/
  | header (path : List String) (key : String)
  /-- The header of one more table of a list. -/
  | listed (path : List String) (key : String)
  | assignment (key : String) (path : List String) (value : Value)
deriving Repr

/-- The path and the last part of a key. -/
def pathAndKey (first : String) (more : List String) : List String × String :=
  ((first :: more).dropLast, (first :: more).getLast (List.cons_ne_nil _ _))

def statement? (cs : List Char) : Read Statement :=
  match cs with
  | '[' :: '[' :: rest =>
    match key? rest with
    | some ((first, more), ']' :: ']' :: rest) =>
      let (path, key) := pathAndKey first more
      some (.listed path key, rest)
    | _ => none
  | '[' :: rest =>
    match key? rest with
    | some ((first, more), ']' :: rest) =>
      let (path, key) := pathAndKey first more
      some (.header path key, rest)
    | _ => none
  | cs =>
    match key? cs with
    | some ((first, more), '=' :: rest) =>
      (value? maxDepth (dropGap rest)).map fun (v, rest) => (.assignment first more v, rest)
    | _ => none

def statements? : Nat → List Char → Option (List Statement)
  | 0, _ => none
  | limit + 1, cs =>
    match dropLines cs with
    | [] => some []
    | cs =>
      match statement? cs with
      | none => none
      | some (s, rest) =>
        match restOfLine? rest with
        | none => none
        | some rest => (statements? limit rest).map (s :: ·)

/-- Add lines to the tables of a document, where the table at the given path is the open one. -/
def build : List String → Entries → List Statement → Option Entries
  | _, root, [] => some root
  | _, root, .header path key :: more =>
    match within (openTable key) path root with
    | none => none
    | some root => build (path ++ [key]) root more
  | _, root, .listed path key :: more =>
    match within (openListed key) path root with
    | none => none
    | some root => build (path ++ [key]) root more
  | current, root, .assignment key path value :: more =>
    match within (addDotted value key path) current root with
    | none => none
    | some root => build current root more

def parse? (document : String) : Option (List (String × Value)) :=
  let cs := match document.toList with
    | '\uFEFF' :: cs => cs
    | cs => cs
  match statements? (cs.length + 1) cs with
  | none => none
  | some lines => (build [] [] lines).map finishEntries

end RefPages.Toml
