import RefPages.Text.Lines

/-!
# Paths

Paths are texts, and operations on them keep what the user wrote: joining does not normalize, and
`..` stays. The pieces of a path are what stands between its slashes. A piece that is empty or a
single dot goes nowhere, except that a dot in front of a relative path counts as a step of its own
when paths are compared.
-/

namespace RefPages.Path

def isAbsolute (path : String) : Bool := path.toList.head? == some '/'

/-- A path below another. An absolute path stays as it is, and an empty one adds a slash. -/
def join (base path : String) : String :=
  if isAbsolute path || base = "" then path
  else if base.toList.getLast? == some '/' then base ++ path
  else base ++ "/" ++ path

/-! ### Pieces and steps -/

def pieces (path : String) : List String := (Text.splitOn '/' path.toList).map String.ofList

/-- Does a piece lead anywhere? -/
def leads (piece : String) : Bool := piece != "" && piece != "."

/-- The pieces of a path that lead somewhere. -/
def names (path : String) : List String := (pieces path).filter leads

/-- The name of the file that a path ends in. A path that ends in `..` has none. -/
def fileName? (path : String) : Option String :=
  match (names path).getLast? with
  | none => none
  | some name => if name = ".." then none else some name

/-- What stands after the last dot of a file name, if anything stands before it. -/
def extension? (path : String) : Option String :=
  match fileName? path with
  | none => none
  | some name =>
    let reversed := name.toList.reverse
    match reversed.dropWhile (· != '.') with
    | [] | [_] => none
    | _ => some (String.ofList (reversed.takeWhile (· != '.')).reverse)

/-- The path of a file with another name in the same folder. -/
def sibling (path name : String) : String :=
  match (pieces path).reverse.dropWhile fun p => !leads p with
  | [] => name
  | _ :: before => "/".intercalate (name :: before).reverse

/-- The path of the folder that a path ends in: what stands before its last name, without what leads
nowhere behind that folder. Nothing is left of a root and of a dot in front. -/
def folder (path : String) : String :=
  match (pieces path).reverse.dropWhile fun p => !leads p with
  | [] => ""
  | _ :: before => "/".intercalate (before.dropWhile fun p => !leads p).reverse

/-! ### Paths relative to others -/

/-- Drop the pieces in front that lead nowhere. -/
def dropIdle (ps : List String) : List String := ps.dropWhile fun p => !leads p

/-- The text of pieces, without the ones at both ends that lead nowhere. -/
def tidy (ps : List String) : String :=
  "/".intercalate (dropIdle (dropIdle ps).reverse).reverse

/-- Walk the names of a base along the pieces of a path. -/
def afterNames : List String → List String → Option (List String)
  | [], ps => some ps
  | name :: names, ps =>
    match dropIdle ps with
    | p :: ps => if p = name then afterNames names ps else none
    | [] => none

/-- Does a relative path start with a dot of its own? -/
def startsWithDot (path : String) : Bool := (pieces path).head? == some "."

/-- The rest of a path after a base that it starts with, step by step. -/
def stripBase? (path base : String) : Option String :=
  if isAbsolute path != isAbsolute base || startsWithDot path != startsWithDot base then none
  else (afterNames (names base) (pieces path)).map tidy

/-- A path as it is shown under a root: relative to it where it starts with it. -/
def relativeTo (root path : String) : String := (stripBase? path root).getD path

end RefPages.Path
