import RefPages.Disk.Error
import RefPages.Path

/-!
# The disk

A disk maps locations to files and folders. A location is the list of names from the root; a path is
a text, and `locate` walks it step by step from the folder that paths start in. Every step needs a
folder to stand in, so `a/..` needs a folder `a`, and a slash after the name of a file leads
nowhere.

There are no links, no permissions and no limits but those on the lengths of names and paths.
-/

namespace RefPages

/-- The names that lead from the root to a file or folder. -/
abbrev Location := List String

/-- What stands at a location. -/
inductive Item where
  | file (content : ByteArray)
  | folder

def Item.isFolder : Item → Bool
  | .file _ => false
  | .folder => true

structure Disk where
  items : List (Location × Item) := []
  cwd : Location := []

namespace Disk

/-! ### Locations -/

def get? (d : Disk) (loc : Location) : Option Item :=
  if loc = [] then some .folder else (d.items.find? fun e => e.1 == loc).map Prod.snd

def set (d : Disk) (loc : Location) (item : Item) : Disk :=
  let rec go : List (Location × Item) → List (Location × Item)
    | [] => [(loc, item)]
    | e :: es => if e.1 = loc then (loc, item) :: es else e :: go es
  { d with items := go d.items }

def erase (d : Disk) (loc : Location) : Disk :=
  { d with items := d.items.filter fun e => e.1 != loc }

def eraseTree (d : Disk) (loc : Location) : Disk :=
  -- what is below the location goes with it
  { d with items := d.items.filter fun e => !loc.isPrefixOf e.1 }

/-! ### Paths -/

def maxNameLength : Nat := 255

def maxPathLength : Nat := 4095

/-- The location that one step leads to from a folder. -/
def step (loc : Location) (piece : String) : Except DiskError Location :=
  -- `.` and an empty piece stay where they are; the root is its own parent
  if !Path.leads piece then .ok loc
  else if piece = ".." then .ok loc.dropLast
  else if maxNameLength < piece.utf8ByteSize then .error .nameTooLong
  else .ok (loc ++ [piece])

/-- The location that pieces lead to. Each step starts in a folder. -/
def walk (d : Disk) : Location → List String → Except DiskError Location
  | loc, [] => .ok loc
  | loc, piece :: pieces =>
    match d.get? loc with
    | none => .error .notFound
    | some (.file _) => .error .notDirectory
    | some .folder =>
      match step loc piece with
      | .error e => .error e
      | .ok next => walk d next pieces

/-- The location that a path starts from. -/
def origin (d : Disk) (path : String) : Location := if Path.isAbsolute path then [] else d.cwd

def locate (d : Disk) (path : String) : Except DiskError Location :=
  if path = "" then .error .notFound
  else if maxPathLength < path.utf8ByteSize then .error .nameTooLong
  else d.walk (d.origin path) (Path.pieces path)

def find? (d : Disk) (path : String) : Option Item :=
  match d.locate path with
  | .ok loc => d.get? loc
  | .error _ => none

def isFile (d : Disk) (path : String) : Bool :=
  match d.find? path with
  | some (.file _) => true
  | _ => false

/-! ### Reading -/

def read (d : Disk) (path : String) : Except DiskError ByteArray :=
  match d.locate path with
  | .error e => .error e
  | .ok loc =>
    match d.get? loc with
    | none => .error .notFound
    | some .folder => .error .isDirectory
    | some (.file content) => .ok content

def readText (d : Disk) (path : String) : Except DiskError String :=
  match d.read path with
  | .error e => .error e
  | .ok content =>
    match String.fromUTF8? content with
    | none => .error .invalidText
    | some s => .ok s

/-! ### Writing -/

/-- Does a path end in a piece that names nothing new? -/
def endsInFolder (path : String) : Bool :=
  match (Path.pieces path).getLast? with
  | none => true
  | some piece => !Path.leads piece || piece = ".."

def write (d : Disk) (path : String) (content : ByteArray) : Except DiskError Disk :=
  match d.locate path with
  | .error e => .error e
  | .ok loc =>
    if endsInFolder path then .error .isDirectory
    else
      match d.get? loc with
      | some .folder => .error .isDirectory
      | _ => .ok (d.set loc (.file content))

def removeFile (d : Disk) (path : String) : Except DiskError Disk :=
  match d.locate path with
  | .error e => .error e
  | .ok loc =>
    match d.get? loc with
    | none => .error .notFound
    | some .folder => .error .isDirectory
    | some (.file _) => .ok (d.erase loc)

/-- Take away a file or a folder with all that is below it. -/
def remove (d : Disk) (path : String) : Except DiskError Disk :=
  match d.locate path with
  | .error e => .error e
  | .ok loc =>
    match d.get? loc with
    | none => .error .notFound
    | some _ => .ok (d.eraseTree loc)

def endsInSlash (path : String) : Bool := (Path.pieces path).getLast? == some ""

/-- Where a file comes to stand that is moved to a path. The way has to be there up to the last
piece that is not empty. That one has to be a name, and no slash may follow it. -/
def landing (d : Disk) (path : String) : Except DiskError Location :=
  let pieces := ((Path.pieces path).reverse.dropWhile (· == "")).reverse
  if path = "" then .error .notFound
  else if maxPathLength < path.utf8ByteSize then .error .nameTooLong
  else
    -- the slashes at the end are looked at last: the way up to the name has to be there first
    match d.walk (d.origin path) pieces with
    | .error e => .error e
    | .ok loc =>
      if pieces.getLast?.all fun p => p == "." || p == ".." then .error .busy
      else if endsInSlash path then .error .notDirectory
      else .ok loc

/-- Move a file to another path, in place of a file that stands there. -/
def move (d : Disk) (source target : String) : Except DiskError Disk :=
  match d.locate source with
  | .error e => .error e
  | .ok sourceLoc =>
    match d.get? sourceLoc with
    | some (.file content) =>
      match d.landing target with
      | .error e => .error e
      | .ok targetLoc =>
        match d.get? targetLoc with
        | some .folder => .error .isDirectory
        -- a file that stands there is replaced, and it may be the moved one itself
        | _ => .ok ((d.erase sourceLoc).set targetLoc (.file content))
    | _ => .error .notFound

/-! ### Folders -/

def makeFolder (d : Disk) (start : Location) (names : List String) : Except DiskError Disk :=
  match d.walk start names with
  | .error e => .error e
  | .ok loc =>
    match d.get? loc with
    | some _ => .error .alreadyExists
    | none => .ok (d.set loc .folder)

def isFolderAt (d : Disk) (start : Location) (names : List String) : Bool :=
  match d.walk start names with
  | .ok loc => (d.get? loc).any Item.isFolder
  | .error _ => false

def ensureFolder (d : Disk) (start : Location) (names : List String) : Except DiskError Disk :=
  match d.makeFolder start names with
  | .ok d => .ok d
  -- a failure is forgiven where the folder is there, whatever its cause was
  | .error e => if d.isFolderAt start names then .ok d else .error e

/-- Make the folders at the end of some names, given from the last one to the first. Folders that
were made stay where a later one cannot be made. -/
def ensureFolders (start : Location) : List String → Disk → Option DiskError × Disk
  | [], d => (none, d)
  | name :: parents, d =>
    let names := (name :: parents).reverse
    match d.ensureFolder start names with
    | .ok d => (none, d)
    | .error .notFound =>
      -- only a missing parent is worth making the parents for
      match ensureFolders start parents d with
      | (some e, d) => (some e, d)
      | (none, d) =>
        match d.ensureFolder start names with
        | .ok d => (none, d)
        | .error e => (some e, d)
    | .error e => (some e, d)

/-- Make the folder at a path, with all folders on the way. A path that is too long fails before any
of them is made. -/
def makeFolders (d : Disk) (path : String) : Option DiskError × Disk :=
  if maxPathLength < path.utf8ByteSize then (some .nameTooLong, d)
  else ensureFolders (d.origin path) (Path.names path).reverse d

/-- Make the folder that the file at a path belongs into. -/
def makeParents (d : Disk) (path : String) : Option DiskError × Disk :=
  d.makeFolders (Path.folder path)

/-! ### Listing -/

/-- A location below a folder as a path relative to it, with a slash after folders. -/
def shown? (folder : Location) (e : Location × Item) : Option String :=
  if folder.isPrefixOf e.1 && e.1 != folder then
    let path := "/".intercalate (e.1.drop folder.length)
    some (if e.2.isFolder then path ++ "/" else path)
  else none

/-- All that is below the folder that paths start in, sorted. -/
def listing (d : Disk) : List String :=
  (d.items.filterMap (shown? d.cwd)).mergeSort fun a b => decide (a ≤ b)

end Disk

end RefPages
