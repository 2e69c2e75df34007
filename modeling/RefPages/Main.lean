import RefPages.Cli.Footprint

/-!
# The command line

The outer layer: look at the files that a run can touch, run, print, and carry the changes to the
files. All decisions are made by `RefPages.Cli.run`.
-/

namespace RefPages.Main

/-- The absolute path of a location. -/
def pathOf (loc : Location) : String := "/" ++ "/".intercalate loc

/-- The locations on the way along the pieces of a path. -/
def onTheWay : Location → List String → List Location
  | loc, [] => [loc]
  | loc, piece :: pieces =>
    match Disk.step loc piece with
    | .ok next => loc :: onTheWay next pieces
    | .error _ => [loc]

/-- The number that the system gives to reading a folder as a file. -/
def folderCode : UInt32 := 21

/-- The number of an error of the system. -/
def codeOf : IO.Error → UInt32
  | .inappropriateType _ code _ => code
  | .otherError code _ => code
  | _ => 0

/-- What stands at a location. -/
def look (loc : Location) : IO (Option Item) := do
  try
    return some (.file (← IO.FS.readBinFile (pathOf loc)))
  catch e =>
    return if codeOf e == folderCode then some .folder else none

/-- Put on the disk what stands along a path. -/
def addPath (d : Disk) (path : String) : IO Disk :=
  (onTheWay (d.origin path) (Path.pieces path)).foldlM
    (fun d loc => do
      match ← look loc with
      | none => return d
      | some item => return d.set loc item)
    d

def isSame : Option Item → Item → Bool
  | some .folder, .folder => true
  | some (.file a), .file b => a.data == b.data
  | _, _ => false

/-- Carry what changed from one disk to another to the files. A file is written beside its place and
then moved. -/
def store (before after : Disk) : IO Unit := do
  for (loc, item) in after.items do
    if !isSame (before.get? loc) item then
      match item with
      | .folder => IO.FS.createDirAll (pathOf loc)
      | .file content =>
        let path := pathOf loc
        let temporary := Path.sibling path (Project.temporaryName (loc.getLastD ""))
        IO.FS.writeBinFile temporary content
        IO.FS.rename temporary path
  for (loc, _) in before.items do
    if (after.get? loc).isNone then IO.FS.removeFile (pathOf loc)

def wantsColor : IO Bool := do
  if (← IO.getEnv "NO_COLOR").isSome then return false
  match ← IO.getEnv "FORCE_COLOR" with
  | some value => return value != "0" && value != "false"
  | none => (← IO.getStderr).isTty

/-- Run the program with the arguments on the files of the computer. -/
def start (args : List String) : IO UInt32 := do
  let env : Cli.Environment := ⟨← wantsColor, ← IO.getEnv "REFDOC_LOG"⟩
  let here := toString (← IO.currentDir)
  let mut d ← addPath ⟨[], Path.names here⟩ here
  for path in Cli.footprint env d args do d ← addPath d path
  for path in Cli.footprint env d args do d ← addPath d path
  let (output, after) := Cli.run env d args
  store d after
  IO.print output.out
  IO.eprint output.err
  return UInt32.ofNat output.exit

end RefPages.Main

def main (args : List String) : IO UInt32 := RefPages.Main.start args
