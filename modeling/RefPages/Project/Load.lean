import RefPages.Disk.Basic
import RefPages.Settings.Basic

/-!
# Settings of a project

The settings file of a project is the first of three candidates under its root that is a file.
-/

namespace RefPages.Project

/-- The paths under a root where the settings can stand, in the order in which they are tried. -/
def candidates : List String := ["refdoc.toml", ".refdoc.toml", ".config/refdoc.toml"]

def settingsPath? (d : Disk) (root : String) : Option String :=
  (candidates.map (Path.join root)).find? d.isFile

/-- The settings of a project, if it has a settings file. -/
def load (d : Disk) (root : String) : Except Failure (Option Settings) :=
  match settingsPath? d root with
  | none => .ok none
  | some path =>
    match d.readText path with
    | .error e => .error (.disk e)
    | .ok document =>
      match Settings.ofToml document with
      | .error failure => .error failure
      | .ok s => .ok (some s)

/-- The settings of a project that must have a settings file. -/
def loadRequired (d : Disk) (root : String) : Except Failure Settings :=
  match load d root with
  | .error failure => .error failure
  | .ok none => .error (.missingSettings root)
  | .ok (some s) => .ok s

end RefPages.Project
