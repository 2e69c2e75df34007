import RefPages.Cli.Run

/-!
# What a run can touch

The paths that a run may read or write, so that only these have to be known of a large disk. Which
pages there are stands in the settings, so the footprint grows once these are on the disk.
-/

namespace RefPages.Cli

open Project

/-- The paths of an entry: its source, its page and the temporary file beside the page. -/
def entryPaths (o : Options) (e : Entry) : List String :=
  let destination := o.destination e
  match Path.fileName? destination with
  | none => [o.source e, destination]
  | some name => [o.source e, destination, temporaryPath destination name]

def planPaths : Except Failure (Options × List Entry) → List String
  | .error _ => []
  | .ok (o, entries) => entries.flatMap (entryPaths o)

/-- The paths that a command may touch, as far as the disk shows them. -/
def commandPaths (c : Context) (d : Disk) : Command → List String
  | .init => []
  | .generate only | .check only _ _ => planPaths (plan c d only)
  | .page source destination fields _ =>
    planPaths ((planPage c d source destination fields none).map fun (o, e) => (o, [e]))
  | .inspect source fields _ =>
    planPaths ((planPage c d source "" fields none).map fun (o, e) => (o, [e]))

/-- The paths that a run may touch, as far as the disk shows them. -/
def footprint (env : Environment) (d : Disk) (args : List String) : List String :=
  match parse args with
  | .ok ⟨globals, some command⟩ =>
    let c := Context.of d env globals
    candidates.map (Path.join c.root) ++ commandPaths c d command
  | _ => []

end RefPages.Cli
