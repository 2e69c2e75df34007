import RefPages.Log
import RefPages.Project.Check

/-!
# Events of a run

The log of a run, told from its inputs: what was read and extracted for each entry, which subjects
have no comment, and which pages were written.
-/

namespace RefPages.Project

variable [SourceFile.ErrorPlaces]

/-- The word for a truth value in a log. -/
def truthText (b : Bool) : String := if b then "true" else "false"

/-- Does the section of parameters come from an interface? -/
def showsInterface : Parameters → Bool
  | .ofInterface _ => true
  | _ => false

def parsedEvent (path : String) : Event :=
  ⟨.debug, .source, "parsed source file", [("path", path)]⟩

def skippedEvent (e : Entry) : Event :=
  ⟨.warn, .engine,
    "No comment found for " ++ e.subject.display ++ " in " ++ e.sourcePath ++ ", skipping", []⟩

def extractedEvent (path : String) (r : Reference) : Event :=
  ⟨.debug, .engine, "extracted reference",
    [("path", path), ("subject", r.subject.display),
     ("interface", truthText (showsInterface r.parameters)),
     ("methods", toString r.methods.length)]⟩

def writtenEvent (destination : String) (e : Entry) : Event :=
  ⟨.info, .engine, "Successfully autogenerated " ++ destination ++ " from " ++ e.sourcePath, []⟩

/-- The events of reading an entry's source. -/
def extractEvents (d : Disk) (o : Options) (e : Entry) : List Event :=
  let path := o.source e
  match openSource d path with
  | .error _ => []
  | .ok f =>
    match referenceIn o e f with
    | .error _ => [parsedEvent path]
    | .ok none => [parsedEvent path, skippedEvent e]
    | .ok (some r) => [parsedEvent path, extractedEvent path r]

/-- The events of generating an entry's page. -/
def generateEvents (d : Disk) (o : Options) (e : Entry) : List Event :=
  match (generate d o e).1 with
  | .ok (.written destination) => extractEvents d o e ++ [writtenEvent destination e]
  | _ => extractEvents d o e

def generateAllEvents (o : Options) : Disk → List Entry → List Event
  | _, [] => []
  | d, e :: es => generateEvents d o e ++ generateAllEvents o (generate d o e).2 es

def checkAllEvents (o : Options) (d : Disk) (es : List Entry) : List Event :=
  es.flatMap (extractEvents d o)

end RefPages.Project
