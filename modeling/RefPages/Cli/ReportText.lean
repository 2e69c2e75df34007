import RefPages.Cli.Style
import RefPages.Diff.Lines
import RefPages.Json.Basic
import RefPages.Project.Check

/-!
# Reports on the terminal

What a run over several entries says at its end: the pages that were written or are out of date, the
subjects without a comment and the entries that failed. Paths are shown relative to the root of the
project where they start with it.
-/

namespace RefPages.Cli

open Project

def skippedWord (color : Color) : String := yellow color "skipped"

def writtenLine (color : Color) (root destination : String) : String :=
  green color "wrote" ++ " " ++ Path.relativeTo root destination ++ "\n"

def skippedLine (color : Color) (s : Subject) : String :=
  skippedWord color ++ " " ++ s.display ++ " (no leading comment)\n"

def failureText (color : Color) (f : EntryFailure) : String :=
  red color "failed" ++ " " ++ f.subject.display ++ " (" ++ f.sourcePath ++ ")\n" ++
    report color f.failure

def failuresText (color : Color) (fs : List EntryFailure) : String :=
  String.join (fs.map (failureText color))

/-! ### Generating -/

/-- What is said after pages were generated; the texts for failures go elsewhere. -/
def generateText (color : Color) (root : String) (r : GenerateReport) : String :=
  String.join (r.written.map (writtenLine color root)) ++
    String.join (r.skipped.map (skippedLine color)) ++
    toString r.written.length ++ " page(s) written, " ++ toString r.skipped.length ++
    " skipped, " ++ toString r.failures.length ++ " failed\n"

/-! ### Checking -/

def changeLine (color : Color) : Diff.Change String → String
  | .removed line => "  " ++ red color ("-" ++ Diff.ended line)
  | .added line => "  " ++ green color ("+" ++ Diff.ended line)
  | .same line => "   " ++ Diff.ended line

def diffText (color : Color) (s : Stale) : String :=
  String.join ((Diff.ofTexts (s.current?.getD "") s.expected).map (changeLine color))

def staleLine (root : String) (s : Stale) : String :=
  "  " ++ s.subject.display ++ " at " ++ Path.relativeTo root s.destination ++
    (if s.isMissing then " (missing)\n" else " (out of date)\n")

def stalesText (color : Color) (root : String) (diff : Bool) (ss : List Stale) : String :=
  if ss.isEmpty then ""
  else
    "\nStale pages:\n" ++
      String.join (ss.map fun s => staleLine root s ++ if diff then diffText color s else "")

/-- What is said when all pages are fresh. -/
def checkPassedText (color : Color) (r : CheckReport) : String :=
  "Check passed: all reference pages are up to date.\n" ++
    String.join (r.skipped.map (skippedLine color))

/-- What is said when a page is not fresh or an entry failed. -/
def checkFailedText (color : Color) (root : String) (diff : Bool) (r : CheckReport) : String :=
  "Check failed.\n  stale pages: " ++ toString r.stale.length ++
    "\n  failed docs: " ++ toString r.failures.length ++ "\n" ++
    stalesText color root diff r.stale ++ failuresText color r.failures ++
    "\nRun `refdoc generate` to update them.\n"

def staleJson (root : String) (s : Stale) : Json :=
  .object
    [("destination", .string (Path.relativeTo root s.destination)),
     ("kind", .string s.subject.kind.word), ("missing", .boolean s.isMissing),
     ("name", .string s.subject.name)]

def failureJson (f : EntryFailure) : Json :=
  .object
    [("kind", .string f.subject.kind.word), ("message", .string f.failure.message),
     ("name", .string f.subject.name), ("source", .string f.sourcePath)]

def namesJson (ss : List Subject) : Json := .array (ss.map fun s => .string s.name)

def checkJson (root : String) (r : CheckReport) : Json :=
  .object
    [("failures", .array (r.failures.map failureJson)), ("fresh", namesJson r.fresh),
     ("ok", .boolean r.isOk), ("skipped", namesJson r.skipped),
     ("stale", .array (r.stale.map (staleJson root)))]

end RefPages.Cli
