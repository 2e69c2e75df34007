import RefPages.Project.Extract

/-!
# Generating pages

A page is written to a temporary file beside its destination and then moved into place, so the
destination never holds a part of a page. Where the move fails the temporary file is taken away.

A run over several entries goes on after failures: every entry ends up as written, skipped or
failed, in the order of the entries.
-/

namespace RefPages.Project

variable [SourceFile.ErrorPlaces]

/-! ### Writing a page -/

def temporaryName (name : String) : String := "." ++ name ++ ".refdoc-tmp"

/-- The path of the temporary file for a destination with the given file name. -/
def temporaryPath (path name : String) : String := Path.sibling path (temporaryName name)

def putInPlace (d : Disk) (temporary path : String) : Option DiskError × Disk :=
  match d.move temporary path with
  | .ok d => (none, d)
  | .error e =>
    match d.removeFile temporary with
    | .ok d => (some e, d)
    -- that the temporary file stays is not reported: the first failure is
    | .error _ => (some e, d)

/-- Write a text beside a file and move it into place, once the folder is there. -/
def replaceFile (d : Disk) (path name content : String) : Option DiskError × Disk :=
  match d.makeParents path with
  | (some e, d) => (some e, d)
  | (none, d) =>
    let temporary := temporaryPath path name
    match d.write temporary content.toUTF8 with
    | .error e => (some e, d)
    | .ok d => putInPlace d temporary path

def writePage (d : Disk) (path content : String) : Option WriteProblem × Disk :=
  match Path.fileName? path with
  | none => (some .noFileName, d)
  | some name =>
    let (error?, d) := replaceFile d path name content
    (error?.map .disk, d)

/-! ### One entry -/

inductive Generated where
  | written (destination : String)
  /-- The subject has no comment, so there is no page. -/
  | skipped
deriving DecidableEq, Repr

def generatePage (d : Disk) (o : Options) (e : Entry) (page : Except Failure (Option String)) :
    Except Failure Generated × Disk :=
  match page with
  | .error failure => (.error failure, d)
  -- nothing is written for a subject without a comment
  | .ok none => (.ok .skipped, d)
  | .ok (some text) =>
    let destination := o.destination e
    match writePage d destination text with
    | (some problem, d) => (.error (.write destination problem), d)
    | (none, d) => (.ok (.written destination), d)

/-- Read the source of an entry and write its page. -/
def generate (d : Disk) (o : Options) (e : Entry) : Except Failure Generated × Disk :=
  generatePage d o e (page d o e)

/-! ### Several entries -/

structure EntryFailure where
  subject : Subject
  sourcePath : String
  failure : Failure
deriving DecidableEq, Repr

/-- An entry with the failure it ended in. -/
def EntryFailure.of (e : Entry) (failure : Failure) : EntryFailure :=
  ⟨e.subject, e.sourcePath, failure⟩

structure GenerateReport where
  written : List String := []
  skipped : List Subject := []
  failures : List EntryFailure := []
deriving DecidableEq, Repr

namespace GenerateReport

def isOk (r : GenerateReport) : Bool := r.failures.isEmpty

/-- The report with one more entry before the others. -/
def cons (e : Entry) (result : Except Failure Generated) (r : GenerateReport) : GenerateReport :=
  match result with
  | .ok (.written destination) => ⟨destination :: r.written, r.skipped, r.failures⟩
  | .ok .skipped => ⟨r.written, e.subject :: r.skipped, r.failures⟩
  | .error failure => ⟨r.written, r.skipped, .of e failure :: r.failures⟩

end GenerateReport

def generateAll (o : Options) : Disk → List Entry → GenerateReport × Disk
  | d, [] => ({}, d)
  | d, e :: es =>
    let (result, d) := generate d o e
    let (report, d) := generateAll o d es
    (report.cons e result, d)

end RefPages.Project
