import RefPages.Project.Generate
import RefPages.Text.Bytes

/-!
# Checking pages

A page is fresh if the file at its destination holds exactly the bytes that would be written now.
Checking changes nothing on the disk.
-/

namespace RefPages.Project

variable [SourceFile.ErrorPlaces]

structure Stale where
  subject : Subject
  destination : String
  /-- What the page holds now, if it is there at all. Bytes that are no text are replaced. -/
  current? : Option String
  expected : String
deriving DecidableEq, Repr

def Stale.isMissing (s : Stale) : Bool := s.current?.isNone

inductive Checked where
  | fresh
  | stale (page : Stale)
  /-- The subject has no comment, so there is no page. -/
  | skipped
deriving DecidableEq, Repr

/-- What is at a destination; `none` if nothing is there. -/
def current (d : Disk) (path : String) : Except Failure (Option ByteArray) :=
  match d.read path with
  | .ok content => .ok (some content)
  -- a missing page is stale, and any other failure to read it is a failure of the check
  | .error .notFound => .ok none
  | .error e => .error (.disk e)

/-- Compare a page with what is at its destination. -/
def checkPage (d : Disk) (o : Options) (e : Entry) (page : Except Failure (Option String)) :
    Except Failure Checked :=
  match page with
  | .error failure => .error failure
  | .ok none => .ok .skipped
  | .ok (some expected) =>
    let destination := o.destination e
    match current d destination with
    | .error failure => .error failure
    | .ok none => .ok (.stale ⟨e.subject, destination, none, expected⟩)
    | .ok (some content) =>
      -- bytes are compared, so a page that is no text is stale and not a failure
      if content.data = expected.toUTF8.data then .ok .fresh
      else .ok (.stale ⟨e.subject, destination, some (Text.decode content), expected⟩)

def check (d : Disk) (o : Options) (e : Entry) : Except Failure Checked :=
  checkPage d o e (page d o e)

/-! ### Several entries -/

structure CheckReport where
  fresh : List Subject := []
  stale : List Stale := []
  skipped : List Subject := []
  failures : List EntryFailure := []
deriving DecidableEq, Repr

namespace CheckReport

def isOk (r : CheckReport) : Bool := r.stale.isEmpty && r.failures.isEmpty

/-- The report with one more entry before the others. -/
def cons (e : Entry) (result : Except Failure Checked) (r : CheckReport) : CheckReport :=
  match result with
  | .ok .fresh => ⟨e.subject :: r.fresh, r.stale, r.skipped, r.failures⟩
  | .ok (.stale s) => ⟨r.fresh, s :: r.stale, r.skipped, r.failures⟩
  | .ok .skipped => ⟨r.fresh, r.stale, e.subject :: r.skipped, r.failures⟩
  | .error failure => ⟨r.fresh, r.stale, r.skipped, .of e failure :: r.failures⟩

end CheckReport

def checkAll (o : Options) (d : Disk) (es : List Entry) : CheckReport :=
  es.foldr (fun e report => report.cons e (check d o e)) {}

end RefPages.Project
