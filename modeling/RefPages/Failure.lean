import RefPages.Disk.Error
import RefPages.Subject

/-!
# Failures

One type for every cause that stops a page from being made, with the three texts that reports show:
a message, a code and, for the causes that a user can mend, a hint.
-/

namespace RefPages

inductive SettingsProblem where
  /-- The file is no TOML document. -/
  | notToml
  /-- The document does not have the shape of settings. -/
  | shape (reason : String)
deriving DecidableEq, Repr

inductive WriteProblem where
  /-- The destination does not end in a file name. -/
  | noFileName
  /-- The file system refused. -/
  | disk (error : DiskError)
deriving DecidableEq, Repr

/-- A place in a text. -/
inductive Position where
  | at (line column : Nat)
  /-- The reader of the text does not tell. -/
  | unknown
deriving DecidableEq, Repr

/-- A file that is rejected by the reader, with the place of the first error in its text. -/
structure SyntaxError where
  path : String
  position : Position
deriving DecidableEq, Repr

/-- Why a page could not be made or checked. -/
inductive Failure where
  | disk (error : DiskError)
  | readSource (path : String) (error : DiskError)
  | unsupportedSource (path : String)
  | parse (error : SyntaxError)
  | subjectNotFound (subject : Subject) (path : String)
  | invalidSubject (problem : SubjectProblem)
  | settings (problem : SettingsProblem)
  | missingSettings (root : String)
  | write (path : String) (problem : WriteProblem)
  | unknownPage (name : String)
deriving DecidableEq, Repr

def SettingsProblem.reason : SettingsProblem → String
  | .notToml => "invalid TOML"
  | .shape reason => reason

def WriteProblem.reason : WriteProblem → String
  | .noFileName => "destination is not a file path"
  | .disk error => error.message

/-- The text of a place: its line and column, for which letters stand where they are not known. -/
def Position.text : Position → String
  | .at line column => Nat.repr line ++ ":" ++ Nat.repr column
  | .unknown => "L:C"

namespace Failure

def message : Failure → String
  | .disk error => error.message
  | .readSource path error => "failed to read source file `" ++ path ++ "`: " ++ error.message
  | .unsupportedSource path => "unsupported source file: `" ++ path ++ "`"
  | .parse error =>
    "failed to parse `" ++ error.path ++ "`: syntax error at " ++ error.position.text
  | .subjectNotFound subject path => subject.display ++ " not found in `" ++ path ++ "`"
  | .invalidSubject problem => "invalid reference doc subject: " ++ problem.message
  | .settings problem => "failed to parse config file: " ++ problem.reason
  | .missingSettings root => "no config file found under `" ++ root ++ "`"
  | .write path problem => "failed to write `" ++ path ++ "`: " ++ problem.reason
  | .unknownPage name => "no reference doc configured for `" ++ name ++ "`"

def code : Failure → String
  | .disk _ => "refdoc::io_error"
  | .readSource .. => "refdoc::read_source"
  | .unsupportedSource _ => "refdoc::unsupported_source"
  | .parse _ => "refdoc::parse"
  | .subjectNotFound .. => "refdoc::subject_not_found"
  | .invalidSubject _ => "refdoc::invalid_subject"
  | .settings _ => "refdoc::config_parse"
  | .missingSettings _ => "refdoc::missing_config"
  | .write .. => "refdoc::write"
  | .unknownPage _ => "refdoc::unknown_doc"

/-- What a user can do about a failure. -/
def help? : Failure → Option String
  | .disk _ | .readSource .. | .write .. => none
  | .unsupportedSource _ => some "supported extensions: ts, mts, cts, tsx, js, jsx, mjs, cjs"
  | .parse _ => some "the source file must be valid TypeScript before docs can be generated"
  | .subjectNotFound .. =>
    some "check the subject name and kind in the reference doc configuration"
  | .invalidSubject _ => some "set exactly one of `class_name`, `component` or `hook`"
  | .settings _ => some "check that refdoc.toml is valid TOML with a [[docs]] table array"
  | .missingSettings _ => some "run `refdoc init` to create a refdoc.toml"
  | .unknownPage _ =>
    some "`--only` takes a class, component or hook name listed in refdoc.toml"

end Failure

end RefPages
