import RefPages.Text.Blank

/-!
# Subjects

A reference page documents one declaration of a source file: a class, a component or a hook. The
three come from three fields of which exactly one may be set.
-/

namespace RefPages

inductive SubjectKind where
  | classKind
  | component
  | hook
deriving DecidableEq, Repr

namespace SubjectKind

def word : SubjectKind → String
  | .classKind => "class"
  | .component => "component"
  | .hook => "hook"

/-- The heading above the parameters on a page. -/
def heading : SubjectKind → String
  | .classKind => "Constructor Parameters"
  | .component => "Properties"
  | .hook => "Parameters"

end SubjectKind

structure Subject where
  kind : SubjectKind
  name : String
deriving DecidableEq, Repr

inductive SubjectProblem where
  /-- No field is set. -/
  | missing
  /-- The one field that is set is blank. -/
  | blank (kind : SubjectKind)
  /-- Several fields are set; these are their kinds and values. -/
  | several (given : List (SubjectKind × String))
deriving DecidableEq, Repr

namespace SubjectProblem

def message : SubjectProblem → String
  | .missing => "no class, component or hook was given"
  | .blank kind => "the " ++ kind.word ++ " name is empty"
  | .several given =>
    let items := given.map fun (kind, name) => kind.word ++ " `" ++ name ++ "`"
    "more than one subject was given: " ++ ", ".intercalate items

end SubjectProblem

namespace Subject

/-- The subject with the given name, without the blanks around it. -/
def named (kind : SubjectKind) (name : String) : Except SubjectProblem Subject :=
  let name := Text.trimmed name
  if name = "" then .error (.blank kind) else .ok ⟨kind, name⟩

/-- The subject given by three fields of which exactly one must be set. -/
def ofFields (className component hook : Option String) : Except SubjectProblem Subject :=
  let fields := [(SubjectKind.classKind, className), (.component, component), (.hook, hook)]
  match fields.filterMap fun (kind, name?) => name?.map fun name => (kind, name) with
  | [] => .error .missing
  | [(kind, name)] => named kind name
  | given => .error (.several given)

def display (s : Subject) : String := s.kind.word ++ " `" ++ s.name ++ "`"

def isClass (s : Subject) : Bool := s.kind == .classKind

end Subject

end RefPages
