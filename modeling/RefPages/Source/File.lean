import RefPages.Failure
import RefPages.Path
import RefPages.Source.Resolve
import RefPages.Syntax.Parse
import RefPages.Text.Quoted

/-!
# Source files

A source file is read as a tree, and everything a page needs is looked up there: whether a subject
is declared, its comment, the interface that the type of its first argument stands for, and for a
class its constructor and its public methods.
-/

namespace RefPages

open Source Syntax

structure SourceFile where
  path : String
  text : String
  root : Node
deriving Repr

namespace SourceFile

/-! ### Reading -/

def extensions : Dialect → List String
  | .plain => ["ts", "mts", "cts"]
  | .markup => ["tsx", "jsx", "js", "mjs", "cjs"]

/-- The dialect that the extension of a path stands for. Upper case letters make no difference. -/
def dialect? (path : String) : Option Dialect :=
  let extension := ((Path.extension? path).getD "").toLower
  if (extensions .plain).contains extension then some .plain
  else if (extensions .markup).contains extension then some .markup
  else none

/-- Where a reader finds the first error in a text that it rejects. The grammar does not tell: what
counts is how the reader goes on behind an error. -/
class ErrorPlaces where
  position : Dialect → String → Position

/-- A reader that does not tell where an error is. -/
instance (priority := low) unknownPlaces : ErrorPlaces := ⟨fun _ _ => .unknown⟩

variable [ErrorPlaces]

/-- Read the text of the file at a path. -/
def parse (path text : String) : Except Failure SourceFile :=
  match dialect? path with
  | none => .error (.unsupportedSource path)
  | some dialect =>
    match parse? dialect text with
    | none => .error (.parse ⟨path, ErrorPlaces.position dialect text⟩)
    | some root => .ok ⟨path, text, root⟩

/-- A check that reads a file first shows that the file can be read, and what it checks of it. -/
theorem exists_of_parse {path text : String} {P : SourceFile → Prop} [DecidablePred P]
    (h : (parse path text).toOption.any (fun f => decide (P f)) = true) :
    ∃ f, parse path text = .ok f ∧ P f := by
  cases hf : parse path text with
  | error e => simp [hf, Except.toOption] at h
  | ok f =>
    rw [hf] at h
    exact ⟨f, rfl, of_decide_eq_true h⟩

/-- The same for a check that reads two files. -/
theorem exists_of_parse_both {path path' text text' : String}
    {check : SourceFile → SourceFile → Bool}
    (h : (parse path text).toOption.any (fun f =>
      (parse path' text').toOption.any fun g => check f g) = true) :
    ∃ f g, parse path text = .ok f ∧ parse path' text' = .ok g ∧ check f g = true := by
  cases hf : parse path text with
  | error e => simp [hf, Except.toOption] at h
  | ok f =>
    cases hg : parse path' text' with
    | error e => simp [hf, hg, Except.toOption] at h
    | ok g =>
      rw [hf, hg] at h
      exact ⟨f, g, rfl, rfl, h⟩

def summary (f : SourceFile) : String :=
  "SourceFile \x7b path: " ++ Text.quote f.path ++ ", len: " ++ Nat.repr f.text.utf8ByteSize ++
    ", .. \x7d"

/-! ### Lookups -/

def declarations (f : SourceFile) : List Declaration := Source.declarations f.root

/-- The shapes that fit a kind of subject. -/
def fits : SubjectKind → Shape → Bool
  | .classKind, .classShape => true
  | .component, .classShape | .component, .function | .component, .value => true
  | .hook, .function | .hook, .value => true
  | _, _ => false

def subject? (f : SourceFile) (s : Subject) : Option Declaration :=
  Source.find? f.declarations s.name (fits s.kind)

/-- Is the subject declared, in a shape that fits its kind? -/
def declares (f : SourceFile) (s : Subject) : Bool := (f.subject? s).isSome

def comment? (f : SourceFile) (s : Subject) : Option Comment :=
  (f.subject? s).bind fun d => commentOf? s.name d.before

/-- The function whose first argument configures a declaration: a class's constructor, or the
function itself. -/
def configured? (d : Declaration) : Option Node :=
  match d.shape with
  | .classShape => (constructor? d.node).map Prod.snd
  | .function => some d.node
  | _ => none

/-- The interface that the type of a subject's first argument stands for. -/
def argument? (f : SourceFile) (s : Subject) : Option Interface :=
  match (f.subject? s).bind configured? with
  | none => none
  | some function =>
    match (parameterNodes function).head? with
    | none => none
    | some parameter =>
      ((parameter.field? .type).bind annotated?).bind (definition? f.declarations)

def interface? (f : SourceFile) (name : String) : Option Interface :=
  Source.interface? f.declarations name

def class? (f : SourceFile) (name : String) : Option Declaration :=
  Source.find? f.declarations name (· == .classShape)

def constructor? (f : SourceFile) (className : String) : Option Method :=
  ((f.class? className).bind fun d => Source.constructor? d.node).map fun (before, n) =>
    methodOf before n

/-- The public methods of a class, in order. -/
def methods (f : SourceFile) (className : String) : List Method :=
  match f.class? className with
  | none => []
  | some d =>
    ((classMembers d.node).filter fun (_, n) => isPublicMethod n).map fun (before, n) =>
      methodOf before n

end SourceFile

end RefPages
