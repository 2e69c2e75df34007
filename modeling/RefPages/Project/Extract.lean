import RefPages.Disk.Basic
import RefPages.Page.Basic
import RefPages.Source.File

/-!
# References from the disk

Reading the source file of an entry and collecting what its page shows. A subject without a comment
gives no page, which is no failure; a subject that is not declared is one.
-/

namespace RefPages.Project

variable [SourceFile.ErrorPlaces]

def openSource (d : Disk) (path : String) : Except Failure SourceFile :=
  match d.readText path with
  | .error e => .error (.readSource path e)
  | .ok text => SourceFile.parse path text

/-- What the page of a subject shows, given its comment. -/
def referenceOf (o : Options) (s : Subject) (f : SourceFile) (comment : Comment) : Reference :=
  let argument? := f.argument? s
  if s.isClass then
    ⟨s, comment.text, Parameters.resolve argument? (f.constructor? s.name),
      (f.methods s.name).filter fun m => !o.skips m.signature⟩
  else ⟨s, comment.text, Parameters.resolve argument? none, []⟩

/-- What a page shows of a source file. A comment that says nothing is none. -/
def referenceIn (o : Options) (e : Entry) (f : SourceFile) :
    Except Failure (Option Reference) :=
  if f.declares e.subject then
    match f.comment? e.subject with
    | none => .ok none
    | some comment =>
      .ok (if comment.isEmpty then none else some (referenceOf o e.subject f comment))
  else .error (.subjectNotFound e.subject e.sourcePath)

/-- What the page of an entry shows. -/
def extract (d : Disk) (o : Options) (e : Entry) : Except Failure (Option Reference) :=
  match openSource d (o.source e) with
  | .error failure => .error failure
  | .ok f => referenceIn o e f

def pageOf (o : Options) (e : Entry) (extracted : Except Failure (Option Reference)) :
    Except Failure (Option String) :=
  match extracted with
  | .error failure => .error failure
  | .ok none => .ok none
  | .ok (some r) => .ok (some (Page.render e r o))

def page (d : Disk) (o : Options) (e : Entry) : Except Failure (Option String) :=
  pageOf o e (extract d o e)

end RefPages.Project
