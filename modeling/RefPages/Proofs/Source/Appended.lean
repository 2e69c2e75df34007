import RefPages.Project.Extract
import RefPages.Proofs.Source.Resolution

/-!
# Statements after the others

Every lookup takes the first declaration that fits, and the comment of a declaration stands before
it. So statements at the end of a file change nothing for a subject that the file declares, even if
they declare its name again. Types are the exception: a name that resolved to nothing can get a
meaning. Where the new statements name no type that the file does not declare already, all names
keep their meaning, and a resolution depends on the declarations only through the meaning of names
(`Resolves.congr`).
-/

namespace RefPages.Source

open Syntax

/-! ### Declarations of a longer file -/

/-- The declaration with other siblings before it. -/
def Declaration.placedAfter (before : List Node) (d : Declaration) : Declaration :=
  ⟨d.name, d.shape, before, d.node⟩

/-- The siblings before a declaration are only kept in it: what is declared does not depend on them.
-/
theorem Declaration.ofNode?_eq_map (shape : Shape) (before : List Node) (n : Node) :
    (Declaration.ofNode? shape before n).toList =
      (Declaration.ofNode? shape [] n).toList.map (Declaration.placedAfter before) := by
  unfold Declaration.ofNode?
  cases n.field? .name <;> rfl

theorem Declaration.ofVariable?_eq_map (before : List Node) :
    Declaration.ofVariable? before =
      fun n => (Declaration.ofVariable? [] n).map (Declaration.placedAfter before) := by
  funext n
  unfold Declaration.ofVariable?
  split
  · cases n.field? .name with
    | none => rfl
    | some name => cases (n.field? .value).bind functionIn? <;> rfl
  · rfl

-- the recursion is the one of `declared`: exports and ambient declarations are looked through
mutual

/-- What a statement declares depends on the siblings before it only in that it keeps them. -/
theorem declared_eq_map (before : List Node) (n : Node) :
    declared before n = (declared [] n).map (Declaration.placedAfter before) := by
  -- the nodes in front of one only end up in front of the declarations in it
  match n with
  | .mk kind role? text children =>
    unfold declared
    cases kind with
    | exportStatement => exact declaredInExport_eq_map before children
    | ambientDeclaration => exact declaredInAll_eq_map before children
    | variableDeclaration =>
      rw [List.map_filterMap, ← Declaration.ofVariable?_eq_map]
    | classDeclaration | functionDeclaration | interfaceDeclaration | typeAlias =>
      exact Declaration.ofNode?_eq_map _ before _
    | _ => rfl

theorem declaredInExport_eq_map (before : List Node) (ns : List Node) :
    declaredInExport before ns = (declaredInExport [] ns).map (Declaration.placedAfter before) := by
  match ns with
  | [] => rfl
  | n :: ns =>
    rw [declaredInExport, declaredInExport]
    split
    · exact declared_eq_map before n
    · exact declaredInExport_eq_map before ns

theorem declaredInAll_eq_map (before : List Node) (ns : List Node) :
    declaredInAll before ns = (declaredInAll [] ns).map (Declaration.placedAfter before) := by
  match ns with
  | [] => rfl
  | n :: ns =>
    rw [declaredInAll, declaredInAll, List.map_append, declared_eq_map before n,
      declaredInAll_eq_map before ns]

end

theorem withBefore_append (before ns ms : List Node) :
    Node.withBefore before (ns ++ ms) =
      Node.withBefore before ns ++ Node.withBefore (ns.reverse ++ before) ms := by
  induction ns generalizing before with
  | nil => rfl
  | cons n ns ih => simp [Node.withBefore, ih]

theorem mem_of_mem_withBefore {before ns : List Node} {p : List Node × Node}
    (h : p ∈ Node.withBefore before ns) : p.2 ∈ ns := by
  induction ns generalizing before with
  | nil => simp [Node.withBefore] at h
  | cons n ns ih =>
    rcases List.mem_cons.1 h with rfl | h
    · exact List.mem_cons_self
    · exact List.mem_cons_of_mem _ (ih h)

/-- The declarations of the statements of a file come before those of further statements. -/
theorem declarations_append {root root' : Node} {more : List Node}
    (h : root'.children = root.children ++ more) :
    ∃ ds, declarations root' = declarations root ++ ds ∧
      ∀ d ∈ ds, ∃ n ∈ more, ∃ d' ∈ declared [] n, d'.name = d.name ∧ d'.shape = d.shape := by
  let placed := Node.withBefore (root.named.reverse ++ []) (more.filter Node.isNamed)
  refine ⟨placed.flatMap fun p => declared p.1 p.2, ?_, ?_⟩
  · rw [declarations, Node.placed, Node.named, h, List.filter_append, withBefore_append,
      List.flatMap_append, declarations, Node.placed, Node.named]
    rfl
  · intro d hd
    obtain ⟨⟨before, n⟩, hplaced, hd⟩ := List.mem_flatMap.1 hd
    rw [declared_eq_map] at hd
    obtain ⟨d', hd', rfl⟩ := List.mem_map.1 hd
    exact ⟨n, (List.mem_filter.1 (mem_of_mem_withBefore hplaced)).1, d', hd', rfl, rfl⟩

/-! ### First declarations -/

/-- What is found in a file is found there as well when more declarations follow. -/
theorem find?_append_of_isSome {ds es : List Declaration} {name : String} {accepts : Shape → Bool}
    (h : (find? ds name accepts).isSome) :
    find? (ds ++ es) name accepts = find? ds name accepts := by
  obtain ⟨d, hd⟩ := Option.isSome_iff_exists.1 h
  unfold find? at hd ⊢
  rw [List.find?_append, hd]
  rfl

/-- A type name means the same if the declarations at the end name no new type. -/
theorem findType?_append {ds es : List Declaration}
    (h : ∀ d ∈ es, d.shape.isType = true → (findType? ds d.name).isSome) (name : String) :
    findType? (ds ++ es) name = findType? ds name := by
  -- the first declaration decides; a new name could only come from behind, and is excluded
  cases hd : findType? ds name with
  | some d =>
    rw [← hd]
    exact find?_append_of_isSome (Option.isSome_of_eq_some hd)
  | none =>
    unfold findType? find? at hd ⊢
    rw [List.find?_append, hd, Option.none_or, List.find?_eq_none]
    intro d hmem haccepted
    simp only [Bool.and_eq_true, beq_iff_eq] at haccepted
    obtain ⟨rfl, htype⟩ := haccepted
    have hknown := h d hmem htype
    simp [findType?, find?, hd] at hknown

/-! ### Resolutions with the same meanings -/

/-- The same meaning, of declarations that may have other siblings before them. -/
inductive Meaning.Alike : Meaning → Meaning → Prop
  | interface {d e : Declaration} (hnode : e.node = d.node) :
      Meaning.Alike (.interface d) (.interface e)
  | typeAlias (type : Node) : Meaning.Alike (.typeAlias type) (.typeAlias type)
  | nothing : Meaning.Alike .nothing .nothing

theorem Meaning.Alike.refl (m : Meaning) : m.Alike m := by
  cases m with
  | interface d => exact .interface rfl
  | typeAlias type => exact .typeAlias type
  | nothing => exact .nothing

/-- A name means the same in two files that find the same declaration for it. -/
theorem meaning_congr {ds es : List Declaration} {name : String}
    (h : findType? ds name = findType? es name) : meaning ds name = meaning es name := by
  unfold meaning
  rw [h]

/-- A resolution depends on the declarations only through what names mean. -/
theorem Resolves.congr {ds es : List Declaration}
    (hmeaning : ∀ name, (meaning ds name).Alike (meaning es name)) {task : Task}
    {entered after : List String} {found : Option (List Member)}
    (h : Resolves ds task entered found after) : Resolves es task entered found after := by
  -- only the first four cases look a name up
  induction h with
  | known hname => exact .known hname
  | @nothing name entered hname hnothing =>
    have halike := hmeaning name
    rw [hnothing] at halike
    generalize hm : meaning es name = m at halike
    cases halike with
    | nothing => exact .nothing hname hm
  | @interface name entered d inherited after hname hd _ ih =>
    have halike := hmeaning name
    rw [hd] at halike
    generalize hm : meaning es name = m at halike
    cases halike with
    | @interface _ e hnode =>
      have hown : ownMembers d = ownMembers e := by rw [ownMembers, ownMembers, hnode]
      rw [hown]
      exact .interface hname hm (hnode ▸ ih)
  | @typeAlias name entered type found after hname htype _ ih =>
    have halike := hmeaning name
    rw [htype] at halike
    generalize hm : meaning es name = m at halike
    cases halike with
    | typeAlias => exact .typeAlias hname hm ih
  | object hkind => exact .object hkind
  | inner hkind hinner _ ih => exact .inner hkind hinner ih
  | hollow hkind hinner => exact .hollow hkind hinner
  | intersection hkind _ ih => exact .intersection hkind ih
  | reference hkind _ ih => exact .reference hkind ih
  | foreign hobject hinner hparts hreference => exact .foreign hobject hinner hparts hreference
  | exhausted => exact .exhausted
  | found _ ih => exact .found ih
  | next _ _ ih ih' => exact .next ih ih'
  | nil => exact .nil
  | cons _ _ ih ih' => exact .cons ih ih'

section

variable {ds es : List Declaration} (h : ∀ name, (meaning ds name).Alike (meaning es name))

include h

/-- Files in which every name has like meanings have the same interfaces. -/
theorem interface?_alike (name : String) : interface? ds name = interface? es name := by
  have hresolves := (resolves_ofName [] name).congr h
  unfold interface?
  rw [(hresolves.deterministic (resolves_ofName [] name)).1]

/-- In such files a type has the same definition. -/
theorem definition?_alike (type : Node) : definition? ds type = definition? es type := by
  have hresolves := (resolves_ofType [] type).congr h
  have hinterface : interface? ds = interface? es := funext (interface?_alike h)
  unfold definition?
  rw [hinterface, (hresolves.deterministic (resolves_ofType [] type)).1]

end

/-- A definition reads nothing of a file but what its names are declared as. -/
theorem definition?_congr {ds es : List Declaration}
    (h : ∀ name, findType? ds name = findType? es name) (type : Node) :
    definition? ds type = definition? es type := by
  apply definition?_alike
  intro name
  rw [meaning_congr (h name)]
  exact .refl _

end RefPages.Source

namespace RefPages.SourceFile

open Source Syntax

/-- **What a page shows of a subject does not change when statements are added at the end of its
file**, as long as they name no type that the file does not declare. -/
theorem lookups_append {f g : SourceFile} {s : Subject} {more : List Node}
    (hroot : g.root.children = f.root.children ++ more) (hdeclares : f.declares s = true)
    (htypes : ∀ n ∈ more, ∀ d ∈ declared [] n, d.shape.isType = true →
      (findType? f.declarations d.name).isSome) :
    g.declares s = true ∧ g.comment? s = f.comment? s ∧ g.argument? s = f.argument? s ∧
      (s.isClass = true →
        g.constructor? s.name = f.constructor? s.name ∧ g.methods s.name = f.methods s.name) ∧
      ∀ o e, e.subject = s → Project.referenceIn o e g = Project.referenceIn o e f := by
  obtain ⟨ds, happend, hds⟩ := declarations_append hroot
  have hdeclarations : g.declarations = f.declarations ++ ds := happend
  have hsubject : g.subject? s = f.subject? s := by
    rw [subject?, hdeclarations]
    exact find?_append_of_isSome hdeclares
  -- the types in the second file come after the first ones of their names
  have hfound : ∀ name, findType? g.declarations name = findType? f.declarations name := by
    rw [hdeclarations]
    refine findType?_append fun d hd htype => ?_
    obtain ⟨n, hn, d', hd', hname, hshape⟩ := hds d hd
    rw [← hname]
    exact htypes n hn d' hd' (hshape ▸ htype)
  have hdeclares' : g.declares s = true := by rw [declares, hsubject, ← declares, hdeclares]
  have hcomment : g.comment? s = f.comment? s := by rw [comment?, hsubject, ← comment?]
  have hargument : g.argument? s = f.argument? s := by
    have hdefinition : definition? g.declarations = definition? f.declarations :=
      funext (definition?_congr hfound)
    rw [argument?, hsubject, hdefinition, ← argument?]
  -- a class subject is declared as a class, so it is the class that its name stands for
  have hclass : s.isClass = true → g.class? s.name = f.class? s.name := by
    intro hclass
    have hfits : fits s.kind = (· == .classShape) := by
      obtain ⟨kind, name⟩ := s
      obtain rfl : kind = .classKind := by simpa [Subject.isClass] using hclass
      funext shape
      cases shape <;> rfl
    have hsubject' := hsubject
    rwa [subject?, subject?, hfits] at hsubject'
  have hmembers : s.isClass = true →
      g.constructor? s.name = f.constructor? s.name ∧ g.methods s.name = f.methods s.name := by
    intro h
    rw [constructor?, constructor?, methods, methods, hclass h]
    exact ⟨rfl, rfl⟩
  refine ⟨hdeclares', hcomment, hargument, hmembers, ?_⟩
  rintro o e rfl
  have hreference : ∀ comment,
      Project.referenceOf o e.subject g comment = Project.referenceOf o e.subject f comment := by
    intro comment
    unfold Project.referenceOf
    rw [hargument]
    split
    · next h => rw [(hmembers h).1, (hmembers h).2]
    · rfl
  unfold Project.referenceIn
  simp only [hdeclares, hdeclares', hcomment, hreference]

def followedBy (f g : SourceFile) : SourceFile :=
  ⟨f.path, f.text ++ g.text,
    .mk f.root.kind f.root.role? (f.root.text ++ g.root.text) (f.root.children ++ g.root.children)⟩

def panel : String :=
  "/** Opens. */
class Panel \x7b
  constructor(options: Options) \x7b\x7d
\x7d
interface Options \x7b open: boolean \x7d"

/-- Statements that declare the class and its options again. -/
def rivals : String :=
  "class Panel \x7b close() \x7b\x7d \x7d
type Options = string"

theorem lookups_append_rivals :
    ∃ f g, SourceFile.parse "panel.ts" panel = .ok f ∧ SourceFile.parse "rivals.ts" rivals = .ok g ∧
      f.declares ⟨.classKind, "Panel"⟩ = true ∧
      (∀ n ∈ g.root.children, ∀ d ∈ declared [] n, d.shape.isType = true →
        (findType? f.declarations d.name).isSome) ∧
      (f.followedBy g).argument? ⟨.classKind, "Panel"⟩ = f.argument? ⟨.classKind, "Panel"⟩ ∧
      (f.followedBy g).methods "Panel" = f.methods "Panel" := by
  -- both texts are read once for all hypotheses
  have hread : ((SourceFile.parse "panel.ts" panel).toOption.any fun f : SourceFile =>
      (SourceFile.parse "rivals.ts" rivals).toOption.any fun g : SourceFile => decide (
        f.declares ⟨.classKind, "Panel"⟩ = true ∧
        ∀ n ∈ g.root.children, ∀ d ∈ declared [] n, d.shape.isType = true →
          (findType? f.declarations d.name).isSome)) = true := by
    decide +kernel
  obtain ⟨f, g, hf, hg, hchecked⟩ := exists_of_parse_both hread
  obtain ⟨hdeclares, htypes⟩ := of_decide_eq_true hchecked
  obtain ⟨-, -, hargument, hmembers, -⟩ :=
    lookups_append (g := f.followedBy g) rfl hdeclares htypes
  exact ⟨f, g, hf, hg, hdeclares, htypes, hargument, (hmembers rfl).2⟩

end RefPages.SourceFile
