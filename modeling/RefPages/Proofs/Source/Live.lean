import RefPages.Proofs.Source.Resolution

/-!
# Names that have properties

What the resolution does with a name depends on the names entered before. Still there is a plain
account of when it finds properties: a name has some if it stands by itself, as an interface or as
an alias for an object or an intersection, or if it is an alias for a name that has some, and no
name on the way was entered before (`Opens`). A search that fails has entered every name that it
could have gone through, so a search that comes after it misses nothing (`Resolves.exhausts`).
-/

namespace RefPages.Source

open Syntax

variable {ds : List Declaration}

/-! ### The parts of a type -/

mutual

/-- The types that the resolution comes to in a type: through parentheses and into the parts of
intersections. -/
def parts : Node → List Node
  | .mk kind role? text children =>
    match kind with
    | .parenthesizedType => partsOfFirst children
    | .intersectionType => partsOfAll children
    | _ => [.mk kind role? text children]

def partsOfFirst : List Node → List Node
  | [] => []
  | n :: ns => if n.isNamed then parts n else partsOfFirst ns

def partsOfAll : List Node → List Node
  | [] => []
  | n :: ns => if n.isNamed then parts n ++ partsOfAll ns else partsOfAll ns

end

/-- The mutual functions on siblings in terms of list functions. -/
theorem partsOfFirst_eq (ns : List Node) :
    partsOfFirst ns = ((ns.filter Node.isNamed).head?.map parts).getD [] := by
  induction ns with
  | nil => rfl
  | cons n ns ih =>
    rw [partsOfFirst, List.filter_cons]
    split
    · rfl
    · exact ih

theorem partsOfAll_eq (ns : List Node) :
    partsOfAll ns = (ns.filter Node.isNamed).flatMap parts := by
  induction ns with
  | nil => rfl
  | cons n ns ih =>
    rw [partsOfAll, List.filter_cons]
    split
    · rw [List.flatMap_cons, ih]
    · exact ih

theorem parts_of_parenthesized {type inner : Node} (hkind : type.kind = .parenthesizedType)
    (hinner : type.named.head? = some inner) : parts type = parts inner := by
  obtain ⟨kind, role?, text, children⟩ := type
  obtain rfl : kind = .parenthesizedType := hkind
  have hhead : (children.filter Node.isNamed).head? = some inner := hinner
  rw [parts, partsOfFirst_eq, hhead]
  rfl

theorem parts_of_intersection {type : Node} (hkind : type.kind = .intersectionType) :
    parts type = type.named.flatMap parts := by
  obtain ⟨kind, role?, text, children⟩ := type
  obtain rfl : kind = .intersectionType := hkind
  rw [parts, partsOfAll_eq]
  rfl

theorem parts_self {type : Node} (hinner : type.kind ≠ .parenthesizedType)
    (hparts : type.kind ≠ .intersectionType) : parts type = [type] := by
  obtain ⟨kind, role?, text, children⟩ := type
  simp only [Node.kind_mk] at hinner hparts
  cases kind <;> first | rfl | contradiction

mutual

/-- The type inside all parentheses. -/
def core? : Node → Option Node
  | .mk kind role? text children =>
    match kind with
    | .parenthesizedType => coreOfFirst? children
    | _ => some (.mk kind role? text children)

def coreOfFirst? : List Node → Option Node
  | [] => none
  | n :: ns => if n.isNamed then core? n else coreOfFirst? ns

end

theorem coreOfFirst?_eq (ns : List Node) :
    coreOfFirst? ns = (ns.filter Node.isNamed).head?.bind core? := by
  induction ns with
  | nil => rfl
  | cons n ns ih =>
    rw [coreOfFirst?, List.filter_cons]
    split
    · rfl
    · exact ih

theorem core?_of_parenthesized {type : Node} (hkind : type.kind = .parenthesizedType) :
    core? type = type.named.head?.bind core? := by
  obtain ⟨kind, role?, text, children⟩ := type
  obtain rfl : kind = .parenthesizedType := hkind
  rw [core?, coreOfFirst?_eq]
  rfl

theorem core?_self {type : Node} (hinner : type.kind ≠ .parenthesizedType) :
    core? type = some type := by
  obtain ⟨kind, role?, text, children⟩ := type
  simp only [Node.kind_mk] at hinner
  cases kind <;> first | rfl | contradiction

/-- A type whose core is no intersection has this core as its only part. -/
theorem parts_of_core? {type core : Node} (h : core? type = some core)
    (hparts : core.kind ≠ .intersectionType) : parts type = [core] := by
  by_cases hkind : type.kind = .parenthesizedType
  · rw [core?_of_parenthesized hkind] at h
    obtain ⟨inner, hinner, hcore⟩ := Option.bind_eq_some_iff.1 h
    have hsmaller := Node.sizeOf_lt_of_mem_named (List.mem_of_head? hinner)
    rw [parts_of_parenthesized hkind hinner]
    exact parts_of_core? hcore hparts
  · rw [core?_self hkind] at h
    cases h
    exact parts_self hkind hparts
termination_by sizeOf type

theorem ne_of_isReference {type : Node} (h : isReference type = true) :
    type.kind ≠ .objectType ∧ type.kind ≠ .parenthesizedType ∧ type.kind ≠ .intersectionType := by
  simp only [isReference, Node.is, Bool.or_eq_true, beq_iff_eq] at h
  rcases h with (h | h) | h <;> simp [h]

/-! ### What a name says itself -/

/-- The candidates of a reference. -/
def reference? (type : Node) : Option (List String) :=
  if isReference type then some (candidates type) else none

/-- The candidates of each reference in a type. -/
def references (type : Node) : List (List String) := (parts type).filterMap reference?

/-- The members that a type lists itself. -/
def listed (type : Node) : List Member :=
  (parts type).flatMap fun part => if part.is .objectType then members part else []

/-- Does a type have properties without any name? -/
def Stands (type : Node) : Prop :=
  ∃ core ∈ core? type, core.kind = .objectType ∨ core.kind = .intersectionType

instance (type : Node) : Decidable (Stands type) :=
  inferInstanceAs (Decidable (∃ core ∈ core? type, _))

/-- The candidates of a type that is a reference. -/
def alternatives (type : Node) : List String := ((core? type).bind reference?).getD []

namespace Meaning

def bases : Meaning → List String
  | .interface d => baseNames d.node
  | _ => []

/-- The candidates of the references in an alias. -/
def references : Meaning → List (List String)
  | .typeAlias type => Source.references type
  | _ => []

/-- Bases and references, each with its candidates. -/
def groups (m : Meaning) : List (List String) := m.bases.map ([·]) ++ m.references

def mentions (m : Meaning) : List String := m.bases ++ m.references.flatten

def properties : Meaning → List Member
  | .interface d => ownMembers d
  | .typeAlias type => listed type
  | .nothing => []

/-- Has the declaration properties whatever its names stand for? -/
def Stands : Meaning → Prop
  | .interface _ => True
  | .typeAlias type => Source.Stands type
  | .nothing => False

instance : (m : Meaning) → Decidable m.Stands
  | .interface _ => isTrue trivial
  | .typeAlias type => inferInstanceAs (Decidable (Source.Stands type))
  | .nothing => isFalse id

/-- The names of which an alias takes the first that has properties. -/
def alternatives : Meaning → List String
  | .typeAlias type => Source.alternatives type
  | _ => []

/-- What a declaration mentions is what its groups consist of. -/
theorem flatten_groups (m : Meaning) : m.groups.flatten = m.mentions := by
  rw [groups, List.flatten_append, mentions]
  congr 1
  induction m.bases with
  | nil => rfl
  | cons b bs ih => rw [List.map_cons, List.flatten_cons, ih, List.singleton_append]

end Meaning

theorem alternatives_subset (type : Node) : alternatives type ⊆ (references type).flatten := by
  intro name hname
  cases hcore : core? type with
  | none => simp [alternatives, hcore] at hname
  | some core =>
    by_cases hreference : isReference core = true
    · have hparts := parts_of_core? hcore (ne_of_isReference hreference).2.2
      simpa [alternatives, references, hcore, hparts, reference?, hreference] using hname
    · simp [alternatives, hcore, reference?, hreference] at hname

/-- What a name may stand for is among the names that it mentions. -/
theorem Meaning.alternatives_subset (m : Meaning) : m.alternatives ⊆ m.mentions := by
  cases m with
  | typeAlias type => exact Source.alternatives_subset type
  | interface d => simp [alternatives]
  | nothing => simp [alternatives]

/-! ### Names that have properties -/

/-- A name has properties when those that were entered give none: it stands by itself, or it is an
alias for another name that has. -/
inductive Opens (ds : List Declaration) (entered : List String) : String → Prop
  | stands {name} (hname : name ∉ entered) (hstands : (meaning ds name).Stands) :
      Opens ds entered name
  | through {name other} (hname : name ∉ entered)
      (hother : other ∈ (meaning ds name).alternatives) (hopens : Opens ds entered other) :
      Opens ds entered name

theorem Opens.mono {entered entered' : List String} {name : String} (h : Opens ds entered' name)
    (hsub : entered ⊆ entered') : Opens ds entered name := by
  induction h with
  | stands hname hstands => exact .stands (fun hmem => hname (hsub hmem)) hstands
  | through hname hother _ ih => exact .through (fun hmem => hname (hsub hmem)) hother ih

namespace Task

/-- The names of which a task takes the first that has properties. -/
def heads : Task → List String
  | .item (.name name) => [name]
  | .item (.type type) => alternatives type
  | .first names => names
  | .all _ _ => []

/-- Does a task end with properties whatever its names stand for? -/
def Stands : Task → Prop
  | .item (.type type) => Source.Stands type
  | .all _ _ => True
  | _ => False

end Task

/-- A task that ends with properties stands by itself, or one of its heads opens. -/
theorem Resolves.opens {task : Task} {entered after : List String} {found : Option (List Member)}
    (h : Resolves ds task entered found after) (hfound : found.isSome) :
    task.Stands ∨ ∃ name ∈ task.heads, Opens ds entered name := by
  -- bases and parts end with properties in any case, so only references and aliases are followed
  induction h with
  | known | nothing | hollow | foreign | exhausted => simp at hfound
  | nil | cons => exact .inl trivial
  | interface hname hmeaning =>
    refine .inr ⟨_, List.mem_singleton_self _, .stands hname ?_⟩
    rw [hmeaning]
    trivial
  | @typeAlias name entered type _ _ hname hmeaning _ ih =>
    refine .inr ⟨name, List.mem_singleton_self _, ?_⟩
    rcases ih hfound with hstands | ⟨other, hother, hopens⟩
    · refine .stands hname ?_
      rwa [hmeaning]
    · refine .through hname ?_ (hopens.mono (List.subset_cons_self _ _))
      rwa [hmeaning]
  | @object type _ hkind => exact .inl ⟨type, core?_self (by simp [hkind]), .inl hkind⟩
  | @inner type inner _ _ _ hkind hinner _ ih =>
    have hcore : core? type = core? inner := by rw [core?_of_parenthesized hkind, hinner]; rfl
    simpa only [Task.Stands, Task.heads, Source.Stands, alternatives, hcore] using ih hfound
  | @intersection type _ _ _ hkind => exact .inl ⟨type, core?_self (by simp [hkind]), .inr hkind⟩
  | @reference type _ _ _ hkind _ ih =>
    have hcore := core?_self (ne_of_isReference hkind).2.1
    rcases ih hfound with hstands | hopens
    · exact hstands.elim
    · simpa [Task.heads, alternatives, hcore, reference?, hkind] using .inr hopens
  | found _ ih =>
    obtain ⟨name, hname, hopens⟩ := (ih rfl).resolve_left id
    exact .inr ⟨name, by simp_all [Task.heads], hopens⟩
  | next hname _ _ ih =>
    obtain ⟨name, hmem, hopens⟩ := (ih hfound).resolve_left id
    exact .inr ⟨name, List.mem_cons_of_mem _ hmem, hopens.mono hname.grows⟩

/-- No name entered from one point to another stands by itself, and none is left that it could be an
alias for. -/
def Exhausted (ds : List Declaration) (entered after : List String) : Prop :=
  ∀ name ∈ after, name ∉ entered →
    ¬(meaning ds name).Stands ∧ (meaning ds name).alternatives ⊆ after

theorem Exhausted.refl (entered : List String) : Exhausted ds entered entered :=
  fun _ hname hnew => absurd hname hnew

theorem Exhausted.trans {entered between after : List String} (h : Exhausted ds entered between)
    (h' : Exhausted ds between after) (hgrows : between ⊆ after) : Exhausted ds entered after := by
  intro name hname hnew
  by_cases hbetween : name ∈ between
  · obtain ⟨hstands, halternatives⟩ := h name hbetween hnew
    exact ⟨hstands, List.Subset.trans halternatives hgrows⟩
  · exact h' name hname hbetween

/-- A name that does not stand and has no alternative left can be added to such a stretch. -/
theorem Exhausted.cons {entered after : List String} {name : String}
    (h : Exhausted ds (name :: entered) after) (hstands : ¬(meaning ds name).Stands)
    (halternatives : (meaning ds name).alternatives ⊆ after) : Exhausted ds entered after := by
  intro other hother hnew
  by_cases heq : other = name
  · subst heq
    exact ⟨hstands, halternatives⟩
  · exact h other hother (by simp [heq, hnew])

/-- No name opens that was entered on a stretch without success. -/
theorem Exhausted.not_opens {entered after : List String} (h : Exhausted ds entered after)
    {name : String} (hname : name ∈ after) : ¬Opens ds entered name := by
  intro hopens
  induction hopens with
  | stands hnew hstands => exact (h _ hname hnew).1 hstands
  | through hnew hother _ ih => exact ih ((h _ hname hnew).2 hother)

/-- A task that ends without properties has entered all that could have given some. -/
theorem Resolves.exhausts {task : Task} {entered after : List String}
    {found : Option (List Member)} (h : Resolves ds task entered found after)
    (hfound : found = none) :
    ¬task.Stands ∧ task.heads ⊆ after ∧ Exhausted ds entered after := by
  -- one lemma for all three parts: each step needs what the steps before it have entered
  induction h with
  | interface | object | intersection | found | nil => cases hfound
  | known hname => exact ⟨id, by simpa [Task.heads] using hname, .refl _⟩
  | @nothing name entered hname hmeaning =>
    refine ⟨id, by simp [Task.heads], .cons (.refl _) ?_ ?_⟩
    · rw [hmeaning]
      exact id
    · rw [hmeaning]
      exact List.nil_subset _
  | @typeAlias name entered type found after hname hmeaning hvalue ih =>
    obtain ⟨hstands, hheads, hexhausted⟩ := ih hfound
    refine ⟨id, ?_, hexhausted.cons ?_ ?_⟩
    · simpa [Task.heads] using hvalue.grows List.mem_cons_self
    · rwa [hmeaning]
    · rwa [hmeaning]
  | @inner type inner _ _ _ hkind hinner _ ih =>
    have hcore : core? type = core? inner := by rw [core?_of_parenthesized hkind, hinner]; rfl
    simpa only [Task.Stands, Task.heads, Source.Stands, alternatives, hcore] using ih hfound
  | @hollow type _ hkind hinner =>
    have hcore : core? type = none := by rw [core?_of_parenthesized hkind, hinner]; rfl
    refine ⟨?_, ?_, .refl _⟩
    · simp [Task.Stands, Source.Stands, hcore]
    · simp [Task.heads, alternatives, hcore]
  | @reference type _ _ _ hkind _ ih =>
    obtain ⟨hobject, hinner, hparts⟩ := ne_of_isReference hkind
    have hcore := core?_self hinner
    obtain ⟨-, hheads, hexhausted⟩ := ih hfound
    refine ⟨?_, ?_, hexhausted⟩
    · simp [Task.Stands, Source.Stands, hcore, hobject, hparts]
    · simpa [Task.heads, alternatives, hcore, reference?, hkind] using hheads
  | @foreign type _ hobject hinner hparts hreference =>
    have hcore := core?_self hinner
    refine ⟨?_, ?_, .refl _⟩
    · simp [Task.Stands, Source.Stands, hcore, hobject, hparts]
    · simp [Task.heads, alternatives, hcore, reference?, hreference]
  | exhausted => exact ⟨id, List.nil_subset _, .refl _⟩
  | next hname hnames ih ih' =>
    obtain ⟨-, hheads, hexhausted⟩ := ih rfl
    obtain ⟨-, hheads', hexhausted'⟩ := ih' hfound
    refine ⟨id, ?_, hexhausted.trans hexhausted' hnames.grows⟩
    refine List.cons_subset.2 ⟨hnames.grows (hheads List.mem_cons_self), hheads'⟩
  | cons _ _ _ ih' => exact absurd trivial (ih' hfound).1

/-- A name that ends without properties does not open: what it entered is exhausted. -/
theorem Resolves.not_opens {name : String} {entered after : List String}
    (h : Resolves ds (.item (.name name)) entered none after) : ¬Opens ds entered name := by
  obtain ⟨-, hheads, hexhausted⟩ := h.exhausts rfl
  exact hexhausted.not_opens (hheads List.mem_cons_self)

/-- The name has properties when nothing was entered before. -/
def Live (ds : List Declaration) (name : String) : Prop := (interface? ds name).isSome

instance (ds : List Declaration) (name : String) : Decidable (Live ds name) :=
  inferInstanceAs (Decidable (_ = true))

/-- A name has properties from the start if and only if it opens when nothing was entered. -/
theorem live_iff {name : String} : Live ds name ↔ Opens ds [] name := by
  have hrun := @resolves_ofName ds [] name
  rw [Live, interface?, Option.isSome_map]
  -- a run that found something opened a declaration, and a run that found nothing opened none
  constructor
  · intro hsome
    obtain ⟨other, hother, hopens⟩ := (hrun.opens hsome).resolve_left id
    rwa [List.mem_singleton.1 hother] at hopens
  · intro hopens
    cases hvalue : (ofName ds [] name).value with
    | some properties => rfl
    | none =>
      rw [hvalue] at hrun
      exact absurd hopens hrun.not_opens

theorem live_of_stands {name : String} (h : (meaning ds name).Stands) : Live ds name :=
  live_iff.2 (.stands List.not_mem_nil h)

/-- A name that gives properties in some run gives some from the start too. -/
theorem Resolves.live {name : String} {entered after : List String} {properties : List Member}
    (h : Resolves ds (.item (.name name)) entered (some properties) after) : Live ds name := by
  obtain ⟨other, hother, hopens⟩ := (h.opens rfl).resolve_left id
  rw [List.mem_singleton.1 hother] at hopens
  exact live_iff.2 (hopens.mono (List.nil_subset _))

end RefPages.Source
