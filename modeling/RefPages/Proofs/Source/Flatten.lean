import Mathlib.Logic.Relation
import RefPages.Proofs.Source.Merge
import RefPages.Source.File

/-!
# Interfaces with all that they extend

Interfaces extend each other along any graph: two of them may share a base, and they may extend each
other in a circle. The resolution enters every name once and never leaves it, so a name that it
meets again gives nothing there. Still nothing is lost: what a name gives is what the names entered
*since* declare, and these are closed under `Extends` up to the names that were entered before.

    entered before   ──ofName name──▶   entered after        (`Collects`)
      closed later                        name, its bases, their bases …

`Collects` is kept by one name (`Collects.enter`) and by one name after another (`Collects.cons`),
and from no names at all it says that the resolution gives exactly the names declared in reach.
-/

namespace RefPages.Source

open Syntax

variable {ds : List Declaration}

/-! ### The graph of interfaces -/

/-- The members that an interface lists itself. -/
def ownMembers (d : Declaration) : List Member := ((d.node.field? .body).map members).getD []

/-- A name stands for an interface that extends a base. -/
def Extends (ds : List Declaration) (name base : String) : Prop :=
  ∃ d, findType? ds name = some d ∧ d.shape = .interface ∧ base ∈ baseNames d.node

/-- A name is the given one, or a base of a name that is reached. -/
def Reaches (ds : List Declaration) : String → String → Prop := Relation.ReflTransGen (Extends ds)

/-- Every name in reach stands for an interface, or for no type of the file. -/
def OnlyInterfaces (ds : List Declaration) (name : String) : Prop :=
  ∀ m, Reaches ds name m → ∀ d, findType? ds m = some d → d.shape = .interface

/-- A name stands for an interface that lists a member with a name itself. -/
def Lists (ds : List Declaration) (name property : String) : Prop :=
  ∃ d, findType? ds name = some d ∧ property ∈ names (ownMembers d)

instance (ds : List Declaration) (name base : String) : Decidable (Extends ds name base) :=
  decidable_of_iff (∃ d ∈ findType? ds name, d.shape = .interface ∧ base ∈ baseNames d.node)
    Iff.rfl

instance (ds : List Declaration) (name property : String) : Decidable (Lists ds name property) :=
  decidable_of_iff (∃ d ∈ findType? ds name, property ∈ names (ownMembers d)) Iff.rfl

/-! ### Bases and members in the tree -/

/-- A node of a body declares a property or a method with a name. Quotes are no part of the name. -/
def IsMemberNamed (n : Node) (property : String) : Prop :=
  (n.kind = .propertySignature ∨ n.kind = .methodSignature) ∧
    ∃ c, n.field? .name = some c ∧ propertyName c = property

/-- Each type in an `extends` clause is a base, by the first name that it may stand for. -/
theorem mem_baseNames {n : Node} {base : String} :
    base ∈ baseNames n ↔ ∃ clause ∈ n.named, clause.kind = .extendsClause ∧
      ∃ type ∈ clause.named, (candidates type).head? = some base := by
  simp only [baseNames, List.mem_filterMap, List.mem_flatMap, List.mem_filter, Node.is,
    beq_iff_eq]
  constructor
  · rintro ⟨type, ⟨clause, ⟨hclause, hkind⟩, htype⟩, hbase⟩
    exact ⟨clause, hclause, hkind, type, htype, hbase⟩
  · rintro ⟨clause, hclause, hkind, type, htype, hbase⟩
    exact ⟨type, ⟨clause, ⟨hclause, hkind⟩, htype⟩, hbase⟩

theorem isSome_memberType?_iff {n : Node} :
    (memberType? n).isSome = true ↔ n.kind = .propertySignature ∨ n.kind = .methodSignature := by
  unfold memberType?
  split <;> simp_all

/-- A member has the name that its node declares. -/
theorem exists_member?_iff {before : List Node} {n : Node} {property : String} :
    (∃ p, member? before n = some p ∧ p.name = property) ↔ IsMemberNamed n property := by
  rw [IsMemberNamed, ← isSome_memberType?_iff]
  unfold member?
  cases memberType? n with
  | none => simp
  | some type => cases n.field? .name <;> simp

theorem map_snd_withBefore (before ns : List Node) :
    (Node.withBefore before ns).map Prod.snd = ns := by
  induction ns generalizing before with
  | nil => rfl
  | cons n ns ih => rw [Node.withBefore, List.map_cons, ih]

/-- A body lists the names that its nodes declare. -/
theorem mem_names_members {body : Node} {property : String} :
    property ∈ names (members body) ↔ ∃ n ∈ body.named, IsMemberNamed n property := by
  have hplaced : body.named = body.placed.map Prod.snd := (map_snd_withBefore [] body.named).symm
  simp only [names, members, List.mem_map, List.mem_filterMap, hplaced]
  constructor
  · rintro ⟨p, ⟨x, hx, hp⟩, hname⟩
    exact ⟨x.2, ⟨x, hx, rfl⟩, exists_member?_iff.1 ⟨p, hp, hname⟩⟩
  · rintro ⟨_, ⟨x, hx, rfl⟩, hnamed⟩
    obtain ⟨p, hp, hname⟩ := exists_member?_iff.2 hnamed
    exact ⟨p, ⟨x, hx, hp⟩, hname⟩

/-- So does the interface with that body. -/
theorem mem_names_ownMembers {d : Declaration} {property : String} :
    property ∈ names (ownMembers d) ↔ ∃ body, d.node.field? .body = some body ∧
      ∃ n ∈ body.named, IsMemberNamed n property := by
  unfold ownMembers
  cases hbody : d.node.field? .body with
  | none => simp
  | some body => simpa using mem_names_members

/-! ### What is in reach -/

/-- Where only interfaces are in reach of a name, the same holds of its bases. -/
theorem OnlyInterfaces.base {name base : String} (h : OnlyInterfaces ds name)
    (hbase : Extends ds name base) : OnlyInterfaces ds base :=
  fun m hm => h m (.head hbase hm)

/-- Names that hold all bases of each other hold all that is in reach. -/
theorem mem_of_reaches {names : List String} {name m : String} (hname : name ∈ names)
    (hclosed : ∀ m ∈ names, ∀ d ∈ findType? ds m, baseNames d.node ⊆ names)
    (hreach : Reaches ds name m) : m ∈ names := by
  induction hreach with
  | refl => exact hname
  | tail _ hbase hm =>
    obtain ⟨d, hd, -, hmem⟩ := hbase
    exact hclosed _ hm d hd hmem

/-- Names that are closed under their bases and stand for interfaces reach nothing else. -/
theorem onlyInterfaces_of_closed {names : List String} {name : String} (hname : name ∈ names)
    (hclosed : ∀ m ∈ names, ∀ d ∈ findType? ds m, d.shape = .interface ∧ baseNames d.node ⊆ names) :
    OnlyInterfaces ds name := by
  intro m hreach d hd
  have hm : m ∈ names := mem_of_reaches hname (fun m hm d hd => (hclosed m hm d hd).2) hreach
  exact (hclosed m hm d hd).1

/-! ### One step of the resolution -/

theorem ofName_of_mem {entered : List String} {name : String} (h : name ∈ entered) :
    (ofName ds entered name).value = none ∧ (ofName ds entered name).entered = entered := by
  rw [ofName]
  simp [h]

theorem ofName_of_absent {entered : List String} {name : String} (h : name ∉ entered)
    (hd : findType? ds name = none) :
    (ofName ds entered name).value = none ∧
      (ofName ds entered name).entered = name :: entered := by
  rw [ofName]
  simp only [h, ↓reduceDIte]
  split
  · exact ⟨rfl, rfl⟩
  · next d hd' => simp [hd] at hd'

/-- The properties of an interface: those of its bases, and its own merged into them. -/
theorem ofName_of_interface {entered : List String} {name : String} {d : Declaration}
    (h : name ∉ entered) (hd : findType? ds name = some d) (hshape : d.shape = .interface) :
    (ofName ds entered name).value =
        some (merge (ofBases ds (name :: entered) [] (baseNames d.node)).value (ownMembers d)) ∧
      (ofName ds entered name).entered =
        (ofBases ds (name :: entered) [] (baseNames d.node)).entered := by
  rw [ofName]
  simp only [h, ↓reduceDIte]
  split
  · next hd' => simp [hd] at hd'
  · next d' hd' =>
    obtain rfl : d' = d := Option.some.inj (hd'.symm.trans hd)
    rw [if_pos hshape]
    exact ⟨rfl, rfl⟩

theorem ofBases_nil (entered : List String) (ps : List Member) :
    (ofBases ds entered ps []).value = ps ∧ (ofBases ds entered ps []).entered = entered := by
  rw [ofBases]
  exact ⟨rfl, rfl⟩

/-- Bases are resolved one after the other, each with what the ones before it have entered. -/
theorem ofBases_cons (entered : List String) (ps : List Member) (base : String)
    (bases : List String) :
    (ofBases ds entered ps (base :: bases)).value =
        (ofBases ds (ofName ds entered base).entered
          (merge ps ((ofName ds entered base).value.getD [])) bases).value ∧
      (ofBases ds entered ps (base :: bases)).entered =
        (ofBases ds (ofName ds entered base).entered
          (merge ps ((ofName ds entered base).value.getD [])) bases).entered := by
  rw [ofBases]
  dsimp only
  cases (ofName ds entered base).value with
  | none => exact ⟨rfl, rfl⟩
  | some incoming => exact ⟨rfl, rfl⟩

/-- Merging bases keeps names apart. -/
theorem nodup_names_ofBases (entered : List String) {ps : List Member} (h : (names ps).Nodup)
    (bases : List String) : (names (ofBases ds entered ps bases).value).Nodup := by
  induction bases generalizing entered ps with
  | nil => rwa [(ofBases_nil entered ps).1]
  | cons base bases ih =>
    rw [(ofBases_cons entered ps base bases).1]
    exact ih _ (nodup_names_merge h)

/-! ### What the names entered in between declare -/

/-- The names entered from one point to another list a member with a name. -/
def Gathers (ds : List Declaration) (before after : List String) (property : String) : Prop :=
  ∃ m ∈ after, m ∉ before ∧ Lists ds m property

theorem not_gathers_self {entered : List String} {property : String} :
    ¬ Gathers ds entered entered property :=
  fun ⟨_, hm, hnew, _⟩ => hnew hm

/-- What is gathered from one point to another is gathered before or after a point between them. -/
theorem gathers_trans {before between after : List String} {property : String}
    (h₁ : before ⊆ between) (h₂ : between ⊆ after) :
    Gathers ds before after property ↔
      Gathers ds before between property ∨ Gathers ds between after property := by
  constructor
  · rintro ⟨m, hm, hnew, hlists⟩
    by_cases hmid : m ∈ between
    · exact .inl ⟨m, hmid, hnew, hlists⟩
    · exact .inr ⟨m, hm, hmid, hlists⟩
  · rintro (⟨m, hm, hnew, hlists⟩ | ⟨m, hm, hnew, hlists⟩)
    · exact ⟨m, h₂ hm, hnew, hlists⟩
    · exact ⟨m, hm, fun hbefore => hnew (h₁ hbefore), hlists⟩

/-- Entering one name gathers what this name lists. -/
theorem gathers_cons {entered : List String} {name property : String} (h : name ∉ entered) :
    Gathers ds entered (name :: entered) property ↔ Lists ds name property := by
  constructor
  · rintro ⟨m, hm, hnew, hlists⟩
    rcases List.mem_cons.1 hm with rfl | hm
    · exact hlists
    · exact absurd hm hnew
  · intro hlists
    exact ⟨name, List.mem_cons_self, h, hlists⟩

/-- From some names entered to others, roots are resolved and merged into given properties. -/
structure Collects (ds : List Declaration) (before roots : List String) (given : List Member)
    (after : List String) (found : List Member) : Prop where
  roots_mem : roots ⊆ after
  reached : ∀ m ∈ after, m ∈ before ∨ ∃ root ∈ roots, Reaches ds root m
  closed : ∀ m ∈ after, m ∉ before → ∀ base, Extends ds m base → base ∈ after
  mem_names : ∀ property, property ∈ names found ↔
    property ∈ names given ∨ Gathers ds before after property

namespace Collects

/-- Roots that were all entered before add nothing. -/
theorem nothing {entered roots : List String} {given : List Member} (h : roots ⊆ entered) :
    Collects ds entered roots given entered given where
  roots_mem := h
  reached _ hm := .inl hm
  closed _ hm hnew := absurd hm hnew
  mem_names property := by simp [not_gathers_self]

/-- A name that stands for no type is entered and lists nothing. -/
theorem absent {entered : List String} {name : String} (hname : name ∉ entered)
    (hd : findType? ds name = none) : Collects ds entered [name] [] (name :: entered) [] where
  roots_mem := by simp
  reached m hm := by
    rcases List.mem_cons.1 hm with rfl | hm
    · exact .inr ⟨m, List.mem_cons_self, .refl⟩
    · exact .inl hm
  closed m hm hnew base hbase := by
    obtain rfl : m = name := (List.mem_cons.1 hm).resolve_right hnew
    obtain ⟨d, hd', -⟩ := hbase
    simp [hd] at hd'
  mem_names property := by simp [gathers_cons hname, Lists, hd]

/-- One root after another. -/
theorem cons {before between after : List String} {root : String} {roots : List String}
    {given first found : List Member} (hgrows₁ : before ⊆ between) (hgrows₂ : between ⊆ after)
    (hfirst : Collects ds before [root] [] between first)
    (hrest : Collects ds between roots (merge given first) after found) :
    Collects ds before (root :: roots) given after found where
  roots_mem := List.cons_subset.2 ⟨hgrows₂ (hfirst.roots_mem List.mem_cons_self), hrest.roots_mem⟩
  reached m hm := by
    rcases hrest.reached m hm with hm | ⟨r, hr, hreach⟩
    · rcases hfirst.reached m hm with hm | ⟨r, hr, hreach⟩
      · exact .inl hm
      · exact .inr ⟨r, by simpa using .inl (List.mem_singleton.1 hr), hreach⟩
    · exact .inr ⟨r, List.mem_cons_of_mem _ hr, hreach⟩
  closed m hm hnew base hbase := by
    -- an interface entered for the first base is closed already when the others are visited
    by_cases hmid : m ∈ between
    · exact hgrows₂ (hfirst.closed m hmid hnew base hbase)
    · exact hrest.closed m hm hmid base hbase
  mem_names property := by
    rw [hrest.mem_names, mem_names_merge, hfirst.mem_names, gathers_trans hgrows₁ hgrows₂]
    simp [or_assoc]

/-- An interface is entered before its bases, and its own members come last. -/
theorem enter {before after : List String} {name : String} {d : Declaration}
    {inherited : List Member} (hname : name ∉ before) (hd : findType? ds name = some d)
    (hshape : d.shape = .interface) (hgrows : name :: before ⊆ after)
    (h : Collects ds (name :: before) (baseNames d.node) [] after inherited) :
    Collects ds before [name] [] after (merge inherited (ownMembers d)) where
  roots_mem := by simpa using hgrows List.mem_cons_self
  reached m hm := by
    rcases h.reached m hm with hm | ⟨base, hbase, hreach⟩
    · rcases List.mem_cons.1 hm with rfl | hm
      · exact .inr ⟨m, List.mem_cons_self, .refl⟩
      · exact .inl hm
    · exact .inr ⟨name, List.mem_cons_self, .head ⟨d, hd, hshape, hbase⟩ hreach⟩
  -- the name itself has its bases among the roots, and the others are closed already
  closed m hm hnew base hbase := by
    by_cases hm' : m = name
    · subst hm'
      obtain ⟨d', hd', -, hmem⟩ := hbase
      obtain rfl : d' = d := Option.some.inj (hd'.symm.trans hd)
      exact h.roots_mem hmem
    · exact h.closed m hm (by simp [hm', hnew]) base hbase
  mem_names property := by
    have hlists : Lists ds name property ↔ property ∈ names (ownMembers d) := by
      simp [Lists, hd]
    rw [mem_names_merge, h.mem_names, gathers_trans (List.subset_cons_self name before) hgrows,
      gathers_cons hname, hlists]
    simp [or_comm]

end Collects

/-! ### The whole resolution -/

/-- Several names collect when each of them does, whatever was entered before it. -/
theorem collects_ofBases {bases : List String} {entered : List String} (ps : List Member)
    (hbases : ∀ base ∈ bases, ∀ before, entered ⊆ before →
      Collects ds before [base] [] (ofName ds before base).entered
        ((ofName ds before base).value.getD [])) :
    Collects ds entered bases ps (ofBases ds entered ps bases).entered
      (ofBases ds entered ps bases).value := by
  induction bases generalizing entered ps with
  | nil =>
    rw [(ofBases_nil entered ps).1, (ofBases_nil entered ps).2]
    exact .nothing (List.nil_subset _)
  | cons base bases ih =>
    rw [(ofBases_cons entered ps base bases).1, (ofBases_cons entered ps base bases).2]
    have hgrows := (ofName ds entered base).grows
    have hfirst := hbases base List.mem_cons_self entered (List.Subset.refl _)
    refine .cons hgrows (ofBases ds _ _ bases).grows hfirst (ih _ ?_)
    intro base' hbase' before hbefore
    exact hbases base' (List.mem_cons_of_mem _ hbase') before (List.Subset.trans hgrows hbefore)

-- the induction is on the number of declarations that were not entered yet: only an interface goes
-- on to other names, and it is entered first
/-- The resolution of a name collects all that its root reaches, step by step like a search in
depth: a name that was entered before has been collected or is being collected. -/
theorem collects_ofName {name : String} (h : OnlyInterfaces ds name) (entered : List String) :
    Collects ds entered [name] [] (ofName ds entered name).entered
      ((ofName ds entered name).value.getD []) := by
  -- by the number of declarations that were not entered yet: every base starts with fewer
  induction hk : pending ds entered using Nat.strongRecOn generalizing name entered with
  | _ k ih =>
    by_cases hname : name ∈ entered
    · obtain ⟨hvalue, hentered⟩ := @ofName_of_mem ds entered name hname
      rw [hvalue, hentered]
      exact .nothing (by simpa using hname)
    · cases hd : findType? ds name with
      | none =>
        obtain ⟨hvalue, hentered⟩ := ofName_of_absent hname hd
        rw [hvalue, hentered]
        exact .absent hname hd
      | some d =>
        have hshape := h name .refl d hd
        obtain ⟨hvalue, hentered⟩ := ofName_of_interface hname hd hshape
        rw [hvalue, hentered]
        refine .enter hname hd hshape (ofBases ds _ _ _).grows (collects_ofBases [] ?_)
        intro base hbase before hbefore
        have hfewer : pending ds before < k :=
          calc pending ds before ≤ pending ds (name :: entered) := pending_le hbefore
            _ < pending ds entered := pending_findType?_lt hd hname
            _ = k := hk
        exact ih _ hfewer (h.base ⟨d, hd, hshape, hbase⟩) before rfl

/-- Starting with no names, those entered are the ones in reach. -/
theorem mem_entered_iff {name : String} (h : OnlyInterfaces ds name) {m : String} :
    m ∈ (ofName ds [] name).entered ↔ Reaches ds name m := by
  have hcollects := collects_ofName h []
  constructor
  · intro hm
    rcases hcollects.reached m hm with hm | ⟨root, hroot, hreach⟩
    · simp at hm
    · rwa [List.mem_singleton.1 hroot] at hreach
  · intro hreach
    induction hreach with
    | refl => exact hcollects.roots_mem List.mem_cons_self
    | tail _ hbase hm => exact hcollects.closed _ hm (by simp) _ hbase

/-- An interface with all that it extends: one property for every name that an interface in reach
lists, and for a name that it lists itself the last member there. -/
structure IsFlattening (ds : List Declaration) (name : String) (i : Interface) : Prop where
  name_eq : i.name = name
  nodup : (names i.properties).Nodup
  mem_names : ∀ property, property ∈ names i.properties ↔
    ∃ m, Reaches ds name m ∧ Lists ds m property
  own : ∀ d, findType? ds name = some d → ∀ before q after, ownMembers d = before ++ q :: after →
    (∀ r ∈ after, r.name ≠ q.name) → q ∈ i.properties

end RefPages.Source

namespace RefPages.SourceFile

open Source

/-- A name with only interfaces in reach is flattened, whatever way they extend each other. -/
theorem interface?_complete (f : SourceFile) {name : String}
    (honly : OnlyInterfaces f.declarations name)
    (hdeclared : (findType? f.declarations name).isSome) :
    ∃ i, f.interface? name = some i ∧ IsFlattening f.declarations name i := by
  obtain ⟨d, hd⟩ := Option.isSome_iff_exists.1 hdeclared
  obtain ⟨hvalue, -⟩ :=
    ofName_of_interface (List.not_mem_nil (a := name)) hd (honly name .refl d hd)
  refine ⟨⟨name, _⟩, by rw [interface?, Source.interface?, hvalue]; rfl, rfl, ?_, ?_, ?_⟩
  · exact nodup_names_merge (nodup_names_ofBases _ (by simp) _)
  · intro property
    have hnames := (collects_ofName honly []).mem_names property
    rw [hvalue] at hnames
    simpa [Gathers, mem_entered_iff honly] using hnames
  · intro d' hd' before q after hown hlast
    obtain rfl : d' = d := Option.some.inj (hd'.symm.trans hd)
    rw [hown]
    exact mem_merge_of_last hlast

/-! ### Two circles -/

namespace Circles

/-- Two circles through one interface. Both of its bases list `b`, one of them twice, and one
extends a name that the file does not declare. -/
def source : String :=
  "interface A extends B, C \x7ba: 1\x7d
interface B extends A \x7bb: 1; b: 2\x7d
interface C extends A, D \x7bb: 3\x7d"

/-- The bases of a name and the members that it lists itself. -/
def listed? (f : SourceFile) (name : String) : Option (List String × List String) :=
  (findType? f.declarations name).map fun d => (baseNames d.node, names (ownMembers d))

end Circles

theorem interface?_complete_circles :
    ∃ f, SourceFile.parse "circles.ts" Circles.source = .ok f ∧
      Circles.listed? f "A" = some (["B", "C"], ["a"]) ∧
      Circles.listed? f "B" = some (["A"], ["b", "b"]) ∧
      Circles.listed? f "C" = some (["A", "D"], ["b"]) ∧ Circles.listed? f "D" = none ∧
      OnlyInterfaces f.declarations "A" ∧ (findType? f.declarations "A").isSome ∧
      ∃ i, f.interface? "A" = some i ∧ IsFlattening f.declarations "A" i ∧
        ∀ property, property ∈ names i.properties ↔ property ∈ ["a", "b"] := by
  -- the text is read once for all that is asked of it
  obtain ⟨f, hf, hA, hB, hC, hD, hclosed, hlisted, hdeclared, hbase, ha, hb⟩ :
      ∃ f, SourceFile.parse "circles.ts" Circles.source = .ok f ∧
      Circles.listed? f "A" = some (["B", "C"], ["a"]) ∧
      Circles.listed? f "B" = some (["A"], ["b", "b"]) ∧
      Circles.listed? f "C" = some (["A", "D"], ["b"]) ∧ Circles.listed? f "D" = none ∧
      (∀ m ∈ ["A", "B", "C", "D"], ∀ d ∈ findType? f.declarations m,
        d.shape = .interface ∧ baseNames d.node ⊆ ["A", "B", "C", "D"]) ∧
      (∀ m ∈ ["A", "B", "C", "D"], ∀ d ∈ findType? f.declarations m,
        names (ownMembers d) ⊆ ["a", "b"]) ∧
      (findType? f.declarations "A").isSome ∧ Extends f.declarations "A" "B" ∧
      Lists f.declarations "A" "a" ∧ Lists f.declarations "B" "b" :=
    exists_of_parse (by decide +kernel)
  have honly := onlyInterfaces_of_closed List.mem_cons_self hclosed
  obtain ⟨i, hi, hflat⟩ := interface?_complete f honly hdeclared
  refine ⟨f, hf, hA, hB, hC, hD, honly, hdeclared, i, hi, hflat, fun property => ?_⟩
  rw [hflat.mem_names]
  constructor
  · rintro ⟨m, hreach, d, hd, hproperty⟩
    have hm := mem_of_reaches List.mem_cons_self (fun m hm d hd => (hclosed m hm d hd).2) hreach
    exact hlisted m hm d hd hproperty
  · intro hproperty
    rcases List.mem_pair.1 hproperty with rfl | rfl
    · exact ⟨"A", .refl, ha⟩
    · exact ⟨"B", .single hbase, hb⟩

end RefPages.SourceFile
