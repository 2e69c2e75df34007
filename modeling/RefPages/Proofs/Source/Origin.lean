import RefPages.Proofs.Source.Mentions

/-!
# Where properties come from

The properties of a name come from the names it resorts to: the bases of an interface, and for each
reference in the value of an alias the first candidate that has properties.

    type P = Box<A> & C        P  ──▶  Box, C        (and A only if Box has none)

This is what the resolution does as long as it meets such a candidate once: in Box<A> & Box<B> the
second part has the properties of B. `Resolves.originates` follows every property to the declaration
that lists it, once for all candidates and once for the first ones only.
-/

namespace RefPages.Source

open Syntax
open Relation (ReflTransGen)

variable {ds : List Declaration}

/-! ### The origin of properties -/

/-- How a list of candidates is narrowed down along a run: every state of the run is in `holds`, and
a name that is found for a list is chosen from it. -/
structure Guides (ds : List Declaration) (chosen : List String → List String)
    (holds : List (List String) → List String → Prop) : Prop where
  left : ∀ {groups more entered}, holds (groups ++ more) entered → holds groups entered
  right : ∀ {task found entered after more}, holds (Task.groups task ++ more) entered →
    Resolves ds task entered found after → holds more after
  enter : ∀ {name entered}, holds [[name]] entered → name ∉ entered →
    holds (meaning ds name).groups (name :: entered)
  head : ∀ {name names entered}, holds [name :: names] entered → holds [[name]] entered
  tail : ∀ {name names entered between}, holds [name :: names] entered →
    Resolves ds (.item (.name name)) entered none between → holds [names] between
  found : ∀ {name names entered properties after}, holds [name :: names] entered →
    Resolves ds (.item (.name name)) entered (some properties) after →
    name ∈ chosen (name :: names)
  next : ∀ {name names entered between}, holds [name :: names] entered →
    Resolves ds (.item (.name name)) entered none between →
    chosen names ⊆ chosen (name :: names)

/-- The names that a name takes properties from: its bases, and the chosen candidates of its
references. -/
def TakesFrom (ds : List Declaration) (chosen : List String → List String)
    (name other : String) : Prop :=
  other ∈ (meaning ds name).bases ∨ ∃ group ∈ (meaning ds name).references, other ∈ chosen group

def Item.sources (chosen : List String → List String) : Item → List String
  | .name n => [n]
  | .type t => (references t).flatMap chosen

def Task.sources (chosen : List String → List String) : Task → List String
  | .item i => i.sources chosen
  | .first names => chosen names
  | .all _ items => items.flatMap (Item.sources chosen)

/-- The properties that a task does not take from any name. -/
def Item.own : Item → List Member
  | .name _ => []
  | .type t => listed t

def Task.own : Task → List Member
  | .item i => i.own
  | .first _ => []
  | .all given items => given ++ items.flatMap Item.own

/-- A property is one of some given ones, or listed by a name that one of the sources leads to. -/
def Originates (ds : List Declaration) (chosen : List String → List String) (own : List Member)
    (sources : List String) (p : Member) : Prop :=
  p ∈ own ∨ ∃ source ∈ sources, ∃ owner, ReflTransGen (TakesFrom ds chosen) source owner ∧
    p ∈ (meaning ds owner).properties

theorem Originates.mono {chosen : List String → List String} {own own' : List Member}
    {sources sources' : List String} {p : Member} (h : Originates ds chosen own sources p)
    (hown : own ⊆ own') (hsources : sources ⊆ sources') : Originates ds chosen own' sources' p := by
  rcases h with hmem | ⟨source, hsource, howner⟩
  · exact .inl (hown hmem)
  · exact .inr ⟨source, hsources hsource, howner⟩

theorem own_names (names : List String) : (names.map Item.name).flatMap Item.own = [] := by
  rw [List.flatMap_map]
  exact List.flatMap_eq_nil_iff.2 fun _ _ => rfl

theorem sources_names (chosen : List String → List String) (names : List String) :
    (names.map Item.name).flatMap (Item.sources chosen) = names := by
  rw [List.flatMap_map]
  exact List.flatMap_singleton' names

theorem own_of_intersection {type : Node} (hkind : type.kind = .intersectionType) :
    (type.named.map Item.type).flatMap Item.own = listed type := by
  rw [listed, parts_of_intersection hkind, List.flatMap_assoc, List.flatMap_map]
  rfl

theorem sources_of_intersection (chosen : List String → List String) {type : Node}
    (hkind : type.kind = .intersectionType) :
    (type.named.map Item.type).flatMap (Item.sources chosen) =
      (references type).flatMap chosen := by
  rw [references_of_intersection hkind, List.flatMap_assoc, List.flatMap_map]
  rfl

/-- What a name takes from its sources or lists itself originates from the name. -/
theorem Originates.enter {chosen : List String → List String} {name : String}
    {sources : List String} {p : Member}
    (h : Originates ds chosen (meaning ds name).properties sources p)
    (hsources : ∀ source ∈ sources, TakesFrom ds chosen name source) :
    Originates ds chosen [] [name] p := by
  rcases h with hmem | ⟨source, hsource, owner, hpath, hmem⟩
  · exact .inr ⟨name, by simp, name, .refl, hmem⟩
  · exact .inr ⟨name, by simp, owner, .head (hsources source hsource) hpath, hmem⟩

/-- What an interface inherits and what it lists itself originate from its name. -/
theorem originates_of_interface {chosen : List String → List String} {name : String}
    {d : Declaration} {inherited : List Member} (hmeaning : meaning ds name = .interface d)
    (hinherited : ∀ p ∈ inherited, Originates ds chosen [] (baseNames d.node) p) :
    ∀ p ∈ merge inherited (ownMembers d), Originates ds chosen [] [name] p := by
  intro p hp
  have hlisted : Originates ds chosen (meaning ds name).properties (baseNames d.node) p := by
    rw [hmeaning]
    -- the member is inherited or the interface's own
    rcases mem_of_mem_merge hp with hp | hp
    · exact (hinherited p hp).mono (List.nil_subset _) (List.Subset.refl _)
    · exact .inl hp
  refine hlisted.enter fun source hsource => .inl ?_
  rw [hmeaning]
  exact hsource

/-- What the type of an alias gives originates from the name of the alias. -/
theorem originates_of_typeAlias {chosen : List String → List String} {name : String}
    {type : Node} {p : Member} (hmeaning : meaning ds name = .typeAlias type)
    (h : Originates ds chosen (listed type) ((references type).flatMap chosen) p) :
    Originates ds chosen [] [name] p := by
  have hvalue : Originates ds chosen (meaning ds name).properties
      ((references type).flatMap chosen) p := by
    rwa [hmeaning]
  refine hvalue.enter fun source hsource => ?_
  obtain ⟨group, hgroup, hmem⟩ := List.mem_flatMap.1 hsource
  refine .inr ⟨group, ?_, hmem⟩
  rw [hmeaning]
  exact hgroup

/-- One item after another: what the first one gives is given to the others. -/
theorem originates_of_cons {chosen : List String → List String} {given : List Member} {i : Item}
    {items : List Item} {found : Option (List Member)} {p : Member}
    (hfirst : ∀ q ∈ found.getD [], Originates ds chosen i.own (i.sources chosen) q)
    (h : Originates ds chosen (Task.all (merge given (found.getD [])) items).own
      ((Task.all [] items).sources chosen) p) :
    Originates ds chosen (Task.all given (i :: items)).own
      ((Task.all [] (i :: items)).sources chosen) p := by
  have hmore : Item.own i ⊆ (Task.all given (i :: items)).own := by simp [Task.own]
  rcases h with hown | ⟨source, hsource, howner⟩
  · rcases List.mem_append.1 hown with hmerged | hrest
    · rcases mem_of_mem_merge hmerged with hgiven | hfound
      · exact .inl (List.mem_append_left _ hgiven)
      · exact (hfirst p hfound).mono hmore (by simp [Task.sources])
    · exact .inl (List.mem_append_right _ (List.mem_append_right _ hrest))
  · exact .inr ⟨source, List.mem_append_right _ hsource, howner⟩

/-- By induction on the derivation: what a run gives was given to it, or is listed by a name that
its sources lead to. Which candidate of a reference is taken is what the guide says. -/
theorem Resolves.originates {chosen : List String → List String}
    {holds : List (List String) → List String → Prop} (hguides : Guides ds chosen holds)
    {task : Task} {entered after : List String} {found : Option (List Member)}
    (h : Resolves ds task entered found after) (hholds : holds task.groups entered) :
    ∀ p ∈ found.getD [], Originates ds chosen task.own (task.sources chosen) p := by
  induction h with
  | known | nothing | hollow | foreign | exhausted => simp
  | interface hname hmeaning _ ih =>
    have hbases := ih (by
      rw [groups_of_interface hmeaning]
      exact hguides.enter hholds hname)
    rw [Task.own, Task.sources, own_names, sources_names] at hbases
    exact originates_of_interface hmeaning hbases
  | typeAlias hname hmeaning _ ih =>
    intro p hp
    have hvalue := ih (by
      rw [groups_of_typeAlias hmeaning]
      exact hguides.enter hholds hname) p hp
    exact originates_of_typeAlias hmeaning hvalue
  | @object type _ hkind =>
    intro p hp
    have hparts : parts type = [type] := parts_self (by simp [hkind]) (by simp [hkind])
    refine .inl ?_
    simpa [Task.own, Item.own, listed, hparts, Node.is, hkind] using hp
  | @inner type inner _ _ _ hkind hinner _ ih =>
    have hparts := parts_of_parenthesized hkind hinner
    simpa only [Task.own, Item.own, Task.sources, Item.sources, listed, references, hparts] using
      ih (by simpa only [Task.groups, Item.groups, references, hparts] using hholds)
  | @intersection type _ _ _ hkind _ ih =>
    have hgroups : (Task.all [] (type.named.map .type)).groups = references type := by
      rw [Task.groups, flatMap_groups_type, references_of_intersection hkind]
    intro p hp
    have hpart := ih (by rwa [hgroups]) p hp
    rwa [Task.own, Task.sources, own_of_intersection hkind, sources_of_intersection chosen hkind,
      List.nil_append] at hpart
  | @reference type _ _ _ hkind _ ih =>
    have hreferences := references_of_isReference hkind
    intro p hp
    have hfirst := ih (by rwa [Task.groups, Item.groups, hreferences] at hholds) p hp
    refine hfirst.mono (List.nil_subset _) ?_
    simp [Task.sources, Item.sources, hreferences]
  | found hname ih =>
    intro p hp
    have hchosen := hguides.found hholds hname
    exact (ih (hguides.head hholds) p hp).mono (List.Subset.refl _) (by
      simpa [Task.sources, Item.sources] using hchosen)
  | next hname _ _ ih =>
    intro p hp
    exact (ih (hguides.tail hholds hname) p hp).mono (List.Subset.refl _)
      (hguides.next hholds hname)
  | nil =>
    intro p hp
    exact .inl (List.mem_append_left _ hp)
  | @cons given i items _ _ _ _ _ hitem _ ih ih' =>
    intro p hp
    have hboth : holds ((Task.item i).groups ++ items.flatMap Item.groups) _ := hholds
    exact originates_of_cons (ih (hguides.left hholds)) (ih' (hguides.right hboth hitem) p hp)

/-! ### All candidates and first candidates -/

/-- Every property comes from some candidate. -/
theorem guides_all : Guides ds id fun _ _ => True where
  left _ := trivial
  right _ _ := trivial
  enter _ _ := trivial
  head _ := trivial
  tail _ _ := trivial
  found _ _ := List.mem_cons_self
  next _ _ := List.subset_cons_self _ _

/-- The first candidate that has properties. -/
def firstLive (ds : List Declaration) (group : List String) : List String :=
  (group.find? fun name => (interface? ds name).isSome).toList

theorem firstLive_cons_of_live {name : String} (names : List String) (h : Live ds name) :
    firstLive ds (name :: names) = [name] := by
  have hsome : (interface? ds name).isSome = true := h
  simp [firstLive, hsome]

theorem firstLive_cons_of_not_live {name : String} (names : List String) (h : ¬Live ds name) :
    firstLive ds (name :: names) = firstLive ds names := by
  have hnone : (interface? ds name).isSome = false := by simpa [Live] using h
  simp [firstLive, hnone]

/-- The chosen candidate has properties. -/
theorem live_of_mem_firstLive {name : String} {group : List String}
    (h : name ∈ firstLive ds group) : name ∈ group ∧ Live ds name := by
  have hfind := Option.mem_toList.1 h
  have hlive : (interface? ds name).isSome = true := by simpa using List.find?_some hfind
  exact ⟨List.mem_of_find?_eq_some hfind, hlive⟩

/-- The names of some groups are still unmet, and where a group is contested the candidate is
decisive. -/
structure Narrows (ds : List Declaration) (root : String) (groups : List (List String))
    (entered : List String) : Prop where
  unmet : Unmet ds root groups.flatten entered
  contested : ∀ group ∈ groups, ∀ name, Contested ds group name → Decisive ds root name

theorem not_contested_singleton {name other : String} : ¬Contested ds [name] other := by
  rintro ⟨before, after, heq, -, -, later, hlater, -⟩
  have hlength := congrArg List.length heq
  have hpos := List.length_pos_of_mem hlater
  simp at hlength
  omega

theorem Contested.live {group : List String} {name : String} (h : Contested ds group name) :
    Live ds name := by
  obtain ⟨_, _, _, _, hlive, _⟩ := h
  exact hlive

/-- A candidate without properties in front contests nothing. -/
theorem Contested.cons {name other : String} {names : List String} (h : Contested ds names other)
    (hname : ¬Live ds name) : Contested ds (name :: names) other := by
  obtain ⟨before, after, rfl, hbefore, hlive, hlater⟩ := h
  refine ⟨name :: before, after, rfl, ?_, hlive, hlater⟩
  exact List.forall_mem_cons.2 ⟨hname, hbefore⟩

/-- A candidate that gave nothing never does, if a later one has properties: it is decisive, and
would have been taken. -/
theorem Narrows.not_live {root name : String} {names entered between : List String}
    (h : Narrows ds root [name :: names] entered)
    (hrun : Resolves ds (.item (.name name)) entered none between)
    (hlater : ∃ other ∈ names, Live ds other) : ¬Live ds name := by
  intro hlive
  have hdecisive : Decisive ds root name := by
    refine h.contested _ (List.mem_singleton_self _) name ?_
    exact ⟨[], names, rfl, by simp, hlive, hlater⟩
  have hmem : name ∈ [name :: names].flatten := by simp
  have hopens : Opens ds entered name := by
    refine opens_of_decisive ?_ (h.unmet.reached name hmem) hdecisive
      (h.unmet.fresh name hmem hdecisive)
    exact fun other hother => h.unmet.owned other (List.mem_append_right _ hother)
  exact hrun.not_opens hopens

/-- Every property comes from a first candidate, if decisive names are met once. -/
theorem guides_first {root : String} (honce : MeetsOnce ds root) :
    Guides ds (firstLive ds) (Narrows ds root) where
  left h := by
    refine ⟨?_, fun group hgroup => h.contested group (List.mem_append_left _ hgroup)⟩
    have hunmet := h.unmet
    rw [List.flatten_append] at hunmet
    exact hunmet.left
  right h hrun := by
    refine ⟨?_, fun group hgroup => h.contested group (List.mem_append_right _ hgroup)⟩
    have hunmet := h.unmet
    rw [List.flatten_append] at hunmet
    exact hunmet.right honce hrun rfl
  enter {name entered} h hname := by
    have hunmet : Unmet ds root [name] entered := by simpa using h.unmet
    refine ⟨?_, fun group hgroup other hcontested => ?_⟩
    · rw [Meaning.flatten_groups]
      exact hunmet.enter honce hname
    · rcases List.mem_append.1 hgroup with hbase | hreference
      · obtain ⟨base, -, rfl⟩ := List.mem_map.1 hbase
        exact absurd hcontested not_contested_singleton
      · have hreached := hunmet.reached name (List.mem_singleton_self _)
        exact ⟨hcontested.live, name, hreached, group, hreference, other, hcontested, .refl⟩
  head {name names entered} h := by
    have hunmet : Unmet ds root ([name] ++ names) entered := by simpa using h.unmet
    refine ⟨by simpa using hunmet.left, fun group hgroup other hcontested => ?_⟩
    rw [List.mem_singleton.1 hgroup] at hcontested
    exact absurd hcontested not_contested_singleton
  tail {name names entered between} h hrun := by
    have hunmet : Unmet ds root ([name] ++ names) entered := by simpa using h.unmet
    have hrest := hunmet.right honce hrun (by simp [Task.groups, Item.groups])
    refine ⟨by simpa using hrest, fun group hgroup other hcontested => ?_⟩
    rw [List.mem_singleton.1 hgroup] at hcontested
    have hlater : ∃ later ∈ names, Live ds later := by
      obtain ⟨_, _, rfl, -, hlive, -⟩ := hcontested
      exact ⟨other, by simp, hlive⟩
    exact h.contested _ (List.mem_singleton_self _) other
      (hcontested.cons (h.not_live hrun hlater))
  -- the candidate that gives properties here gives some from the start, so it is the first that
  -- does
  found _ hrun := by
    rw [firstLive_cons_of_live _ hrun.live]
    exact List.mem_singleton_self _
  -- one that gives none here could have been entered before: if it is contested, it was not
  next {name names entered between} h hrun := by
    intro other hother
    have hlater := live_of_mem_firstLive hother
    rwa [firstLive_cons_of_not_live names (h.not_live hrun ⟨other, hlater⟩)]

end RefPages.Source

namespace RefPages.SourceFile

open Source
open Relation (ReflTransGen)

/-- A name takes properties from another one: from a base, or from the first candidate of a
reference that has some. -/
def Resorts (ds : List Declaration) (name other : String) : Prop :=
  other ∈ (meaning ds name).bases ∨ ∃ group ∈ (meaning ds name).references,
    group.find? (fun candidate => (Source.interface? ds candidate).isSome) = some other

theorem mentions_of_takesFrom {ds : List Declaration} {name other : String}
    (h : TakesFrom ds id name other) : Mentions ds name other := by
  rw [Mentions, Meaning.mentions, List.mem_append]
  refine h.imp_right ?_
  rintro ⟨group, hgroup, hmem⟩
  exact List.mem_flatten.2 ⟨group, hgroup, hmem⟩

/-- Taking from chosen candidates is resorting to them. -/
theorem resorts_of_takesFrom {ds : List Declaration} {name other : String}
    (h : TakesFrom ds (firstLive ds) name other) : Resorts ds name other := by
  refine h.imp_right ?_
  rintro ⟨group, hgroup, hmem⟩
  exact ⟨group, hgroup, Option.mem_toList.1 hmem⟩

/-- A name resorts only to names that it mentions. -/
theorem mentions_of_resorts {ds : List Declaration} {name other : String}
    (h : Resorts ds name other) : Mentions ds name other := by
  rw [Mentions, Meaning.mentions, List.mem_append]
  refine h.imp_right ?_
  rintro ⟨group, hgroup, hfind⟩
  exact List.mem_flatten.2 ⟨group, hgroup, List.mem_of_find?_eq_some hfind⟩

/-- **Properties come from what a type refers to.** Every property of a name is listed by a
declaration that the name leads to through bases and candidates of references; and by one that it
leads to through bases and first candidates, if no decisive name is met twice. -/
theorem interface?_sources (f : SourceFile) {name : String} {i : Interface}
    (h : f.interface? name = some i) :
    (∀ p ∈ i.properties, ∃ owner, ReflTransGen (Mentions f.declarations) name owner ∧
      p ∈ (meaning f.declarations owner).properties) ∧
    (MeetsOnce f.declarations name → ∀ p ∈ i.properties,
      ∃ owner, ReflTransGen (Resorts f.declarations) name owner ∧
        p ∈ (meaning f.declarations owner).properties) := by
  have hrun := @resolves_ofName f.declarations [] name
  obtain ⟨properties, hvalue, rfl⟩ := Option.map_eq_some_iff.1 h
  rw [hvalue] at hrun
  -- two guides: all candidates, and the first with properties
  constructor
  · intro p hp
    obtain hown | ⟨source, hsource, owner, hpath, hmem⟩ := hrun.originates guides_all trivial p hp
    · cases hown
    · rw [List.mem_singleton.1 hsource] at hpath
      exact ⟨owner, ReflTransGen.mono (fun _ _ => mentions_of_takesFrom) _ _ hpath, hmem⟩
  · intro honce p hp
    have hholds : Narrows f.declarations name (Task.item (.name name)).groups [] := by
      refine ⟨.start honce, fun group hgroup other hcontested => ?_⟩
      rw [List.mem_singleton.1 hgroup] at hcontested
      exact absurd hcontested not_contested_singleton
    obtain hown | ⟨source, hsource, owner, hpath, hmem⟩ :=
      hrun.originates (guides_first honce) hholds p hp
    · cases hown
    · rw [List.mem_singleton.1 hsource] at hpath
      exact ⟨owner, ReflTransGen.mono (fun _ _ => resorts_of_takesFrom) _ _ hpath, hmem⟩

/-- An alias for an intersection of a generic interface with another type. Both the interface and
its argument are declared. -/
def wrapped : String :=
  "type P = Box<A> & C
interface Box<T> extends Base \x7bb: T\x7d
interface Base \x7bbase: 1\x7d
interface A \x7ba: 1\x7d
type C = (Partial<A>)"

theorem interface?_sources_wrapped :
    ∃ f i, SourceFile.parse "wrapped.ts" wrapped = .ok f ∧ f.interface? "P" = some i ∧
      MeetsOnce f.declarations "P" ∧
      ∀ p ∈ i.properties, ∃ owner, ReflTransGen (Resorts f.declarations) "P" owner ∧
        p ∈ (meaning f.declarations owner).properties := by
  -- the text is read once for all that is checked
  obtain ⟨f, hf, hstands, hclosed, hfirst, hwatched, honce, halone⟩ : ∃ f,
      SourceFile.parse "wrapped.ts" wrapped = .ok f ∧
      (meaning f.declarations "P").Stands ∧
      (∀ owner ∈ ["P", "Box", "Base", "A", "C", "Partial"],
        (meaning f.declarations owner).mentions ⊆ ["P", "Box", "Base", "A", "C", "Partial"]) ∧
      (∀ owner ∈ ["P", "Box", "Base", "A", "C", "Partial"],
        ∀ group ∈ (meaning f.declarations owner).references,
          group.dropLast ⊆ ["Box", "Partial"]) ∧
      (∀ name ∈ ["Box", "Partial"],
        (meaning f.declarations name).alternatives ⊆ ["Box", "Partial"]) ∧
      (∀ name ∈ ["Box", "Partial"], ∀ owner ∈ ["P", "Box", "Base", "A", "C", "Partial"],
        (meaning f.declarations owner).mentions.count name ≤ 1) ∧
      ∀ name ∈ ["Box", "Partial"], ∀ owner ∈ ["P", "Box", "Base", "A", "C", "Partial"],
        ∀ owner' ∈ ["P", "Box", "Base", "A", "C", "Partial"],
        name ∈ (meaning f.declarations owner).mentions →
        name ∈ (meaning f.declarations owner').mentions → owner = owner' :=
    exists_of_parse (by decide +kernel)
  have honce := meetsOnce_of_closed List.mem_cons_self hclosed hfirst hwatched (by decide) honce
    halone
  obtain ⟨i, hi⟩ := Option.isSome_iff_exists.1 (live_of_stands hstands)
  exact ⟨f, i, hf, hi, honce, (interface?_sources f hi).2 honce⟩

/-! ### A generic interface that is met twice -/

namespace Twice

def source : String :=
  "type P = Box<A> & Box<B>
interface Box<T> \x7bbox: T\x7d
interface A \x7ba: 1\x7d
interface B \x7bb: 1\x7d"

/-- The candidates of the parts of an intersection. -/
def candidatesOfParts? : Meaning → Option (List (Option (List String)))
  | .typeAlias type =>
    if type.kind = .intersectionType then some (type.named.map reference?) else none
  | _ => none

def plainNames? : Meaning → Option (List String)
  | .interface d => if baseNames d.node = [] then some (names (ownMembers d)) else none
  | _ => none

end Twice

/-- An interface without bases gives its members, unless it was entered before. -/
theorem resolves_plain {ds : List Declaration} {name : String} {properties : List String}
    (h : Twice.plainNames? (meaning ds name) = some properties) :
    ∃ found, (∀ p ∈ properties, p ∈ names found) ∧
      ∀ entered, name ∉ entered →
        Resolves ds (.item (.name name)) entered (some found) (name :: entered) := by
  unfold Twice.plainNames? at h
  split at h
  · next d hmeaning =>
    split at h
    · next hbases =>
      cases h
      refine ⟨merge [] (ownMembers d), fun p hp => mem_names_merge.2 (.inr hp), ?_⟩
      intro entered hname
      refine .interface hname hmeaning ?_
      rw [hbases]
      exact .nil
    · cases h
  · cases h

/-- A reference gives what the first of its candidates with properties gives. -/
theorem resolves_of_reference? {ds : List Declaration} {type : Syntax.Node}
    {names entered after : List String} {found : Option (List Member)}
    (h : reference? type = some names)
    (hrun : Resolves ds (.first names) entered found after) :
    Resolves ds (.item (.type type)) entered found after := by
  unfold reference? at h
  split at h
  · next hreference =>
    cases h
    exact .reference hreference hrun
  · cases h

/-- The interface is entered for the first part of the intersection, so the second one gives the
members of its argument. -/
theorem resolves_twice {ds : List Declaration}
    (hparts : Twice.candidatesOfParts? (meaning ds "P") =
      some [some ["Box", "A"], some ["Box", "B"]])
    (hbox : Twice.plainNames? (meaning ds "Box") = some ["box"])
    (hb : Twice.plainNames? (meaning ds "B") = some ["b"]) :
    ∃ found after, "b" ∈ names found ∧
      Resolves ds (.item (.name "P")) [] (some found) after := by
  obtain ⟨box, -, hrunBox⟩ := resolves_plain hbox
  obtain ⟨b, hmem, hrunB⟩ := resolves_plain hb
  unfold Twice.candidatesOfParts? at hparts
  split at hparts
  · next type hmeaning =>
    split at hparts
    · next hkind =>
      obtain ⟨first, rest, hnamed, hfirst, hrest⟩ := List.map_eq_cons_iff.1 (Option.some.inj hparts)
      obtain ⟨second, nothing, rfl, hsecond, hnothing⟩ := List.map_eq_cons_iff.1 hrest
      obtain rfl := List.map_eq_nil_iff.1 hnothing
      refine ⟨merge (merge [] box) b, ["B", "Box", "P"], ?_, ?_⟩
      · exact mem_names_merge.2 (.inr (hmem "b" (by simp)))
      -- the second reference starts with the interface entered, so it goes on to the argument
      · have hrunFirst : Resolves ds (.item (.type first)) ["P"] (some box) ["Box", "P"] :=
          resolves_of_reference? hfirst (.found (hrunBox ["P"] (by simp)))
        have hrunSecond : Resolves ds (.item (.type second)) ["Box", "P"] (some b)
            ["B", "Box", "P"] :=
          resolves_of_reference? hsecond
            (.next (.known (by simp)) (.found (hrunB ["Box", "P"] (by simp))))
        refine .typeAlias List.not_mem_nil hmeaning (.intersection hkind ?_)
        rw [hnamed]
        exact .cons hrunFirst (.cons hrunSecond .nil)
    · cases hparts
  · cases hparts

/-- Only the alias and the interface are reached by first candidates. -/
theorem reached_twice {ds : List Declaration} {owner : String}
    (hbases : (meaning ds "P").bases = [])
    (hreferences : (meaning ds "P").references = [["Box", "A"], ["Box", "B"]])
    (hstands : (meaning ds "Box").Stands) (hmentions : (meaning ds "Box").mentions = [])
    (h : ReflTransGen (Resorts ds) "P" owner) : owner = "P" ∨ owner = "Box" := by
  induction h with
  | refl => exact .inl rfl
  | tail _ hstep hmem =>
    have hlive : (Source.interface? ds "Box").isSome = true := live_of_stands hstands
    rcases hmem with rfl | rfl
    -- from `P` only the first candidate of each group is resorted to
    · rcases hstep with hbase | ⟨group, hgroup, hfind⟩
      · simp [hbases] at hbase
      · rw [hreferences] at hgroup
        simp only [List.mem_cons, List.not_mem_nil, or_false] at hgroup
        rcases hgroup with rfl | rfl <;> simp_all
    -- `Box` mentions nothing further
    · have hmentioned := mentions_of_resorts hstep
      simp [Mentions, hmentions] at hmentioned

theorem interface?_sources_twice :
    ∃ f i, SourceFile.parse "twice.ts" Twice.source = .ok f ∧ f.interface? "P" = some i ∧
      ∃ p ∈ i.properties, p.name = "b" ∧
        ∀ owner, ReflTransGen (Resorts f.declarations) "P" owner →
          p ∉ (meaning f.declarations owner).properties := by
  obtain ⟨f, hf, hparts, hbox, hb, hbases, hreferences, hnone, hstands, hmentions, hmembers⟩ : ∃ f,
      SourceFile.parse "twice.ts" Twice.source = .ok f ∧
      Twice.candidatesOfParts? (meaning f.declarations "P") =
        some [some ["Box", "A"], some ["Box", "B"]] ∧
      Twice.plainNames? (meaning f.declarations "Box") = some ["box"] ∧
      Twice.plainNames? (meaning f.declarations "B") = some ["b"] ∧
      (meaning f.declarations "P").bases = [] ∧
      (meaning f.declarations "P").references = [["Box", "A"], ["Box", "B"]] ∧
      names (meaning f.declarations "P").properties = [] ∧
      (meaning f.declarations "Box").Stands ∧
      (meaning f.declarations "Box").mentions = [] ∧
      names (meaning f.declarations "Box").properties = ["box"] :=
    exists_of_parse (by decide +kernel)
  obtain ⟨found, after, hmem, hrun⟩ := resolves_twice hparts hbox hb
  have hi : f.interface? "P" = some ⟨"P", found⟩ := interface?_of_resolves hrun
  obtain ⟨p, hp, hname⟩ := List.mem_map.1 hmem
  refine ⟨f, ⟨"P", found⟩, hf, hi, p, hp, hname, ?_⟩
  intro owner hpath hlisted
  have hlisted : "b" ∈ names (meaning f.declarations owner).properties :=
    hname ▸ List.mem_map_of_mem hlisted
  rcases reached_twice hbases hreferences hstands hmentions hpath with rfl | rfl
  · simp [hnone] at hlisted
  · simp [hmembers] at hlisted

end RefPages.SourceFile
