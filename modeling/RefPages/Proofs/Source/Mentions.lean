import RefPages.Proofs.Source.Live

/-!
# Names that are met once

A declaration mentions names, as bases and in references, and a run enters names that it was given
or that another name it entered mentions (`Resolves.enters`).

A candidate that was entered before gives nothing, just like one that the file does not declare, and
a later candidate of the same reference is taken in its place. So the names that must not be entered
too early are those on which a reference depends that has a later candidate with properties: the
decisive ones. If each of them is mentioned once, then of the names that are still to be resolved
none that is decisive was entered. `Unmet` says so, and is kept by every step.
-/

namespace RefPages.Source

open Syntax
open Relation (ReflTransGen)

variable {ds : List Declaration}

/-! ### Names that are mentioned -/

/-- A declaration mentions a name as a base or in a reference. -/
def Mentions (ds : List Declaration) (name other : String) : Prop :=
  other ∈ (meaning ds name).mentions

/-- The names that a task may resolve, grouped by what they are the candidates of. -/
def Item.groups : Item → List (List String)
  | .name n => [[n]]
  | .type t => references t

def Task.groups : Task → List (List String)
  | .item i => i.groups
  | .first names => [names]
  | .all _ items => items.flatMap Item.groups

theorem flatMap_groups_name (names : List String) :
    (names.map Item.name).flatMap Item.groups = names.map ([·]) := by
  rw [List.flatMap_map, List.map_eq_flatMap]
  rfl

theorem flatMap_groups_type (types : List Node) :
    (types.map Item.type).flatMap Item.groups = types.flatMap references := by
  rw [List.flatMap_map]
  rfl

theorem references_of_intersection {type : Node} (hkind : type.kind = .intersectionType) :
    references type = type.named.flatMap references := by
  rw [references, parts_of_intersection hkind, List.filterMap_flatMap]
  rfl

theorem references_of_isReference {type : Node} (hkind : isReference type = true) :
    references type = [candidates type] := by
  obtain ⟨-, hinner, hparts⟩ := ne_of_isReference hkind
  rw [references, parts_self hinner hparts]
  simp [reference?, hkind]

/-- Resolving the bases of an interface is resolving what its name mentions. -/
theorem groups_of_interface {name : String} {d : Declaration}
    (h : meaning ds name = .interface d) :
    (Task.all [] ((baseNames d.node).map .name)).groups = (meaning ds name).groups := by
  rw [Task.groups, flatMap_groups_name, Meaning.groups, h]
  simp [Meaning.bases, Meaning.references]

/-- So is resolving the type of an alias. -/
theorem groups_of_typeAlias {name : String} {type : Node}
    (h : meaning ds name = .typeAlias type) :
    (Task.item (.type type)).groups = (meaning ds name).groups := by
  rw [Meaning.groups, h]
  simp [Meaning.bases, Meaning.references, Task.groups, Item.groups]

/-- A name is reached from one of some names. -/
def ReachedFrom (ds : List Declaration) (names : List String) (name : String) : Prop :=
  ∃ start ∈ names, ReflTransGen (Mentions ds) start name

theorem ReachedFrom.mono {names more : List String} {name : String} (h : ReachedFrom ds names name)
    (hsub : names ⊆ more) : ReachedFrom ds more name := by
  obtain ⟨start, hstart, hpath⟩ := h
  exact ⟨start, hsub hstart, hpath⟩

/-- Every name that a task enters is one of its own, or mentioned by another name that it enters. -/
def Entered (ds : List Declaration) (names entered after : List String) (name : String) : Prop :=
  name ∈ names ∨
    ∃ owner ∈ after, owner ∉ entered ∧ ReachedFrom ds names owner ∧ Mentions ds owner name

theorem Entered.mono {names more entered after later : List String} {name : String}
    (h : Entered ds names entered after name) (hnames : names ⊆ more) (hafter : after ⊆ later) :
    Entered ds more entered later name := by
  rcases h with hmem | ⟨owner, howner, hnew, hreached, hmentions⟩
  · exact .inl (hnames hmem)
  · exact .inr ⟨owner, hafter howner, hnew, hreached.mono hnames, hmentions⟩

theorem Entered.earlier {names entered between after : List String} {name : String}
    (h : Entered ds names between after name) (hgrows : entered ⊆ between) :
    Entered ds names entered after name := by
  rcases h with hmem | ⟨owner, howner, hnew, hreached, hmentions⟩
  · exact .inl hmem
  · exact .inr ⟨owner, howner, fun hmem => hnew (hgrows hmem), hreached, hmentions⟩

/-- What is entered for the names that an owner mentions is entered for the owner. -/
theorem Entered.enter {owner name : String} {entered after : List String}
    (h : Entered ds (meaning ds owner).mentions (owner :: entered) after name)
    (howner : owner ∉ entered) (hmem : owner ∈ after) : Entered ds [owner] entered after name := by
  rcases h with hmentions | ⟨other, hother, hnew, ⟨start, hstart, hpath⟩, hmentions⟩
  · exact .inr ⟨owner, hmem, howner, ⟨owner, by simp, .refl⟩, hmentions⟩
  · refine .inr ⟨other, hother, fun h => hnew (List.mem_cons_of_mem _ h), ?_, hmentions⟩
    exact ⟨owner, by simp, .head hstart hpath⟩

/-- By induction on the derivation: every name that a run enters is one of its task, or mentioned by
another one that it enters. -/
theorem Resolves.enters {task : Task} {entered after : List String} {found : Option (List Member)}
    (h : Resolves ds task entered found after) {name : String} (hname : name ∈ after)
    (hnew : name ∉ entered) : Entered ds task.groups.flatten entered after name := by
  -- of two steps in a row, the second starts from what the first has entered
  induction h with
  | known | object | hollow | foreign | exhausted | nil => exact absurd hname hnew
  | nothing => exact .inl (by simpa [Task.groups, Item.groups, hnew] using hname)
  | @interface owner entered _ _ after hnotin hmeaning hbases ih =>
    -- the name itself is one of the task, all others come from below it
    by_cases heq : name = owner
    · exact .inl (by simp [Task.groups, Item.groups, heq])
    · rw [groups_of_interface hmeaning, Meaning.flatten_groups] at ih
      exact (ih hname (by simp [heq, hnew])).enter hnotin (hbases.grows List.mem_cons_self)
  | @typeAlias owner entered _ _ after hnotin hmeaning hvalue ih =>
    by_cases heq : name = owner
    · exact .inl (by simp [Task.groups, Item.groups, heq])
    · rw [groups_of_typeAlias hmeaning, Meaning.flatten_groups] at ih
      exact (ih hname (by simp [heq, hnew])).enter hnotin (hvalue.grows List.mem_cons_self)
  | inner hkind hinner _ ih =>
    have hparts := parts_of_parenthesized hkind hinner
    simpa only [Task.groups, Item.groups, references, hparts] using ih hname hnew
  | intersection hkind _ ih =>
    simpa only [Task.groups, flatMap_groups_type, Item.groups, references_of_intersection hkind]
      using ih hname hnew
  | reference hkind _ ih =>
    simpa only [Task.groups, Item.groups, references_of_isReference hkind] using ih hname hnew
  | found _ ih =>
    exact (ih hname hnew).mono (by simp [Task.groups, Item.groups]) (List.Subset.refl _)
  | @next head names entered between _ after hhead hnames ih ih' =>
    by_cases hbetween : name ∈ between
    · exact (ih hbetween hnew).mono (by simp [Task.groups, Item.groups]) hnames.grows
    · exact ((ih' hname hbetween).earlier hhead.grows).mono (by simp [Task.groups])
        (List.Subset.refl _)
  | @cons given i items entered _ between _ after hitem hitems ih ih' =>
    have hgroups : (Task.all given (i :: items)).groups.flatten =
        i.groups.flatten ++ (items.flatMap Item.groups).flatten := by
      rw [Task.groups, List.flatMap_cons, List.flatten_append]
    rw [hgroups]
    by_cases hbetween : name ∈ between
    · exact (ih hbetween hnew).mono (List.subset_append_left _ _) hitems.grows
    · exact ((ih' hname hbetween).earlier hitem.grows).mono (List.subset_append_right _ _)
        (List.Subset.refl _)

/-! ### Names that are met once -/

/-- The first candidate of a reference that has properties, where a later candidate has some too. -/
def Contested (ds : List Declaration) (group : List String) (name : String) : Prop :=
  ∃ before after, group = before ++ name :: after ∧ (∀ other ∈ before, ¬Live ds other) ∧
    Live ds name ∧ ∃ other ∈ after, Live ds other

/-- An alias may stand for another name. -/
def Alternative (ds : List Declaration) (name other : String) : Prop :=
  other ∈ (meaning ds name).alternatives

/-- A reference in reach goes wrong if the name is entered before: its first candidate that has
properties, or a name that this candidate may stand for, where a later candidate would be taken. -/
def Decisive (ds : List Declaration) (root name : String) : Prop :=
  Live ds name ∧ ∃ owner, ReflTransGen (Mentions ds) root owner ∧
    ∃ group ∈ (meaning ds owner).references, ∃ first, Contested ds group first ∧
      ReflTransGen (Alternative ds) first name

/-- The decisive names in reach of a name are each mentioned once. -/
structure MeetsOnce (ds : List Declaration) (root : String) : Prop where
  notRoot : ¬Decisive ds root root
  once : ∀ name, Decisive ds root name → ∀ owner, ReflTransGen (Mentions ds) root owner →
    (meaning ds owner).mentions.count name ≤ 1
  alone : ∀ name, Decisive ds root name → ∀ owner owner',
    ReflTransGen (Mentions ds) root owner → ReflTransGen (Mentions ds) root owner' →
    Mentions ds owner name → Mentions ds owner' name → owner = owner'

/-- Only candidates with another one after them can be decisive, and what they may stand for. -/
theorem meetsOnce_of_closed {root : String} {names watched : List String} (hroot : root ∈ names)
    (hclosed : ∀ owner ∈ names, (meaning ds owner).mentions ⊆ names)
    (hfirst : ∀ owner ∈ names, ∀ group ∈ (meaning ds owner).references, group.dropLast ⊆ watched)
    (hwatched : ∀ name ∈ watched, (meaning ds name).alternatives ⊆ watched)
    (hnotRoot : root ∉ watched)
    (honce : ∀ name ∈ watched, ∀ owner ∈ names, (meaning ds owner).mentions.count name ≤ 1)
    (halone : ∀ name ∈ watched, ∀ owner ∈ names, ∀ owner' ∈ names,
      name ∈ (meaning ds owner).mentions → name ∈ (meaning ds owner').mentions → owner = owner') :
    MeetsOnce ds root := by
  have hreach : ∀ owner, ReflTransGen (Mentions ds) root owner → owner ∈ names := by
    intro owner hpath
    induction hpath with
    | refl => exact hroot
    | tail _ hmentions hmem => exact hclosed _ hmem hmentions
  -- a decisive name is no last candidate, or may stand for one that is none
  have hdecisive : ∀ name, Decisive ds root name → name ∈ watched := by
    rintro name ⟨-, owner, howner, group, hgroup, first, hcontested, hpath⟩
    obtain ⟨before, after, rfl, -, -, later, hlater, -⟩ := hcontested
    induction hpath with
    | refl =>
      refine hfirst owner (hreach owner howner) _ hgroup ?_
      rw [List.dropLast_append_of_ne_nil (by simp),
        List.dropLast_cons_of_ne_nil (List.ne_nil_of_mem hlater)]
      simp
    | tail _ hother hmem => exact hwatched _ hmem hother
  exact ⟨fun h => hnotRoot (hdecisive root h),
    fun name h owner howner => honce name (hdecisive name h) owner (hreach owner howner),
    fun name h owner owner' howner howner' => halone name (hdecisive name h) owner
      (hreach owner howner) owner' (hreach owner' howner')⟩

/-- Of the names that are still to be resolved none that is decisive was entered, and all that
mention a decisive name that was entered or is still to be resolved were. -/
structure Unmet (ds : List Declaration) (root : String) (names entered : List String) : Prop where
  reached : ∀ name ∈ names, ReflTransGen (Mentions ds) root name
  fresh : ∀ name ∈ names, Decisive ds root name → name ∉ entered
  once : ∀ name, Decisive ds root name → names.count name ≤ 1
  owned : ∀ name ∈ names ++ entered, Decisive ds root name → ∀ owner,
    ReflTransGen (Mentions ds) root owner → Mentions ds owner name → owner ∈ entered

namespace Unmet

variable {root : String} {names more entered after : List String}

/-- At the start nothing was entered, so nothing decisive was either. -/
theorem start (honce : MeetsOnce ds root) : Unmet ds root [root] [] where
  reached name hname := by
    rw [List.mem_singleton.1 hname]
  fresh name _ _ := List.not_mem_nil
  once name _ := List.count_le_length
  owned name hname hdecisive := by
    obtain rfl : name = root := by simpa using hname
    exact absurd hdecisive honce.notRoot

theorem left (h : Unmet ds root (names ++ more) entered) : Unmet ds root names entered where
  reached name hname := h.reached name (List.mem_append_left _ hname)
  fresh name hname := h.fresh name (List.mem_append_left _ hname)
  once name hdecisive := by
    have hcount := h.once name hdecisive
    rw [List.count_append] at hcount
    omega
  owned name hname := h.owned name (by
    rw [List.mem_append] at hname ⊢
    exact hname.imp_left (List.mem_append_left _))

/-- A task that takes care of some of the names leaves the others as they are. -/
theorem right (honce : MeetsOnce ds root) (h : Unmet ds root (names ++ more) entered) {task : Task}
    {found : Option (List Member)} (hrun : Resolves ds task entered found after)
    (hnames : task.groups.flatten = names) : Unmet ds root more after := by
  -- a name that the task has entered is one of its own or mentioned by names that were entered
  have hentered : ∀ name ∈ after, name ∉ entered →
      name ∈ names ∨ ∃ owner ∈ after, owner ∉ entered ∧
        ReflTransGen (Mentions ds) root owner ∧ Mentions ds owner name := by
    intro name hname hnew
    have henters := hrun.enters hname hnew
    rw [hnames] at henters
    refine henters.imp_right ?_
    rintro ⟨owner, howner, hfresh, ⟨start, hstart, hpath⟩, hmentions⟩
    exact ⟨owner, howner, hfresh, (h.reached start (List.mem_append_left _ hstart)).trans hpath,
      hmentions⟩
  refine ⟨fun name hname => h.reached name (List.mem_append_right _ hname), ?_, ?_, ?_⟩
  -- a decisive name that the task entered would be met twice
  · intro name hname hdecisive hafter
    have hnew := h.fresh name (List.mem_append_right _ hname) hdecisive
    rcases hentered name hafter hnew with hmem | ⟨owner, -, hfresh, hreach, hmentions⟩
    · have hcount := h.once name hdecisive
      rw [List.count_append] at hcount
      have hleft := List.count_pos_iff.2 hmem
      have hright := List.count_pos_iff.2 hname
      omega
    · exact hfresh (h.owned name (List.mem_append_left _ (List.mem_append_right _ hname))
        hdecisive owner hreach hmentions)
  · intro name hdecisive
    have hcount := h.once name hdecisive
    rw [List.count_append] at hcount
    omega
  · intro name hname hdecisive owner hreach hmentions
    by_cases hold : name ∈ (names ++ more) ++ entered
    · exact hrun.grows (h.owned name hold hdecisive owner hreach hmentions)
    · simp only [List.mem_append, not_or] at hold hname
      obtain ⟨⟨hnotnames, hnotmore⟩, hnew⟩ := hold
      rcases hentered name (hname.resolve_left hnotmore) hnew with
        hmem | ⟨owner', howner', -, hreach', hmentions'⟩
      · exact absurd hmem hnotnames
      · rwa [honce.alone name hdecisive owner owner' hreach hreach' hmentions hmentions']

/-- The names that a name mentions are still to be resolved when it is entered. -/
theorem enter (honce : MeetsOnce ds root) {name : String} (h : Unmet ds root [name] entered)
    (hname : name ∉ entered) : Unmet ds root (meaning ds name).mentions (name :: entered) := by
  have hreach := h.reached name (List.mem_singleton_self _)
  -- a name that decides is mentioned from one place only
  have hself : ∀ other ∈ (meaning ds name).mentions, Decisive ds root other →
      other ∉ name :: entered := by
    intro other hother hdecisive hmem
    have howned := h.owned other (by simpa using hmem) hdecisive name hreach hother
    exact hname howned
  refine ⟨fun other hother => hreach.tail hother, hself, fun other hdecisive =>
    honce.once other hdecisive name hreach, ?_⟩
  intro other hother hdecisive owner howner hmentions
  rcases List.mem_append.1 hother with hmem | hmem
  · rw [honce.alone other hdecisive owner name howner hreach hmentions hmem]
    exact List.mem_cons_self
  · have howned := h.owned other (by simpa using hmem) hdecisive owner howner hmentions
    exact List.mem_cons_of_mem _ howned

end Unmet

/-- A decisive name that was not entered has properties, since all that it may stand for is
decisive too. -/
theorem opens_of_decisive {root name : String} {entered : List String}
    (howned : ∀ name ∈ entered, Decisive ds root name → ∀ owner,
      ReflTransGen (Mentions ds) root owner → Mentions ds owner name → owner ∈ entered)
    (hreach : ReflTransGen (Mentions ds) root name) (hdecisive : Decisive ds root name)
    (hname : name ∉ entered) : Opens ds entered name := by
  have hopens : Opens ds [] name := live_iff.1 hdecisive.1
  -- along a chain of aliases that ends in a body, every name met is as decisive as the first
  induction hopens with
  | stands _ hstands => exact .stands hname hstands
  | @through name other _ hother hopens ih =>
    have hmentions : Mentions ds name other := Meaning.alternatives_subset _ hother
    have hdecisive' : Decisive ds root other := by
      obtain ⟨-, owner, howner, group, hgroup, first, hcontested, hpath⟩ := hdecisive
      exact ⟨live_iff.2 hopens, owner, howner, group, hgroup, first, hcontested, hpath.tail hother⟩
    refine .through hname hother (ih (hreach.tail hmentions) hdecisive' ?_)
    intro hmem
    exact hname (howned other hmem hdecisive' name hreach hmentions)

end RefPages.Source
