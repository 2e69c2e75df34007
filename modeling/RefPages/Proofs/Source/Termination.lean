import Mathlib.Algebra.Order.BigOperators.Group.List
import Mathlib.Algebra.Order.Ring.Nat
import RefPages.Proofs.Source.Resolution

/-!
# The resolution ends

The resolution jumps from a reference to the declaration of a name, which may be larger than the
type it comes from, and it may come back to the same name. Every call that it makes is one of two
kinds:

    interface A extends B       enters   the name is declared and was not entered before
    (A & B), the names in it    descends what is left to do is smaller, and no name is forgotten

A name that was entered before, or that the file does not declare, makes no calls at all. So the
declared names that are still to be entered, with the size of what is left to do, bound how deep the
calls are nested (`depth`), whatever the declarations refer to.
-/

namespace RefPages.Source

open Syntax

variable {ds : List Declaration}

/-! ### Calls -/

/-- The resolution at one moment: what it is asked for, and the names that were entered before. -/
structure Call where
  task : Task
  entered : List String

/-- A call makes another one. Of several steps the later ones start with the names that the earlier
ones have entered. -/
inductive Calls (ds : List Declaration) : Call → Call → Prop
  | bases {name entered d} (hname : name ∉ entered) (hmeaning : meaning ds name = .interface d) :
      Calls ds ⟨.item (.name name), entered⟩
        ⟨.all [] ((baseNames d.node).map .name), name :: entered⟩
  | aliased {name entered type} (hname : name ∉ entered)
      (hmeaning : meaning ds name = .typeAlias type) :
      Calls ds ⟨.item (.name name), entered⟩ ⟨.item (.type type), name :: entered⟩
  | inner {type inner entered} (hkind : type.kind = .parenthesizedType)
      (hinner : type.named.head? = some inner) :
      Calls ds ⟨.item (.type type), entered⟩ ⟨.item (.type inner), entered⟩
  | parts {type entered} (hkind : type.kind = .intersectionType) :
      Calls ds ⟨.item (.type type), entered⟩ ⟨.all [] (type.named.map .type), entered⟩
  | candidates {type entered} (hkind : isReference type = true) :
      Calls ds ⟨.item (.type type), entered⟩ ⟨.first (candidates type), entered⟩
  | candidate {name names entered} :
      Calls ds ⟨.first (name :: names), entered⟩ ⟨.item (.name name), entered⟩
  | next {name names entered between}
      (hname : Resolves ds (.item (.name name)) entered none between) :
      Calls ds ⟨.first (name :: names), entered⟩ ⟨.first names, between⟩
  | item {given i items entered} : Calls ds ⟨.all given (i :: items), entered⟩ ⟨.item i, entered⟩
  | others {given i items entered found between}
      (hitem : Resolves ds (.item i) entered found between) :
      Calls ds ⟨.all given (i :: items), entered⟩
        ⟨.all (merge given (found.getD [])) items, between⟩

/-! ### The size of what is left to do -/

mutual

def nodes : Node → Nat
  | .mk _ _ _ children => nodesOfAll children + 1

def nodesOfAll : List Node → Nat
  | [] => 0
  | n :: ns => nodes n + nodesOfAll ns

end

theorem nodes_eq (n : Node) : nodes n = nodesOfAll n.children + 1 := by
  cases n
  rfl

theorem nodesOfAll_filter_le (p : Node → Bool) (ns : List Node) :
    nodesOfAll (ns.filter p) ≤ nodesOfAll ns := by
  induction ns with
  | nil => exact Nat.le_refl _
  | cons n ns ih =>
    rw [List.filter_cons, nodesOfAll]
    split
    · exact Nat.add_le_add_left ih _
    · exact Nat.le_trans ih (Nat.le_add_left _ _)

/-- The named children of a node have fewer nodes than it. -/
theorem nodesOfAll_named_lt (n : Node) : nodesOfAll n.named < nodes n := by
  rw [nodes_eq]
  exact Nat.lt_succ_of_le (nodesOfAll_filter_le _ _)

theorem nodes_le_of_mem {n : Node} {ns : List Node} (h : n ∈ ns) : nodes n ≤ nodesOfAll ns := by
  induction ns with
  | nil => cases h
  | cons m ns ih =>
    rw [nodesOfAll]
    rcases List.mem_cons.1 h with rfl | h
    · exact Nat.le_add_right _ _
    · exact Nat.le_trans (ih h) (Nat.le_add_left _ _)

mutual

/-- A type has no more candidates than nodes. -/
theorem length_candidates_le (n : Node) : (candidates n).length ≤ nodes n := by
  match n with
  | .mk kind role? text children =>
    have hgeneric := length_candidatesOfGeneric_le children
    have hall := length_candidatesOfAll_le children
    unfold candidates nodes
    split
    · simp
    · simp
    · rw [List.length_append]
      omega
    · omega
    · simp

/-- The name of a generic type and its arguments are different nodes. -/
theorem length_candidatesOfGeneric_le (ns : List Node) :
    (candidatesOfName ns).length + (candidatesOfArguments ns).length ≤ nodesOfAll ns := by
  match ns with
  | [] => simp [candidatesOfName, candidatesOfArguments]
  | .mk kind role? text children :: ns =>
    have hself := length_candidates_le (.mk kind role? text children)
    have hall := length_candidatesOfAll_le children
    have hrest := length_candidatesOfGeneric_le ns
    rw [candidatesOfName, candidatesOfArguments, nodesOfAll]
    rw [nodes] at hself ⊢
    simp only [Node.role?_mk, beq_iff_eq]
    split
    · next hname =>
      rw [if_neg (by simp [hname])]
      omega
    · split <;> omega

/-- There are at most as many candidates as nodes. -/
theorem length_candidatesOfAll_le (ns : List Node) :
    (candidatesOfAll ns).length ≤ nodesOfAll ns := by
  match ns with
  | [] => simp [candidatesOfAll]
  | n :: ns =>
    have hself := length_candidates_le n
    have hrest := length_candidatesOfAll_le ns
    rw [candidatesOfAll, nodesOfAll, List.length_append]
    omega

end

def Item.size : Item → Nat
  | .name _ => 1
  | .type t => 3 * nodes t

/-- The size of a task, without what names stand for. -/
def Task.size : Task → Nat
  | .item i => i.size
  | .first names => names.length + 1
  | .all _ items => (items.map Item.size).sum + 1

theorem Item.size_pos (i : Item) : 0 < i.size := by
  cases i with
  | name n => exact Nat.one_pos
  | type t =>
    rw [Item.size, nodes_eq]
    omega

theorem sum_size_types (ns : List Node) :
    ((ns.map Item.type).map Item.size).sum = 3 * nodesOfAll ns := by
  induction ns with
  | nil => rfl
  | cons n ns ih =>
    rw [List.map_cons, List.map_cons, List.sum_cons, ih, nodesOfAll, Item.size]
    omega

/-- Calls that enter no name descend in the tree, or go on to what is left. -/
structure Descends (outer inner : Call) : Prop where
  grows : outer.entered ⊆ inner.entered
  smaller : inner.task.size < outer.task.size

/-- A call enters a declared name. -/
def Enters (ds : List Declaration) (outer inner : Call) : Prop :=
  ∃ name, outer.task = .item (.name name) ∧ name ∉ outer.entered ∧
    (findType? ds name).isSome = true ∧ inner.entered = name :: outer.entered

theorem isSome_findType?_of_meaning {name : String} (h : meaning ds name ≠ .nothing) :
    (findType? ds name).isSome = true := by
  cases hd : findType? ds name with
  | none => simp [meaning, hd] at h
  | some d => rfl

/-- **What a call can do**: it enters a declared name, or it descends. -/
theorem Calls.enters_or_descends {outer inner : Call} (h : Calls ds outer inner) :
    Enters ds outer inner ∨ Descends outer inner := by
  -- only two calls enter a name, all others get smaller tasks
  cases h with
  | bases hname hmeaning | aliased hname hmeaning =>
    exact .inl ⟨_, rfl, hname, isSome_findType?_of_meaning (by simp [hmeaning]), rfl⟩
  | @inner type inner entered hkind hinner =>
    have hle := nodes_le_of_mem (List.mem_of_head? hinner)
    have hlt := nodesOfAll_named_lt type
    refine .inr ⟨List.Subset.refl _, ?_⟩
    simp only [Task.size, Item.size]
    omega
  | @parts type entered hkind =>
    have hlt := nodesOfAll_named_lt type
    refine .inr ⟨List.Subset.refl _, ?_⟩
    simp only [Task.size, sum_size_types, Item.size]
    omega
  | @candidates type entered hkind =>
    have hle := length_candidates_le type
    have hpos := nodes_eq type
    refine .inr ⟨List.Subset.refl _, ?_⟩
    simp only [Task.size, Item.size]
    omega
  | candidate => exact .inr ⟨List.Subset.refl _, by simp [Task.size, Item.size]⟩
  | next hname => exact .inr ⟨hname.grows, by simp [Task.size]⟩
  | item =>
    refine .inr ⟨List.Subset.refl _, ?_⟩
    simp only [Task.size, List.map_cons, List.sum_cons]
    omega
  | @others given i _ _ _ _ hitem =>
    have hpos := i.size_pos
    refine .inr ⟨hitem.grows, ?_⟩
    simp only [Task.size, List.map_cons, List.sum_cons]
    omega

/-! ### How deep calls are nested -/

def Meaning.size : Meaning → Nat
  | .interface d => (Task.all [] ((baseNames d.node).map .name)).size
  | .typeAlias type => (Task.item (.type type)).size
  | .nothing => 0

/-- The size of all that the names of a file stand for. -/
def totalSize (ds : List Declaration) : Nat := (ds.map fun d => (meaning ds d.name).size).sum

/-- What one name stands for is at most as large as what all of them stand for. -/
theorem meaning_size_le {name : String} (h : (findType? ds name).isSome = true) :
    (meaning ds name).size ≤ totalSize ds := by
  obtain ⟨d, hd⟩ := Option.isSome_iff_exists.1 h
  obtain ⟨hmem, rfl⟩ := findType?_name hd
  exact List.le_sum_of_mem (List.mem_map_of_mem (f := fun d => (meaning ds d.name).size) hmem)

/-- A bound for the calls that are nested in a call: the names that are still to be entered may each
take as much as all declarations together. -/
def depth (ds : List Declaration) (c : Call) : Nat :=
  pending ds c.entered * (totalSize ds + 1) + c.task.size

/-- A call that enters a name gets at most what the declarations hold together. -/
theorem Calls.size_le {outer inner : Call} (h : Calls ds outer inner)
    (henters : Enters ds outer inner) : inner.task.size ≤ totalSize ds := by
  obtain ⟨name, htask, -, hdeclared, -⟩ := henters
  have hle := meaning_size_le hdeclared
  cases h with
  | bases hname hmeaning | aliased hname hmeaning =>
    cases htask
    rwa [hmeaning] at hle
  | _ => cases htask

/-- A call inside of another one has a lower bound of its depth: it enters a name, or it descends.
-/
theorem Calls.depth_lt {outer inner : Call} (h : Calls ds outer inner) :
    depth ds inner < depth ds outer := by
  unfold depth
  -- entering a declaration uses up a name that was pending; descending keeps them and the tree
  -- shrinks
  rcases h.enters_or_descends with henters | hdescends
  · have hsize := h.size_le henters
    obtain ⟨name, -, hname, hdeclared, hentered⟩ := henters
    obtain ⟨d, hd⟩ := Option.isSome_iff_exists.1 hdeclared
    have hfewer : pending ds inner.entered + 1 ≤ pending ds outer.entered := by
      rw [hentered]
      exact pending_findType?_lt hd hname
    have hmul := Nat.mul_le_mul_right (totalSize ds + 1) hfewer
    rw [Nat.add_mul, Nat.one_mul] at hmul
    omega
  · have hle : pending ds inner.entered ≤ pending ds outer.entered := pending_le hdescends.grows
    have hmul := Nat.mul_le_mul_right (totalSize ds + 1) hle
    have hsmaller := hdescends.smaller
    omega

/-- No call of the resolution leads to calls without end. -/
theorem calls_wellFounded (ds : List Declaration) :
    WellFounded fun inner outer => Calls ds outer inner :=
  Subrelation.wf (fun h => Calls.depth_lt h) (measure (depth ds)).wf

/-- Calls that are nested in a call are at most as many as its bound says. -/
theorem length_le_depth {c : Call} {cs : List Call} (h : List.IsChain (Calls ds) (c :: cs)) :
    cs.length ≤ depth ds c := by
  induction cs generalizing c with
  | nil => exact Nat.zero_le _
  | cons inner cs ih =>
    obtain ⟨hcall, hrest⟩ := List.isChain_cons_cons.1 h
    exact Nat.lt_of_le_of_lt (ih hrest) hcall.depth_lt

/-! ### Every call has a result -/

/-- Merging always ends with properties. -/
theorem Resolves.exists_of_all {given : List Member} {items : List Item}
    {entered after : List String} {found : Option (List Member)}
    (h : Resolves ds (.all given items) entered found after) : ∃ merged, found = some merged := by
  generalize htask : Task.all given items = task at h
  induction h generalizing given items with
  | nil => exact ⟨_, rfl⟩
  | cons _ _ _ ih =>
    cases htask
    exact ih rfl
  | _ => cases htask

-- the induction is on the calls that a call makes; the cases are those of `Resolves`
/-- Every call has a result, by well-founded induction over the calls inside of it. -/
theorem exists_resolves (ds : List Declaration) (c : Call) :
    ∃ found after, Resolves ds c.task c.entered found after := by
  induction c using (calls_wellFounded ds).induction with
  | _ c ih =>
    obtain ⟨task, entered⟩ := c
    -- one rule for each form of the task, with the results of the calls inside of it
    match task with
    | .item (.name name) =>
      by_cases hname : name ∈ entered
      · exact ⟨_, _, .known hname⟩
      cases hmeaning : meaning ds name with
      | nothing => exact ⟨_, _, .nothing hname hmeaning⟩
      | interface d =>
        obtain ⟨_, after, hbases⟩ := ih _ (.bases hname hmeaning)
        obtain ⟨inherited, rfl⟩ := hbases.exists_of_all
        exact ⟨_, _, .interface hname hmeaning hbases⟩
      | typeAlias type =>
        obtain ⟨found, after, hvalue⟩ := ih _ (.aliased hname hmeaning)
        exact ⟨_, _, .typeAlias hname hmeaning hvalue⟩
    | .item (.type type) =>
      by_cases hobject : type.kind = .objectType
      · exact ⟨_, _, .object hobject⟩
      by_cases hparenthesized : type.kind = .parenthesizedType
      · cases hinner : type.named.head? with
        | none => exact ⟨_, _, .hollow hparenthesized hinner⟩
        | some inner =>
          obtain ⟨found, after, hrun⟩ := ih _ (.inner hparenthesized hinner)
          exact ⟨_, _, .inner hparenthesized hinner hrun⟩
      by_cases hintersection : type.kind = .intersectionType
      · obtain ⟨_, after, hparts⟩ := ih _ (.parts hintersection)
        obtain ⟨found, rfl⟩ := hparts.exists_of_all
        exact ⟨_, _, .intersection hintersection hparts⟩
      by_cases hreference : isReference type = true
      · obtain ⟨found, after, hfirst⟩ := ih _ (.candidates hreference)
        exact ⟨_, _, .reference hreference hfirst⟩
      · exact ⟨_, _, .foreign hobject hparenthesized hintersection (by simpa using hreference)⟩
    | .first [] => exact ⟨_, _, .exhausted⟩
    | .first (name :: names) =>
      obtain ⟨found, between, hname⟩ := ih _ .candidate
      cases found with
      | some properties => exact ⟨_, _, .found hname⟩
      | none =>
        obtain ⟨found, after, hnames⟩ := ih _ (.next hname)
        exact ⟨_, _, .next hname hnames⟩
    | .all given [] => exact ⟨_, _, .nil⟩
    | .all given (i :: items) =>
      obtain ⟨found, between, hitem⟩ := ih _ .item
      obtain ⟨merged, after, hitems⟩ := ih _ (.others hitem)
      exact ⟨_, _, .cons hitem hitems⟩

/-- What it means that the resolution ends in a file. -/
structure Terminates (ds : List Declaration) : Prop where
  /-- Whatever is asked for, and whatever was entered before, there is one result. -/
  result : ∀ c : Call, ∃! r : Option (List Member) × List String,
    Resolves ds c.task c.entered r.1 r.2
  name : ∀ entered name, Resolves ds (.item (.name name)) entered (ofName ds entered name).value
    (ofName ds entered name).entered
  type : ∀ entered type, Resolves ds (.item (.type type)) entered (ofType ds entered type).value
    (ofType ds entered type).entered
  /-- No call makes calls without end. -/
  wellFounded : WellFounded fun inner outer => Calls ds outer inner
  nested : ∀ c cs, List.IsChain (Calls ds) (c :: cs) → cs.length ≤ depth ds c
  /-- Every call enters a declared name or descends. -/
  call : ∀ outer inner, Calls ds outer inner → Enters ds outer inner ∨ Descends outer inner
  /-- A name that was entered before, or that is not declared, makes no calls. -/
  cut : ∀ entered name, name ∈ entered ∨ findType? ds name = none →
    ∀ inner, ¬Calls ds ⟨.item (.name name), entered⟩ inner

/-- **The resolution ends in every file**, also where interfaces and aliases refer to themselves or
to each other. -/
theorem resolution_terminates (ds : List Declaration) : Terminates ds where
  result c := by
    obtain ⟨found, after, hrun⟩ := exists_resolves ds c
    refine ⟨(found, after), hrun, ?_⟩
    rintro ⟨found', after'⟩ hrun'
    obtain ⟨rfl, rfl⟩ := hrun.deterministic hrun'
    rfl
  name := resolves_ofName
  type := resolves_ofType
  wellFounded := calls_wellFounded ds
  nested _ _ := length_le_depth
  call _ _ := Calls.enters_or_descends
  cut entered name hcut inner hcall := by
    -- a name is followed only if it is declared and was not entered
    have hdeclared : name ∉ entered ∧ (findType? ds name).isSome = true := by
      cases hcall with
      | bases hname hmeaning | aliased hname hmeaning =>
        exact ⟨hname, isSome_findType?_of_meaning (by simp [hmeaning])⟩
    rcases hcut with hentered | hnone
    · exact hdeclared.1 hentered
    · simp [hnone] at hdeclared

end RefPages.Source
