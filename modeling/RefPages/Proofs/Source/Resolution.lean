import RefPages.Proofs.Source.Flatten

/-!
# The resolution as derivations

The resolution of names and types is one recursion through five functions. `Resolves` says once what
each of their steps can do: a task, started with some names entered, ends with properties or none,
and with more names entered.

    Resolves task entered properties? entered'

The bases of an interface and the parts of an intersection are resolved alike, as items that are
merged one after the other (`Task.all`), and the candidates of a reference are tried one after the
other (`Task.first`). What is proved about runs is proved by induction on derivations.
-/

namespace RefPages.Source

open Syntax

variable {ds : List Declaration}

/-! ### What a name stands for -/

/-- What a name stands for in a file. An alias without a value stands for nothing. -/
inductive Meaning where
  | interface (d : Declaration)
  | typeAlias (type : Node)
  | nothing

def meaning (ds : List Declaration) (name : String) : Meaning :=
  match findType? ds name with
  | none => .nothing
  | some d =>
    if d.shape = .interface then .interface d
    else
      match d.node.field? .value with
      | none => .nothing
      | some type => .typeAlias type

/-! ### Tasks and derivations -/

/-- What gives properties that are merged with others. -/
inductive Item where
  | name (name : String)
  | type (type : Node)

/-- What the resolution is asked for. -/
inductive Task where
  | item (i : Item)
  /-- The first of some names that has properties. -/
  | first (names : List String)
  /-- Items merged one after the other into given properties. -/
  | all (given : List Member) (items : List Item)

def isReference (type : Node) : Bool :=
  type.is .typeIdentifier || type.is .nestedTypeIdentifier || type.is .genericType

/-- The derivations of the resolution. -/
inductive Resolves (ds : List Declaration) :
    Task → List String → Option (List Member) → List String → Prop
  | known {name entered} (hname : name ∈ entered) :
      Resolves ds (.item (.name name)) entered none entered
  | nothing {name entered} (hname : name ∉ entered) (hmeaning : meaning ds name = .nothing) :
      Resolves ds (.item (.name name)) entered none (name :: entered)
  | interface {name entered d inherited after} (hname : name ∉ entered)
      (hmeaning : meaning ds name = .interface d)
      (hbases : Resolves ds (.all [] ((baseNames d.node).map .name)) (name :: entered)
        (some inherited) after) :
      Resolves ds (.item (.name name)) entered (some (merge inherited (ownMembers d))) after
  | typeAlias {name entered type found after} (hname : name ∉ entered)
      (hmeaning : meaning ds name = .typeAlias type)
      (hvalue : Resolves ds (.item (.type type)) (name :: entered) found after) :
      Resolves ds (.item (.name name)) entered found after
  | object {type entered} (hkind : type.kind = .objectType) :
      Resolves ds (.item (.type type)) entered (some (members type)) entered
  | inner {type inner entered found after} (hkind : type.kind = .parenthesizedType)
      (hinner : type.named.head? = some inner)
      (hfound : Resolves ds (.item (.type inner)) entered found after) :
      Resolves ds (.item (.type type)) entered found after
  | hollow {type entered} (hkind : type.kind = .parenthesizedType)
      (hinner : type.named.head? = none) :
      Resolves ds (.item (.type type)) entered none entered
  | intersection {type entered found after} (hkind : type.kind = .intersectionType)
      (hparts : Resolves ds (.all [] (type.named.map .type)) entered (some found) after) :
      Resolves ds (.item (.type type)) entered (some found) after
  | reference {type entered found after} (hkind : isReference type = true)
      (hfirst : Resolves ds (.first (candidates type)) entered found after) :
      Resolves ds (.item (.type type)) entered found after
  | foreign {type entered} (hobject : type.kind ≠ .objectType)
      (hinner : type.kind ≠ .parenthesizedType) (hparts : type.kind ≠ .intersectionType)
      (hreference : isReference type = false) :
      Resolves ds (.item (.type type)) entered none entered
  | exhausted {entered} : Resolves ds (.first []) entered none entered
  | found {name names entered properties after}
      (hname : Resolves ds (.item (.name name)) entered (some properties) after) :
      Resolves ds (.first (name :: names)) entered (some properties) after
  | next {name names entered between found after}
      (hname : Resolves ds (.item (.name name)) entered none between)
      (hnames : Resolves ds (.first names) between found after) :
      Resolves ds (.first (name :: names)) entered found after
  | nil {given entered} : Resolves ds (.all given []) entered (some given) entered
  | cons {given i items entered found between merged after}
      (hitem : Resolves ds (.item i) entered found between)
      (hitems : Resolves ds (.all (merge given (found.getD [])) items) between merged after) :
      Resolves ds (.all given (i :: items)) entered merged after

theorem Resolves.grows {task : Task} {entered after : List String} {found : Option (List Member)}
    (h : Resolves ds task entered found after) : entered ⊆ after := by
  induction h with
  | known | object | hollow | foreign | exhausted | nil => exact List.Subset.refl _
  | nothing => exact List.subset_cons_self _ _
  | interface _ _ _ ih | typeAlias _ _ _ ih =>
    exact List.Subset.trans (List.subset_cons_self _ _) ih
  | inner _ _ _ ih | intersection _ _ ih | reference _ _ ih | found _ ih => exact ih
  | next _ _ ih ih' | cons _ _ ih ih' => exact List.Subset.trans ih ih'

/-- A task has one result. -/
theorem Resolves.deterministic {task : Task} {entered after after' : List String}
    {found found' : Option (List Member)} (h : Resolves ds task entered found after)
    (h' : Resolves ds task entered found' after') : found = found' ∧ after = after' := by
  -- the rules exclude each other by what is entered, by meanings and by kinds
  induction h generalizing found' after' with
  | interface hname hmeaning _ ih =>
    cases h' with
    | interface _ hmeaning' hbases =>
      cases hmeaning.symm.trans hmeaning'
      obtain ⟨heq, rfl⟩ := ih hbases
      cases heq
      exact ⟨rfl, rfl⟩
    | known | nothing | typeAlias => simp_all
  | typeAlias hname hmeaning _ ih =>
    cases h' with
    | typeAlias _ hmeaning' hvalue =>
      cases hmeaning.symm.trans hmeaning'
      exact ih hvalue
    | known | nothing | interface => simp_all
  | inner hkind hinner _ ih =>
    cases h' with
    | inner _ hinner' hfound =>
      cases hinner.symm.trans hinner'
      exact ih hfound
    | object | hollow | intersection | reference | foreign => simp_all [isReference, Node.is]
  | intersection hkind _ ih =>
    cases h' with
    | intersection _ hparts => exact ih hparts
    | object | inner | hollow | reference | foreign => simp_all [isReference, Node.is]
  | reference hkind _ ih =>
    cases h' with
    | reference _ hfirst => exact ih hfirst
    | object | inner | hollow | intersection | foreign => simp_all [isReference, Node.is]
  | found _ ih =>
    cases h' with
    | found hname => exact ih hname
    | next hname => cases (ih hname).1
  | next _ _ ih ih' =>
    cases h' with
    | found hname => cases (ih hname).1
    | next hname hnames =>
      obtain ⟨-, rfl⟩ := ih hname
      exact ih' hnames
  | cons _ _ ih ih' =>
    cases h' with
    | cons hitem hitems =>
      obtain ⟨rfl, rfl⟩ := ih hitem
      exact ih' hitems
  | _ => cases h' <;> simp_all [isReference, Node.is]

/-! ### Runs are derivations -/

/-- A name that stands for nothing has no properties, but it was entered. -/
theorem ofName_of_nothing {entered : List String} {name : String} (h : name ∉ entered)
    (hmeaning : meaning ds name = .nothing) :
    (ofName ds entered name).value = none ∧
      (ofName ds entered name).entered = name :: entered := by
  cases hd : findType? ds name with
  | none => exact ofName_of_absent h hd
  | some d =>
    simp only [meaning, hd] at hmeaning
    split at hmeaning
    · cases hmeaning
    · next hshape =>
      split at hmeaning
      · next htype =>
        rw [ofName]
        simp only [h, ↓reduceDIte]
        split
        · exact ⟨rfl, rfl⟩
        · next d' hd' =>
          obtain rfl : d' = d := Option.some.inj (hd'.symm.trans hd)
          simp only [hshape, ↓reduceIte, htype, and_self]
      · cases hmeaning

theorem ofName_of_typeAlias {entered : List String} {name : String} {type : Node}
    (h : name ∉ entered) (hmeaning : meaning ds name = .typeAlias type) :
    (ofName ds entered name).value = (ofType ds (name :: entered) type).value ∧
      (ofName ds entered name).entered = (ofType ds (name :: entered) type).entered := by
  cases hd : findType? ds name with
  | none => simp [meaning, hd] at hmeaning
  | some d =>
    simp only [meaning, hd] at hmeaning
    split at hmeaning
    · cases hmeaning
    · next hshape =>
      split at hmeaning
      · cases hmeaning
      · next type' htype =>
        cases hmeaning
        rw [ofName]
        simp only [h, ↓reduceDIte]
        split
        · next hd' => simp [hd] at hd'
        · next d' hd' =>
          obtain rfl : d' = d := Option.some.inj (hd'.symm.trans hd)
          simp only [hshape, ↓reduceIte, htype, and_self]

theorem findType?_of_meaning {name : String} {d : Declaration}
    (h : meaning ds name = .interface d) : findType? ds name = some d ∧ d.shape = .interface := by
  unfold meaning at h
  split at h
  · cases h
  · next d' hd =>
    split at h
    · next hshape =>
      cases h
      exact ⟨hd, hshape⟩
    · split at h <;> cases h

/-- Entering a name that stands for something leaves fewer names to enter. -/
theorem pending_meaning_lt {entered : List String} {name : String}
    (h : meaning ds name ≠ .nothing) (hname : name ∉ entered) :
    pending ds (name :: entered) < pending ds entered := by
  cases hd : findType? ds name with
  | none => simp [meaning, hd] at h
  | some d => exact pending_findType?_lt hd hname

mutual

/-- The functions of the resolution run along derivations. Each of the five lemmas follows the
branches of its function, and they end like the functions do. -/
theorem resolves_ofName (entered : List String) (name : String) :
    Resolves ds (.item (.name name)) entered (ofName ds entered name).value
      (ofName ds entered name).entered := by
  by_cases hname : name ∈ entered
  · obtain ⟨hvalue, hentered⟩ := @ofName_of_mem ds entered name hname
    rw [hvalue, hentered]
    exact .known hname
  cases hmeaning : meaning ds name with
  | nothing =>
    obtain ⟨hvalue, hentered⟩ := ofName_of_nothing hname hmeaning
    rw [hvalue, hentered]
    exact .nothing hname hmeaning
  | interface d =>
    obtain ⟨hd, hshape⟩ := findType?_of_meaning hmeaning
    obtain ⟨hvalue, hentered⟩ := ofName_of_interface hname hd hshape
    rw [hvalue, hentered]
    exact .interface hname hmeaning (resolves_ofBases (name :: entered) [] (baseNames d.node))
  | typeAlias type =>
    obtain ⟨hvalue, hentered⟩ := ofName_of_typeAlias hname hmeaning
    rw [hvalue, hentered]
    exact .typeAlias hname hmeaning (resolves_ofType (name :: entered) type)
termination_by (pending ds entered, 0, 0)
decreasing_by all_goals exact .left _ _ (pending_meaning_lt (by simp [hmeaning]) hname)

theorem resolves_ofBases (entered : List String) (given : List Member) (bases : List String) :
    Resolves ds (.all given (bases.map .name)) entered (some (ofBases ds entered given bases).value)
      (ofBases ds entered given bases).entered := by
  match bases with
  | [] =>
    obtain ⟨hvalue, hentered⟩ := @ofBases_nil ds entered given
    rw [hvalue, hentered]
    exact .nil
  | base :: bases =>
    obtain ⟨hvalue, hentered⟩ := @ofBases_cons ds entered given base bases
    rw [hvalue, hentered]
    exact .cons (resolves_ofName entered base) (resolves_ofBases _ _ bases)
termination_by (pending ds entered, 1, bases.length)
decreasing_by
  · exact .right _ (.left _ _ Nat.zero_lt_one)
  · exact descends_of_le (pending_le (ofName ds entered base).grows)
      (.right _ (Nat.lt_succ_self _))

theorem resolves_ofFirst (entered : List String) (names : List String) :
    Resolves ds (.first names) entered (ofFirst ds entered names).value
      (ofFirst ds entered names).entered := by
  match names with
  | [] =>
    rw [ofFirst]
    exact .exhausted
  | name :: names =>
    have hname := resolves_ofName entered name
    rw [ofFirst]
    dsimp only
    split
    · next properties hvalue =>
      rw [hvalue] at hname
      exact .found hname
    · next hvalue =>
      rw [hvalue] at hname
      exact .next hname (resolves_ofFirst _ names)
termination_by (pending ds entered, 1, names.length)
decreasing_by
  · exact .right _ (.left _ _ Nat.zero_lt_one)
  · exact descends_of_le (pending_le (ofName ds entered name).grows)
      (.right _ (Nat.lt_succ_self _))

theorem resolves_ofType (entered : List String) (type : Node) :
    Resolves ds (.item (.type type)) entered (ofType ds entered type).value
      (ofType ds entered type).entered := by
  rw [ofType]
  split
  · next hkind => exact .object hkind
  · next hkind =>
    split
    · next hinner => exact .hollow hkind hinner
    · next inner hinner =>
      have hsmaller := Node.sizeOf_lt_of_mem_named (List.mem_of_head? hinner)
      exact .inner hkind hinner (resolves_ofType entered inner)
  · next hkind =>
    exact .intersection hkind (resolves_ofParts entered [] (sizeOf type) type.named _)
  -- three kinds of types refer to names
  · next hkind => exact .reference (by simp [isReference, Node.is, hkind]) (resolves_ofFirst _ _)
  · next hkind => exact .reference (by simp [isReference, Node.is, hkind]) (resolves_ofFirst _ _)
  · next hkind => exact .reference (by simp [isReference, Node.is, hkind]) (resolves_ofFirst _ _)
  · next h₁ h₂ h₃ h₄ h₅ h₆ =>
    refine .foreign h₁ h₂ h₃ ?_
    simp only [isReference, Node.is, Bool.or_eq_false_iff, beq_eq_false_iff_ne]
    exact ⟨⟨h₄, h₅⟩, h₆⟩
termination_by (pending ds entered, 2 * sizeOf type + 2, 0)
decreasing_by
  all_goals exact .right _ (.left _ _ (by omega))

theorem resolves_ofParts (entered : List String) (given : List Member) (bound : Nat)
    (parts : List Node) (hparts : ∀ n ∈ parts, sizeOf n < bound) :
    Resolves ds (.all given (parts.map .type)) entered
      (some (ofParts ds entered given bound parts hparts).value)
      (ofParts ds entered given bound parts hparts).entered := by
  match parts with
  | [] =>
    rw [ofParts]
    exact .nil
  | part :: parts =>
    have hpart := resolves_ofType entered part
    rw [ofParts]
    dsimp only
    refine .cons hpart ?_
    have hrest := resolves_ofParts (ofType ds entered part).entered
      (merge given ((ofType ds entered part).value.getD [])) bound parts
      (fun n h => hparts n (List.mem_cons_of_mem _ h))
    -- a part without properties merges none
    cases hvalue : (ofType ds entered part).value with
    | none => simpa [hvalue] using hrest
    | some incoming => simpa [hvalue] using hrest
termination_by (pending ds entered, 2 * bound + 1, parts.length)
decreasing_by
  · have := hparts part List.mem_cons_self
    exact .right _ (.left _ _ (by omega))
  · exact descends_of_le (pending_le (ofType ds entered part).grows)
      (.right _ (Nat.lt_succ_self _))

end

/-- A derivation says what the interface with a name is. -/
theorem interface?_of_resolves {name : String} {properties : List Member} {after : List String}
    (h : Resolves ds (.item (.name name)) [] (some properties) after) :
    interface? ds name = some ⟨name, properties⟩ := by
  rw [interface?, ((resolves_ofName [] name).deterministic h).1]
  rfl

end RefPages.Source
