import RefPages.Source.Member

/-!
# Properties of types

A type is resolved to the properties it describes: those of an interface with the interfaces it
extends, of an object type, of an alias for one, or of an intersection of them. Properties are
merged by name: a later one takes the place of an earlier one.

    interface A { a: 1 }    interface B extends A { b: 2 }       B  ──▶  a, b

Names are resolved in the file itself. A name is entered once: the names entered so far are
remembered for the whole resolution and never forgotten, so cycles end. Every step either enters
one more declared name or goes down in the tree, which is why the resolution ends.
-/

namespace RefPages.Source

open Syntax

/-! ### Merging -/

/-- Put a property where one of its name stands, else at the end. -/
def put (p : Member) : List Member → List Member
  | [] => [p]
  | q :: qs => if q.name = p.name then p :: qs else q :: put p qs

/-- Put properties one after the other. -/
def merge (properties incoming : List Member) : List Member :=
  incoming.foldl (fun ps p => put p ps) properties

/-! ### Names in a type -/

def afterLastDot (name : String) : String :=
  String.ofList (name.toList.reverse.takeWhile (· != '.')).reverse

mutual

/-- The names that a type may stand for, in the order in which they are tried: a generic type's own
name and then those of its arguments. -/
def candidates : Node → List String
  | .mk kind _ text children =>
    match kind with
    | .typeIdentifier => [text]
    | .nestedTypeIdentifier => [afterLastDot text]
    | .genericType => candidatesOfName children ++ candidatesOfArguments children
    | .parenthesizedType => candidatesOfAll children
    | _ => []

/-- The names of the first node that is a name. -/
def candidatesOfName : List Node → List String
  | [] => []
  | n :: ns => if n.role? == some .name then candidates n else candidatesOfName ns

/-- The names of the first node that holds arguments. -/
def candidatesOfArguments : List Node → List String
  | [] => []
  | .mk _ role? _ children :: ns =>
    if role? == some .typeArguments then candidatesOfAll children else candidatesOfArguments ns

def candidatesOfAll : List Node → List String
  | [] => []
  | n :: ns => candidates n ++ candidatesOfAll ns

end

def baseNames (interface : Node) : List String :=
  let clauses := interface.named.filter fun n => n.is .extendsClause
  (clauses.flatMap Node.named).filterMap fun base => (candidates base).head?

/-! ### Type declarations -/

def Shape.isType (s : Shape) : Bool := s == .interface || s == .alias

def findType? (ds : List Declaration) (name : String) : Option Declaration :=
  -- classes and values of the same name are passed over
  find? ds name Shape.isType

/-- The number of declarations whose name was not entered yet. -/
def pending (ds : List Declaration) (entered : List String) : Nat :=
  (ds.filter fun d => !entered.contains d.name).length

theorem pending_le {ds : List Declaration} {v w : List String} (h : v ⊆ w) :
    pending ds w ≤ pending ds v := by
  induction ds with
  | nil => simp [pending]
  | cons d ds ih =>
    simp only [pending, List.filter_cons] at ih ⊢
    by_cases hv : d.name ∈ v
    · have hw : d.name ∈ w := h hv
      simpa [hv, hw] using ih
    · by_cases hw : d.name ∈ w
      · simp only [List.contains_eq_mem, hv, hw, decide_true, decide_false, Bool.not_true,
          Bool.not_false] at ih ⊢
        simp only [Bool.false_eq_true, ↓reduceIte, List.length_cons]
        omega
      · simpa [hv, hw] using ih

/-- Entering a declared name leaves fewer. -/
theorem pending_lt {ds : List Declaration} {v : List String} {d : Declaration} (hd : d ∈ ds)
    (hv : d.name ∉ v) : pending ds (d.name :: v) < pending ds v := by
  induction ds with
  | nil => simp at hd
  | cons e ds ih =>
    have hle : pending ds (d.name :: v) ≤ pending ds v := pending_le (List.subset_cons_self _ _)
    simp only [pending, List.filter_cons] at hle ih ⊢
    rcases List.mem_cons.1 hd with rfl | hd
    · simp only [List.contains_eq_mem, List.mem_cons, true_or, decide_true, hv, decide_false,
        Bool.not_true, Bool.not_false, Bool.false_eq_true, ↓reduceIte, List.length_cons] at hle ⊢
      omega
    · have ih := ih hd
      by_cases he : e.name ∈ v
      · simpa [he] using ih
      · by_cases hn : e.name = d.name
        · simp only [List.contains_eq_mem, List.mem_cons, hn, true_or, decide_true, hv,
            decide_false, Bool.not_true, Bool.not_false, Bool.false_eq_true, ↓reduceIte,
            List.length_cons] at ih ⊢
          omega
        · simp only [List.contains_eq_mem, List.mem_cons, hn, he, false_or, decide_false,
            Bool.not_false, ↓reduceIte, List.length_cons] at ih ⊢
          omega

theorem findType?_name {ds : List Declaration} {name : String} {d : Declaration}
    (h : findType? ds name = some d) : d ∈ ds ∧ d.name = name := by
  refine ⟨List.mem_of_find?_eq_some h, ?_⟩
  have := List.find?_some h
  simp only [Bool.and_eq_true, beq_iff_eq] at this
  exact this.1

/-- So entering a name that stands for something does. On this the termination of the resolution
rests. -/
theorem pending_findType?_lt {ds : List Declaration} {name : String} {d : Declaration}
    {v : List String} (h : findType? ds name = some d) (hv : name ∉ v) :
    pending ds (name :: v) < pending ds v := by
  obtain ⟨hd, rfl⟩ := findType?_name h
  exact pending_lt hd hv

/-- In the order that the resolution descends, the first number may stay where the others fall. -/
theorem descends_of_le {a b : Nat} {p q : Nat × Nat} (h : a ≤ b)
    (hpq : Prod.Lex (· < ·) (· < ·) p q) :
    Prod.Lex (· < ·) (Prod.Lex (· < ·) (· < ·)) (a, p) (b, q) := by
  rcases Nat.lt_or_eq_of_le h with h | rfl
  · exact .left _ _ h
  · exact .right _ hpq

/-! ### Resolution -/

/-- What a step of the resolution gives, with the names entered after it. Names are never
forgotten. -/
structure Step (α : Type) (before : List String) where
  value : α
  entered : List String
  grows : before ⊆ entered

-- the hypotheses that the branches name are used where the recursion is shown to end
set_option linter.unusedVariables false in
mutual

/-- The properties of a name. A name that was entered before has none. -/
def ofName (ds : List Declaration) (entered : List String) (name : String) :
    Step (Option (List Member)) entered :=
  if hname : name ∈ entered then ⟨none, entered, List.Subset.refl _⟩
  else
    match hd : findType? ds name with
    -- a name that is not declared counts as entered all the same
    | none => ⟨none, name :: entered, List.subset_cons_self _ _⟩
    | some d =>
      if d.shape = .interface then
        -- the bases go first, so that the interface's own properties take the place of theirs
        let inherited := ofBases ds (name :: entered) [] (baseNames d.node)
        let own := ((d.node.field? .body).map members).getD []
        ⟨some (merge inherited.value own), inherited.entered,
          List.Subset.trans (List.subset_cons_self _ _) inherited.grows⟩
      else
        match d.node.field? .value with
        | none => ⟨none, name :: entered, List.subset_cons_self _ _⟩
        | some type =>
          let aliased := ofType ds (name :: entered) type
          ⟨aliased.value, aliased.entered,
            List.Subset.trans (List.subset_cons_self _ _) aliased.grows⟩
termination_by (pending ds entered, 0, 0)
decreasing_by all_goals exact .left _ _ (pending_findType?_lt hd hname)

/-- The properties of several names, merged into given ones. -/
def ofBases (ds : List Declaration) (entered : List String) (properties : List Member) :
    List String → Step (List Member) entered
  | [] => ⟨properties, entered, List.Subset.refl _⟩
  | name :: names =>
    let first := ofName ds entered name
    let properties := match first.value with
      | none => properties
      | some incoming => merge properties incoming
    let rest := ofBases ds first.entered properties names
    ⟨rest.value, rest.entered, List.Subset.trans first.grows rest.grows⟩
termination_by names => (pending ds entered, 1, names.length)
decreasing_by
  · exact .right _ (.left _ _ Nat.zero_lt_one)
  · exact descends_of_le (pending_le first.grows) (.right _ (Nat.lt_succ_self _))

/-- The properties of the first name that has some. -/
def ofFirst (ds : List Declaration) (entered : List String) :
    List String → Step (Option (List Member)) entered
  | [] => ⟨none, entered, List.Subset.refl _⟩
  | name :: names =>
    let first := ofName ds entered name
    match first.value with
    | some properties => ⟨some properties, first.entered, first.grows⟩
    | none =>
      -- what the names before it entered stays entered for the next one
      let rest := ofFirst ds first.entered names
      ⟨rest.value, rest.entered, List.Subset.trans first.grows rest.grows⟩
termination_by names => (pending ds entered, 1, names.length)
decreasing_by
  · exact .right _ (.left _ _ Nat.zero_lt_one)
  · exact descends_of_le (pending_le first.grows) (.right _ (Nat.lt_succ_self _))

def ofType (ds : List Declaration) (entered : List String) (type : Node) :
    Step (Option (List Member)) entered :=
  match type.kind with
  | .objectType => ⟨some (members type), entered, List.Subset.refl _⟩
  | .parenthesizedType =>
    match hinner : type.named.head? with
    | none => ⟨none, entered, List.Subset.refl _⟩
    | some inner =>
      ofType ds entered inner
  | .intersectionType =>
    let parts := ofParts ds entered [] (sizeOf type) type.named
      (fun _ h => Node.sizeOf_lt_of_mem_named h)
    ⟨some parts.value, parts.entered, parts.grows⟩
  | .typeIdentifier | .nestedTypeIdentifier | .genericType => ofFirst ds entered (candidates type)
  | _ => ⟨none, entered, List.Subset.refl _⟩
termination_by (pending ds entered, 2 * sizeOf type + 2, 0)
decreasing_by
  · have := Node.sizeOf_lt_of_mem_named (List.mem_of_head? hinner)
    exact .right _ (.left _ _ (by omega))
  · exact .right _ (.left _ _ (by omega))
  all_goals exact .right _ (.left _ _ (by omega))

/-- The properties of the parts of an intersection, merged into given ones. The parts are smaller
than the given bound. -/
def ofParts (ds : List Declaration) (entered : List String) (properties : List Member)
    (bound : Nat) (parts : List Node) (hparts : ∀ n ∈ parts, sizeOf n < bound) :
    Step (List Member) entered :=
  match parts with
  | [] => ⟨properties, entered, List.Subset.refl _⟩
  | part :: parts =>
    let first := ofType ds entered part
    let properties := match first.value with
      | none => properties
      | some incoming => merge properties incoming
    let rest := ofParts ds first.entered properties bound parts
      (fun n h => hparts n (List.mem_cons_of_mem _ h))
    ⟨rest.value, rest.entered, List.Subset.trans first.grows rest.grows⟩
termination_by (pending ds entered, 2 * bound + 1, parts.length)
decreasing_by
  · have := hparts part List.mem_cons_self
    exact .right _ (.left _ _ (by omega))
  -- the parts that are left are fewer, whatever the first one entered
  · exact descends_of_le (pending_le first.grows) (.right _ (Nat.lt_succ_self _))

end

def interface? (ds : List Declaration) (name : String) : Option Interface :=
  ((ofName ds [] name).value).map fun properties => ⟨name, properties⟩

/-- What a type describes: the first interface that one of its names stands for, or else the
properties of the type itself. -/
def definition? (ds : List Declaration) (type : Node) : Option Interface :=
  match (candidates type).findSome? (interface? ds) with
  | some i => some i
  -- no name stands for an interface, so the type itself is read, with nothing entered
  | none => ((ofType ds [] type).value).map fun properties =>
      ⟨Text.collapsed type.text, properties⟩

end RefPages.Source
