import RefPages.Proofs.Source.Flatten

/-!
# Overriding without circles

Where interfaces extend each other without circles, the resolution merges their members in the order
in which it is done with them, and it is done with an interface only after all that it extends.

    interface A extends B, C      order   D, B, C, A
    interface B extends D                 └─ each after the ones it extends
    interface C extends D

So a property is the one of the last interface in this order that lists it, and that is never an
interface which another one in reach extends and overrides. It does not matter in which order bases
are named, and that `D` is met again through `C`: it gives nothing there.
-/

namespace RefPages.Source

variable {ds : List Declaration}

/-! ### Orders -/

/-- No name in reach extends itself, also not through others. -/
def Acyclic (ds : List Declaration) (name : String) : Prop :=
  ∀ m, Reaches ds name m → ¬ Relation.TransGen (Extends ds) m m

theorem Acyclic.base {name base : String} (h : Acyclic ds name) (hbase : Extends ds name base) :
    Acyclic ds base :=
  fun m hm => h m (.head hbase hm)

/-- Each of some names stands in their list after all that it extends. -/
def Sorted (ds : List Declaration) (names : List String) : Prop :=
  ∀ m ∈ names, ∀ d ∈ findType? ds m, ∀ base ∈ baseNames d.node, names.idxOf base < names.idxOf m

instance (ds : List Declaration) (names : List String) : Decidable (Sorted ds names) :=
  inferInstanceAs (Decidable (∀ m ∈ names, ∀ d ∈ findType? ds m,
    ∀ base ∈ baseNames d.node, names.idxOf base < names.idxOf m))

/-- In a sorted list the bases of its names are in it. -/
theorem Sorted.closed {names : List String} (hsorted : Sorted ds names) :
    ∀ m ∈ names, ∀ d ∈ findType? ds m, baseNames d.node ⊆ names := by
  intro m hm d hd base hbase
  have hlt := Nat.lt_of_lt_of_le (hsorted m hm d hd base hbase) List.idxOf_le_length
  exact List.idxOf_lt_length_iff.1 hlt

/-- A name in a sorted list is acyclic: along a circle the names would have to move on forever. -/
theorem Sorted.acyclic {names : List String} {name : String} (hsorted : Sorted ds names)
    (hname : name ∈ names) : Acyclic ds name := by
  have hclosed := hsorted.closed
  intro m hreach hcircle
  have hm : m ∈ names := mem_of_reaches hname hclosed hreach
  -- along the bases the place in the list goes down strictly
  have hfalls : ∀ {base}, Relation.TransGen (Extends ds) m base →
      base ∈ names ∧ names.idxOf base < names.idxOf m := by
    intro base htrans
    induction htrans with
    | single hbase =>
      obtain ⟨d, hd, -, hmem⟩ := hbase
      exact ⟨hclosed m hm d hd hmem, hsorted m hm d hd _ hmem⟩
    | tail _ hbase ih =>
      obtain ⟨d, hd, -, hmem⟩ := hbase
      exact ⟨hclosed _ ih.1 d hd hmem, Nat.lt_trans (hsorted _ ih.1 d hd _ hmem) ih.2⟩
  exact Nat.lt_irrefl _ (hfalls hcircle).2

/-- Each name comes after the ones it extends, apart from those that are done before. -/
def BasesFirst (ds : List Declaration) : List String → List String → Prop
  | _, [] => True
  | done, m :: ms => (∀ base, Extends ds m base → base ∈ done) ∧ BasesFirst ds (m :: done) ms

/-- An order in two parts has bases first if each part has, with the first part done before the
second. -/
theorem basesFirst_append {done ms ns : List String} :
    BasesFirst ds done (ms ++ ns) ↔
      BasesFirst ds done ms ∧ BasesFirst ds (ms.reverse ++ done) ns := by
  induction ms generalizing done with
  | nil => simp [BasesFirst]
  | cons m ms ih => simp [BasesFirst, ih, and_assoc]

theorem BasesFirst.of_bases {done done' order : List String} (h : BasesFirst ds done order)
    (hdone : ∀ m ∈ order, ∀ base, Extends ds m base → base ∈ done → base ∈ done') :
    BasesFirst ds done' order := by
  induction order generalizing done done' with
  | nil => trivial
  | cons m ms ih =>
    rw [List.forall_mem_cons] at hdone
    refine ⟨fun base hbase => hdone.1 base hbase (h.1 base hbase), ih h.2 ?_⟩
    intro n hn base hbase hmem
    rcases List.mem_cons.1 hmem with rfl | hmem
    · exact List.mem_cons_self
    · exact List.mem_cons_of_mem _ (hdone.2 n hn base hbase hmem)

/-- The bases of a name in the order are in it, or were done before. -/
theorem BasesFirst.closed {done order : List String} {m base : String}
    (h : BasesFirst ds done order) (hm : m ∈ order) (hbase : Extends ds m base) :
    base ∈ done ∨ base ∈ order := by
  -- what is done grows by the names that were passed
  induction order generalizing done with
  | nil => simp at hm
  | cons n ns ih =>
    rcases List.mem_cons.1 hm with rfl | hm
    · exact .inl (h.1 base hbase)
    · rcases ih h.2 hm with hmem | hmem
      · rcases List.mem_cons.1 hmem with rfl | hmem
        · exact .inr List.mem_cons_self
        · exact .inl hmem
      · exact .inr (List.mem_cons_of_mem _ hmem)

/-- All that a name extends comes before it. -/
theorem BasesFirst.mem_of_transGen {first rest : List String} {m base : String}
    (h : BasesFirst ds [] (first ++ m :: rest)) (hbase : Relation.TransGen (Extends ds) m base) :
    base ∈ first := by
  obtain ⟨hfirst, hm, -⟩ := basesFirst_append.1 h
  induction hbase with
  | single hbase => simpa using hm _ hbase
  | tail _ hbase hmem => simpa using hfirst.closed hmem hbase

/-- A name that comes after another, or in its place, has all that it extends before that one. -/
theorem BasesFirst.mem_of_extends {first rest : List String} {x y z : String}
    (h : BasesFirst ds [] (first ++ x :: rest)) (hz : z ∈ first ++ x :: rest) (hrest : z ∉ rest)
    (hbase : Relation.TransGen (Extends ds) z y) : y ∈ first := by
  rcases List.mem_append.1 hz with hz | hz
  · obtain ⟨before, after, rfl⟩ := List.append_of_mem hz
    rw [List.append_assoc, List.cons_append] at h
    exact List.mem_append_left _ (h.mem_of_transGen hbase)
  · obtain rfl : z = x := (List.mem_cons.1 hz).resolve_right hrest
    exact h.mem_of_transGen hbase

/-- The names in reach, each once and after the ones it extends. -/
structure DerivedLast (ds : List Declaration) (name : String) (order : List String) : Prop where
  nodup : order.Nodup
  mem_iff : ∀ m, m ∈ order ↔ Reaches ds name m
  basesFirst : BasesFirst ds [] order

/-! ### The order of the resolution -/

def ownOf (ds : List Declaration) (name : String) : List Member :=
  ((findType? ds name).map ownMembers).getD []

theorem ownOf_of_findType? {name : String} {d : Declaration} (hd : findType? ds name = some d) :
    ownOf ds name = ownMembers d := by
  rw [ownOf, hd]
  rfl

/-- A name lists the properties of its own members. -/
theorem lists_iff {name property : String} :
    Lists ds name property ↔ property ∈ names (ownOf ds name) := by
  cases hd : findType? ds name with
  | none => simp [Lists, ownOf, hd]
  | some d => simp [Lists, ownOf, hd]

/-- The names that are entered on the way are done in an order, and what they list is merged in this
order into given properties. -/
structure Finishes (ds : List Declaration) (before : List String) (given : List Member)
    (after : List String) (found : List Member) (order : List String) : Prop where
  mem_iff : ∀ m, m ∈ after ↔ m ∈ before ∨ m ∈ order
  fresh : ∀ m ∈ order, m ∉ before
  nodup : order.Nodup
  basesFirst : BasesFirst ds before order
  found_eq : found = merge given (order.flatMap (ownOf ds))

namespace Finishes

theorem nothing (entered : List String) (given : List Member) :
    Finishes ds entered given entered given [] where
  mem_iff m := by simp
  fresh m hm := by simp at hm
  nodup := List.nodup_nil
  basesFirst := trivial
  found_eq := rfl

/-- A name that stands for no type is done at once. -/
theorem absent {entered : List String} {name : String} (hname : name ∉ entered)
    (hd : findType? ds name = none) : Finishes ds entered [] (name :: entered) [] [name] where
  mem_iff m := by simp [or_comm]
  fresh m hm := by rwa [List.mem_singleton.1 hm]
  nodup := List.nodup_singleton name
  basesFirst := by
    refine ⟨?_, trivial⟩
    rintro base ⟨d, hd', -⟩
    simp [hd] at hd'
  found_eq := by simp [ownOf, hd]

/-- One root after another. -/
theorem cons {before between after order₁ order₂ : List String} {given first found : List Member}
    (hfirst : Finishes ds before [] between first order₁)
    (hrest : Finishes ds between (merge given first) after found order₂) :
    Finishes ds before given after found (order₁ ++ order₂) where
  mem_iff m := by
    rw [hrest.mem_iff, hfirst.mem_iff, List.mem_append, or_assoc]
  fresh m hm := by
    rcases List.mem_append.1 hm with hm | hm
    · exact hfirst.fresh m hm
    · exact fun hbefore => hrest.fresh m hm ((hfirst.mem_iff m).2 (.inl hbefore))
  nodup := by
    refine List.nodup_append.2 ⟨hfirst.nodup, hrest.nodup, ?_⟩
    rintro m hm n hn rfl
    exact hrest.fresh m hn ((hfirst.mem_iff m).2 (.inr hm))
  basesFirst := by
    refine basesFirst_append.2 ⟨hfirst.basesFirst, hrest.basesFirst.of_bases ?_⟩
    intro m _ base _ hbase
    simpa [or_comm] using (hfirst.mem_iff base).1 hbase
  -- merging the first part on its own and then into what is given is merging its lists at once
  found_eq := by
    rw [hrest.found_eq, hfirst.found_eq, merge_merge_nil, List.flatMap_append, merge_append]

/-- An interface is done after its bases. None of the names in between extends it, since there are
no circles. -/
theorem enter {before after order : List String} {name : String} {d : Declaration}
    {inherited : List Member} (hacyclic : Acyclic ds name) (hname : name ∉ before)
    (hd : findType? ds name = some d) (hshape : d.shape = .interface)
    (hcollects : Collects ds (name :: before) (baseNames d.node) [] after inherited)
    (h : Finishes ds (name :: before) [] after inherited order) :
    Finishes ds before [] after (merge inherited (ownMembers d)) (order ++ [name]) where
  mem_iff m := by
    rw [h.mem_iff, List.mem_cons, List.mem_append, List.mem_singleton, or_comm (a := m ∈ order),
      or_assoc, or_left_comm]
  fresh m hm := by
    rcases List.mem_append.1 hm with hm | hm
    · exact fun hbefore => h.fresh m hm (List.mem_cons_of_mem _ hbefore)
    · rwa [List.mem_singleton.1 hm]
  nodup := by
    refine List.nodup_append.2 ⟨h.nodup, List.nodup_singleton name, ?_⟩
    rintro m hm n hn rfl
    exact h.fresh m hm (by rw [List.mem_singleton.1 hn]; exact List.mem_cons_self)
  basesFirst := by
    -- all names in between are reached from the name, so none of them may extend it
    have hextends : ∀ m ∈ order, Relation.TransGen (Extends ds) name m := by
      intro m hm
      rcases hcollects.reached m ((h.mem_iff m).2 (.inr hm)) with hbefore | ⟨base, hbase, hreach⟩
      · exact absurd hbefore (h.fresh m hm)
      · exact .head' ⟨d, hd, hshape, hbase⟩ hreach
    refine basesFirst_append.2 ⟨h.basesFirst.of_bases ?_, ?_, trivial⟩
    · intro m hm base hbase hmem
      rcases List.mem_cons.1 hmem with rfl | hmem
      · exact absurd ((hextends m hm).tail hbase) (hacyclic base .refl)
      · exact hmem
    · intro base hbase
      have hne : base ≠ name := by
        rintro rfl
        exact hacyclic base .refl (.single hbase)
      obtain ⟨d', hd', -, hmem⟩ := hbase
      obtain rfl : d' = d := Option.some.inj (hd'.symm.trans hd)
      simpa [hne, or_comm] using (h.mem_iff base).1 (hcollects.roots_mem hmem)
  found_eq := by
    rw [h.found_eq, ← merge_append, List.flatMap_append, List.flatMap_singleton,
      ownOf_of_findType? hd]

end Finishes

/-- Bases finish one after the other, and their orders follow each other. -/
theorem finishes_ofBases {bases : List String} {entered : List String} (ps : List Member)
    (hbases : ∀ base ∈ bases, ∀ before, entered ⊆ before →
      ∃ order, Finishes ds before [] (ofName ds before base).entered
        ((ofName ds before base).value.getD []) order) :
    ∃ order, Finishes ds entered ps (ofBases ds entered ps bases).entered
      (ofBases ds entered ps bases).value order := by
  induction bases generalizing entered ps with
  | nil =>
    rw [(ofBases_nil entered ps).1, (ofBases_nil entered ps).2]
    exact ⟨[], .nothing entered ps⟩
  | cons base bases ih =>
    rw [(ofBases_cons entered ps base bases).1, (ofBases_cons entered ps base bases).2]
    have hgrows := (ofName ds entered base).grows
    obtain ⟨order₁, hfirst⟩ := hbases base List.mem_cons_self entered (List.Subset.refl _)
    have hlater : ∀ base' ∈ bases, ∀ before, (ofName ds entered base).entered ⊆ before →
        ∃ order, Finishes ds before [] (ofName ds before base').entered
          ((ofName ds before base').value.getD []) order := fun base' hbase' before hbefore =>
      hbases base' (List.mem_cons_of_mem _ hbase') before (List.Subset.trans hgrows hbefore)
    obtain ⟨order₂, hrest⟩ := ih (merge ps ((ofName ds entered base).value.getD [])) hlater
    exact ⟨order₁ ++ order₂, .cons hfirst hrest⟩

-- the induction is the one of `collects_ofName`, on the declarations that were not entered yet
/-- A name finishes after its bases: its own members are merged last. -/
theorem finishes_ofName {name : String} (honly : OnlyInterfaces ds name)
    (hacyclic : Acyclic ds name) (entered : List String) :
    ∃ order, Finishes ds entered [] (ofName ds entered name).entered
      ((ofName ds entered name).value.getD []) order := by
  induction hk : pending ds entered using Nat.strongRecOn generalizing name entered with
  | _ k ih =>
    by_cases hname : name ∈ entered
    · obtain ⟨hvalue, hentered⟩ := @ofName_of_mem ds entered name hname
      rw [hvalue, hentered]
      exact ⟨[], .nothing entered []⟩
    · cases hd : findType? ds name with
      | none =>
        obtain ⟨hvalue, hentered⟩ := ofName_of_absent hname hd
        rw [hvalue, hentered]
        exact ⟨[name], .absent hname hd⟩
      | some d =>
        have hshape := honly name .refl d hd
        have hextends : ∀ base ∈ baseNames d.node, Extends ds name base :=
          fun base hbase => ⟨d, hd, hshape, hbase⟩
        obtain ⟨hvalue, hentered⟩ := ofName_of_interface hname hd hshape
        rw [hvalue, hentered]
        -- the same run seen as a search tells which names it has entered
        have hcollects : Collects ds (name :: entered) (baseNames d.node) []
            (ofBases ds (name :: entered) [] (baseNames d.node)).entered
            (ofBases ds (name :: entered) [] (baseNames d.node)).value :=
          collects_ofBases [] fun base hbase before _ =>
            collects_ofName (honly.base (hextends base hbase)) before
        have hbases : ∀ base ∈ baseNames d.node, ∀ before, name :: entered ⊆ before →
            ∃ order, Finishes ds before [] (ofName ds before base).entered
              ((ofName ds before base).value.getD []) order := by
          intro base hbase before hbefore
          have hfewer : pending ds before < k :=
            calc pending ds before ≤ pending ds (name :: entered) := pending_le hbefore
              _ < pending ds entered := pending_findType?_lt hd hname
              _ = k := hk
          exact ih _ hfewer (honly.base (hextends base hbase))
            (hacyclic.base (hextends base hbase)) before rfl
        obtain ⟨order, horder⟩ := finishes_ofBases [] hbases
        exact ⟨order ++ [name], .enter hacyclic hname hd hshape hcollects horder⟩

/-! ### Where a property is taken from -/

/-- A property is the last one that a name lists, and no name of some others lists it. -/
structure TakenFrom (ds : List Declaration) (name : String) (others : List String) (q : Member) :
    Prop where
  last : IsLast q (ownOf ds name)
  others : ∀ m ∈ others, ¬ Lists ds m q.name

/-- What is left of all that some names list is taken from one of them. -/
theorem exists_takenFrom {order : List String} {q : Member}
    (h : q ∈ merge [] (order.flatMap (ownOf ds))) :
    ∃ first name rest, order = first ++ name :: rest ∧ TakenFrom ds name rest q := by
  -- taken from the end: the last interface that lists a name gives it
  induction order using List.reverseRecOn with
  | nil => simp at h
  | append_singleton order name ih =>
    rw [List.flatMap_append, List.flatMap_singleton, merge_append] at h
    rcases isLast_or_mem_of_mem_merge (nodup_names_merge (by simp)) h with hlast | ⟨hmem, hnew⟩
    · exact ⟨order, name, [], rfl, hlast, by simp⟩
    · obtain ⟨first, taken, rest, rfl, htaken⟩ := ih hmem
      refine ⟨first, taken, rest ++ [name], by simp, htaken.last, ?_⟩
      intro m hm
      rcases List.mem_append.1 hm with hm | hm
      · exact htaken.others m hm
      · rwa [List.mem_singleton.1 hm, lists_iff]

end RefPages.Source

namespace RefPages.SourceFile

open Source

/-- Where interfaces extend each other without circles, the members of all interfaces in reach are
merged in an order in which each comes after the ones it extends. -/
theorem interface?_ordered (f : SourceFile) {name : String}
    (honly : OnlyInterfaces f.declarations name) (hacyclic : Acyclic f.declarations name)
    (hdeclared : (findType? f.declarations name).isSome) :
    ∃ order, DerivedLast f.declarations name order ∧
      f.interface? name = some ⟨name, merge [] (order.flatMap (ownOf f.declarations))⟩ := by
  obtain ⟨d, hd⟩ := Option.isSome_iff_exists.1 hdeclared
  obtain ⟨hvalue, -⟩ :=
    ofName_of_interface (List.not_mem_nil (a := name)) hd (honly name .refl d hd)
  obtain ⟨order, horder⟩ := finishes_ofName honly hacyclic []
  refine ⟨order, ⟨horder.nodup, fun m => ?_, horder.basesFirst⟩, ?_⟩
  · rw [← mem_entered_iff honly, horder.mem_iff]
    simp
  · rw [interface?, Source.interface?, ← horder.found_eq, hvalue]
    rfl

/-- **The most derived interface wins.** Where interfaces extend each other without circles, a
property that an interface in reach lists and that another one in reach overrides is not taken from
the former: there is one property of the name, and it is taken from an interface that comes later in
an order in which all come after the ones they extend. -/
theorem interface?_override (f : SourceFile) {name base derived property : String}
    (honly : OnlyInterfaces f.declarations name) (hacyclic : Acyclic f.declarations name)
    (hbase : Reaches f.declarations name base) (hderived : Reaches f.declarations name derived)
    (hextends : Relation.TransGen (Extends f.declarations) derived base)
    (hlists : Lists f.declarations base property)
    (hoverrides : Lists f.declarations derived property) :
    ∃ i q first taken rest, f.interface? name = some i ∧
      (∀ r, r ∈ i.properties ∧ r.name = property ↔ r = q) ∧
      DerivedLast f.declarations name (first ++ taken :: rest) ∧
      i.properties = merge [] ((first ++ taken :: rest).flatMap (ownOf f.declarations)) ∧
      TakenFrom f.declarations taken rest q ∧ base ∈ first ∧ taken ≠ base := by
  have hdeclared : (findType? f.declarations name).isSome := by
    rcases hderived.cases_head with rfl | ⟨_, ⟨d, hd, -⟩, -⟩
    · obtain ⟨d, hd, -⟩ := hoverrides
      exact Option.isSome_of_eq_some hd
    · exact Option.isSome_of_eq_some hd
  obtain ⟨order, horder, hinterface⟩ := f.interface?_ordered honly hacyclic hdeclared
  -- the property is there, and only once
  have hnames : property ∈ names (merge [] (order.flatMap (ownOf f.declarations))) := by
    refine mem_names_merge.2 (.inr ?_)
    obtain ⟨q, hq, rfl⟩ := List.mem_map.1 (lists_iff.1 hlists)
    exact List.mem_map_of_mem (List.mem_flatMap.2 ⟨base, (horder.mem_iff base).2 hbase, hq⟩)
  obtain ⟨q, hq, rfl⟩ := List.mem_map.1 hnames
  obtain ⟨first, taken, rest, rfl, htaken⟩ := exists_takenFrom hq
  have honce : ∀ r, r ∈ merge [] ((first ++ taken :: rest).flatMap (ownOf f.declarations)) ∧
      r.name = q.name ↔ r = q := by
    intro r
    constructor
    · rintro ⟨hr, hname⟩
      exact List.inj_on_of_nodup_map (nodup_names_merge (by simp)) hr hq hname
    · rintro rfl
      exact ⟨hq, rfl⟩
  -- what overrides it comes no later than where it is taken from
  have hbefore : base ∈ first := by
    refine horder.basesFirst.mem_of_extends ((horder.mem_iff derived).2 hderived) ?_ hextends
    exact fun hmem => htaken.others derived hmem hoverrides
  have hne : taken ≠ base := by
    rintro rfl
    have hdisjoint := (List.nodup_append.1 horder.nodup).2.2
    exact hdisjoint taken hbefore taken List.mem_cons_self rfl
  exact ⟨_, q, first, taken, rest, hinterface, honce, horder, rfl, htaken, hbefore, hne⟩

/-- `D` is reached through `B`, which takes `d` over, and through `C`, which overrides it. -/
def diamond : String :=
  "interface A extends C, B \x7ba: 1\x7d
interface B extends D \x7b\x7d
interface C extends D \x7bd: 2\x7d
interface D \x7bd: 1\x7d"

theorem interface?_override_diamond :
    ∃ f, SourceFile.parse "diamond.ts" diamond = .ok f ∧
      OnlyInterfaces f.declarations "A" ∧ Acyclic f.declarations "A" ∧
      Reaches f.declarations "A" "D" ∧ Reaches f.declarations "A" "C" ∧
      Relation.TransGen (Extends f.declarations) "C" "D" ∧
      Lists f.declarations "D" "d" ∧ Lists f.declarations "C" "d" ∧
      ∃ i q taken, f.interface? "A" = some i ∧ q ∈ i.properties ∧ q.name = "d" ∧
        IsLast q (ownOf f.declarations taken) ∧ taken ≠ "D" := by
  -- the text is read once for all hypotheses
  obtain ⟨f, hf, hsorted, hshapes, hderived, hextends, hlists, hoverrides⟩ : ∃ f,
      SourceFile.parse "diamond.ts" diamond = .ok f ∧
      Sorted f.declarations ["D", "B", "C", "A"] ∧
      (∀ m ∈ ["D", "B", "C", "A"], ∀ d ∈ findType? f.declarations m, d.shape = .interface) ∧
      Extends f.declarations "A" "C" ∧ Extends f.declarations "C" "D" ∧
      Lists f.declarations "D" "d" ∧ Lists f.declarations "C" "d" :=
    exists_of_parse (by decide +kernel)
  have hacyclic : Acyclic f.declarations "A" := hsorted.acyclic (by simp)
  have honly : OnlyInterfaces f.declarations "A" :=
    onlyInterfaces_of_closed (by simp) fun m hm d hd =>
      ⟨hshapes m hm d hd, hsorted.closed m hm d hd⟩
  have hreach : Reaches f.declarations "A" "C" := .single hderived
  obtain ⟨i, q, first, taken, rest, hi, honce, -, -, htaken, -, hne⟩ :=
    interface?_override f honly hacyclic (hreach.tail hextends) hreach (.single hextends) hlists
      hoverrides
  obtain ⟨hq, hname⟩ := (honce q).2 rfl
  exact ⟨f, hf, honly, hacyclic, hreach.tail hextends, hreach, .single hextends, hlists,
    hoverrides, i, q, taken, hi, hq, hname, htaken.last, hne⟩

end RefPages.SourceFile
