import RefPages.Proofs.Source.Flatten

/-!
# Merging batches of properties

An interface is given its properties in batches: those of one base after the other and then its own,
or those of one part of an intersection after the other. A batch may repeat names, its own ones as
well as those of earlier batches.

    [a, b]  [c, a', c']  [b']   ──▶   [a', b', c']

What is left has each name in the place where it came up first and with the property that came last
(`mergeAll_settles`). The bounds between the batches make no difference (`foldl_merge`). That this
is how the properties of an interface and of an intersection come about say
`ofName_eq_mergeAll` and `ofType_eq_mergeAll`.
-/

namespace RefPages.Source

def mergeAll (batches : List (List Member)) : List Member := batches.foldl merge []

/-- Merging batches one after the other merges the properties of all of them. -/
theorem foldl_merge (ps : List Member) (batches : List (List Member)) :
    batches.foldl merge ps = merge ps batches.flatten := by
  induction batches generalizing ps with
  | nil => rfl
  | cons batch batches ih => rw [List.foldl_cons, ih, List.flatten_cons, merge_append]

/-! ### Places

A place is known by the names alone: putting a property leaves them as they are, or adds its name
behind them. -/

/-- Putting a property keeps the order of the names, with a new one at the end. -/
theorem names_put (p : Member) (ps : List Member) :
    names (put p ps) = if p.name ∈ names ps then names ps else names ps ++ [p.name] := by
  induction ps with
  | nil => rfl
  | cons q qs ih =>
    rw [put]
    by_cases hq : q.name = p.name
    · simp [hq]
    · rw [if_neg hq, names_cons, ih, names_cons]
      by_cases hmem : p.name ∈ names qs
      · simp [hmem]
      · simp [hmem, Ne.symm hq]

/-- The names stand in the order in which they come up for the first time. -/
theorem pairwise_idxOf_names_merge (ps : List Member) :
    (names (merge [] ps)).Pairwise fun a b => (names ps).idxOf a < (names ps).idxOf b := by
  induction ps using List.reverseRecOn with
  | nil => exact List.Pairwise.nil
  | append_singleton ps p ih =>
    have hmem : ∀ name ∈ names (merge [] ps), name ∈ names ps := fun name hname =>
      (mem_names_merge.1 hname).resolve_left List.not_mem_nil
    have hnames : names (ps ++ [p]) = names ps ++ [p.name] := List.map_append
    -- what came up before stands where it stood
    have hold : (names (merge [] ps)).Pairwise fun a b =>
        (names (ps ++ [p])).idxOf a < (names (ps ++ [p])).idxOf b := by
      refine ih.imp_of_mem fun {a b} ha hb hlt => ?_
      rwa [hnames, List.idxOf_append_of_mem (hmem a ha), List.idxOf_append_of_mem (hmem b hb)]
    rw [merge_append, merge_cons, merge_nil, names_put]
    split
    · exact hold
    · next hnew =>
      have hp : p.name ∉ names ps := fun h => hnew (mem_names_merge.2 (.inr h))
      refine List.pairwise_append.2 ⟨hold, List.pairwise_singleton _ _, ?_⟩
      intro a ha b hb
      rw [List.mem_singleton.1 hb, hnames, List.idxOf_append_of_mem (hmem a ha),
        List.idxOf_append_of_notMem hp]
      exact Nat.lt_add_right _ (List.idxOf_lt_length_of_mem (hmem a ha))

/-! ### Merging again -/

theorem put_of_mem {p : Member} {ps : List Member} (hnodup : (names ps).Nodup) (h : p ∈ ps) :
    put p ps = ps := by
  induction ps with
  | nil => simp at h
  | cons q qs ih =>
    rw [names_cons, List.nodup_cons] at hnodup
    rw [put]
    rcases List.mem_cons.1 h with rfl | h
    · rw [if_pos rfl]
    · have hne : q.name ≠ p.name := fun hname => hnodup.1 (hname ▸ List.mem_map_of_mem h)
      rw [if_neg hne, ih hnodup.2 h]

/-- Properties that are there already change nothing. -/
theorem merge_of_subset {ps qs : List Member} (hnodup : (names ps).Nodup) (h : qs ⊆ ps) :
    merge ps qs = ps := by
  induction qs with
  | nil => rfl
  | cons q qs ih =>
    rw [merge_cons, put_of_mem hnodup (h List.mem_cons_self)]
    exact ih fun r hr => h (List.mem_cons_of_mem _ hr)

/-! ### What the resolution merges -/

variable {ds : List Declaration}

/-- The batches that bases give, one after the other. A base without properties gives none. -/
def batchesOfBases (ds : List Declaration) (entered : List String) :
    List String → List (List Member)
  | [] => []
  | base :: bases =>
    (ofName ds entered base).value.getD [] ::
      batchesOfBases ds (ofName ds entered base).entered bases

/-- The resolution of bases merges what each of them gives. -/
theorem ofBases_eq_foldl (entered : List String) (ps : List Member) (bases : List String) :
    (ofBases ds entered ps bases).value = (batchesOfBases ds entered bases).foldl merge ps := by
  induction bases generalizing entered ps with
  | nil => exact (ofBases_nil entered ps).1
  | cons base bases ih => rw [(ofBases_cons entered ps base bases).1, ih, batchesOfBases,
      List.foldl_cons]

/-- The last batch of an interface are its own members. -/
theorem ofName_eq_mergeAll {entered : List String} {name : String} {d : Declaration}
    (h : name ∉ entered) (hd : findType? ds name = some d) (hshape : d.shape = .interface) :
    (ofName ds entered name).value =
      some (mergeAll (batchesOfBases ds (name :: entered) (baseNames d.node) ++
        [ownMembers d])) := by
  rw [(ofName_of_interface h hd hshape).1, ofBases_eq_foldl, mergeAll, List.foldl_append]
  rfl

def batchesOfParts (ds : List Declaration) (entered : List String) :
    List Syntax.Node → List (List Member)
  | [] => []
  | part :: parts =>
    (ofType ds entered part).value.getD [] ::
      batchesOfParts ds (ofType ds entered part).entered parts

/-- The resolution of the parts of an intersection merges what each of them gives. -/
theorem ofParts_eq_foldl (entered : List String) (ps : List Member) (bound : Nat)
    (parts : List Syntax.Node) (hparts : ∀ n ∈ parts, sizeOf n < bound) :
    (ofParts ds entered ps bound parts hparts).value =
      (batchesOfParts ds entered parts).foldl merge ps := by
  induction parts generalizing entered ps with
  | nil =>
    rw [ofParts]
    rfl
  | cons part parts ih =>
    rw [ofParts, batchesOfParts, List.foldl_cons]
    dsimp only
    rw [ih]
    cases (ofType ds entered part).value <;> rfl

/-- So an intersection is the merge of the batches of its parts. -/
theorem ofType_eq_mergeAll {entered : List String} {type : Syntax.Node}
    (h : type.kind = .intersectionType) :
    (ofType ds entered type).value = some (mergeAll (batchesOfParts ds entered type.named)) := by
  rw [ofType]
  simp only [h, ofParts_eq_foldl]
  rfl

/-! ### The law -/

/-- **The first place and the last value.** Batches that are merged into an empty list leave each of
their names once, in the order in which the names come up first in all of them, and with the last
property of the name. So it is all the same to merge them as one batch, and merging what is left
into itself changes nothing. -/
theorem mergeAll_settles (batches : List (List Member)) :
    ((names (mergeAll batches)).Nodup ∧
        (∀ name, name ∈ names (mergeAll batches) ↔ name ∈ names batches.flatten) ∧
        ((names (mergeAll batches)).Pairwise fun a b =>
          (names batches.flatten).idxOf a < (names batches.flatten).idxOf b) ∧
        ∀ p ∈ mergeAll batches, IsLast p batches.flatten) ∧
      mergeAll batches = merge [] batches.flatten ∧
      merge (mergeAll batches) (mergeAll batches) = mergeAll batches := by
  have hmerge : mergeAll batches = merge [] batches.flatten := foldl_merge [] batches
  have hnodup : (names (mergeAll batches)).Nodup := hmerge ▸ nodup_names_merge List.nodup_nil
  refine ⟨⟨hnodup, fun name => ?_, ?_, fun p hp => ?_⟩, hmerge,
    merge_of_subset hnodup (List.Subset.refl _)⟩
  · rw [hmerge, mem_names_merge, names_nil]
    exact or_iff_right List.not_mem_nil
  · rw [hmerge]
    exact pairwise_idxOf_names_merge batches.flatten
  · rw [hmerge] at hp
    exact (isLast_or_mem_of_mem_merge (by simp) hp).resolve_right fun h =>
      List.not_mem_nil h.1

end RefPages.Source
