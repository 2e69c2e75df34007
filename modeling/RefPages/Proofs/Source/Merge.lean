import Mathlib.Data.List.Induction
import Mathlib.Data.List.Nodup
import RefPages.Source.Resolve

/-!
# Merging properties

Putting a property takes the place of one of its name, so merging keeps names apart, loses none of
them and ends with the last property of each.
-/

namespace RefPages.Source

def names (ps : List Member) : List String := ps.map Member.name

@[simp] theorem names_nil : names [] = [] := rfl

@[simp] theorem names_cons (p : Member) (ps : List Member) : names (p :: ps) = p.name :: names ps :=
  rfl

@[simp] theorem merge_nil (ps : List Member) : merge ps [] = ps := rfl

@[simp] theorem merge_cons (ps : List Member) (p : Member) (qs : List Member) :
    merge ps (p :: qs) = merge (put p ps) qs := rfl

/-- Merging two lists merges one and then the other. -/
theorem merge_append (ps qs rs : List Member) : merge ps (qs ++ rs) = merge (merge ps qs) rs :=
  List.foldl_append

/-! ### One property -/

theorem mem_names_put {p : Member} {ps : List Member} {name : String} :
    name ∈ names (put p ps) ↔ name = p.name ∨ name ∈ names ps := by
  induction ps with
  | nil => simp [put]
  | cons q qs ih =>
    rw [put]
    split
    · next hq => simp [hq]
    · simp only [names_cons, List.mem_cons, ih]
      exact or_left_comm

theorem nodup_names_put {p : Member} {ps : List Member} (h : (names ps).Nodup) :
    (names (put p ps)).Nodup := by
  induction ps with
  | nil => simp [put]
  | cons q qs ih =>
    rw [names_cons, List.nodup_cons] at h
    rw [put]
    split
    · next hq => simpa [← hq] using h
    · next hq =>
      rw [names_cons, List.nodup_cons, mem_names_put, not_or]
      exact ⟨⟨hq, h.1⟩, ih h.2⟩

theorem mem_put_self (p : Member) (ps : List Member) : p ∈ put p ps := by
  induction ps with
  | nil => simp [put]
  | cons q qs ih =>
    rw [put]
    split
    · simp
    · exact List.mem_cons_of_mem _ ih

theorem mem_put_of_ne {p q : Member} {ps : List Member} (h : q ∈ ps) (hne : p.name ≠ q.name) :
    q ∈ put p ps := by
  induction ps with
  | nil => simp at h
  | cons r rs ih =>
    rw [put]
    rcases List.mem_cons.1 h with rfl | h
    · simp [Ne.symm hne]
    · split
      · exact List.mem_cons_of_mem _ h
      · exact List.mem_cons_of_mem _ (ih h)

theorem mem_of_mem_put {p q : Member} {ps : List Member} (h : q ∈ put p ps) : q = p ∨ q ∈ ps := by
  induction ps with
  | nil => simpa [put] using h
  | cons r rs ih =>
    rw [put] at h
    split at h
    · exact (List.mem_cons.1 h).imp_right (List.mem_cons_of_mem _)
    · rcases List.mem_cons.1 h with rfl | h
      · exact .inr List.mem_cons_self
      · exact (ih h).imp_right (List.mem_cons_of_mem _)

/-! ### Many properties -/

/-- Merging keeps all names and adds no others. -/
theorem mem_names_merge {ps qs : List Member} {name : String} :
    name ∈ names (merge ps qs) ↔ name ∈ names ps ∨ name ∈ names qs := by
  induction qs generalizing ps with
  | nil => simp
  | cons q qs ih =>
    rw [merge_cons, ih, mem_names_put, names_cons, List.mem_cons]
    exact or_assoc.trans or_left_comm

/-- Merging into properties of distinct names keeps the names distinct. -/
theorem nodup_names_merge {ps qs : List Member} (h : (names ps).Nodup) :
    (names (merge ps qs)).Nodup := by
  induction qs generalizing ps with
  | nil => exact h
  | cons q qs ih => exact ih (nodup_names_put h)

theorem mem_merge_of_ne {ps qs : List Member} {q : Member} (h : q ∈ ps)
    (hne : ∀ r ∈ qs, r.name ≠ q.name) : q ∈ merge ps qs := by
  induction qs generalizing ps with
  | nil => exact h
  | cons r qs ih =>
    rw [List.forall_mem_cons] at hne
    exact ih (mem_put_of_ne h hne.1) hne.2

theorem mem_of_mem_merge {ps qs : List Member} {q : Member} (h : q ∈ merge ps qs) :
    q ∈ ps ∨ q ∈ qs := by
  induction qs generalizing ps with
  | nil => exact .inl h
  | cons r rs ih =>
    rcases ih h with h | h
    · rcases mem_of_mem_put h with rfl | h
      · exact .inr List.mem_cons_self
      · exact .inl h
    · exact .inr (List.mem_cons_of_mem _ h)

/-- The last property of a name is the one that stays. -/
theorem mem_merge_of_last {ps before after : List Member} {q : Member}
    (hlast : ∀ r ∈ after, r.name ≠ q.name) : q ∈ merge ps (before ++ q :: after) := by
  rw [merge_append, merge_cons]
  exact mem_merge_of_ne (mem_put_self q _) hlast

/-! ### Merging what was merged

Merged properties can be merged in turn: the result is the same as if all had been put one after the
other. -/

/-- The second of two properties with one name replaces the first. -/
theorem put_put_of_name_eq {p q : Member} (h : q.name = p.name) (ps : List Member) :
    put p (put q ps) = put p ps := by
  induction ps with
  | nil => simp [put, h]
  | cons r rs ih =>
    rw [put]
    by_cases hr : r.name = q.name
    · simp [put, hr, h]
    · have hr' : r.name ≠ p.name := h ▸ hr
      simp [put, hr, hr', ih]

/-- Properties of different names can be put in either order, if the place of one is fixed. -/
theorem put_comm {p q : Member} {ps : List Member} (hne : p.name ≠ q.name)
    (hmem : p.name ∈ names ps) : put p (put q ps) = put q (put p ps) := by
  induction ps with
  | nil => simp at hmem
  | cons r rs ih =>
    by_cases hp : r.name = p.name
    · simp [put, hp, hne]
    · have hmem' : p.name ∈ names rs := by simpa [Ne.symm hp] using hmem
      by_cases hq : r.name = q.name
      · simp [put, hq, Ne.symm hne]
      · simp [put, hp, hq, ih hmem']

theorem put_merge {p : Member} {ps qs : List Member} (hmem : p.name ∈ names ps)
    (hnew : p.name ∉ names qs) : put p (merge ps qs) = merge (put p ps) qs := by
  induction qs generalizing ps with
  | nil => rfl
  | cons q qs ih =>
    rw [names_cons, List.mem_cons, not_or] at hnew
    rw [merge_cons, merge_cons, ih (mem_names_put.2 (.inr hmem)) hnew.2, put_comm hnew.1 hmem]

/-- Putting into what is merged is putting afterwards, if its names are distinct. -/
theorem merge_put {p : Member} {ps qs : List Member} (h : (names qs).Nodup) :
    merge ps (put p qs) = put p (merge ps qs) := by
  induction qs generalizing ps with
  | nil => rfl
  | cons q qs ih =>
    rw [names_cons, List.nodup_cons] at h
    rw [put]
    split
    · next hq =>
      have hmem : p.name ∈ names (put q ps) := mem_names_put.2 (.inl hq.symm)
      rw [merge_cons, merge_cons, put_merge hmem (hq ▸ h.1), put_put_of_name_eq hq]
    · rw [merge_cons, merge_cons, ih h.2]

/-- Merging properties first among themselves changes nothing. -/
theorem merge_merge_nil (ps qs : List Member) : merge ps (merge [] qs) = merge ps qs := by
  induction qs using List.reverseRecOn with
  | nil => rfl
  | append_singleton qs q ih =>
    rw [merge_append, merge_append, merge_cons, merge_nil, merge_cons, merge_nil,
      merge_put (nodup_names_merge (by simp)), ih]

theorem put_of_notMem {p : Member} {ps : List Member} (h : p.name ∉ names ps) :
    put p ps = ps ++ [p] := by
  induction ps with
  | nil => rfl
  | cons q qs ih =>
    rw [names_cons, List.mem_cons, not_or] at h
    rw [put, if_neg (Ne.symm h.1), ih h.2, List.cons_append]

/-- Merging changes nothing if and only if the names are apart. -/
theorem merge_nil_eq_self_iff {ps : List Member} : merge [] ps = ps ↔ (names ps).Nodup := by
  constructor
  · intro h
    rw [← h]
    exact nodup_names_merge (by simp)
  · intro h
    -- the list is taken from its end, where a new name is put last
    induction ps using List.reverseRecOn with
    | nil => rfl
    | append_singleton ps p ih =>
      rw [names, List.map_append, List.nodup_append] at h
      have hnew : p.name ∉ names ps := fun hmem =>
        h.2.2 p.name hmem p.name List.mem_cons_self rfl
      rw [merge_append, ih h.1, merge_cons, merge_nil, put_of_notMem hnew]

/-- A property is the last one of its name among others. -/
def IsLast (q : Member) (ps : List Member) : Prop :=
  ∃ before after, ps = before ++ q :: after ∧ ∀ r ∈ after, r.name ≠ q.name

/-- What is left after merging is the last incoming property of its name, or a given one where none
came in. -/
theorem isLast_or_mem_of_mem_merge {ps qs : List Member} {q : Member} (hps : (names ps).Nodup)
    (h : q ∈ merge ps qs) : IsLast q qs ∨ q ∈ ps ∧ q.name ∉ names qs := by
  induction qs using List.reverseRecOn with
  | nil => exact .inr ⟨h, by simp⟩
  | append_singleton qs p ih =>
    have hnodup : (names (merge ps (qs ++ [p]))).Nodup := nodup_names_merge hps
    rw [merge_append, merge_cons, merge_nil] at h hnodup
    -- the last member put is the one listed last under its name
    by_cases hq : q = p
    · exact .inl ⟨qs, [], by simp [hq], by simp⟩
    · have hne : p.name ≠ q.name := fun hname =>
        hq (List.inj_on_of_nodup_map hnodup h (mem_put_self p _) hname.symm)
      rcases ih ((mem_of_mem_put h).resolve_left hq) with ⟨before, after, rfl, hlast⟩ | ⟨hmem, hnew⟩
      · refine .inl ⟨before, after ++ [p], by simp, ?_⟩
        simpa [or_imp, forall_and, hne] using hlast
      · refine .inr ⟨hmem, ?_⟩
        simpa [names, Ne.symm hne] using hnew

end RefPages.Source
