import Mathlib.Data.List.Perm.Basic
import RefPages.Settings.Basic

/-!
# Selecting entries

The entries of a run are selected by the names of their subjects. One name that no subject has
refuses the whole selection; otherwise the entries come in their own order, each as often as it is
configured, whatever the order of the names and however often one is repeated.

    entries   A₁ B A₂ C
    [A, B]    A₁ B A₂         [B, A, B]   A₁ B A₂
    [A, X]    refused: X      []          A₁ B A₂ C
-/

namespace RefPages.Settings

def Knows (s : Settings) (name : String) : Prop := ∃ e ∈ s.entries, e.subject.name = name

instance (s : Settings) (name : String) : Decidable (s.Knows name) :=
  inferInstanceAs (Decidable (∃ e ∈ s.entries, e.subject.name = name))

/-- Do the names select the entry? No names select every entry. -/
def selects (only : List String) (e : Entry) : Bool := only.isEmpty || only.contains e.subject.name

variable {s : Settings} {only : List String}

theorem selects_iff {e : Entry} :
    selects only e = true ↔ only = [] ∨ e.subject.name ∈ only := by
  simp [selects]

theorem any_name_iff {name : String} :
    (s.entries.any fun e => e.subject.name == name) = true ↔ s.Knows name := by
  simp [Knows]

/-- The first unknown name is the one that is looked for. -/
theorem find?_unknown_eq_some_iff {name : String} :
    (only.find? fun n => !s.entries.any fun e => e.subject.name == n) = some name ↔
      ∃ before after, only = before ++ name :: after ∧ (∀ n ∈ before, s.Knows n) ∧
        ¬s.Knows name := by
  rw [List.find?_eq_some_iff_append]
  simp only [Bool.not_not, any_name_iff, Bool.not_eq_true', ← Bool.not_eq_true]
  constructor
  · rintro ⟨hname, before, after, rfl, hbefore⟩
    exact ⟨before, after, rfl, hbefore, hname⟩
  · rintro ⟨before, after, rfl, hbefore, hname⟩
    exact ⟨hname, before, after, rfl, hbefore⟩

theorem find?_unknown_eq_none_iff :
    (only.find? fun n => !s.entries.any fun e => e.subject.name == n) = none ↔
      ∀ n ∈ only, s.Knows n := by
  simp only [List.find?_eq_none, Bool.not_eq_true', Bool.not_eq_false, any_name_iff]

/-- The selection in one piece: no names need no case of their own. -/
theorem select_eq (s : Settings) (only : List String) :
    s.select only =
      match only.find? fun n => !s.entries.any fun e => e.subject.name == n with
      | some unknown => .error (.unknownPage unknown)
      | none => .ok (s.entries.filter (selects only)) := by
  cases only with
  | nil =>
    have hall : s.entries.filter (selects []) = s.entries := List.filter_eq_self.2 fun _ _ => rfl
    rw [hall]
    rfl
  | cons name only => rfl

/-- A selection fails for the first of its names that no subject has. -/
theorem select_eq_error_iff {failure : Failure} :
    s.select only = .error failure ↔
      ∃ before name after, only = before ++ name :: after ∧ (∀ n ∈ before, s.Knows n) ∧
        ¬s.Knows name ∧ failure = .unknownPage name := by
  rw [select_eq]
  constructor
  · intro h
    split at h
    · next name hname =>
      cases h
      -- the first unknown name is the one reported
      obtain ⟨before, after, honly, hbefore, hunknown⟩ := find?_unknown_eq_some_iff.1 hname
      exact ⟨before, name, after, honly, hbefore, hunknown, rfl⟩
    · cases h
  · rintro ⟨before, name, after, honly, hbefore, hunknown, rfl⟩
    rw [find?_unknown_eq_some_iff.2 ⟨before, after, honly, hbefore, hunknown⟩]

/-- A selection without unknown names filters the entries. -/
theorem select_eq_ok_iff_filter {es : List Entry} :
    s.select only = .ok es ↔
      (∀ n ∈ only, s.Knows n) ∧ es = s.entries.filter (selects only) := by
  rw [select_eq]
  constructor
  · intro h
    split at h
    · cases h
    · next hknown =>
      cases h
      exact ⟨find?_unknown_eq_none_iff.1 hknown, rfl⟩
  · rintro ⟨hknown, rfl⟩
    rw [find?_unknown_eq_none_iff.2 hknown]

/-- A part of a list that has all the elements with a property and no others is the list without
the others. -/
theorem eq_filter_iff {α : Type} [DecidableEq α] {p : α → Bool} {l l' : List α} :
    l' = l.filter p ↔ l'.Sublist l ∧ ∀ a, l'.count a = if p a = true then l.count a else 0 := by
  have hcount : ∀ a, (l.filter p).count a = if p a = true then l.count a else 0 := by
    intro a
    split
    · next ha => exact List.count_filter ha
    · next ha => exact List.count_eq_zero.2 fun hmem => ha (List.of_mem_filter hmem)
  constructor
  · rintro rfl
    exact ⟨List.filter_sublist, hcount⟩
  · rintro ⟨hsub, hl'⟩
    have hperm : l'.Perm (l.filter p) := List.perm_iff_count.2 fun a => by rw [hl', hcount]
    have hall : l'.filter p = l' := List.filter_eq_self.2 fun a ha =>
      List.of_mem_filter (hperm.mem_iff.1 ha)
    have hsub' : l'.Sublist (l.filter p) := hall ▸ hsub.filter p
    exact hsub'.eq_of_length hperm.length_eq

/-- The same without filtering: a part of the entries in their order, with each one that has a name
as often as it is there. -/
theorem select_eq_ok_iff {es : List Entry} :
    s.select only = .ok es ↔
      (∀ n ∈ only, s.Knows n) ∧ es.Sublist s.entries ∧
        ∀ e, es.count e =
          if only = [] ∨ e.subject.name ∈ only then s.entries.count e else 0 := by
  rw [select_eq_ok_iff_filter, eq_filter_iff]
  simp only [selects_iff]

/-- A selection depends on which names are given, and not on how often or in which order. -/
theorem select_congr {only' : List String} (h : ∀ n, n ∈ only ↔ n ∈ only') (es : List Entry) :
    s.select only = .ok es ↔ s.select only' = .ok es := by
  have hnil : only = [] ↔ only' = [] := by
    simp only [List.eq_nil_iff_forall_not_mem, h]
  simp only [select_eq_ok_iff, h, hnil]

end RefPages.Settings
