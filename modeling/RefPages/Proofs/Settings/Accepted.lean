import RefPages.Project.Load
import RefPages.Proofs.Comment.Removal

/-!
# Entries of accepted settings

Whatever form the entries of a settings file have, an entry that is accepted has been tidied: the
name of its subject is not blank and has no blanks around it, and a description that says nothing
has become none. So giving its parts once more changes none of them.
-/

namespace RefPages

/-! ### Subjects -/

theorem Text.trimmed_trimmed (s : String) : Text.trimmed (Text.trimmed s) = Text.trimmed s := by
  simp [Text.trimmed, Comment.trim_trim]

theorem Text.trimmed_eq_empty_iff {s : String} : Text.trimmed s = "" ↔ Text.blank s = true := by
  have hlist : Text.trim s.toList = [] ↔ ∀ c ∈ s.toList.dropWhile isBlank, isBlank c = true := by
    simp [Text.trim, Text.trimEnd, Text.trimStart, List.dropWhile_eq_nil_iff]
  rw [Text.trimmed, String.ofList_eq_empty_iff, hlist, Text.blank, Text.isBlankText,
    List.all_eq_true]
  constructor
  · intro h c hc
    rw [← List.takeWhile_append_dropWhile (p := isBlank) (l := s.toList), List.mem_append] at hc
    exact hc.elim List.mem_takeWhile_imp (h c)
  · exact fun h c hc => h c (List.dropWhile_sublist _ |>.subset hc)

theorem Text.blank_trimmed (s : String) : Text.blank (Text.trimmed s) = Text.blank s := by
  rw [Bool.eq_iff_iff, ← Text.trimmed_eq_empty_iff, ← Text.trimmed_eq_empty_iff,
    Text.trimmed_trimmed]

/-- A name gives a subject if it is not blank, and the subject has the name without the blanks
around it. -/
theorem Subject.named_eq_ok_iff {kind : SubjectKind} {name : String} {s : Subject} :
    Subject.named kind name = .ok s ↔
      s.kind = kind ∧ s.name = Text.trimmed name ∧ Text.blank name = false := by
  simp only [Subject.named, Text.trimmed_eq_empty_iff]
  cases hblank : Text.blank name with
  | true => simp
  | false =>
    obtain ⟨kind', name'⟩ := s
    simp [eq_comm]

/-- Exactly one of the three fields is set, and its text names the subject. -/
theorem Subject.ofFields_eq_ok_iff {className component hook : Option String} {s : Subject} :
    Subject.ofFields className component hook = .ok s ↔
      (∃ name, className = some name ∧ component = none ∧ hook = none ∧
          Subject.named .classKind name = .ok s) ∨
        (∃ name, className = none ∧ component = some name ∧ hook = none ∧
          Subject.named .component name = .ok s) ∨
        ∃ name, className = none ∧ component = none ∧ hook = some name ∧
          Subject.named .hook name = .ok s := by
  cases className <;> cases component <;> cases hook <;> simp [Subject.ofFields]

theorem Subject.named_of_named {kind : SubjectKind} {name : String} {s : Subject}
    (h : Subject.named kind name = .ok s) : Subject.named s.kind s.name = .ok s := by
  obtain ⟨-, hname, hblank⟩ := Subject.named_eq_ok_iff.1 h
  rw [Subject.named_eq_ok_iff, hname, Text.trimmed_trimmed, Text.blank_trimmed]
  exact ⟨rfl, rfl, hblank⟩

/-- A subject that fields give is given by its own name too. -/
theorem Subject.named_of_ofFields {className component hook : Option String} {s : Subject}
    (h : Subject.ofFields className component hook = .ok s) :
    Subject.named s.kind s.name = .ok s := by
  obtain ⟨name, -, -, -, hs⟩ | ⟨name, -, -, -, hs⟩ | ⟨name, -, -, -, hs⟩ :=
    Subject.ofFields_eq_ok_iff.1 h <;> exact Subject.named_of_named hs

/-! ### Entries -/

/-- The parts of an entry stay the same when they are given once more. -/
structure Entry.IsTidy (e : Entry) : Prop where
  subject : Subject.named e.subject.kind e.subject.name = .ok e.subject
  description : e.description?.filter (fun text => !Text.blank text) = e.description?

namespace Settings

open Toml

/-- What the fields of an entry have to say. -/
theorem entryOfFields_eq_ok_iff {fields : Fields} {e : Entry} :
    entryOfFields fields = .ok e ↔
      fields .sourcePath = some e.sourcePath ∧ fields .destinationPath = some e.destinationPath ∧
        Subject.ofFields (fields .className) (fields .component) (fields .hook) = .ok e.subject ∧
        e.description? = (fields .description).filter fun text => !Text.blank text := by
  obtain ⟨source, destination, subject, description?⟩ := e
  unfold entryOfFields required
  -- the fields are required in this order, and the first that is missing decides the answer
  cases fields .sourcePath with
  | none => simp
  | some source' =>
    cases fields .destinationPath with
    | none => simp
    | some destination' =>
      cases Subject.ofFields (fields .className) (fields .component) (fields .hook) with
      | error problem => simp
      | ok subject' => simp [eq_comm]

theorem isTidy_of_entryOfFields {fields : Fields} {e : Entry} (h : entryOfFields fields = .ok e) :
    e.IsTidy := by
  obtain ⟨-, -, hsubject, hdescription⟩ := entryOfFields_eq_ok_iff.1 h
  refine ⟨Subject.named_of_ofFields hsubject, ?_⟩
  rw [hdescription, Option.filter_filter]
  simp

theorem isTidy_of_entry {value : Value} {e : Entry} (h : entry value = .ok e) : e.IsTidy := by
  unfold entry at h
  split at h
  · split at h
    · cases h
    · exact isTidy_of_entryOfFields h
  · split at h
    · cases h
    · split at h
      · cases h
      · exact isTidy_of_entryOfFields h
  · cases h
  · cases h

theorem mem_of_mapM {α β : Type} {f : α → Decoded β} {as : List α} {bs : List β}
    (h : as.mapM f = .ok bs) : ∀ b ∈ bs, ∃ a ∈ as, f a = .ok b := by
  induction as generalizing bs with
  | nil =>
    cases h
    simp
  | cons a as ih =>
    rw [List.mapM_cons] at h
    cases ha : f a with
    | error reason =>
      rw [ha] at h
      cases h
    | ok b =>
      cases has : as.mapM f with
      | error reason =>
        rw [ha, has] at h
        cases h
      | ok bs' =>
        rw [ha, has] at h
        cases h
        intro b' hb'
        rcases List.mem_cons.1 hb' with rfl | hb'
        · exact ⟨a, List.mem_cons_self, ha⟩
        · obtain ⟨a', ha', hf⟩ := ih has b' hb'
          exact ⟨a', List.mem_cons_of_mem _ ha', hf⟩

theorem exists_of_map_eq_ok {α β : Type} {x : Decoded α} {f : α → β} {b : β}
    (h : x.map f = .ok b) : ∃ a, x = .ok a ∧ f a = b := by
  cases x with
  | error reason => cases h
  | ok a => exact ⟨a, rfl, Except.ok.inj h⟩

/-- A key changes the entries only to ones that were read. -/
theorem isTidy_of_apply {s s' : Settings} {key : String} {value : Value}
    (h : s.apply key value = .ok s') (hs : ∀ e ∈ s.entries, e.IsTidy) :
    ∀ e ∈ s'.entries, e.IsTidy := by
  unfold apply at h
  -- only one key gives entries
  split_ifs at h
  · obtain ⟨root, -, rfl⟩ := exists_of_map_eq_ok h
    exact hs
  · obtain ⟨banner, -, rfl⟩ := exists_of_map_eq_ok h
    exact hs
  · obtain ⟨skipped, -, rfl⟩ := exists_of_map_eq_ok h
    exact hs
  · obtain ⟨entries, hentries, rfl⟩ := exists_of_map_eq_ok h
    cases hvalues : items value with
    | error reason =>
      rw [hvalues] at hentries
      cases hentries
    | ok values =>
      rw [hvalues] at hentries
      intro e he
      obtain ⟨v, -, hv⟩ := mem_of_mapM hentries e he
      exact isTidy_of_entry hv
  · cases h
    exact hs

/-- Entries stay tidy while the keys of the top table are read one after the other. -/
theorem isTidy_of_foldlM {s s' : Settings} {entries : List (String × Value)}
    (h : entries.foldlM (fun s e => s.apply e.1 e.2) s = .ok s') (hs : ∀ e ∈ s.entries, e.IsTidy) :
    ∀ e ∈ s'.entries, e.IsTidy := by
  -- tidy entries are what each key of the document preserves
  induction entries generalizing s with
  | nil =>
    cases h
    exact hs
  | cons entry entries ih =>
    rw [List.foldlM_cons] at h
    cases happly : s.apply entry.1 entry.2 with
    | error reason =>
      rw [happly] at h
      cases h
    | ok between =>
      rw [happly] at h
      exact ih h (isTidy_of_apply happly hs)

/-- The entries of accepted settings are tidy. -/
theorem isTidy_of_ofToml {document : String} {s : Settings} (h : ofToml document = .ok s) :
    ∀ e ∈ s.entries, e.IsTidy := by
  unfold ofToml at h
  split at h
  · cases h
  · split at h
    · cases h
    · next htable =>
      cases h
      exact isTidy_of_foldlM htable (by simp)

end Settings

namespace Project

/-- So are the entries of a project. -/
theorem isTidy_of_load {d : Disk} {root : String} {s : Settings}
    (h : load d root = .ok (some s)) : ∀ e ∈ s.entries, e.IsTidy := by
  unfold load at h
  split at h
  · cases h
  · split at h
    · cases h
    · split at h
      · cases h
      · next hs =>
        cases h
        exact Settings.isTidy_of_ofToml hs

end Project

end RefPages
