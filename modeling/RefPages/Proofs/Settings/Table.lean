import Mathlib.Data.List.Nodup
import RefPages.Proofs.Settings.Accepted

/-!
# Entries as tables

In a settings file an entry is a table. It is accepted if and only if it says what an entry is
(`Table.IsMeaningful`), and the entry is then what it says (`Table.Says`). Neither the order of the
keys nor the choice between two spellings of one makes a difference (`Reworded`).

    source_path = "a.ts"                 hook = " useA "
    destinationPath = "a.md"    ──▶      sourcePath = "a.ts"
    hook = " useA "                      destinationPath = "a.md"

What carries this is that only the `meanings` of a table are looked at: the field of each key and
its value. Reading them is collecting them, whatever their order (`Collects`).
-/

namespace RefPages.Settings

open Toml

/-! ### What a table says -/

namespace EntryField

def spellings : EntryField → List String
  | .sourcePath => ["source_path", "sourcePath"]
  | .destinationPath => ["destination_path", "destinationPath"]
  | .className => ["class_name", "className"]
  | .component => ["component"]
  | .hook => ["hook"]
  | .description => ["description"]

def kind? : EntryField → Option SubjectKind
  | .className => some .classKind
  | .component => some .component
  | .hook => some .hook
  | _ => none

/-- A key gives the field among whose spellings it is. -/
theorem ofKey?_eq_some_iff {key : String} {f : EntryField} :
    ofKey? key = some f ↔ key ∈ f.spellings := by
  constructor
  · intro h
    obtain ⟨k, hk, rfl⟩ := Option.map_eq_some_iff.1 h
    have hkey : k.1 = key := by simpa using List.find?_some hk
    have hspelled : ∀ k ∈ keys, k.1 ∈ k.2.spellings := by decide
    exact hkey ▸ hspelled k (List.mem_of_find?_eq_some hk)
  · have hread : ∀ key ∈ f.spellings, ofKey? key = some f := by cases f <;> decide
    exact hread key

end EntryField

/-- A table: no key is given twice. -/
structure Table where
  entries : List (String × Value)
  nodup : (entries.map Prod.fst).Nodup

namespace Table

def keys (t : Table) : List String := t.entries.map Prod.fst

/-- The table gives a field by one of its spellings. -/
def Has (t : Table) (f : EntryField) : Prop := ∃ key ∈ f.spellings, key ∈ t.keys

/-- The table gives a field this text. -/
def Gives (t : Table) (f : EntryField) (text : String) : Prop :=
  ∃ key ∈ f.spellings, (key, Value.string text) ∈ t.entries

/-- The table says what an entry is. -/
structure IsMeaningful (t : Table) : Prop where
  /-- Every key is the spelling of a field. -/
  known : ∀ key ∈ t.keys, ∃ f : EntryField, key ∈ f.spellings
  /-- No field is given by two spellings. -/
  once : ∀ f : EntryField, ∀ key ∈ f.spellings, ∀ key' ∈ f.spellings,
    key ∈ t.keys → key' ∈ t.keys → key = key'
  texts : ∀ e ∈ t.entries, ∃ text, e.2 = .string text
  source : t.Has .sourcePath
  destination : t.Has .destinationPath
  /-- One field names the subject, and no other does. -/
  subject : ∃ f, f.kind? ≠ none ∧ (∃ name, t.Gives f name ∧ Text.blank name = false) ∧
    ∀ g, g.kind? ≠ none → t.Has g → g = f

/-- The entry that a table describes. -/
structure Says (t : Table) (e : Entry) : Prop where
  source : t.Gives .sourcePath e.sourcePath
  destination : t.Gives .destinationPath e.destinationPath
  subject : ∃ f name, f.kind? = some e.subject.kind ∧ t.Gives f name ∧
    e.subject.name = Text.trimmed name ∧ e.subject.name ≠ ""
  /-- A description that is not blank is kept as it is, and any other is none. -/
  description : ∀ text, e.description? = some text ↔
    t.Gives .description text ∧ Text.blank text = false

end Table

/-- The same fields with the same values, in another order and by other spellings. -/
inductive Reworded : List (String × Value) → List (String × Value) → Prop
  | perm {es es' : List (String × Value)} (h : es.Perm es') : Reworded es es'
  | respelled {f : EntryField} {key key' : String} (h : key ∈ f.spellings)
      (h' : key' ∈ f.spellings) (before : List (String × Value)) (value : Value)
      (after : List (String × Value)) :
      Reworded (before ++ (key, value) :: after) (before ++ (key', value) :: after)
  | trans {es es' es'' : List (String × Value)} (h : Reworded es es') (h' : Reworded es' es'') :
      Reworded es es''

/-! ### Meanings -/

/-- The fields of keys, with their values. -/
def meanings (es : List (String × Value)) : List (Option EntryField × Value) :=
  es.map fun e => (EntryField.ofKey? e.1, e.2)

/-- Rewording permutes what the keys mean. -/
theorem Reworded.meanings {es es' : List (String × Value)} (h : Reworded es es') :
    (meanings es).Perm (Settings.meanings es') := by
  induction h with
  | perm h => exact h.map _
  | respelled h h' before value after =>
    simp [Settings.meanings, EntryField.ofKey?_eq_some_iff.2 h, EntryField.ofKey?_eq_some_iff.2 h']
  | trans _ _ ih ih' => exact ih.trans ih'

/-- Fields that are collected from meanings, one after the other, when some are given before. -/
structure Collects (start : Fields) (ms : List (Option EntryField × Value)) (fields : Fields) :
    Prop where
  texts : ∀ m ∈ ms, ∃ f text, m = (some f, Value.string text) ∧ start f = none
  apart : (ms.map Prod.fst).Nodup
  eq_some_iff : ∀ f text,
    fields f = some text ↔ start f = some text ∨ (some f, Value.string text) ∈ ms

theorem put_eq_none_iff {start : Fields} {field f : EntryField} {text : String} :
    start.put field text f = none ↔ f ≠ field ∧ start f = none := by
  by_cases hf : f = field <;> simp [Fields.put, hf]

theorem ne_of_mem {field f : EntryField} {value : Value} {ms : List (Option EntryField × Value)}
    (hfield : some field ∉ ms.map Prod.fst) (h : (some f, value) ∈ ms) : f ≠ field := by
  rintro rfl
  exact hfield (List.mem_map.2 ⟨_, h, rfl⟩)

/-- The order does not matter. -/
theorem Collects.perm {start fields : Fields} {ms ms' : List (Option EntryField × Value)}
    (h : Collects start ms fields) (hperm : ms.Perm ms') : Collects start ms' fields where
  texts m hm := h.texts m (hperm.mem_iff.2 hm)
  apart := (hperm.map Prod.fst).nodup_iff.1 h.apart
  eq_some_iff f text := (h.eq_some_iff f text).trans (or_congr_right hperm.mem_iff)

theorem collects_nil_iff {start fields : Fields} : Collects start [] fields ↔ start = fields := by
  constructor
  · intro h
    funext f
    exact Option.ext fun text => by simp [h.eq_some_iff f text]
  · rintro rfl
    exact ⟨by simp, by simp, by simp⟩

/-- One more meaning is put before the rest is collected. -/
theorem collects_cons_iff {start fields : Fields} {field : EntryField} {text : String}
    {ms : List (Option EntryField × Value)} (hnew : start field = none) :
    Collects start ((some field, .string text) :: ms) fields ↔
      Collects (start.put field text) ms fields := by
  -- it is the same whether a text was put already or is still to be read
  have hmem : ∀ f text', start f = some text' ∨
        (some f, Value.string text') ∈ (some field, Value.string text) :: ms ↔
      start.put field text f = some text' ∨ (some f, Value.string text') ∈ ms := by
    intro f text'
    rw [List.mem_cons, Prod.mk.injEq, Option.some.injEq, Value.string.injEq]
    by_cases hf : f = field
    · simp [Fields.put, hf, hnew, eq_comm]
    · simp [Fields.put, hf]
  constructor
  · intro h
    obtain ⟨hfirst, hapart⟩ := List.nodup_cons.1 h.apart
    refine ⟨fun m hm => ?_, hapart, fun f text' => (h.eq_some_iff f text').trans (hmem f text')⟩
    obtain ⟨f, text', rfl, hf⟩ := h.texts m (List.mem_cons_of_mem _ hm)
    exact ⟨f, text', rfl, put_eq_none_iff.2 ⟨ne_of_mem hfirst hm, hf⟩⟩
  · intro h
    refine ⟨List.forall_mem_cons.2 ⟨⟨field, text, rfl, hnew⟩, fun m hm => ?_⟩,
      List.nodup_cons.2 ⟨fun hfield => ?_, h.apart⟩,
      fun f text' => (h.eq_some_iff f text').trans (hmem f text').symm⟩
    · obtain ⟨f, text', rfl, hf⟩ := h.texts m hm
      exact ⟨f, text', rfl, (put_eq_none_iff.1 hf).2⟩
    · obtain ⟨m, hm, hfst⟩ := List.mem_map.1 hfield
      obtain ⟨f, text', rfl, hf⟩ := h.texts m hm
      exact (put_eq_none_iff.1 hf).1 (Option.some.inj hfst)

/-- Reading keys one after the other collects their meanings. -/
theorem fieldsOfKeys_eq_ok_iff {start fields : Fields} {es : List (String × Value)} :
    fieldsOfKeys start es = .ok fields ↔ Collects start (meanings es) fields := by
  induction es generalizing start with
  | nil => rw [fieldsOfKeys, Except.ok.injEq, meanings, List.map_nil, collects_nil_iff]
  | cons e es ih =>
    obtain ⟨key, value⟩ := e
    have hmeanings : meanings ((key, value) :: es) =
        (EntryField.ofKey? key, value) :: meanings es := rfl
    rw [fieldsOfKeys, hmeanings]
    -- what is not read is no meaning that could be collected
    cases hkey : EntryField.ofKey? key with
    | none =>
      refine iff_of_false (by simp) fun h => ?_
      obtain ⟨f, text, hm, -⟩ := h.texts _ List.mem_cons_self
      cases hm
    | some field =>
      cases hgiven : start field with
      | some text =>
        refine iff_of_false (by simp [hgiven]) fun h => ?_
        obtain ⟨f, text', hm, hf⟩ := h.texts _ List.mem_cons_self
        cases hm
        simp [hgiven] at hf
      | none =>
        cases value with
        | string text => simp only [hgiven, Option.isSome_none, Bool.false_eq_true, if_false,
            Settings.text, ih, collects_cons_iff hgiven]
        | _ =>
          refine iff_of_false (by simp [hgiven, Settings.text]) fun h => ?_
          obtain ⟨f, text, hm, -⟩ := h.texts _ List.mem_cons_self
          cases hm

/-- Meanings of different fields can be collected. -/
theorem exists_collects {start : Fields} {ms : List (Option EntryField × Value)}
    (htexts : ∀ m ∈ ms, ∃ f text, m = (some f, Value.string text) ∧ start f = none)
    (hapart : (ms.map Prod.fst).Nodup) : ∃ fields, Collects start ms fields := by
  -- a field is put once, as the names that mean it stand apart
  induction ms generalizing start with
  | nil => exact ⟨start, collects_nil_iff.2 rfl⟩
  | cons m ms ih =>
    obtain ⟨field, text, rfl, hnew⟩ := htexts _ List.mem_cons_self
    obtain ⟨hfirst, hapart⟩ := List.nodup_cons.1 hapart
    have hrest : ∀ m ∈ ms, ∃ f text', m = (some f, Value.string text') ∧
        start.put field text f = none := by
      intro m hm
      obtain ⟨f, text', rfl, hf⟩ := htexts m (List.mem_cons_of_mem _ hm)
      exact ⟨f, text', rfl, put_eq_none_iff.2 ⟨ne_of_mem hfirst hm, hf⟩⟩
    obtain ⟨fields, hfields⟩ := ih hrest hapart
    exact ⟨fields, (collects_cons_iff hnew).2 hfields⟩

/-! ### Entries from fields -/

/-- The subject is named by the only field that can name one and is given. -/
theorem ofFields_eq_ok_iff_only {fields : Fields} {s : Subject} :
    Subject.ofFields (fields .className) (fields .component) (fields .hook) = .ok s ↔
      ∃ f kind name, EntryField.kind? f = some kind ∧ fields f = some name ∧
        (∀ g : EntryField, g.kind? ≠ none → fields g ≠ none → g = f) ∧
        Subject.named kind name = .ok s := by
  rw [Subject.ofFields_eq_ok_iff]
  constructor
  · rintro (⟨name, hclass, hcomponent, hhook, hs⟩ | ⟨name, hclass, hcomponent, hhook, hs⟩ |
      ⟨name, hclass, hcomponent, hhook, hs⟩)
    · refine ⟨.className, _, name, rfl, hclass, fun g hkind hg => ?_, hs⟩
      cases g <;> simp_all [EntryField.kind?]
    · refine ⟨.component, _, name, rfl, hcomponent, fun g hkind hg => ?_, hs⟩
      cases g <;> simp_all [EntryField.kind?]
    · refine ⟨.hook, _, name, rfl, hhook, fun g hkind hg => ?_, hs⟩
      cases g <;> simp_all [EntryField.kind?]
  · rintro ⟨f, kind, name, hkind, hname, honly, hs⟩
    -- the other two fields of a subject are missing
    have hnone : ∀ g : EntryField, g.kind? ≠ none → g ≠ f → fields g = none := fun g hg hne =>
      not_not.1 fun hgiven => hne (honly g hg hgiven)
    cases f with
    | sourcePath | destinationPath | description => cases hkind
    | className =>
      cases hkind
      exact .inl ⟨name, hname, hnone .component nofun nofun, hnone .hook nofun nofun, hs⟩
    | component =>
      cases hkind
      exact .inr (.inl ⟨name, hnone .className nofun nofun, hname, hnone .hook nofun nofun, hs⟩)
    | hook =>
      cases hkind
      exact .inr (.inr
        ⟨name, hnone .className nofun nofun, hnone .component nofun nofun, hname, hs⟩)

/-! ### Entries from tables -/

/-- A table is an entry if its fields can be collected, each at most once, and say what an entry is.
-/
theorem entry_eq_ok_iff {es : List (String × Value)} {e : Entry} :
    entry (.table es) = .ok e ↔
      ∃ fields, Collects Fields.none (meanings es) fields ∧ entryOfFields fields = .ok e := by
  -- a table is read in the order of its keys, which permutes what they mean
  have hsorted : (meanings (sorted es)).Perm (meanings es) := (List.mergeSort_perm _ _).map _
  rw [entry]
  constructor
  · intro h
    split at h
    · cases h
    · next fields hfields =>
      exact ⟨fields, (fieldsOfKeys_eq_ok_iff.1 hfields).perm hsorted, h⟩
  · rintro ⟨fields, hfields, he⟩
    rw [fieldsOfKeys_eq_ok_iff.2 (hfields.perm hsorted.symm)]
    exact he

/-- Other words for the same make the same entry. -/
theorem entry_reworded {es es' : List (String × Value)} (h : Reworded es es') (e : Entry) :
    entry (.table es') = .ok e ↔ entry (.table es) = .ok e := by
  rw [entry_eq_ok_iff, entry_eq_ok_iff]
  exact exists_congr fun fields =>
    and_congr_left fun _ => ⟨fun hc => hc.perm h.meanings.symm, fun hc => hc.perm h.meanings⟩

namespace Table

variable {t : Table} {f : EntryField} {text : String}

theorem gives_iff : t.Gives f text ↔ (some f, Value.string text) ∈ meanings t.entries := by
  constructor
  · rintro ⟨key, hkey, hmem⟩
    exact List.mem_map.2 ⟨_, hmem, by rw [EntryField.ofKey?_eq_some_iff.2 hkey]⟩
  · intro h
    obtain ⟨⟨key, value⟩, hmem, hmeaning⟩ := List.mem_map.1 h
    obtain ⟨hkey, rfl⟩ := Prod.mk.inj hmeaning
    exact ⟨key, EntryField.ofKey?_eq_some_iff.1 hkey, hmem⟩

theorem has_iff : t.Has f ↔ ∃ value, (some f, value) ∈ meanings t.entries := by
  constructor
  · rintro ⟨key, hkey, hmem⟩
    obtain ⟨⟨key, value⟩, hentry, rfl⟩ := List.mem_map.1 hmem
    exact ⟨value, List.mem_map.2 ⟨_, hentry, by rw [EntryField.ofKey?_eq_some_iff.2 hkey]⟩⟩
  · rintro ⟨value, h⟩
    obtain ⟨⟨key, value⟩, hmem, hmeaning⟩ := List.mem_map.1 h
    obtain ⟨hkey, rfl⟩ := Prod.mk.inj hmeaning
    exact ⟨key, EntryField.ofKey?_eq_some_iff.1 hkey, List.mem_map_of_mem hmem⟩

theorem map_fst_meanings : (meanings t.entries).map Prod.fst = t.keys.map EntryField.ofKey? := by
  simp [meanings, keys, Function.comp_def]

section Collected

variable {fields : Fields} (hfields : Collects Fields.none (meanings t.entries) fields)

include hfields

theorem eq_some_iff_gives : fields f = some text ↔ t.Gives f text := by
  rw [hfields.eq_some_iff, gives_iff]
  exact or_iff_right (by simp [Fields.none])

theorem ne_none_iff_has : fields f ≠ none ↔ t.Has f := by
  rw [Option.ne_none_iff_exists', has_iff]
  constructor
  · rintro ⟨text, htext⟩
    exact ⟨_, gives_iff.1 ((eq_some_iff_gives hfields).1 htext)⟩
  · rintro ⟨value, hmem⟩
    obtain ⟨_, text, hm, -⟩ := hfields.texts _ hmem
    cases hm
    exact ⟨text, (eq_some_iff_gives hfields).2 (gives_iff.2 hmem)⟩

end Collected

/-- A table that says what an entry is can be read. -/
theorem IsMeaningful.exists_fields (h : t.IsMeaningful) :
    ∃ fields, Collects Fields.none (meanings t.entries) fields := by
  apply exists_collects
  · intro m hm
    obtain ⟨⟨key, value⟩, hentry, rfl⟩ := List.mem_map.1 hm
    obtain ⟨f, hkey⟩ := h.known key (List.mem_map_of_mem hentry)
    obtain ⟨text, rfl⟩ := h.texts _ hentry
    exact ⟨f, text, by rw [EntryField.ofKey?_eq_some_iff.2 hkey], rfl⟩
  -- two keys of one field would be two of its spellings
  · rw [map_fst_meanings, List.nodup_map_iff_inj_on (show t.keys.Nodup from t.nodup)]
    intro key hkey key' hkey' heq
    obtain ⟨f, hf⟩ := h.known key hkey
    have hf' : key' ∈ f.spellings := by
      rw [← EntryField.ofKey?_eq_some_iff, ← heq, EntryField.ofKey?_eq_some_iff]
      exact hf
    exact h.once f key hf key' hf' hkey hkey'

/-- A table that says what an entry is becomes one. -/
theorem IsMeaningful.exists_entry (h : t.IsMeaningful) : ∃ e, entry (.table t.entries) = .ok e := by
  obtain ⟨fields, hfields⟩ := h.exists_fields
  obtain ⟨source, hsource⟩ := Option.ne_none_iff_exists'.1 ((ne_none_iff_has hfields).2 h.source)
  obtain ⟨destination, hdestination⟩ :=
    Option.ne_none_iff_exists'.1 ((ne_none_iff_has hfields).2 h.destination)
  -- the subject is named by the only one of the three fields that the table has
  obtain ⟨f, hkind, ⟨name, hname, hblank⟩, honly⟩ := h.subject
  obtain ⟨kind, hkind⟩ := Option.ne_none_iff_exists'.1 hkind
  have hsubject := ofFields_eq_ok_iff_only.2 ⟨f, kind, name, hkind,
    (eq_some_iff_gives hfields).2 hname,
    fun g hg hgiven => honly g hg ((ne_none_iff_has hfields).1 hgiven),
    (Subject.named_eq_ok_iff (s := ⟨kind, Text.trimmed name⟩)).2 ⟨rfl, rfl, hblank⟩⟩
  let e : Entry := ⟨source, destination, ⟨kind, Text.trimmed name⟩,
    (fields .description).filter fun text => !Text.blank text⟩
  exact ⟨e, entry_eq_ok_iff.2
    ⟨fields, hfields, entryOfFields_eq_ok_iff.2 ⟨hsource, hdestination, hsubject, rfl⟩⟩⟩

/-- A table that becomes an entry says what it is. -/
theorem isMeaningful_of_entry {e : Entry} (h : entry (.table t.entries) = .ok e) :
    t.IsMeaningful := by
  obtain ⟨fields, hfields, he⟩ := entry_eq_ok_iff.1 h
  obtain ⟨hsource, hdestination, hsubject, -⟩ := entryOfFields_eq_ok_iff.1 he
  obtain ⟨f, kind, name, hkind, hname, honly, hs⟩ := ofFields_eq_ok_iff_only.1 hsubject
  -- every key was read, so each gives a field a text
  have hmeaning : ∀ x ∈ t.entries, ∃ f text,
      EntryField.ofKey? x.1 = some f ∧ x.2 = .string text := by
    intro x hx
    obtain ⟨f, text, hm, -⟩ := hfields.texts _ (List.mem_map_of_mem hx)
    exact ⟨f, text, (Prod.mk.inj hm).1, (Prod.mk.inj hm).2⟩
  refine ⟨fun key hkey => ?_, fun f key hf key' hf' hkey hkey' => ?_, fun x hx => ?_,
    (ne_none_iff_has hfields).1 (by simp [hsource]),
    (ne_none_iff_has hfields).1 (by simp [hdestination]),
    f, by simp [hkind], ⟨name, (eq_some_iff_gives hfields).1 hname, ?_⟩,
    fun g hg hgiven => honly g hg ((ne_none_iff_has hfields).2 hgiven)⟩
  · obtain ⟨x, hx, rfl⟩ := List.mem_map.1 hkey
    obtain ⟨f, text, hf, -⟩ := hmeaning x hx
    exact ⟨f, EntryField.ofKey?_eq_some_iff.1 hf⟩
  · have hapart : (t.keys.map EntryField.ofKey?).Nodup := by
      rw [← map_fst_meanings]
      exact hfields.apart
    refine List.inj_on_of_nodup_map hapart hkey hkey' ?_
    rw [EntryField.ofKey?_eq_some_iff.2 hf, EntryField.ofKey?_eq_some_iff.2 hf']
  · obtain ⟨f, text, -, htext⟩ := hmeaning x hx
    exact ⟨text, htext⟩
  · exact (Subject.named_eq_ok_iff.1 hs).2.2

/-- The entry that a table becomes is the one that it describes. -/
theorem says_of_entry {e : Entry} (h : entry (.table t.entries) = .ok e) : t.Says e := by
  obtain ⟨fields, hfields, he⟩ := entry_eq_ok_iff.1 h
  obtain ⟨hsource, hdestination, hsubject, hdescription⟩ := entryOfFields_eq_ok_iff.1 he
  obtain ⟨f, kind, name, hkind, hname, -, hs⟩ := ofFields_eq_ok_iff_only.1 hsubject
  obtain ⟨rfl, htrimmed, hblank⟩ := Subject.named_eq_ok_iff.1 hs
  refine ⟨(eq_some_iff_gives hfields).1 hsource, (eq_some_iff_gives hfields).1 hdestination,
    ⟨f, name, hkind, (eq_some_iff_gives hfields).1 hname, htrimmed, ?_⟩, fun text => ?_⟩
  · rw [htrimmed, ne_eq, Text.trimmed_eq_empty_iff, hblank]
    exact Bool.false_ne_true
  · rw [hdescription, Option.filter_eq_some_iff, eq_some_iff_gives hfields, Bool.not_eq_true']

end Table

/-- **A table is an entry if it says what an entry is.** A table is accepted if and only if its keys
are all spellings of fields, no field is given by two of them, all values are texts, both paths are
given and exactly one field names a subject, with a name that is not blank. The entry that it makes
has these paths and the name without the blanks around it, and the description unless that is blank.
The same fields in another order or by other spellings make the same entry or none. -/
theorem entry_table (t : Table) :
    ((∃ e, entry (.table t.entries) = .ok e) ↔ t.IsMeaningful) ∧
      (∀ e, entry (.table t.entries) = .ok e → t.Says e) ∧
      ∀ t' : Table, Reworded t.entries t'.entries →
        ∀ e, entry (.table t'.entries) = .ok e ↔ entry (.table t.entries) = .ok e :=
  ⟨⟨fun ⟨_, he⟩ => Table.isMeaningful_of_entry he, Table.IsMeaningful.exists_entry⟩,
    fun _ he => Table.says_of_entry he, fun _ h e => entry_reworded h e⟩

namespace Hook

/-- A hook by its keys in the order of their characters. -/
def table : Table where
  entries := [("description", .string " "), ("destinationPath", .string "b.mdx"),
    ("hook", .string " useB "), ("source_path", .string "b.ts")]
  nodup := by decide

/-- The same in reverse, with the other spellings of the two paths. -/
def other : Table where
  entries := [("sourcePath", .string "b.ts"), ("hook", .string " useB "),
    ("destination_path", .string "b.mdx"), ("description", .string " ")]
  nodup := by decide

theorem reworded : Reworded table.entries other.entries := by
  have hdestination : Reworded table.entries
      [("description", .string " "), ("destination_path", .string "b.mdx"),
        ("hook", .string " useB "), ("source_path", .string "b.ts")] :=
    .respelled (f := .destinationPath) (by decide) (by decide) [("description", .string " ")] _ _
  have hsource : Reworded
      [("description", .string " "), ("destination_path", .string "b.mdx"),
        ("hook", .string " useB "), ("source_path", .string "b.ts")]
      other.entries.reverse :=
    .respelled (f := .sourcePath) (by decide) (by decide)
      [("description", .string " "), ("destination_path", .string "b.mdx"),
        ("hook", .string " useB ")] _ []
  exact (hdestination.trans hsource).trans (.perm (List.reverse_perm _))

def entry : Entry := ⟨"b.ts", "b.mdx", ⟨.hook, "useB"⟩, none⟩

theorem entry_table_eq : Settings.entry (.table table.entries) = .ok entry := by
  have hsorted : sorted table.entries = table.entries := by
    apply List.mergeSort_of_pairwise
    simp [table]
  rw [Settings.entry, hsorted]
  rfl

end Hook

theorem entry_table_hook :
    Reworded Hook.table.entries Hook.other.entries ∧
      Settings.entry (.table Hook.table.entries) = .ok Hook.entry ∧
      Settings.entry (.table Hook.other.entries) = .ok Hook.entry ∧
      Hook.other.IsMeaningful ∧ Hook.other.Says Hook.entry := by
  have hother := ((entry_table Hook.table).2.2 Hook.other Hook.reworded Hook.entry).2
    Hook.entry_table_eq
  exact ⟨Hook.reworded, Hook.entry_table_eq, hother, (entry_table Hook.other).1.1 ⟨_, hother⟩,
    (entry_table Hook.other).2.1 _ hother⟩

end RefPages.Settings
