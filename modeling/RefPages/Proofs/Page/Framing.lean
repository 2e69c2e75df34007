import Mathlib.Data.List.Sort
import Mathlib.Data.List.TakeWhile
import RefPages.Page.Basic
import RefPages.Proofs.Path
import RefPages.Settings.Basic

/-!
# Front matter and its readers

A reader of front matter goes line by line: it takes the lines after a first line of three dashes,
up to the next such line.

    ---                              ┐
    title: "useChat"                 │ read?  ──▶  title: "useChat",  description: "One."
    description: "One."              │
    ---                              ┘

Backslashes and quotes in a value are escaped, but a line end is written as it stands. So every key
has one line just if no value has a line end in it, and a description with a line of three dashes
ends the front matter early.
-/

namespace RefPages.FrontMatter

open Text

/-! ### Reading -/

def dashes : Line := "---".toList

/-- The lines of front matter that a reader finds at the start of a text. -/
def read? (cs : List Char) : Option (List Line) :=
  match splitOn '\n' cs with
  | [] => none
  | first :: rest =>
    if first = dashes ∧ dashes ∈ rest then some (rest.takeWhile (· != dashes)) else none

/-- Lines are taken up to the first one with dashes. -/
theorem takeWhile_ne_append {d : Line} {ls rest : List Line} (h : d ∉ ls) :
    (ls ++ d :: rest).takeWhile (· != d) = ls := by
  rw [List.takeWhile_append_of_pos, List.takeWhile_cons_of_neg (by simp), List.append_nil]
  intro l hl
  simpa using fun heq : l = d => h (heq ▸ hl)

/-- What stands between two lines of dashes is read just if no line of it is one. -/
theorem read?_eq_some_iff {cs : List Char} {ls rest : List Line}
    (h : splitOn '\n' cs = dashes :: (ls ++ dashes :: rest)) :
    read? cs = some ls ↔ dashes ∉ ls := by
  have hread : read? cs = some ((ls ++ dashes :: rest).takeWhile (· != dashes)) := by
    simp [read?, h]
  constructor
  · intro hls hmem
    rw [hread, Option.some.injEq] at hls
    rw [← hls] at hmem
    simpa using List.mem_takeWhile_imp hmem
  · intro hmem
    rw [hread, takeWhile_ne_append hmem]

/-- A reader goes line by line. -/
theorem newline_not_mem_of_read? {cs : List Char} {ls : List Line} (h : read? cs = some ls) :
    ∀ l ∈ ls, '\n' ∉ l := by
  unfold read? at h
  split at h
  · cases h
  · next first rest hsplit =>
    obtain ⟨-, hls⟩ := Option.ite_none_right_eq_some.1 h
    cases hls
    intro l hl
    have hmem : l ∈ splitOn '\n' cs := by
      rw [hsplit]
      exact List.mem_cons_of_mem _ ((List.takeWhile_sublist _).subset hl)
    exact not_mem_of_mem_splitOn l hmem

/-! ### Keys and their values -/

/-- A key with its quoted value, without the line end after it. -/
def keyed (key value : String) : Line :=
  key.toList ++ ": \"".toList ++ escape value.toList ++ ['"']

def keyedValues (e : Entry) : List Line :=
  keyed "title" e.subject.name :: e.description?.toList.map (keyed "description")

/-- No value in the front matter of an entry has a line end in it. -/
def IsOneLine (e : Entry) : Prop :=
  '\n' ∉ e.subject.name.toList ∧ ∀ text, e.description? = some text → '\n' ∉ text.toList

/-- Escaping adds backslashes and no other character. -/
theorem mem_escape_iff {c : Char} (hc : c ≠ '\\') {cs : List Char} : c ∈ escape cs ↔ c ∈ cs := by
  induction cs with
  | nil => simp [escape]
  | cons d ds ih =>
    rw [escape]
    split <;> simp [hc, ih]

/-- A key with its value is one line if the value is. -/
theorem newline_mem_keyed_iff {key : String} (hkey : '\n' ∉ key.toList) (value : String) :
    '\n' ∈ keyed key value ↔ '\n' ∈ value.toList := by
  simp [keyed, hkey, mem_escape_iff]

/-- The values of an entry are one line each if and only if no line of its front matter has a line
end in it. -/
theorem isOneLine_iff (e : Entry) : IsOneLine e ↔ ∀ l ∈ keyedValues e, '\n' ∉ l := by
  have htitle : ∀ value, '\n' ∈ keyed "title" value ↔ '\n' ∈ value.toList :=
    newline_mem_keyed_iff (by decide)
  have hdescription : ∀ value, '\n' ∈ keyed "description" value ↔ '\n' ∈ value.toList :=
    newline_mem_keyed_iff (by decide)
  unfold IsOneLine keyedValues
  cases e.description? with
  | none => simp [htitle]
  | some text => simp [htitle, hdescription]

/-- No key starts with a dash. -/
theorem dashes_not_mem_keyedValues (e : Entry) : dashes ∉ keyedValues e := by
  have hhead : ∀ l ∈ keyedValues e, l.head? ≠ some '-' := by
    intro l hl
    rcases List.mem_cons.1 hl with rfl | hl
    · simp [keyed]
    · obtain ⟨text, -, rfl⟩ := List.mem_map.1 hl
      simp [keyed]
  intro hmem
  exact hhead dashes hmem rfl

/-! ### The lines of a page -/

/-- Where lines end, the text is cut into the pieces of each of them. -/
theorem splitOn_flatMap_append (ls : List Line) (cs : List Char) :
    splitOn '\n' (ls.flatMap (· ++ ['\n']) ++ cs) =
      ls.flatMap (splitOn '\n') ++ splitOn '\n' cs := by
  induction ls with
  | nil => rfl
  | cons l ls ih =>
    have hcut := List.splitOn_append_cons_self (a := '\n') l (ls.flatMap (· ++ ['\n']) ++ cs)
    rw [← splitOn_eq, ← splitOn_eq, ← splitOn_eq, ih] at hcut
    simpa using hcut

/-- The pieces of lines are the lines themselves only if none has a line end in it. -/
theorem flatMap_splitOn_eq_self_iff {ls : List Line} :
    ls.flatMap (splitOn '\n') = ls ↔ ∀ l ∈ ls, '\n' ∉ l := by
  constructor
  -- a piece of a split never contains the separator
  · intro h l hl
    rw [← h] at hl
    obtain ⟨whole, -, hpiece⟩ := List.mem_flatMap.1 hl
    exact not_mem_of_mem_splitOn l hpiece
  · intro h
    induction ls with
    | nil => rfl
    | cons l ls ih =>
      obtain ⟨hl, hls⟩ := List.forall_mem_cons.1 h
      rw [List.flatMap_cons, splitOn_eq, List.splitOn_eq_singleton hl, ih hls]
      rfl

theorem toList_keyLine (key value : String) :
    (keyLine key value).toList = keyed key value ++ ['\n'] := by
  simp [keyLine, keyed]

/-- The front matter, line by line. -/
theorem toList_render (e : Entry) :
    (render e).toList = [dashes].flatMap (· ++ ['\n']) ++
      ((keyedValues e).flatMap (· ++ ['\n']) ++ ([dashes].flatMap (· ++ ['\n']) ++ ['\n'])) := by
  have hend : "---\n\n".toList = [dashes].flatMap (· ++ ['\n']) ++ ['\n'] := rfl
  have hstart : "---\n".toList = [dashes].flatMap (· ++ ['\n']) := rfl
  unfold render keyedValues
  cases e.description? with
  | none => simp [toList_keyLine, hend, hstart]
  | some text => simp [toList_keyLine, hend, hstart]

/-- The lines of a page are those of its front matter, between two lines of dashes, and the rest. -/
theorem splitOn_page (e : Entry) (r : Reference) (o : Options) :
    ∃ rest, splitOn '\n' (Page.render e r o).toList =
      dashes :: ((keyedValues e).flatMap (splitOn '\n') ++ dashes :: rest) := by
  obtain ⟨more, hmore⟩ : ∃ more, (Page.render e r o).toList = (render e).toList ++ more := by
    simp only [Page.render, String.toList_append, List.append_assoc]
    exact ⟨_, rfl⟩
  have hdashes : [dashes].flatMap (splitOn '\n') = [dashes] := by decide
  refine ⟨splitOn '\n' ('\n' :: more), ?_⟩
  rw [hmore, toList_render]
  simp only [List.append_assoc, splitOn_flatMap_append, hdashes]
  rfl

/-- **Front matter is framed just if every value is on one line.** Then the page starts with a line
of dashes, a line for each key and a line of dashes, and a reader sees these keys. Whatever the
values, a reader sees all lines of them if and only if none of these is a line of dashes. -/
theorem page_framed (e : Entry) (r : Reference) (o : Options) :
    ((∃ rest, splitOn '\n' (Page.render e r o).toList =
        dashes :: (keyedValues e ++ dashes :: rest)) ↔ IsOneLine e) ∧
      (read? (Page.render e r o).toList = some (keyedValues e) ↔ IsOneLine e) ∧
      (read? (Page.render e r o).toList = some ((keyedValues e).flatMap (splitOn '\n')) ↔
        dashes ∉ (keyedValues e).flatMap (splitOn '\n')) := by
  obtain ⟨rest, hpage⟩ := splitOn_page e r o
  have hone : IsOneLine e → (keyedValues e).flatMap (splitOn '\n') = keyedValues e := by
    intro h
    exact flatMap_splitOn_eq_self_iff.2 ((isOneLine_iff e).1 h)
  refine ⟨⟨?_, ?_⟩, ⟨?_, ?_⟩, read?_eq_some_iff hpage⟩
  -- a line of the page has no line end in it
  · rintro ⟨rest', hframed⟩
    rw [isOneLine_iff]
    intro l hl
    have hmem : l ∈ splitOn '\n' (Page.render e r o).toList := by
      rw [hframed]
      simp [hl]
    exact not_mem_of_mem_splitOn l hmem
  · intro h
    rw [hone h] at hpage
    exact ⟨rest, hpage⟩
  · intro hread
    rw [isOneLine_iff]
    exact newline_not_mem_of_read? hread
  · intro h
    rw [hone h] at hpage
    exact (read?_eq_some_iff hpage).2 (dashes_not_mem_keyedValues e)

/-! ### A description of three lines -/

namespace Broken

open Settings Toml

/-- Settings with one entry, whose description has a line of dashes in it. -/
def document : String :=
  "docs = [\x7b description = \"One.\\n---\\nTwo.\", destination_path = \"a.md\", " ++
    "hook = \"useA\", source_path = \"a.ts\" \x7d]\n"

def entry : Entry := ⟨"a.ts", "a.md", ⟨.hook, "useA"⟩, some "One.\n---\nTwo."⟩

/-- The only entry of a document, if its keys are in order. -/
def entryOf? : List (String × Value) → Option Entry
  | [("docs", .array [.table fields])] =>
    if (fields.map Prod.fst).Pairwise (· ≤ ·) then
      ((fieldsOfKeys Fields.none fields).bind entryOfFields).toOption
    else none
  | _ => none

theorem eq_ok_of_toOption {α : Type} {x : Decoded α} {a : α} (h : x.toOption = some a) :
    x = .ok a := by
  cases x with
  | error reason => cases h
  | ok b => exact congrArg Except.ok (Option.some.inj h)

/-- A table whose keys are in order is read key by key. -/
theorem entry_of_sorted {fields : List (String × Value)} (h : sorted fields = fields) :
    Settings.entry (.table fields) = (fieldsOfKeys Fields.none fields).bind entryOfFields := by
  simp only [Settings.entry, h]
  cases fieldsOfKeys Fields.none fields <;> rfl

/-- A document with one entry gives settings with this entry. -/
theorem ofToml_of_entryOf? {document : String} {e : Entry}
    (h : (Toml.parse? document).bind entryOf? = some e) :
    Settings.ofToml document = .ok { entries := [e] } := by
  obtain ⟨table, htable, he⟩ := Option.bind_eq_some_iff.1 h
  unfold entryOf? at he
  split at he
  · next fields =>
    obtain ⟨hkeys, hfields⟩ := Option.ite_none_right_eq_some.1 he
    -- the keys are in order, so sorting them changes nothing
    have hsorted : sorted fields = fields := by
      apply List.mergeSort_of_pairwise
      rw [List.pairwise_map] at hkeys
      simpa using hkeys
    have hentry : Settings.entry (.table fields) = .ok e := by
      rw [entry_of_sorted hsorted]
      exact eq_ok_of_toOption hfields
    have hitems : [Value.table fields].mapM Settings.entry = .ok [e] := by
      rw [List.mapM_cons, hentry]
      rfl
    have htop : Settings.ofTable [("docs", .array [.table fields])] = .ok { entries := [e] } := by
      have hsingle : ofTable [("docs", .array [.table fields])] =
          apply {} "docs" (.array [.table fields]) := by
        simp [ofTable, sorted]
      rw [hsingle]
      exact congrArg (Except.map fun entries => ({ entries := entries } : Settings)) hitems
    simp only [Settings.ofToml, htable, htop]
  · cases he

end Broken

/-- The reader takes the front matter to end inside the description. -/
theorem page_framed_broken :
    Settings.ofToml Broken.document = .ok { entries := [Broken.entry] } ∧
      ∀ r o, read? (Page.render Broken.entry r o).toList =
        some ["title: \"useA\"".toList, "description: \"One.".toList] := by
  refine ⟨Broken.ofToml_of_entryOf? (by decide +kernel), fun r o => ?_⟩
  obtain ⟨rest, hpage⟩ := splitOn_page Broken.entry r o
  have hlines : (keyedValues Broken.entry).flatMap (splitOn '\n') =
      ["title: \"useA\"".toList, "description: \"One.".toList] ++
        dashes :: ["Two.\"".toList] := by decide
  rw [hlines, List.append_assoc] at hpage
  exact (read?_eq_some_iff hpage).2 (by decide)

end RefPages.FrontMatter
