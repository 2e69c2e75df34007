import RefPages.Proofs.Project.Isolation

/-!
# Entries that are independent

Entries that keep out of each other's footprints come out of a run as if each of them was alone: in
the list of the report where it would be, and with the changes to the disk that it would make
(`generateAll_independent`). Then their order is no matter.

What carries the induction over the run is that the disk combines the changes that the entries so
far make when they are alone (`Combines`). It says nothing about the order of these entries, and it
is all that the next entry asks for (`Combines.aheadFor`). Two entries may change the same place,
though: both make a folder above their pages, and the one that comes first makes it.
-/

namespace RefPages.Project

open Disk (AheadAt SameChange)
open Location (resolve)

variable {d c : Disk} {o : Options} {e : Entry} {es : List Entry}

/-! ### Entries in any order -/

/-- Entries that keep out of each other's footprints, by paths that leave only folders that are
there. A missing source has no name that is too long: that would be seen only once an entry made
the folder before it. -/
structure Independent (d : Disk) (o : Options) (es : List Entry) : Prop where
  apart : es.Pairwise fun e f =>
    (footprint d.cwd o e).Avoids (footprint d.cwd o f) ∧
      (footprint d.cwd o f).Avoids (footprint d.cwd o e)
  straight : ∀ e ∈ es, IsStraight d o e
  names : ∀ e ∈ es, d.NamesFit (o.source e)

/-- Independence does not depend on the order of the entries. -/
theorem Independent.perm {es' : List Entry} (h : Independent d o es) (hperm : es'.Perm es) :
    Independent d o es' where
  apart := (hperm.pairwise_iff fun hab => hab.symm).2 h.apart
  straight e he := h.straight e (hperm.subset he)
  names e he := h.names e (hperm.subset he)

section Runs

variable [SourceFile.ErrorPlaces]

/-! ### Entries one after the other -/

/-- What an entry changes: folders above its page, and its own files. -/
theorem generate_changed {loc : Location} (htree : d.IsTree) (hstraight : IsStraight d o e)
    (h : (generate d o e).2.get? loc ≠ d.get? loc) :
    (loc <+: resolve d.cwd (o.destination e) ∧ d.get? loc = none ∧
        (generate d o e).2.get? loc = some .folder) ∨
      (loc ∈ (footprint d.cwd o e).writes ∧ d.get? loc ≠ some .folder) := by
  rcases (changes_generate d o e).get? loc with heq | ⟨hway, hnone, hfolder⟩ | ⟨hfile, hold, -⟩
  · exact absurd heq h
  · have hreached := Location.waypoints_subset d.cwd _ hway
    rcases Disk.Straight.reached htree hstraight.destination hreached with hthere | hleading
    · simp [hnone] at hthere
    · exact .inl ⟨hleading, hnone, hfolder⟩
  · exact .inr ⟨hfile, hold⟩

/-- A disk is what comes out if each of some entries makes the changes to another disk that it makes
when it is alone. -/
structure Combines (o : Options) (d : Disk) (es : List Entry) (c : Disk) : Prop where
  cwd : c.cwd = d.cwd
  changed : ∀ e ∈ es, ∀ loc, (generate d o e).2.get? loc ≠ d.get? loc →
    c.get? loc = (generate d o e).2.get? loc
  unchanged : ∀ loc, (∀ e ∈ es, (generate d o e).2.get? loc = d.get? loc) →
    c.get? loc = d.get? loc

namespace Combines

theorem nil (o : Options) (d : Disk) : Combines o d [] d := ⟨rfl, by simp, fun _ _ => rfl⟩

/-- What combines the changes of entries differs at no place from all of them and from the disk
before. -/
theorem eq_or_changed (h : Combines o d es c) (loc : Location) :
    c.get? loc = d.get? loc ∨ ∃ f ∈ es, (generate d o f).2.get? loc ≠ d.get? loc ∧
      c.get? loc = (generate d o f).2.get? loc := by
  by_cases hall : ∀ f ∈ es, (generate d o f).2.get? loc = d.get? loc
  · exact .inl (h.unchanged loc hall)
  · push Not at hall
    obtain ⟨f, hf, hne⟩ := hall
    exact .inr ⟨f, hf, hne, h.changed f hf loc hne⟩

/-- Entries that keep out of the way of another one leave at most more folders for it. -/
theorem aheadFor (h : Combines o d es c) (htree : d.IsTree)
    (hstraight : ∀ f ∈ es, IsStraight d o f)
    (hapart : ∀ f ∈ es, (footprint d.cwd o f).Avoids (footprint d.cwd o e)) :
    AheadFor d c (footprint d.cwd o e) := by
  -- what another entry has changed is a folder above its page, or a file of its own
  have hcases : ∀ loc, c.get? loc = d.get? loc ∨ ∃ f ∈ es,
      (loc <+: resolve d.cwd (o.destination f) ∧ d.get? loc = none ∧ c.get? loc = some .folder) ∨
        (loc ∈ (footprint d.cwd o f).writes ∧ d.get? loc ≠ some .folder) := by
    intro loc
    rcases h.eq_or_changed loc with heq | ⟨f, hf, hne, heq⟩
    · exact .inl heq
    · rw [heq]
      exact .inr ⟨f, hf, generate_changed htree (hstraight f hf) hne⟩
  refine ⟨h.cwd, fun loc hfolder => ?_, fun loc hplace => ?_, fun place hplace loc habove => ?_⟩
  · rcases hcases loc with heq | ⟨f, -, ⟨-, hnone, -⟩ | ⟨-, hold⟩⟩
    · rw [heq, hfolder]
    · simp [hfolder] at hnone
    · exact absurd hfolder hold
  -- neither is a place of this entry, which the others avoid
  · rcases hcases loc with heq | ⟨f, hf, ⟨hleading, -, -⟩ | ⟨hwrite, -⟩⟩
    · exact heq
    · exact absurd hleading (hapart f hf _ (destination_mem_writes d.cwd o f) loc hplace).2
    · exact absurd hwrite ((hapart f hf).not_mem hplace)
  · rcases hcases loc with heq | ⟨f, hf, ⟨-, hnone, hfolder⟩ | ⟨hwrite, -⟩⟩
    · exact .inl heq
    · exact .inr ⟨hnone, hfolder⟩
    · exact absurd habove (hapart f hf loc hwrite place hplace).1

/-- One more entry makes its own changes and takes none back. -/
theorem concat (h : Combines o d es c) (htree : d.IsTree) (hstraight : IsStraight d o e)
    (hahead : AheadFor d c (footprint d.cwd o e))
    (hsame : SameChange d (generate d o e).2 c (generate c o e).2) :
    Combines o d (es ++ [e]) (generate c o e).2 := by
  have hchanges := changes_generate c o e
  rw [h.cwd] at hchanges
  have hkept : ∀ loc, (generate d o e).2.get? loc = d.get? loc →
      (generate c o e).2.get? loc = c.get? loc := by
    intro loc halone
    rcases hsame loc with ⟨-, heq⟩ | heq
    · exact heq
    · -- what the entry finds and leaves as it was on the first disk is here so already
      rcases hchanges.get? loc with hsame' | ⟨-, hnone, hfolder⟩ | ⟨hwrite, -, -⟩
      · exact hsame'
      · rw [hahead.folder loc (by rw [← halone, ← heq, hfolder])] at hnone
        cases hnone
      · rw [heq, halone, hahead.places loc (mem_places_of_mem_writes hwrite)]
  -- what the entry changes when alone it changes here in the same way
  have hown : ∀ loc, (generate d o e).2.get? loc ≠ d.get? loc →
      (generate c o e).2.get? loc = (generate d o e).2.get? loc := by
    intro loc hne
    rcases hsame loc with ⟨halone, -⟩ | heq
    · exact absurd halone hne
    · exact heq
  refine ⟨hchanges.cwd.trans h.cwd, fun f hf loc hne => ?_, fun loc hall => ?_⟩
  · rcases List.mem_append.1 hf with hf | hf
    · have hthere := h.changed f hf loc hne
      rw [← hthere] at hne ⊢
      by_cases halone : (generate d o e).2.get? loc = d.get? loc
      · exact hkept loc halone
      · -- two entries change the same place: it is a folder above both pages
        rcases generate_changed htree hstraight halone with ⟨hleading, -, hfolder⟩ | ⟨hwrite, -⟩
        · have hplace := mem_places_of_mem_writes (destination_mem_writes d.cwd o e)
          rcases hahead.above _ hplace loc hleading with heq | ⟨-, hfolder'⟩
          · exact absurd heq hne
          · rw [hown loc halone, hfolder, hfolder']
        · exact absurd (hahead.places loc (mem_places_of_mem_writes hwrite)) hne
    · obtain rfl := List.mem_singleton.1 hf
      exact hown loc hne
  · rw [List.forall_mem_append, List.forall_mem_singleton] at hall
    rw [hkept loc hall.2, h.unchanged loc hall.1]

end Combines

/-! ### All entries -/

/-- The report on entries of which each is alone on the disk. -/
def reportAlone (o : Options) (d : Disk) (es : List Entry) : GenerateReport :=
  es.foldr (fun e report => report.cons e (generate d o e).1) {}

/-- The entries before have combined their changes, and so do the ones that are still to come. -/
theorem generateAll_combines (before : List Entry) (htree : d.IsTree)
    (h : Independent d o (before ++ es)) (hc : Combines o d before c) :
    (generateAll o c es).1 = reportAlone o d es ∧
      Combines o d (before ++ es) (generateAll o c es).2 := by
  -- the pages done so far carry over: the disk is the first one with their changes on top
  induction es generalizing before c with
  | nil =>
    rw [List.append_nil]
    exact ⟨rfl, hc⟩
  | cons e es ih =>
    have hmem : e ∈ before ++ e :: es := by simp
    have hbefore : ∀ f ∈ before, f ∈ before ++ e :: es := fun f hf => List.mem_append_left _ hf
    -- none of them touched what this page reads or writes
    have hahead := hc.aheadFor htree (fun f hf => h.straight f (hbefore f hf)) fun f hf =>
      ((List.pairwise_append.1 h.apart).2.2 f hf e List.mem_cons_self).1
    obtain ⟨hresult, hchange⟩ := generate_ahead htree (h.straight e hmem) hahead (h.names e hmem)
    have hconcat := hc.concat htree (h.straight e hmem) hahead hchange
    rw [List.append_cons] at h ⊢
    obtain ⟨hreport, hrest⟩ := ih _ h hconcat
    rw [generateAll_cons, hreport, hresult]
    exact ⟨rfl, hrest⟩

/-- An entry whose source cannot be read fails with the path of the source and leaves the disk as it
is. -/
theorem generate_of_read_error {error : DiskError} (h : d.read (o.source e) = .error error) :
    generate d o e = (.error (.readSource (o.source e) error), d) := by
  unfold generate generatePage
  rw [page_of_read_error h]

/-! ### Three lists -/

def written? : Except Failure Generated → Option String
  | .ok (.written destination) => some destination
  | _ => none

def skipped? (e : Entry) : Except Failure Generated → Option Subject
  | .ok .skipped => some e.subject
  | _ => none

def failure? (e : Entry) : Except Failure Generated → Option EntryFailure
  | .error failure => some (.of e failure)
  | .ok _ => none

/-- A report tells of each entry what happens to it on a disk where it is alone, in one of the three
lists, and each list is in the order of the entries. -/
structure ReportsAlone (o : Options) (d : Disk) (es : List Entry) (r : GenerateReport) : Prop where
  written : r.written = es.filterMap fun e => written? (generate d o e).1
  skipped : r.skipped = es.filterMap fun e => skipped? e (generate d o e).1
  failures : r.failures = es.filterMap fun e => failure? e (generate d o e).1
  total : r.written.length + r.skipped.length + r.failures.length = es.length

/-- The report that is put together entry by entry tells of each entry what happens to it alone. -/
theorem reportsAlone_reportAlone (o : Options) (d : Disk) (es : List Entry) :
    ReportsAlone o d es (reportAlone o d es) := by
  induction es with
  | nil => exact ⟨rfl, rfl, rfl, rfl⟩
  | cons e es ih =>
    obtain ⟨hwritten, hskipped, hfailures, htotal⟩ := ih
    have hcons : reportAlone o d (e :: es) = (reportAlone o d es).cons e (generate d o e).1 := rfl
    rw [hcons]
    constructor <;> rcases hg : (generate d o e).1 with failure | ⟨destination⟩ | _
    case total.error | total.ok.written | total.ok.skipped =>
      simp only [GenerateReport.cons, List.length_cons]
      omega
    all_goals
      simp [GenerateReport.cons, hg, written?, skipped?, failure?, hwritten, hskipped, hfailures]

/-- The same stands everywhere on two disks, and paths start in the same folder. -/
structure SameDisk (d d' : Disk) : Prop where
  cwd : d'.cwd = d.cwd
  get? : ∀ loc, d'.get? loc = d.get? loc

/-- **Entries come out as if each was alone.** Entries that keep out of each other's footprints, on
a disk that is a tree, end up in the list of the report and with the changes to the disk that each
of them has when it is alone, whatever happens to the others. So their order is no matter: any other
one gives the same disk and the same lists in that order. -/
theorem generateAll_independent (htree : d.IsTree) (h : Independent d o es) :
    ReportsAlone o d es (generateAll o d es).1 ∧ Combines o d es (generateAll o d es).2 ∧
      ∀ es' : List Entry, es'.Perm es →
        SameDisk (generateAll o d es).2 (generateAll o d es').2 ∧
        (generateAll o d es').1.written.Perm (generateAll o d es).1.written ∧
        (generateAll o d es').1.skipped.Perm (generateAll o d es).1.skipped ∧
        (generateAll o d es').1.failures.Perm (generateAll o d es).1.failures := by
  have hrun : ∀ es' : List Entry, Independent d o es' →
      ReportsAlone o d es' (generateAll o d es').1 ∧ Combines o d es' (generateAll o d es').2 := by
    intro es' h'
    obtain ⟨hreport, hcombines⟩ := generateAll_combines [] htree h' (.nil o d)
    rw [hreport]
    exact ⟨reportsAlone_reportAlone o d es', hcombines⟩
  obtain ⟨hreport, hcombines⟩ := hrun es h
  refine ⟨hreport, hcombines, fun es' hperm => ?_⟩
  obtain ⟨hreport', hcombines'⟩ := hrun es' (h.perm hperm)
  rw [hreport.written, hreport.skipped, hreport.failures, hreport'.written, hreport'.skipped,
    hreport'.failures]
  refine ⟨⟨hcombines'.cwd.trans hcombines.cwd.symm, fun loc => ?_⟩, hperm.filterMap _,
    hperm.filterMap _, hperm.filterMap _⟩
  -- a place that an entry changes is as this entry leaves it, and all others are as they were
  rcases hcombines.eq_or_changed loc with heq | ⟨f, hf, hne, heq⟩
  · rcases hcombines'.eq_or_changed loc with heq' | ⟨f, hf, hne, -⟩
    · rw [heq, heq']
    · rw [hcombines.changed f (hperm.subset hf) loc hne, hcombines'.changed f hf loc hne]
  · rw [heq, hcombines'.changed f (hperm.symm.subset hf) loc hne]

end Runs

/-! ### Four entries that share a folder -/

namespace Shared

/-- Pages go into a folder beside the project, which the first one of them makes. -/
def options : Options := { outputRoot := "../pages" }

/-- An entry whose source is missing, among entries that are written or skipped. -/
def entries : List Entry :=
  [Detour.entry "A" "page.md", ⟨"gone/c.ts", "c.md", ⟨.hook, "useC"⟩, none⟩,
    Detour.entry "A" "sub/page.md", Detour.entry "B" "b.md"]

end Shared

theorem generateAll_independent_shared :
    Detour.disk.IsTree ∧ Independent Detour.disk Shared.options Shared.entries ∧
      (generateAll Shared.options Detour.disk Shared.entries).1 =
        ⟨["./../pages/page.md", "./../pages/sub/page.md"], [⟨.classKind, "B"⟩],
          [⟨⟨.hook, "useC"⟩, "gone/c.ts", .readSource "./gone/c.ts" .notFound⟩]⟩ ∧
      SameDisk (generateAll Shared.options Detour.disk Shared.entries).2
        (generateAll Shared.options Detour.disk Shared.entries.reverse).2 := by
  have htree : Detour.disk.IsTree := Disk.isTree_of_items (by decide +kernel) (by decide +kernel)
  have hindependent : Independent Detour.disk Shared.options Shared.entries :=
    ⟨by decide +kernel, by decide +kernel, by decide +kernel⟩
  exact ⟨htree, hindependent, by decide +kernel,
    ((generateAll_independent htree hindependent).2.2 _ (List.reverse_perm _)).1⟩

/-! ### A name that is too long -/

namespace LongName

/-- A name with 256 letters, one more than the name of a file can have. -/
def name : String := String.ofList (List.replicate 256 'a')

/-- An entry whose source is in a folder that is missing. -/
def entry : Entry := ⟨"out/" ++ name, "c.md", ⟨.hook, "useC"⟩, none⟩

/-- An entry that makes the folder, and the one with the source in it. -/
def entries : List Entry := [Detour.entry "A" "page.md", entry]

theorem source_eq : Detour.options.source entry = "/".intercalate [".", "out", name] := by
  have habsolute : Path.isAbsolute ("out/" ++ name) = false := by
    rw [Path.isAbsolute, String.toList_append]
    rfl
  have hjoin : Detour.options.source entry = "." ++ "/" ++ ("out/" ++ name) := by
    rw [Options.source, Path.join]
    simp only [Detour.options, entry, habsolute]
    rfl
  rw [hjoin]
  generalize name = name
  apply String.toList_injective
  simp

theorem slash_notMem (length : Nat) :
    '/' ∉ (String.ofList (List.replicate length 'a')).toList := by
  rw [String.toList_ofList]
  intro h
  exact absurd (List.eq_of_mem_replicate h) (by decide)

theorem pieces_source : Path.pieces (Detour.options.source entry) = [".", "out", name] := by
  have hslash : ∀ p ∈ [".", "out", name], '/' ∉ p.toList := by
    simp only [List.forall_mem_cons]
    exact ⟨by decide, by decide, slash_notMem 256, by simp⟩
  rw [source_eq, Path.pieces_intercalate (by simp) hslash]

theorem isAbsolute_source : Path.isAbsolute (Detour.options.source entry) = false := by
  rw [Bool.eq_false_iff, Ne, Path.isAbsolute_iff, pieces_source]
  simp

theorem locate_source (hcwd : d.cwd = ["project"]) :
    d.locate (Detour.options.source entry) = d.walk ["project"] [".", "out", name] := by
  have hne : Detour.options.source entry ≠ "" := by
    rw [source_eq]
    decide +kernel
  have hshort : ¬Disk.maxPathLength < (Detour.options.source entry).utf8ByteSize := by
    rw [source_eq]
    decide +kernel
  have horigin : d.origin (Detour.options.source entry) = ["project"] := by
    rw [Disk.origin, isAbsolute_source, hcwd]
    rfl
  rw [Disk.locate, if_neg hne, if_neg hshort, horigin, pieces_source]

theorem walk_source (hproject : d.get? ["project"] = some .folder) :
    d.walk ["project"] [".", "out", name] = d.walk ["project", "out"] [name] := by
  have hdot : Disk.step ["project"] "." = .ok ["project"] := rfl
  have hout : Disk.step ["project"] "out" = .ok ["project", "out"] := rfl
  rw [Disk.walk_cons_of_folder _ hproject hdot, Disk.walk_cons_of_folder _ hproject hout]

/-- While the folder is missing, so is the source. -/
theorem read_missing (hcwd : d.cwd = ["project"]) (hproject : d.get? ["project"] = some .folder)
    (hout : d.get? ["project", "out"] = none) :
    d.read (Detour.options.source entry) = .error .notFound := by
  have hwalk : d.walk ["project", "out"] [name] = .error .notFound := by
    simp only [Disk.walk, hout]
  rw [Disk.read, locate_source hcwd, walk_source hproject, hwalk]

theorem read_long (hcwd : d.cwd = ["project"]) (hproject : d.get? ["project"] = some .folder)
    (hout : d.get? ["project", "out"] = some .folder) :
    d.read (Detour.options.source entry) = .error .nameTooLong := by
  have hname : Disk.step ["project", "out"] name = .error .nameTooLong := by decide +kernel
  have hwalk : d.walk ["project", "out"] [name] = .error .nameTooLong := by
    simp only [Disk.walk, hout, hname]
  rw [Disk.read, locate_source hcwd, walk_source hproject, hwalk]

theorem footprint_entry : footprint ["project"] Detour.options entry =
    ⟨["project", "out", name], ["project", "out", "c.md"],
      [["project", "out", ".c.md.refdoc-tmp"]]⟩ := by
  have hsource : resolve ["project"] (Detour.options.source entry) = ["project", "out", name] := by
    rw [resolve, pieces_source, Location.origin, isAbsolute_source]
    decide +kernel
  have hdestination : resolve ["project"] (Detour.options.destination entry) =
      ["project", "out", "c.md"] := by decide +kernel
  have htemporary : temporaryLocations ["project"] (Detour.options.destination entry) =
      [["project", "out", ".c.md.refdoc-tmp"]] := by decide +kernel
  rw [footprint, hsource, hdestination, htemporary]

theorem straight_entry : IsStraight Detour.disk Detour.options entry := by
  refine ⟨?_, by decide +kernel⟩
  rw [Disk.StraightPath, pieces_source]
  decide +kernel

end LongName

/-- What is reported of a source that is missing may depend on the other entries: once there is its
folder, its name is looked at. -/
theorem longName_reported :
    Detour.disk.IsTree ∧
      (LongName.entries.Pairwise fun e f =>
        (footprint Detour.disk.cwd Detour.options e).Avoids
            (footprint Detour.disk.cwd Detour.options f) ∧
          (footprint Detour.disk.cwd Detour.options f).Avoids
            (footprint Detour.disk.cwd Detour.options e)) ∧
      (∀ e ∈ LongName.entries, IsStraight Detour.disk Detour.options e) ∧
      (generate Detour.disk Detour.options LongName.entry).1 =
        .error (.readSource (Detour.options.source LongName.entry) .notFound) ∧
      (generateAll Detour.options Detour.disk LongName.entries).1.failures =
        [.of LongName.entry
          (.readSource (Detour.options.source LongName.entry) .nameTooLong)] := by
  refine ⟨Disk.isTree_of_items (by decide +kernel) (by decide +kernel), ?_, ?_, ?_, ?_⟩
  · have hapart : (footprint ["project"] Detour.options (Detour.entry "A" "page.md")).Avoids
          (footprint ["project"] Detour.options LongName.entry) ∧
        (footprint ["project"] Detour.options LongName.entry).Avoids
          (footprint ["project"] Detour.options (Detour.entry "A" "page.md")) := by
      rw [LongName.footprint_entry]
      decide +kernel
    exact List.pairwise_pair.2 hapart
  · rw [LongName.entries, List.forall_mem_cons, List.forall_mem_singleton]
    exact ⟨by decide +kernel, LongName.straight_entry⟩
  · rw [generate_of_read_error (LongName.read_missing rfl
      (Disk.any_isFolder_iff.1 (by decide +kernel)) (by rfl))]
  -- once the folder is there, the walk gets as far as the name
  · have hmade : (generate Detour.disk Detour.options (Detour.entry "A" "page.md")).2.get?
        ["project", "out"] = some .folder := Disk.any_isFolder_iff.1 (by decide +kernel)
    have hkeeps := (changes_generate Detour.disk Detour.options (Detour.entry "A" "page.md")).keeps
    have hread := LongName.read_long (hkeeps.cwd.trans rfl)
      (hkeeps.folder (Disk.any_isFolder_iff.1 (by decide +kernel))) hmade
    have hwritten : (generate Detour.disk Detour.options (Detour.entry "A" "page.md")).1 =
        .ok (.written "./out/page.md") := by decide +kernel
    rw [LongName.entries, generateAll_cons, hwritten, generateAll_cons,
      generate_of_read_error hread]
    rfl

end RefPages.Project
