import RefPages.Proofs.Project.Atomicity

/-!
# Generating and checking agree

A run over several entries that ends well leaves a disk on which every page is fresh and on which a
second run changes nothing. The entries have to keep out of each other's way:

* `NonInterfering` looks at the places an entry reads and writes: its source, its page and its
  temporary file;
* `ClearWays` looks at the folders on the way to a page. A path may enter a folder and leave it
  again by `..`, and a folder made like that may stand where an earlier entry wants to put its
  temporary file the next time. The entries `Detour.crossing` are such a case, so the first
  condition alone is not enough.

The proof goes entry by entry: what one entry leaves behind is still there after all the others, so
its page is the same (`page_of_keeps`) and generating it again changes nothing
(`generate_of_keeps`).
-/

namespace RefPages.Project

open Disk (Changes Keeps)
open Location (resolve waypoints)

/-! ### Entries that keep out of each other's way -/

namespace Footprint

/-- What one entry writes is not, is not above and is not below a place of the other. -/
def Avoids (f g : Footprint) : Prop :=
  ∀ a ∈ f.writes, ∀ b ∈ g.places, ¬a <+: b ∧ ¬b <+: a

instance (f g : Footprint) : Decidable (f.Avoids g) :=
  inferInstanceAs (Decidable (∀ a ∈ f.writes, ∀ b ∈ g.places, ¬a <+: b ∧ ¬b <+: a))

theorem Avoids.not_mem {f g : Footprint} (h : f.Avoids g) {loc : Location} (hloc : loc ∈ g.places) :
    loc ∉ f.writes :=
  fun hmem => (h loc hmem loc hloc).1 List.prefix_rfl

end Footprint

/-- Entries keep out of each other's footprints, and none writes over its own source. -/
structure NonInterfering (cwd : Location) (o : Options) (es : List Entry) : Prop where
  apart : es.Pairwise fun e f =>
    (footprint cwd o e).Avoids (footprint cwd o f) ∧ (footprint cwd o f).Avoids (footprint cwd o e)
  source : ∀ e ∈ es, (footprint cwd o e).source ∉ (footprint cwd o e).writes

/-- No temporary file has its place where the path to a later page goes through a folder. -/
def ClearWays (cwd : Location) (o : Options) (es : List Entry) : Prop :=
  es.Pairwise fun e f =>
    ∀ loc ∈ (footprint cwd o e).temporary, loc ∉ waypoints cwd (o.destination f)

instance (cwd : Location) (o : Options) (es : List Entry) : Decidable (ClearWays cwd o es) :=
  inferInstanceAs (Decidable (es.Pairwise fun e f =>
    ∀ loc ∈ (footprint cwd o e).temporary, loc ∉ waypoints cwd (o.destination f)))

theorem NonInterfering.tail {cwd : Location} {o : Options} {e : Entry} {es : List Entry}
    (h : NonInterfering cwd o (e :: es)) : NonInterfering cwd o es :=
  ⟨(List.pairwise_cons.1 h.apart).2, fun f hf => h.source f (List.mem_cons_of_mem _ hf)⟩

theorem GenerateReport.isOk_cons {e : Entry} {result : Except Failure Generated}
    {r : GenerateReport} (h : (r.cons e result).isOk = true) :
    (∃ g, result = .ok g) ∧ r.isOk = true := by
  cases result with
  | error failure => simp [GenerateReport.cons, GenerateReport.isOk] at h
  | ok g => cases g <;> exact ⟨⟨_, rfl⟩, h⟩

section Runs

variable [SourceFile.ErrorPlaces]

/-! ### What a run leaves alone

A property of disks that no single entry breaks holds after all of them. -/

/-- A run over several entries generates the first one and goes on from the disk that it leaves. -/
theorem generateAll_cons (o : Options) (d : Disk) (e : Entry) (es : List Entry) :
    generateAll o d (e :: es) =
      ((generateAll o (generate d o e).2 es).1.cons e (generate d o e).1,
        (generateAll o (generate d o e).2 es).2) := by
  rw [generateAll]

/-- What every entry preserves holds after the run. All later facts about runs come from this. -/
theorem generateAll_induction {o : Options} {d : Disk} {es : List Entry} {motive : Disk → Prop}
    (step : ∀ d', d'.cwd = d.cwd → ∀ e ∈ es, motive d' → motive (generate d' o e).2)
    (h : motive d) : motive (generateAll o d es).2 := by
  induction es generalizing d with
  | nil => exact h
  | cons e es ih =>
    rw [generateAll_cons]
    have hcwd : (generate d o e).2.cwd = d.cwd := (changes_generate d o e).cwd
    apply ih
    · intro d' hd' f hf
      exact step d' (hd'.trans hcwd) f (List.mem_cons_of_mem _ hf)
    · exact step d rfl e List.mem_cons_self h

/-- A run keeps all folders. -/
theorem keeps_generateAll (o : Options) (d : Disk) (es : List Entry) :
    Keeps d (generateAll o d es).2 := by
  apply generateAll_induction (motive := fun d' => Keeps d d')
  · intro d' _ e _ hkeeps
    exact hkeeps.trans (changes_generate d' o e).keeps
  · exact Keeps.refl d

/-- A file stays as it is unless an entry has its place. -/
theorem generateAll_file {o : Options} {d : Disk} {es : List Entry} {loc : Location}
    {content : ByteArray} (hloc : ∀ e ∈ es, loc ∉ (footprint d.cwd o e).writes)
    (h : d.get? loc = some (.file content)) :
    (generateAll o d es).2.get? loc = some (.file content) := by
  apply generateAll_induction (motive := fun d' => d'.get? loc = some (.file content)) _ h
  intro d' hcwd e he hfile
  have hchanges := changes_generate d' o e
  rw [hcwd] at hchanges
  exact hchanges.get?_file (hloc e he) hfile

/-- An empty place stays empty unless an entry has it or its way goes through it. -/
theorem generateAll_absent {o : Options} {d : Disk} {es : List Entry} {loc : Location}
    (hloc : ∀ e ∈ es, loc ∉ (footprint d.cwd o e).writes)
    (hway : ∀ e ∈ es, loc ∉ waypoints d.cwd (o.destination e)) (h : d.get? loc = none) :
    (generateAll o d es).2.get? loc = none := by
  apply generateAll_induction (motive := fun d' => d'.get? loc = none) _ h
  intro d' hcwd e he hnone
  have hchanges := changes_generate d' o e
  rw [hcwd] at hchanges
  exact hchanges.get?_absent (hloc e he) (hway e he) hnone

/-! ### What one entry leaves behind -/

/-- A page depends on the disk only through the text of its source. -/
theorem page_congr {d d' : Disk} {o : Options} {e : Entry}
    (h : d'.readText (o.source e) = d.readText (o.source e)) : page d' o e = page d o e := by
  unfold page extract openSource
  rw [h]

/-- There is no page where the source cannot be read. -/
theorem page_of_read_error {d : Disk} {o : Options} {e : Entry} {error : DiskError}
    (h : d.read (o.source e) = .error error) :
    page d o e = .error (.readSource (o.source e) error) := by
  unfold page extract openSource Disk.readText
  rw [h]
  rfl

/-- The source of a page that could be made is a file. -/
theorem read_of_page {d : Disk} {o : Options} {e : Entry} {text? : Option String}
    (h : page d o e = .ok text?) : ∃ content, d.read (o.source e) = .ok content := by
  cases hread : d.read (o.source e) with
  | ok content => exact ⟨content, rfl⟩
  | error error =>
    rw [page_of_read_error hread] at h
    cases h

/-- A page stays the same as long as its source does. -/
theorem page_of_keeps {d d' : Disk} {o : Options} {e : Entry} {text? : Option String}
    (h : page d o e = .ok text?) (hkeeps : Keeps d d')
    (hsource : ∀ content, d.get? (resolve d.cwd (o.source e)) = some (.file content) →
      d'.get? (resolve d.cwd (o.source e)) = some (.file content)) :
    page d' o e = .ok text? := by
  obtain ⟨content, hread⟩ := read_of_page h
  obtain ⟨hloc, hfile⟩ := Disk.read_eq_ok hread
  have hread' : d'.read (o.source e) = .ok content :=
    Disk.read_of_get? (Disk.locate_of_keeps hkeeps hloc) (hsource content hfile)
  rw [← h]
  refine page_congr ?_
  rw [Disk.readText, Disk.readText, hread, hread']

/-- A page that is on the disk as it would be written is fresh. -/
theorem check_of_read {d : Disk} {o : Options} {e : Entry} {text : String}
    (hpage : page d o e = .ok (some text)) (hread : d.read (o.destination e) = .ok text.toUTF8) :
    check d o e = .ok .fresh := by
  unfold check checkPage current
  rw [hpage]
  simp only [hread, if_true]

theorem check_of_skipped {d : Disk} {o : Options} {e : Entry} (hpage : page d o e = .ok none) :
    check d o e = .ok .skipped := by
  unfold check checkPage
  rw [hpage]

/-- What a check finds after an entry was generated. -/
def Generated.checked : Generated → Checked
  | .written _ => .fresh
  | .skipped => .skipped

/-- On every later disk that has the folders, the source and the page of an entry and nothing in the
place of its temporary file, generating it again changes nothing and a check finds it as it was
left. -/
theorem generate_of_keeps {d d' : Disk} {o : Options} {e : Entry} {g : Generated}
    (h : (generate d o e).1 = .ok g) (hkeeps : Keeps (generate d o e).2 d')
    (hown : (footprint d.cwd o e).source ∉ (footprint d.cwd o e).writes)
    (hfiles : ∀ loc ∈ (footprint d.cwd o e).places, ∀ content,
      (generate d o e).2.get? loc = some (.file content) → d'.get? loc = some (.file content))
    (hgone : ∀ loc ∈ (footprint d.cwd o e).temporary,
      (generate d o e).2.get? loc = none → d'.get? loc = none) :
    generate d' o e = (.ok g, d') ∧ check d' o e = .ok g.checked := by
  have hchanges := changes_generate d o e
  have hsource : ∀ content, d.get? (resolve d.cwd (o.source e)) = some (.file content) →
      d'.get? (resolve d.cwd (o.source e)) = some (.file content) := fun content hfile =>
    hfiles _ (source_mem_places d.cwd o e) content (hchanges.get?_file hown hfile)
  -- the source is as it was, and with it the page
  have hpage : ∀ text?, page d o e = .ok text? → page d' o e = .ok text? := fun text? htext =>
    page_of_keeps htext (hchanges.keeps.trans hkeeps) hsource
  -- of the five outcomes only two are no failure
  rcases generate_cases d o e with ⟨_, -, hrun⟩ | ⟨hnone, hrun⟩ | ⟨_, -, -, hrun⟩ |
      ⟨_, _, _, _, -, -, -, hrun⟩ | ⟨text, name, d₁, htext, hname, hreplace, hrun⟩ <;>
    rw [hrun] at h hkeeps hfiles hgone <;> cases h
  · exact ⟨generate_of_skipped (hpage _ hnone), check_of_skipped (hpage _ hnone)⟩
  · obtain ⟨hwritten, hlocate, hfile, habsent⟩ := replaceFile_written hname hreplace
    have hfile' := hfiles _ (mem_places_of_mem_writes (destination_mem_writes d.cwd o e)) _ hfile
    have habsent' := hgone _ ((mem_footprint_temporary hname).2 rfl) habsent
    refine ⟨generate_of_replaceFile (hpage _ htext) hname
      (replaceFile_of_keeps hname hreplace hkeeps hfile' habsent'), ?_⟩
    exact check_of_read (hpage _ htext)
      (Disk.read_of_get? (Disk.locate_of_keeps hkeeps hlocate) hfile')

/-! ### The whole run -/

def wrote : Except Failure Generated → Bool
  | .ok (.written _) => true
  | _ => false

def writtenEntries (o : Options) : Disk → List Entry → List Entry
  | _, [] => []
  | d, e :: es =>
    (if wrote (generate d o e).1 then [e] else []) ++ writtenEntries o (generate d o e).2 es

theorem checkAll_cons (o : Options) (d : Disk) (e : Entry) (es : List Entry) :
    checkAll o d (e :: es) = (checkAll o d es).cons e (check d o e) := by
  rw [checkAll, List.foldr_cons, ← checkAll]

/-- A page is written to the destination of its entry. -/
theorem eq_destination_of_written {d : Disk} {o : Options} {e : Entry} {destination : String}
    (h : (generate d o e).1 = .ok (.written destination)) : destination = o.destination e := by
  rcases generate_cases d o e with ⟨_, -, hrun⟩ | ⟨-, hrun⟩ | ⟨_, -, -, hrun⟩ |
      ⟨_, _, _, _, -, -, -, hrun⟩ | ⟨_, _, _, -, -, -, hrun⟩ <;>
    rw [hrun] at h <;> cases h
  rfl

/-- The destinations in a report are those of the entries that were written. -/
theorem written_generateAll (o : Options) (d : Disk) (es : List Entry) :
    (generateAll o d es).1.written = (writtenEntries o d es).map o.destination := by
  induction es generalizing d with
  | nil => rfl
  | cons e es ih =>
    rw [generateAll_cons, writtenEntries, List.map_append, ← ih]
    rcases hg : (generate d o e).1 with failure | ⟨destination⟩ | _
    · rfl
    · rw [eq_destination_of_written hg]
      rfl
    · rfl

/-- Entry by entry: the first one is not touched by the others, and the others are settled on the
disk that the first one left. -/
theorem generateAll_settled {o : Options} {d : Disk} {es : List Entry}
    (hfree : NonInterfering d.cwd o es) (hclear : ClearWays d.cwd o es)
    (hok : (generateAll o d es).1.isOk = true) :
    checkAll o (generateAll o d es).2 es =
        ⟨(writtenEntries o d es).map Entry.subject, [], (generateAll o d es).1.skipped, []⟩ ∧
      generateAll o (generateAll o d es).2 es = generateAll o d es := by
  induction es generalizing d with
  | nil => exact ⟨rfl, rfl⟩
  | cons e es ih =>
    obtain ⟨hapart, -⟩ := List.pairwise_cons.1 hfree.apart
    obtain ⟨hway, hclear'⟩ := List.pairwise_cons.1 hclear
    have hcwd : (generate d o e).2.cwd = d.cwd := (changes_generate d o e).cwd
    rw [generateAll_cons] at hok ⊢
    obtain ⟨⟨g, hg⟩, hrest⟩ := GenerateReport.isOk_cons hok
    -- the other entries
    obtain ⟨hchecked, hagain⟩ :=
      ih (d := (generate d o e).2) (by rw [hcwd]; exact hfree.tail) (by rwa [hcwd]) hrest
    -- what the first entry left is still there after them
    have hkeeps := keeps_generateAll o (generate d o e).2 es
    have hfiles : ∀ loc ∈ (footprint d.cwd o e).places, ∀ content,
        (generate d o e).2.get? loc = some (.file content) →
          (generateAll o (generate d o e).2 es).2.get? loc = some (.file content) := by
      intro loc hloc content hfile
      refine generateAll_file (fun f hf => ?_) hfile
      rw [hcwd]
      exact (hapart f hf).2.not_mem hloc
    have hgone : ∀ loc ∈ (footprint d.cwd o e).temporary, (generate d o e).2.get? loc = none →
        (generateAll o (generate d o e).2 es).2.get? loc = none := by
      intro loc hloc hnone
      refine generateAll_absent (fun f hf => ?_) (fun f hf => ?_) hnone
      · rw [hcwd]
        exact (hapart f hf).2.not_mem (mem_places_of_mem_writes (mem_writes_of_mem_temporary hloc))
      · rw [hcwd]
        exact hway f hf loc hloc
    obtain ⟨hgenerate, hcheck⟩ :=
      generate_of_keeps hg hkeeps (hfree.source e List.mem_cons_self) hfiles hgone
    refine ⟨?_, ?_⟩
    · rw [checkAll_cons, hchecked, hcheck, hg, writtenEntries, hg]
      cases g <;> rfl
    · rw [generateAll_cons, hgenerate, hagain, hg]

/-- **A run that ends well is confirmed by a check and by a second run.** Entries that keep out of
each other's way and are generated without failure are all fresh afterwards, those without a comment
apart, and generating them again gives the same report and the same disk. -/
theorem checkAll_generateAll {o : Options} {d : Disk} {es : List Entry}
    (hfree : NonInterfering d.cwd o es) (hclear : ClearWays d.cwd o es)
    (hok : (generateAll o d es).1.isOk = true) :
    (checkAll o (generateAll o d es).2 es).isOk = true ∧
      (checkAll o (generateAll o d es).2 es).fresh = (writtenEntries o d es).map Entry.subject ∧
      (generateAll o d es).1.written = (writtenEntries o d es).map o.destination ∧
      (checkAll o (generateAll o d es).2 es).skipped = (generateAll o d es).1.skipped ∧
      generateAll o (generateAll o d es).2 es = generateAll o d es := by
  obtain ⟨hchecked, hagain⟩ := generateAll_settled hfree hclear hok
  rw [hchecked]
  exact ⟨rfl, rfl, written_generateAll o d es, rfl, hagain⟩

end Runs

/-! ### A detour over a temporary file -/

namespace Detour

def disk : Disk where
  items := [(["project"], .folder),
    (["project", "a.ts"], .file "/** One. */\nclass A {}\nclass B {}\n".toUTF8)]
  cwd := ["project"]

/-- Pages go into a folder of the project. -/
def options : Options := { outputRoot := "out" }

def entry (name destination : String) : Entry := ⟨"a.ts", destination, ⟨.classKind, name⟩, none⟩

/-- Two pages next to each other, and a subject without a comment. -/
def straight : List Entry := [entry "A" "page.md", entry "A" "sub/page.md", entry "B" "b.md"]

/-- Two pages, of which the second is reached through a folder that has the name of the first one's
temporary file. -/
def crossing : List Entry := [entry "A" "page.md", entry "A" ".page.md.refdoc-tmp/../other.md"]

end Detour

theorem checkAll_generateAll_straight :
    NonInterfering Detour.disk.cwd Detour.options Detour.straight ∧
      ClearWays Detour.disk.cwd Detour.options Detour.straight ∧
      (generateAll Detour.options Detour.disk Detour.straight).1 =
        ⟨["./out/page.md", "./out/sub/page.md"], [⟨.classKind, "B"⟩], []⟩ ∧
      (checkAll Detour.options (generateAll Detour.options Detour.disk Detour.straight).2
        Detour.straight).isOk = true ∧
      generateAll Detour.options (generateAll Detour.options Detour.disk Detour.straight).2
        Detour.straight = generateAll Detour.options Detour.disk Detour.straight := by
  have hfree : NonInterfering Detour.disk.cwd Detour.options Detour.straight :=
    ⟨by decide +kernel, by decide +kernel⟩
  have hclear : ClearWays Detour.disk.cwd Detour.options Detour.straight := by decide +kernel
  have hreport : (generateAll Detour.options Detour.disk Detour.straight).1 =
      ⟨["./out/page.md", "./out/sub/page.md"], [⟨.classKind, "B"⟩], []⟩ := by decide +kernel
  have hok : (generateAll Detour.options Detour.disk Detour.straight).1.isOk = true := by
    rw [hreport]
    rfl
  obtain ⟨hchecked, -, -, -, hagain⟩ := checkAll_generateAll hfree hclear hok
  exact ⟨hfree, hclear, hreport, hchecked, hagain⟩

/-- Footprints alone are not enough: the first run ends well and makes a folder on its detour, and
in the second run the temporary file of the first page cannot be written there. -/
theorem nonInterfering_rerun_fails :
    NonInterfering Detour.disk.cwd Detour.options Detour.crossing ∧
      (generateAll Detour.options Detour.disk Detour.crossing).1.isOk = true ∧
      (generateAll Detour.options (generateAll Detour.options Detour.disk Detour.crossing).2
        Detour.crossing).1 ≠ (generateAll Detour.options Detour.disk Detour.crossing).1 :=
  ⟨⟨by decide +kernel, by decide +kernel⟩, by decide +kernel, by decide +kernel⟩

end RefPages.Project
