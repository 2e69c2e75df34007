import RefPages.Project.Load
import RefPages.Proofs.Page.Front
import RefPages.Proofs.Project.Agreement

/-!
# Pages that a run keeps

Entries are generated one after the other, and nothing keeps two of them apart: settings may give
the same destination twice. A page that was written is still there after the run unless an entry
that is written later has its page or its temporary file in the same place.

    before ++ e :: after
      │              │
      │              └─ must not write where the page of e stands
      └─ cannot have written where the source of e stands

The page shows its source as it was before the run, whatever was written earlier: a page that is
written over a source is no source file, so the run fails when the source is read, and a temporary
file is gone by then.
-/

namespace RefPages.Project

open Disk (Changes)
open Location (resolve)

/-! ### Texts of files -/

theorem fromUTF8?_toUTF8 (s : String) : String.fromUTF8? s.toUTF8 = some s := by
  unfold String.fromUTF8?
  split
  · rfl
  · next h => exact absurd s.isValidUTF8 h

theorem readText_of_read {d : Disk} {path text : String} (h : d.read path = .ok text.toUTF8) :
    d.readText path = .ok text := by
  rw [Disk.readText, h]
  simp only [fromUTF8?_toUTF8]

section Runs

variable [SourceFile.ErrorPlaces]

/-! ### Pages from bytes -/

def pageOfContent (o : Options) (e : Entry) (content : ByteArray) :
    Except Failure (Option String) :=
  match String.fromUTF8? content with
  | none => .error (.readSource (o.source e) .invalidText)
  | some text =>
    match SourceFile.parse (o.source e) text with
    | .error failure => .error failure
    | .ok f => pageOf o e (referenceIn o e f)

/-- The page of an entry depends on the disk only by the bytes of the source. -/
theorem page_of_read {d : Disk} {o : Options} {e : Entry} {content : ByteArray}
    (h : d.read (o.source e) = .ok content) : page d o e = pageOfContent o e content := by
  unfold page extract openSource Disk.readText pageOfContent
  rw [h]
  cases htext : String.fromUTF8? content with
  | none => simp only [htext, pageOf]
  | some text =>
    simp only [htext]
    cases SourceFile.parse (o.source e) text <;> rfl

theorem eq_render_of_pageOfContent {o : Options} {e : Entry} {content : ByteArray} {text : String}
    (h : pageOfContent o e content = .ok (some text)) : ∃ r, text = Page.render e r o := by
  unfold pageOfContent at h
  split at h
  · cases h
  · split at h
    · cases h
    · unfold pageOf at h
      split at h <;> cases h
      exact ⟨_, rfl⟩

/-- A page in the place of a source gives no page. -/
theorem pageOfContent_render (o o' : Options) (e e' : Entry) (r : Reference) :
    ∃ failure, pageOfContent o e (Page.render e' r o').toUTF8 = .error failure := by
  unfold pageOfContent
  simp only [fromUTF8?_toUTF8, SourceFile.parse]
  cases SourceFile.dialect? (o.source e) with
  | none => exact ⟨_, rfl⟩
  | some dialect =>
    simp only [Page.parse?_render]
    exact ⟨_, rfl⟩

/-! ### One entry -/

/-- An entry that succeeds and writes no page leaves the disk as it is. -/
theorem generate_of_not_wrote {d : Disk} {o : Options} {e : Entry} {g : Generated}
    (h : (generate d o e).1 = .ok g) (hwrote : wrote (generate d o e).1 = false) :
    (generate d o e).2 = d := by
  rcases generate_cases d o e with ⟨_, -, hrun⟩ | ⟨-, hrun⟩ | ⟨_, -, -, hrun⟩ |
      ⟨_, _, _, _, -, -, -, hrun⟩ | ⟨_, _, _, -, -, -, hrun⟩ <;>
    rw [hrun] at h hwrote ⊢ <;> cases h
  cases hwrote

/-- How a page was written, if one was. -/
theorem generate_eq_of_wrote {d : Disk} {o : Options} {e : Entry}
    (h : wrote (generate d o e).1 = true) :
    ∃ text name d', page d o e = .ok (some text) ∧
      Path.fileName? (o.destination e) = some name ∧
      replaceFile d (o.destination e) name text = (none, d') ∧
      generate d o e = (.ok (.written (o.destination e)), d') := by
  rcases generate_cases d o e with ⟨_, -, hrun⟩ | ⟨-, hrun⟩ | ⟨_, -, -, hrun⟩ |
      ⟨_, _, _, _, -, -, -, hrun⟩ | hrun
  · simp [hrun, wrote] at h
  · simp [hrun, wrote] at h
  · simp [hrun, wrote] at h
  · simp [hrun, wrote] at h
  · exact hrun

/-- What is behind a page that was written: the bytes it was made from, and its place. -/
theorem generate_of_wrote {d : Disk} {o : Options} {e : Entry}
    (h : wrote (generate d o e).1 = true) :
    ∃ content text, d.get? (resolve d.cwd (o.source e)) = some (.file content) ∧
      pageOfContent o e content = .ok (some text) ∧
      (generate d o e).2.locate (o.destination e) = .ok (resolve d.cwd (o.destination e)) ∧
      (generate d o e).2.get? (resolve d.cwd (o.destination e)) = some (.file text.toUTF8) := by
  obtain ⟨text, name, d', hpage, hname, hreplace, hrun⟩ := generate_eq_of_wrote h
  rw [hrun]
  obtain ⟨content, hread⟩ := read_of_page hpage
  obtain ⟨-, hlocate, hfile, -⟩ := replaceFile_written hname hreplace
  refine ⟨content, text, (Disk.read_eq_ok hread).2, ?_, hlocate, hfile⟩
  rw [← page_of_read hread, hpage]

/-- A file that is there after an entry was written was there before, but for the page itself. -/
theorem file_of_wrote {d : Disk} {o : Options} {e : Entry} {loc : Location} {content : ByteArray}
    (h : wrote (generate d o e).1 = true) (hloc : resolve d.cwd (o.destination e) ≠ loc)
    (hfile : (generate d o e).2.get? loc = some (.file content)) :
    d.get? loc = some (.file content) := by
  obtain ⟨text, name, d', -, hname, hreplace, hrun⟩ := generate_eq_of_wrote h
  have hthere : d'.get? loc = some (.file content) := by
    rw [hrun] at hfile
    exact hfile
  obtain ⟨hchanges, -, -, hgone⟩ := replaceFile_written hname hreplace
  -- the page changed this location, made a folder of it, or removed its temporary file there
  rcases hchanges.get? loc with heq | ⟨-, -, hfolder⟩ | ⟨hmem, -, -⟩
  · rw [← heq, hthere]
  · simp [hthere] at hfolder
  · have hplace : loc = resolve d.cwd (temporaryPath (o.destination e) name) := by
      simpa [Ne.symm hloc] using hmem
    rw [← hplace, hthere] at hgone
    cases hgone

/-- A source that is there after an entry was written was there before: a page is no source. -/
theorem source_of_wrote {d : Disk} {o : Options} {e f : Entry} {content : ByteArray} {text : String}
    (h : wrote (generate d o f).1 = true) (hpage : pageOfContent o e content = .ok (some text))
    (hfile : (generate d o f).2.get? (resolve d.cwd (o.source e)) = some (.file content)) :
    d.get? (resolve d.cwd (o.source e)) = some (.file content) := by
  refine file_of_wrote h ?_ hfile
  intro hplace
  obtain ⟨_, written, -, hwritten, -, hthere⟩ := generate_of_wrote h
  obtain ⟨r, rfl⟩ := eq_render_of_pageOfContent hwritten
  -- the content would be a page, and a page is never read as a source
  rw [hplace, hfile] at hthere
  cases hthere
  obtain ⟨failure, hfailure⟩ := pageOfContent_render o o e f r
  rw [hfailure] at hpage
  cases hpage

/-! ### The entries before and after -/

theorem writtenEntries_cons_of_wrote {d : Disk} {o : Options} {e : Entry} {es : List Entry}
    (h : wrote (generate d o e).1 = true) :
    writtenEntries o d (e :: es) = e :: writtenEntries o (generate d o e).2 es := by
  rw [writtenEntries, h]
  rfl

theorem writtenEntries_cons_of_not_wrote {d : Disk} {o : Options} {e : Entry} {es : List Entry}
    (h : wrote (generate d o e).1 = false) :
    writtenEntries o d (e :: es) = writtenEntries o (generate d o e).2 es := by
  rw [writtenEntries, h]
  rfl

/-- A run that ends well leaves a file alone unless an entry that it writes has the file's place. -/
theorem generateAll_file_of_written {o : Options} {d : Disk} {es : List Entry} {loc : Location}
    {content : ByteArray} (hok : (generateAll o d es).1.isOk = true)
    (hloc : ∀ f ∈ writtenEntries o d es, loc ∉ (footprint d.cwd o f).writes)
    (h : d.get? loc = some (.file content)) :
    (generateAll o d es).2.get? loc = some (.file content) := by
  induction es generalizing d with
  | nil => exact h
  | cons e es ih =>
    have hchanges := changes_generate d o e
    rw [generateAll_cons] at hok ⊢
    obtain ⟨⟨g, hg⟩, hrest⟩ := GenerateReport.isOk_cons hok
    cases hwrote : wrote (generate d o e).1 with
    -- an entry that writes nothing leaves the disk to the others as it is
    | false =>
      rw [writtenEntries_cons_of_not_wrote hwrote] at hloc
      rw [generate_of_not_wrote hg hwrote] at hrest hloc ⊢
      exact ih hrest hloc h
    | true =>
      rw [writtenEntries_cons_of_wrote hwrote, List.forall_mem_cons] at hloc
      refine ih hrest ?_ (hchanges.get?_file hloc.1 h)
      rw [hchanges.cwd]
      exact hloc.2

/-- **A page is kept where no later page comes into its place.** After a run that ends well, the
page of an entry that was written stands at its destination, made from its source as it was before
the run, if no entry written later writes there.

The source is looked up by its location, since its path may lead through a folder that the run
itself makes. -/
theorem generateAll_kept {o : Options} {d : Disk} {es before after : List Entry} {e : Entry}
    (hok : (generateAll o d es).1.isOk = true)
    (hwritten : writtenEntries o d es = before ++ e :: after)
    (hplace : ∀ f ∈ after, resolve d.cwd (o.destination e) ∉ (footprint d.cwd o f).writes) :
    ∃ content text, d.get? (resolve d.cwd (o.source e)) = some (.file content) ∧
      pageOfContent o e content = .ok (some text) ∧
      (generateAll o d es).2.read (o.destination e) = .ok text.toUTF8 := by
  induction es generalizing d before with
  | nil => simp [writtenEntries] at hwritten
  | cons f es ih =>
    have hcwd : (generate d o f).2.cwd = d.cwd := (changes_generate d o f).cwd
    rw [generateAll_cons] at hok ⊢
    obtain ⟨⟨g, hg⟩, hrest⟩ := GenerateReport.isOk_cons hok
    cases hwrote : wrote (generate d o f).1 with
    | false =>
      rw [writtenEntries_cons_of_not_wrote hwrote] at hwritten
      rw [generate_of_not_wrote hg hwrote] at hrest hwritten ⊢
      exact ih hrest hwritten hplace
    | true =>
      rw [writtenEntries_cons_of_wrote hwrote] at hwritten
      cases before with
      | nil =>
        -- the page is written here, and the rest of the run leaves it alone
        obtain ⟨rfl, rfl⟩ := List.cons.inj hwritten
        obtain ⟨content, text, hcontent, hpage, hlocate, hfile⟩ := generate_of_wrote hwrote
        refine ⟨content, text, hcontent, hpage, ?_⟩
        have hkeeps := keeps_generateAll o (generate d o f).2 es
        refine Disk.read_of_get? (Disk.locate_of_keeps hkeeps hlocate) ?_
        refine generateAll_file_of_written hrest ?_ hfile
        rw [hcwd]
        exact hplace
      | cons k before =>
        -- the page is written later, and its source was there before this entry
        obtain ⟨rfl, hlater⟩ := List.cons.inj hwritten
        obtain ⟨content, text, hcontent, hpage, hread⟩ :=
          ih hrest hlater (by rw [hcwd]; exact hplace)
        rw [hcwd] at hcontent
        exact ⟨content, text, source_of_wrote hwrote hpage hcontent, hpage, hread⟩

end Runs

/-! ### Two pages of one project -/

namespace Pair

def disk : Disk where
  items := [(["project"], .folder),
    (["project", "a.ts"], .file "/** One. */\nclass A {}\n/** Two. */\nclass B {}\n".toUTF8)]
  cwd := ["project"]

/-- A document that gives the classes the two destinations. -/
def document (first second : String) : String :=
  "docs = [[\"a.ts\", \"" ++ first ++ "\", \"A\"], [\"a.ts\", \"" ++ second ++ "\", \"B\"]]\n"

def entry (name destination : String) : Entry := ⟨"a.ts", destination, ⟨.classKind, name⟩, none⟩

def settings (first second : String) : Settings where
  entries := [entry "A" first, entry "B" second]

/-- What a table with a single key gives. -/
def ofSingle? : List (String × Toml.Value) → Option Settings
  | [(key, value)] => (Settings.apply {} key value).toOption
  | _ => none

/-- A document with a single key gives the settings that the key gives. -/
theorem ofToml_of_single {document : String} {s : Settings}
    (h : (Toml.parse? document).bind ofSingle? = some s) : Settings.ofToml document = .ok s := by
  obtain ⟨table, htable, hs⟩ := Option.bind_eq_some_iff.1 h
  unfold ofSingle? at hs
  split at hs
  · next key value =>
    have hsingle : Settings.ofTable [(key, value)] = Settings.apply {} key value := by
      simp [Settings.ofTable, Settings.sorted]
    unfold Settings.ofToml
    simp only [htable, hsingle]
    cases happly : Settings.apply {} key value with
    | error reason => simp [happly, Except.toOption] at hs
    | ok s' => simpa [happly, Except.toOption] using hs
  · cases hs

def options (first second : String) : Options := (settings first second).options "."

def run (first second : String) : GenerateReport × Disk :=
  generateAll (options first second) disk (settings first second).entries

/-- The settings are accepted and both pages are reported as written, but the first one is another
one after the run, or none. -/
structure Loses (first second : String) : Prop where
  settings : Settings.ofToml (document first second) = .ok (settings first second)
  selected : (Pair.settings first second).select [] = .ok [entry "A" first, entry "B" second]
  report : (run first second).1 = ⟨["./../" ++ first, "./../" ++ second], [], []⟩
  lost : ∃ text, page disk (options first second) (entry "A" first) = .ok (some text) ∧
    (run first second).2.read ("./../" ++ first) ≠ .ok text.toUTF8

/-- Are both pages reported, and is the first one another one after the run, or none? -/
def isLost (first second : String) : Bool :=
  match page disk (options first second) (entry "A" first), run first second with
  | .ok (some text), (report, d) =>
    decide (report = ⟨["./../" ++ first, "./../" ++ second], [], []⟩) &&
      !decide (d.readText ("./../" ++ first) = .ok text)
  | _, _ => false

/-- The check of the two documents is right: where it holds, a page is lost. -/
theorem loses_of_isLost {first second : String}
    (hsettings : (Toml.parse? (document first second)).bind ofSingle? =
      some (settings first second))
    (hlost : isLost first second = true) : Loses first second := by
  unfold isLost at hlost
  split at hlost
  · next text report d hpage hrun =>
    simp only [Bool.and_eq_true, Bool.not_eq_true', decide_eq_true_eq, decide_eq_false_iff_not]
      at hlost
    obtain ⟨hreport, hread⟩ := hlost
    refine ⟨ofToml_of_single hsettings, rfl, ?_, text, hpage, ?_⟩
    · rw [hrun, hreport]
    · rw [hrun]
      exact fun hbytes => hread (readText_of_read hbytes)
  · cases hlost

end Pair

theorem generateAll_kept_apart :
    Settings.ofToml (Pair.document "a.md" "b.md") = .ok (Pair.settings "a.md" "b.md") ∧
      ∃ content text,
        Pair.disk.get? ["project", "a.ts"] = some (.file content) ∧
        pageOfContent (Pair.options "a.md" "b.md") (Pair.entry "A" "a.md") content =
          .ok (some text) ∧
        (Pair.run "a.md" "b.md").2.read "./../a.md" = .ok text.toUTF8 := by
  have hok : (Pair.run "a.md" "b.md").1.isOk = true := by decide +kernel
  have hwritten : writtenEntries (Pair.options "a.md" "b.md") Pair.disk
      (Pair.settings "a.md" "b.md").entries =
      [] ++ Pair.entry "A" "a.md" :: [Pair.entry "B" "b.md"] := by decide +kernel
  exact ⟨Pair.ofToml_of_single (by decide +kernel),
    generateAll_kept hok hwritten (by decide +kernel)⟩

/-- Pages that the next one is written over, or that stand where its temporary file goes. -/
theorem written_pages_lost :
    Pair.Loses "page.md" "page.md" ∧ Pair.Loses ".page.md.refdoc-tmp" "page.md" := by
  constructor
  · exact Pair.loses_of_isLost (by decide +kernel) (by decide +kernel)
  · exact Pair.loses_of_isLost (by decide +kernel) (by decide +kernel)

end RefPages.Project
