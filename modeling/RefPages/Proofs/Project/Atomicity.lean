import RefPages.Project.Check
import RefPages.Proofs.Disk.Change

/-!
# Atomicity of generating a page

Writing a page goes through three steps, each of which can fail: the folders on the way are made,
the temporary file is written, and the temporary file is moved into place.

    makeParents   ──▶   write temporary   ──▶   move temporary destination

`replaceFile_cases` says once what the disk is after each of the four endings. From it follow what a
run may change (`changes_generate`), that a run which did not write a page leaves every file but the
temporary one as it was (`replaceFile_failed`), and that writing the same page again changes nothing
(`replaceFile_of_keeps`).
-/

namespace RefPages.Project

open Disk (Changes Keeps)
open Location (resolve waypoints)

/-! ### The temporary file -/

def temporary? (path : String) : Option String :=
  (Path.fileName? path).map (temporaryPath path)

/-- Where the temporary file of a destination stands, if it has one. -/
def temporaryLocations (cwd : Location) (path : String) : List Location :=
  (temporary? path).toList.map (resolve cwd)

theorem length_temporaryName (name : String) : (temporaryName name).length = name.length + 12 := by
  have hdot : ".".length = 1 := rfl
  have hending : ".refdoc-tmp".length = 11 := rfl
  rw [temporaryName, String.length_append, String.length_append, hdot, hending]
  omega

/-- A name that is not twelve characters longer is not the temporary name. -/
theorem temporaryName_ne {name other : String} (h : other.length < name.length + 12) :
    temporaryName name ≠ other := by
  intro heq
  have := congrArg String.length heq
  rw [length_temporaryName] at this
  omega

/-- The name of the temporary file leads to a place of its own in the folder of the page. -/
theorem temporaryName_spec {path name : String} (h : Path.fileName? path = some name) :
    '/' ∉ (temporaryName name).toList ∧ Path.leads (temporaryName name) = true ∧
      temporaryName name ≠ ".." := by
  obtain ⟨before, idle, hpieces, -⟩ := Location.pieces_of_fileName? h
  have hmem : name ∈ Path.pieces path := by simp [hpieces]
  have hname : '/' ∉ name.toList := Path.not_mem_of_mem_pieces hmem
  have hshort : ∀ other : String, other.length ≤ 2 → temporaryName name ≠ other :=
    fun other hother => temporaryName_ne (by omega)
  refine ⟨?_, ?_, hshort ".." (by decide)⟩
  · have hdot : '/' ∉ ".".toList := by decide
    have hending : '/' ∉ ".refdoc-tmp".toList := by decide
    simp only [temporaryName, String.toList_append, List.mem_append, hdot, hname, hending,
      or_self, not_false_eq_true]
  · simp [Path.leads, hshort "" (by decide), hshort "." (by decide)]

/-- The temporary file stands in the folder of the page, under its own name. -/
theorem resolve_temporaryPath {path name : String} (cwd : Location)
    (h : Path.fileName? path = some name) :
    ∃ folder, resolve cwd path = folder ++ [name] ∧
      resolve cwd (temporaryPath path name) = folder ++ [temporaryName name] := by
  obtain ⟨hslash, hleads, hup⟩ := temporaryName_spec h
  exact Location.resolve_sibling h hslash hleads hup

/-- A page and its temporary file stand in different places. -/
theorem resolve_temporaryPath_ne {path name : String} (cwd : Location)
    (h : Path.fileName? path = some name) :
    resolve cwd (temporaryPath path name) ≠ resolve cwd path := by
  obtain ⟨folder, hpath, htemporary⟩ := resolve_temporaryPath cwd h
  rw [hpath, htemporary]
  have hname : temporaryName name ≠ name := temporaryName_ne (by omega)
  simpa using hname

/-- There is one place for the temporary file if the destination ends in a name. -/
theorem mem_temporaryLocations {cwd loc : Location} {path name : String}
    (hname : Path.fileName? path = some name) :
    loc ∈ temporaryLocations cwd path ↔ loc = resolve cwd (temporaryPath path name) := by
  simp [temporaryLocations, temporary?, hname]

/-- A destination is never the place of its own temporary file. -/
theorem resolve_not_mem_temporaryLocations (cwd : Location) (path : String) :
    resolve cwd path ∉ temporaryLocations cwd path := by
  cases hname : Path.fileName? path with
  | none => simp [temporaryLocations, temporary?, hname]
  | some name =>
    rw [mem_temporaryLocations hname]
    exact Ne.symm (resolve_temporaryPath_ne cwd hname)

/-! ### Footprints -/

/-- The places that an entry reads and writes. -/
structure Footprint where
  source : Location
  destination : Location
  /-- Where the temporary file stands, if the destination ends in a file name. -/
  temporary : List Location
deriving DecidableEq, Repr

namespace Footprint

def writes (f : Footprint) : List Location := f.destination :: f.temporary

def places (f : Footprint) : List Location := f.source :: f.writes

end Footprint

def footprint (cwd : Location) (o : Options) (e : Entry) : Footprint :=
  ⟨resolve cwd (o.source e), resolve cwd (o.destination e),
    temporaryLocations cwd (o.destination e)⟩

theorem mem_footprint_temporary {cwd loc : Location} {o : Options} {e : Entry} {name : String}
    (hname : Path.fileName? (o.destination e) = some name) :
    loc ∈ (footprint cwd o e).temporary ↔
      loc = resolve cwd (temporaryPath (o.destination e) name) := by
  simp only [footprint, mem_temporaryLocations hname]

theorem source_mem_places (cwd : Location) (o : Options) (e : Entry) :
    resolve cwd (o.source e) ∈ (footprint cwd o e).places := by
  simp [footprint, Footprint.places]

theorem destination_mem_writes (cwd : Location) (o : Options) (e : Entry) :
    resolve cwd (o.destination e) ∈ (footprint cwd o e).writes := by
  simp [footprint, Footprint.writes]

theorem mem_places_of_mem_writes {f : Footprint} {loc : Location} (h : loc ∈ f.writes) :
    loc ∈ f.places := List.mem_cons_of_mem _ h

theorem mem_writes_of_mem_temporary {f : Footprint} {loc : Location} (h : loc ∈ f.temporary) :
    loc ∈ f.writes := List.mem_cons_of_mem _ h

/-! ### The endings of writing a page -/

/-- The folders can be made and the temporary file be written, but it cannot be moved into place. -/
def MoveFails (d : Disk) (path temporary content : String) : Prop :=
  ∃ parents staged error, d.makeParents path = (none, parents) ∧
    parents.write temporary content.toUTF8 = .ok staged ∧
    staged.move temporary path = .error error

/-- What the disk is after each of the endings. -/
theorem replaceFile_cases (d : Disk) (path name content : String) :
    (∃ e, (d.makeParents path).1 = some e ∧
      replaceFile d path name content = (some e, (d.makeParents path).2)) ∨
    (∃ e parents, d.makeParents path = (none, parents) ∧
      parents.write (temporaryPath path name) content.toUTF8 = .error e ∧
      replaceFile d path name content = (some e, parents)) ∨
    (∃ e parents staged, d.makeParents path = (none, parents) ∧
      parents.write (temporaryPath path name) content.toUTF8 = .ok staged ∧
      staged.move (temporaryPath path name) path = .error e ∧
      replaceFile d path name content =
        (some e, staged.erase (resolve d.cwd (temporaryPath path name)))) ∨
    (∃ parents staged placed, d.makeParents path = (none, parents) ∧
      parents.write (temporaryPath path name) content.toUTF8 = .ok staged ∧
      staged.move (temporaryPath path name) path = .ok placed ∧
      replaceFile d path name content = (none, placed)) := by
  have hcwd := (Disk.changes_makeParents d path).cwd
  unfold replaceFile
  rcases hparents : d.makeParents path with ⟨_ | e, parents⟩
  · rw [hparents] at hcwd
    cases hwrite : parents.write (temporaryPath path name) content.toUTF8 with
    | error e => exact .inr (.inl ⟨e, parents, rfl, hwrite, by simp only [hwrite]⟩)
    | ok staged =>
      cases hmove : staged.move (temporaryPath path name) path with
      | ok placed =>
        refine .inr (.inr (.inr ⟨parents, staged, placed, rfl, hwrite, hmove, ?_⟩))
        simp only [hwrite, putInPlace, hmove]
      | error e =>
        refine .inr (.inr (.inl ⟨e, parents, staged, rfl, hwrite, hmove, ?_⟩))
        -- the temporary file is there, so taking it away cannot fail
        obtain ⟨hloc, -, hfree, rfl⟩ := Disk.write_eq_ok hwrite
        have hkeeps := (Disk.changes_set content.toUTF8 hfree).keeps
        have hfile := Disk.get?_set_self parents (.file content.toUTF8) (Disk.ne_root_of_get? hfree)
        have hremove := Disk.removeFile_of_get? (Disk.locate_of_keeps hkeeps hloc) hfile
        simp only [hwrite, putInPlace, hmove, hremove]
        rw [hcwd]
  · exact .inl ⟨e, rfl, rfl⟩

/-- Once the temporary file is written, it is all that has changed but for new folders. -/
theorem staged_spec {d parents staged : Disk} {path temporary : String} {content : ByteArray}
    (hmade : d.makeParents path = (none, parents))
    (hwrite : parents.write temporary content = .ok staged) :
    Changes [resolve d.cwd temporary] (waypoints d.cwd path) d staged ∧
      staged.get? (resolve d.cwd temporary) = some (.file content) := by
  have hparents := Disk.changes_makeParents d path
  rw [hmade] at hparents
  have hwritten := Disk.changes_write hwrite
  obtain ⟨-, -, hfree, rfl⟩ := Disk.write_eq_ok hwrite
  rw [hparents.cwd] at hwritten hfree ⊢
  exact ⟨(hparents.trans hwritten (by simp)).mono (by simp) (by simp),
    Disk.get?_set_self parents _ (Disk.ne_root_of_get? hfree)⟩

/-- A page that was not written: the disk differs at most in the temporary file and in new folders,
and the temporary file is gone where it could not be moved. -/
theorem replaceFile_failed {d d' : Disk} {path name content : String} {e : DiskError}
    (h : replaceFile d path name content = (some e, d')) :
    Changes [resolve d.cwd (temporaryPath path name)] (waypoints d.cwd path) d d' ∧
      (MoveFails d path (temporaryPath path name) content →
        d'.get? (resolve d.cwd (temporaryPath path name)) = none) := by
  have hparents := Disk.changes_makeParents d path
  rcases replaceFile_cases d path name content with ⟨_, hmade, hrun⟩ |
      ⟨_, parents, hmade, hwrite, hrun⟩ | ⟨_, parents, staged, hmade, hwrite, -, hrun⟩ |
      ⟨_, _, _, -, -, -, hrun⟩ <;> rw [hrun] at h <;> cases h
  · refine ⟨hparents.mono (by simp) (List.Subset.refl _), ?_⟩
    rintro ⟨parents, staged, _, hmade', -⟩
    rw [hmade'] at hmade
    cases hmade
  · rw [hmade] at hparents
    refine ⟨hparents.mono (by simp) (List.Subset.refl _), ?_⟩
    rintro ⟨parents', staged, _, hmade', hwrite', -⟩
    obtain rfl : d' = parents' := by simpa [hmade] using hmade'
    rw [hwrite] at hwrite'
    cases hwrite'
  -- only here the move was tried
  · obtain ⟨hstaged, hfile⟩ := staged_spec hmade hwrite
    have hnot : staged.get? (resolve d.cwd (temporaryPath path name)) ≠ some .folder := by
      simp [hfile]
    have herased := hstaged.trans (Disk.changes_erase hnot) (by simp)
    exact ⟨herased.mono (by simp) (by simp),
      fun _ => Disk.get?_erase_self staged (Disk.ne_root_of_get? hnot)⟩

/-- A page that was written stands at its destination, and its temporary file is gone. -/
theorem replaceFile_written {d d' : Disk} {path name content : String}
    (hname : Path.fileName? path = some name)
    (h : replaceFile d path name content = (none, d')) :
    Changes [resolve d.cwd path, resolve d.cwd (temporaryPath path name)] (waypoints d.cwd path)
        d d' ∧
      d'.locate path = .ok (resolve d.cwd path) ∧
      d'.get? (resolve d.cwd path) = some (.file content.toUTF8) ∧
      d'.get? (resolve d.cwd (temporaryPath path name)) = none := by
  rcases replaceFile_cases d path name content with ⟨_, -, hrun⟩ | ⟨_, _, -, -, hrun⟩ |
      ⟨_, _, _, -, -, -, hrun⟩ | ⟨parents, staged, placed, hmade, hwrite, hmove, hrun⟩ <;>
    rw [hrun] at h <;> cases h
  obtain ⟨hstaged, hfile⟩ := staged_spec hmade hwrite
  have hmoved := Disk.changes_move hmove
  obtain ⟨content', -, hfile', htarget, hfree, rfl⟩ := Disk.move_eq_ok hmove
  rw [hstaged.cwd] at hmoved hfile' htarget hfree ⊢
  -- what was moved is what had been written
  have hcontent : content' = content.toUTF8 := by
    rw [hfile] at hfile'
    cases hfile'
    rfl
  have hne := resolve_temporaryPath_ne d.cwd hname
  refine ⟨(hstaged.trans hmoved (by simp)).mono (by simp) (by simp), ?_, ?_, ?_⟩
  · exact Disk.locate_of_keeps hmoved.keeps (Disk.landing_eq_ok_iff.1 htarget).1
  · rw [hcontent]
    exact Disk.get?_set_self _ _ (Disk.ne_root_of_get? hfree)
  · rw [Disk.get?_set_of_ne _ _ hne]
    exact Disk.get?_erase_self staged (Disk.ne_root_of_get? (d := staged) (by simp [hfile]))

/-- Writing a page again, on a disk that has it and all folders, gives that disk. -/
theorem replaceFile_of_keeps {d d' d'' : Disk} {path name content : String}
    (hname : Path.fileName? path = some name)
    (h : replaceFile d path name content = (none, d')) (hkeeps : Keeps d' d'')
    (hpage : d''.get? (resolve d.cwd path) = some (.file content.toUTF8))
    (hgone : d''.get? (resolve d.cwd (temporaryPath path name)) = none) :
    replaceFile d'' path name content = (none, d'') := by
  have hwritten := (replaceFile_written hname h).1
  rcases replaceFile_cases d path name content with ⟨_, -, hrun⟩ | ⟨_, _, -, -, hrun⟩ |
      ⟨_, _, _, -, -, -, hrun⟩ | ⟨parents, staged, placed, hmade, hwrite, hmove, hrun⟩ <;>
    rw [hrun] at h <;> cases h
  have hcwd : d''.cwd = d.cwd := hkeeps.cwd.trans hwritten.cwd
  rw [← hcwd] at hpage hgone
  have hkeepsStaged : Keeps staged d'' := (Disk.changes_move hmove).keeps.trans hkeeps
  have hkeepsParents : Keeps parents d'' := (Disk.changes_write hwrite).keeps.trans hkeepsStaged
  -- the folders are there, so making them changes nothing
  have hmade' : d''.makeParents path = (none, d'') :=
    Disk.makeParents_of_keeps (by rw [hmade]) (by rwa [hmade])
  -- the temporary file is put in an empty place
  have hfree : d''.get? (resolve d''.cwd (temporaryPath path name)) ≠ some .folder := by
    simp [hgone]
  have hwrite' := Disk.write_of_keeps hwrite hkeepsParents hfree
  -- and moved from there to where the same content stands already
  have hset := Disk.changes_set content.toUTF8 hfree
  have hfile := Disk.get?_set_self d'' (.file content.toUTF8) (Disk.ne_root_of_get? hfree)
  have hpage' := hset.get?_file (by simpa using Ne.symm (resolve_temporaryPath_ne _ hname)) hpage
  have hmove' := Disk.move_of_keeps hmove (hkeepsStaged.trans hset.keeps) hfile (by
    rw [Disk.set_cwd, hpage']
    simp)
  rw [Disk.set_cwd, Disk.erase_set_of_get?_eq_none hgone, Disk.set_of_get?_eq_some
    (Disk.ne_root_of_get? (d := d'') (by simp [hpage])) hpage] at hmove'
  simp only [replaceFile, hmade', hwrite', putInPlace, hmove']

/-! ### One entry -/

variable [SourceFile.ErrorPlaces]

/-- Making a page never fails for a reason that only writing has. -/
theorem page_ne_write {d : Disk} {o : Options} {e : Entry} {path : String}
    {problem : WriteProblem} : page d o e ≠ .error (.write path problem) := by
  have hopen : openSource d (o.source e) ≠ .error (.write path problem) := by
    unfold openSource SourceFile.parse
    split
    · simp
    · split
      · simp
      · split <;> simp
  have hreference : ∀ f, referenceIn o e f ≠ .error (.write path problem) := by
    intro f
    unfold referenceIn
    split
    · split <;> simp
    · simp
  have hextract : extract d o e ≠ .error (.write path problem) := by
    unfold extract
    split
    · next failure hfailure => exact fun h => hopen (by rw [hfailure, Except.error.inj h])
    · exact hreference _
  unfold page pageOf
  split
  · next failure hfailure => exact fun h => hextract (by rw [hfailure, Except.error.inj h])
  · simp
  · simp

theorem generate_of_skipped {d : Disk} {o : Options} {e : Entry} (hpage : page d o e = .ok none) :
    generate d o e = (.ok .skipped, d) := by
  unfold generate generatePage
  rw [hpage]

/-- An entry is written if its page can be made and put in its place. -/
theorem generate_of_replaceFile {d d' : Disk} {o : Options} {e : Entry} {text name : String}
    (hpage : page d o e = .ok (some text)) (hname : Path.fileName? (o.destination e) = some name)
    (hrun : replaceFile d (o.destination e) name text = (none, d')) :
    generate d o e = (.ok (.written (o.destination e)), d') := by
  unfold generate generatePage
  rw [hpage]
  simp only [writePage, hname, hrun, Option.map_none]

/-- A run writes a page, or it ends before anything is written. -/
theorem generate_cases (d : Disk) (o : Options) (e : Entry) :
    (∃ failure, page d o e = .error failure ∧ generate d o e = (.error failure, d)) ∨
    (page d o e = .ok none ∧ generate d o e = (.ok .skipped, d)) ∨
    (∃ text, page d o e = .ok (some text) ∧ Path.fileName? (o.destination e) = none ∧
      generate d o e = (.error (.write (o.destination e) .noFileName), d)) ∨
    (∃ text name error d', page d o e = .ok (some text) ∧
      Path.fileName? (o.destination e) = some name ∧
      replaceFile d (o.destination e) name text = (some error, d') ∧
      generate d o e = (.error (.write (o.destination e) (.disk error)), d')) ∨
    (∃ text name d', page d o e = .ok (some text) ∧
      Path.fileName? (o.destination e) = some name ∧
      replaceFile d (o.destination e) name text = (none, d') ∧
      generate d o e = (.ok (.written (o.destination e)), d')) := by
  rcases hpage : page d o e with failure | _ | text
  · refine .inl ⟨failure, rfl, ?_⟩
    unfold generate generatePage
    rw [hpage]
  · exact .inr (.inl ⟨rfl, generate_of_skipped hpage⟩)
  · cases hname : Path.fileName? (o.destination e) with
    | none =>
      refine .inr (.inr (.inl ⟨text, rfl, rfl, ?_⟩))
      unfold generate generatePage
      rw [hpage]
      simp only [writePage, hname]
    | some name =>
      rcases hrun : replaceFile d (o.destination e) name text with ⟨_ | error, d'⟩
      · exact .inr (.inr (.inr (.inr ⟨text, name, d', rfl, rfl, hrun,
          generate_of_replaceFile hpage hname hrun⟩)))
      · refine .inr (.inr (.inr (.inl ⟨text, name, error, d', rfl, rfl, hrun, ?_⟩)))
        unfold generate generatePage
        rw [hpage]
        simp only [writePage, hname, hrun, Option.map_some]

/-- Whatever happens to an entry, only the files of its footprint and folders on the way can have
changed. -/
theorem changes_generate (d : Disk) (o : Options) (e : Entry) :
    Changes (footprint d.cwd o e).writes (waypoints d.cwd (o.destination e)) d
      (generate d o e).2 := by
  rcases generate_cases d o e with ⟨_, -, hrun⟩ | ⟨-, hrun⟩ | ⟨_, -, -, hrun⟩ |
      ⟨text, name, error, d', -, hname, hreplace, hrun⟩ | ⟨text, name, d', -, hname, hreplace, hrun⟩
  -- only the last two of the five ends of a run reach the disk
  all_goals rw [hrun]
  · exact Changes.refl d
  · exact Changes.refl d
  · exact Changes.refl d
  · refine (replaceFile_failed hreplace).1.mono ?_ (List.Subset.refl _)
    simpa using mem_writes_of_mem_temporary ((mem_footprint_temporary hname).2 rfl)
  · refine (replaceFile_written hname hreplace).1.mono ?_ (List.Subset.refl _)
    simpa using ⟨destination_mem_writes d.cwd o e,
      mem_writes_of_mem_temporary ((mem_footprint_temporary hname).2 rfl)⟩

/-- **A page is written whole or not at all.** An entry that is skipped, or fails before its page is
written, leaves the disk as it was. Where writing fails, every file but the temporary one keeps its
content, and the temporary one is gone if it was the move that failed. Where it succeeds, the page
is there, the temporary file is not, and all else is as it was. In both cases new folders on the way
to the destination may stay. -/
theorem generate_atomic (d : Disk) (o : Options) (e : Entry) :
    match generate d o e with
    | (.ok .skipped, d') => d' = d
    | (.ok (.written destination), d') =>
      destination = o.destination e ∧ ∃ text temporary,
        page d o e = .ok (some text) ∧ temporary? destination = some temporary ∧
        d'.read destination = .ok text.toUTF8 ∧ d'.get? (resolve d.cwd temporary) = none ∧
        Changes [resolve d.cwd destination, resolve d.cwd temporary]
          (waypoints d.cwd destination) d d'
    | (.error (.write destination _), d') =>
      destination = o.destination e ∧ ∃ text, page d o e = .ok (some text) ∧
        (∀ loc content, loc ∉ temporaryLocations d.cwd destination →
          d.get? loc = some (.file content) → d'.get? loc = some (.file content)) ∧
        resolve d.cwd destination ∉ temporaryLocations d.cwd destination ∧
        Changes (temporaryLocations d.cwd destination) (waypoints d.cwd destination) d d' ∧
        ∀ temporary, temporary? destination = some temporary →
          MoveFails d destination temporary text → d'.get? (resolve d.cwd temporary) = none
    | (.error _, d') => d' = d := by
  rcases generate_cases d o e with ⟨failure, hpage, hrun⟩ | ⟨-, hrun⟩ | ⟨text, hpage, hname, hrun⟩ |
      ⟨text, name, error, d', hpage, hname, hreplace, hrun⟩ |
      ⟨text, name, d', hpage, hname, hreplace, hrun⟩
  · rw [hrun]
    split
    · next heq => cases heq
    · next heq => cases heq
    · next heq =>
      cases heq
      -- making a page writes nothing
      exact absurd hpage page_ne_write
    · next heq =>
      cases heq
      rfl
  · rw [hrun]
  · rw [hrun]
    refine ⟨rfl, text, hpage, fun _ _ _ hfile => hfile, resolve_not_mem_temporaryLocations _ _,
      Changes.refl d, ?_⟩
    intro temporary htemporary
    simp [temporary?, hname] at htemporary
  · rw [hrun]
    obtain ⟨hchanges, hmoved⟩ := replaceFile_failed hreplace
    have htemps : Changes (temporaryLocations d.cwd (o.destination e))
        (waypoints d.cwd (o.destination e)) d d' :=
      hchanges.mono (by simp [mem_temporaryLocations hname]) (List.Subset.refl _)
    refine ⟨rfl, text, hpage, fun loc content hloc hfile => htemps.get?_file hloc hfile,
      resolve_not_mem_temporaryLocations _ _, htemps, ?_⟩
    intro temporary htemporary
    obtain rfl : temporaryPath (o.destination e) name = temporary := by
      simpa [temporary?, hname] using htemporary
    exact hmoved
  · rw [hrun]
    obtain ⟨hchanges, hlocate, hfile, hgone⟩ := replaceFile_written hname hreplace
    exact ⟨rfl, text, temporaryPath (o.destination e) name, hpage, by simp [temporary?, hname],
      Disk.read_of_get? hlocate hfile, hgone, hchanges⟩

end RefPages.Project
