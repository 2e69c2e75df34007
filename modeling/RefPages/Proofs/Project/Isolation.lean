import RefPages.Proofs.Disk.Abreast
import RefPages.Proofs.Project.Agreement

/-!
# An entry on two disks

An entry that is generated after others finds more than it would find alone: pages, and the folders
on the way to them. If its own places are as they were, and there is at most a folder where nothing
was above them (`AheadFor`), it comes to the same end and changes the disk in the same places to the
same items (`generate_ahead`).

The page itself is the same because its source is read in the same way. That asks for one thing
more: no name on the way of a missing source may be too long, as the system would say that of the
name once its folder is there, instead of saying that there is nothing.
-/

namespace RefPages.Project

open Disk (AheadAt SameChange SameEnd Alike)
open Location (resolve reached waypoints)

variable {d c a x : Disk} {o : Options} {e : Entry}

/-! ### What the other disk may have -/

/-- The paths of an entry are straight, as far as folders are left by `..`. -/
structure IsStraight (d : Disk) (o : Options) (e : Entry) : Prop where
  source : d.StraightPath (o.source e)
  destination : d.StraightPath (o.destination e)

instance (d : Disk) (o : Options) (e : Entry) : Decidable (IsStraight d o e) :=
  decidable_of_iff (d.StraightPath (o.source e) ∧ d.StraightPath (o.destination e))
    ⟨fun h => ⟨h.1, h.2⟩, fun h => ⟨h.source, h.destination⟩⟩

/-- What one disk has more than another is no matter to an entry: its own places are the same, and
above them the other disk has at most more folders. -/
structure AheadFor (d c : Disk) (f : Footprint) : Prop where
  cwd : c.cwd = d.cwd
  folder : ∀ loc, d.get? loc = some .folder → c.get? loc = some .folder
  places : ∀ loc ∈ f.places, c.get? loc = d.get? loc
  above : ∀ place ∈ f.places, ∀ loc, loc <+: place → d.AheadAt c loc

/-- What is ahead for an entry is ahead on the way of each of its paths. -/
theorem AheadFor.aheadOn {f : Footprint} {path : String} (h : AheadFor d c f) (htree : d.IsTree)
    (hstraight : d.StraightPath path) (hplace : resolve d.cwd path ∈ f.places) :
    d.AheadOn c path := by
  intro loc hloc
  rcases Disk.Straight.reached htree hstraight hloc with hfolder | hleading
  · exact .inl ((h.folder loc hfolder).trans hfolder.symm)
  · exact h.above _ hplace loc hleading

/-! ### Writing and reading -/

/-- A page is moved into place in the same way on two disks that are alike. -/
theorem putInPlace_alike {cwd : Location} {places : List Location} {temporary path : String}
    (h : Alike cwd places a x) (htemporary : Alike.Covers cwd places temporary)
    (hpath : Alike.Covers cwd places path) :
    SameEnd a x (putInPlace a temporary path) (putInPlace x temporary path) := by
  have hremove := h.removeFile htemporary
  have hmove := h.move htemporary hpath
  unfold putInPlace
  generalize a.removeFile temporary = ra, x.removeFile temporary = rx at hremove ⊢
  generalize a.move temporary path = ma, x.move temporary path = mx at hmove ⊢
  -- the temporary file is removed only when the move fails
  cases hmove with
  | ok halike hchange => exact ⟨rfl, hchange⟩
  | error error =>
    cases hremove with
    | error _ => exact .refl a x _
    | ok halike hchange => exact ⟨rfl, hchange⟩

/-- Once the folders are made, the disks are alike wherever writing a page looks. -/
theorem alike_of_makeParents {f : Footprint} {path : String} (h : AheadFor d c f)
    (hstart : d.get? (d.origin path) = some .folder) (hchange : SameChange d a c x)
    (hd : d.makeParents path = (none, a)) (hc : c.makeParents path = (none, x)) :
    Alike d.cwd (waypoints d.cwd path ++ f.places) a x := by
  have hcwd := (Disk.changes_makeParents d path).cwd
  have hcwd' := (Disk.changes_makeParents c path).cwd
  -- the folders were made on both disks, so the ways are the same
  have hway : ∀ loc ∈ waypoints d.cwd path, (d.makeParents path).2.get? loc = some .folder :=
    fun _ => Disk.folder_of_makeParents hstart (by rw [hd])
  have hstart' : c.get? (c.origin path) = some .folder := by
    rw [Disk.origin_congr h.cwd]
    exact h.folder _ hstart
  have hway' : ∀ loc ∈ waypoints c.cwd path, (c.makeParents path).2.get? loc = some .folder :=
    fun _ => Disk.folder_of_makeParents hstart' (by rw [hc])
  rw [hd] at hcwd hway
  rw [hc, h.cwd] at hcwd'
  rw [hc, h.cwd] at hway'
  refine ⟨hcwd, hcwd', fun loc hloc => ?_⟩
  rcases List.mem_append.1 hloc with hloc | hloc
  · rw [hway loc hloc, hway' loc hloc]
  · rcases hchange loc with ⟨ha, hx⟩ | heq
    · rw [ha, hx, h.places loc hloc]
    · exact heq

/-- A page is written in the same way on both disks. -/
theorem replaceFile_ahead {path name : String} {f : Footprint} (htree : d.IsTree)
    (hname : Path.fileName? path = some name) (h : AheadFor d c f)
    (hstraight : d.StraightPath path)
    (hpath : resolve d.cwd path ∈ f.places)
    (htemporary : resolve d.cwd (temporaryPath path name) ∈ f.places) (content : String) :
    SameEnd d c (replaceFile d path name content) (replaceFile c path name content) := by
  have hmake := Disk.makeParents_ahead htree h.cwd hstraight (h.aheadOn htree hstraight hpath)
  obtain ⟨error?, a, hd⟩ : ∃ error? a, d.makeParents path = (error?, a) := ⟨_, _, rfl⟩
  obtain ⟨error?', x, hc⟩ : ∃ error? x, c.makeParents path = (error?, x) := ⟨_, _, rfl⟩
  rw [hd, hc] at hmake
  rw [replaceFile, replaceFile, hd, hc]
  obtain ⟨rfl, hchange⟩ : error?' = error? ∧ SameChange d a c x := ⟨hmake.error, hmake.change⟩
  cases error?' with
  | some e => exact ⟨rfl, hchange⟩
  | none =>
    have halike := alike_of_makeParents h (htree.origin path) hchange hd hc
    obtain ⟨hslash, hleads, -⟩ := temporaryName_spec hname
    have hreached := Location.mem_reached_sibling hname hslash hleads d.cwd
    -- the page and its temporary file share the way to their folder
    have hcovers : Alike.Covers d.cwd (waypoints d.cwd path ++ f.places) path := by
      intro loc hloc
      rcases (hreached loc).1.1 hloc with hway | heq
      · exact List.mem_append_left _ hway
      · exact List.mem_append_right _ (heq ▸ hpath)
    have hcovers' : Alike.Covers d.cwd (waypoints d.cwd path ++ f.places)
        (temporaryPath path name) := by
      intro loc hloc
      rcases (hreached loc).2.1 hloc with hway | heq
      · exact List.mem_append_left _ hway
      · exact List.mem_append_right _ (heq ▸ htemporary)
    have hwrite := halike.write hcovers' content.toUTF8
    simp only
    generalize a.write (temporaryPath path name) content.toUTF8 = wa,
      x.write (temporaryPath path name) content.toUTF8 = wx at hwrite ⊢
    cases hwrite with
    | error e => exact ⟨rfl, hchange⟩
    | ok halike' hchange' =>
      have hend := putInPlace_alike halike' hcovers' hcovers
      exact ⟨hend.error, (hchange.trans hchange').trans hend.change⟩

/-! ### One entry -/

variable [SourceFile.ErrorPlaces]

/-- The source of an entry is read in the same way on both disks. -/
theorem page_ahead (htree : d.IsTree) (hstraight : IsStraight d o e)
    (h : AheadFor d c (footprint d.cwd o e))
    (hnames : d.NamesFit (o.source e)) :
    page c o e = page d o e := by
  have hplace := source_mem_places d.cwd o e
  have hread := Disk.read_ahead htree h.cwd hstraight.source
    (h.aheadOn htree hstraight.source hplace) (h.places _ hplace) hnames
  exact page_congr (by rw [Disk.readText, Disk.readText, hread])

/-- What generating a page comes to, given the text of the page. -/
theorem generate_of_text {text name : String} (hpage : page d o e = .ok (some text))
    (hname : Path.fileName? (o.destination e) = some name) :
    (generate d o e).2 = (replaceFile d (o.destination e) name text).2 ∧
      (generate d o e).1 = match (replaceFile d (o.destination e) name text).1 with
        | none => .ok (.written (o.destination e))
        | some error => .error (.write (o.destination e) (.disk error)) := by
  unfold generate generatePage
  rw [hpage]
  simp only [writePage, hname]
  rcases replaceFile d (o.destination e) name text with ⟨_ | error, d'⟩ <;> exact ⟨rfl, rfl⟩

/-- Where no page is written, nothing changes and the disk is not looked at again. -/
theorem generate_of_no_text {c : Disk} (hpage : page c o e = page d o e)
    (h : ∀ text, page d o e = .ok (some text) → Path.fileName? (o.destination e) = none) :
    (generate d o e).2 = d ∧ (generate c o e).2 = c ∧ (generate c o e).1 = (generate d o e).1 := by
  unfold generate generatePage
  rw [hpage]
  cases htext : page d o e with
  | error failure => exact ⟨rfl, rfl, rfl⟩
  | ok text? =>
    cases text? with
    | none => exact ⟨rfl, rfl, rfl⟩
    | some text =>
      simp only [writePage, h text htext]
      trivial

/-- An entry comes to the same end on both disks. -/
theorem generate_ahead (htree : d.IsTree) (hstraight : IsStraight d o e)
    (h : AheadFor d c (footprint d.cwd o e))
    (hnames : d.NamesFit (o.source e)) :
    (generate c o e).1 = (generate d o e).1 ∧
      SameChange d (generate d o e).2 c (generate c o e).2 := by
  have hpage := page_ahead htree hstraight h hnames
  -- only an entry with a page and a name for it writes anything
  by_cases hwrites : ∃ text name, page d o e = .ok (some text) ∧
      Path.fileName? (o.destination e) = some name
  · obtain ⟨text, name, htext, hname⟩ := hwrites
    have hend := replaceFile_ahead htree hname h hstraight.destination
      (mem_places_of_mem_writes (destination_mem_writes d.cwd o e))
      (mem_places_of_mem_writes (mem_writes_of_mem_temporary
        ((mem_footprint_temporary hname).2 rfl))) text
    obtain ⟨hd, hd'⟩ := generate_of_text htext hname
    obtain ⟨hc, hc'⟩ := generate_of_text (hpage.trans htext) hname
    rw [hd, hc, hd', hc', hend.error]
    exact ⟨rfl, hend.change⟩
  · obtain ⟨hd, hc, hresult⟩ := generate_of_no_text hpage fun text htext =>
      Option.eq_none_iff_forall_ne_some.2 fun name hname => hwrites ⟨text, name, htext, hname⟩
    rw [hd, hc]
    exact ⟨hresult, .refl d c⟩

end RefPages.Project
