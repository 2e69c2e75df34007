import RefPages.Proofs.Disk.Change
import RefPages.Proofs.Disk.Tree

/-!
# Two disks abreast

The same operation on two disks, of which one has more folders: other runs made them before.

    d ──────▶ a
    ┊         ┊       the same places change to the same items
    c ──────▶ x

Where a path goes through such a folder the other disk has nothing, so making folders comes to the
same end on both (`ensureFolders_ahead`), and so does reading a file, but for a name that is too
long: it is only seen where the folder before it is there (`read_ahead`). After the folders are
made there is no difference on the way of a path any more, and writing and moving files are the same
on both disks (`Alike`).
-/

namespace RefPages.Disk

open Location (stepAll resolve reached mem_reached mem_reached_cons)

variable {d a c x : Disk} {start loc : Location} {ps qs : List String}

/-! ### Walking -/

/-- A way in two parts is walked one after the other. -/
theorem walk_append_of_ok (h : d.walk start ps = .ok loc) (qs : List String) :
    d.walk start (ps ++ qs) = d.walk loc qs := by
  induction ps generalizing start with
  | nil =>
    cases h
    rfl
  | cons p ps ih =>
    obtain ⟨hfolder, mid, hmid, hrest⟩ := walk_cons_eq_ok h
    rw [List.cons_append, walk_cons_of_folder _ hfolder hmid]
    exact ih hrest

/-- A way that fails early fails in the same way when it goes on. -/
theorem walk_append_of_error {e : DiskError} (h : d.walk start ps = .error e) (qs : List String) :
    d.walk start (ps ++ qs) = .error e := by
  -- a walk that fails stops at the component that failed
  induction ps generalizing start with
  | nil => cases h
  | cons p ps ih =>
    rw [List.cons_append]
    unfold walk at h ⊢
    split at h
    · exact h
    · exact h
    · split at h
      · exact h
      · exact ih h

/-- All that a path goes through before its end are folders. -/
theorem folder_of_walk {last : Location} (h : d.walk start ps = .ok last)
    (hlast : d.get? last = some .folder) (hloc : loc ∈ reached start ps) :
    d.get? loc = some .folder := by
  -- each step leaves a folder, and the last one ends in a folder
  induction ps generalizing start with
  | nil =>
    cases h
    rw [Location.reached_nil, List.mem_singleton] at hloc
    rw [hloc, hlast]
  | cons p ps ih =>
    obtain ⟨hfolder, mid, hmid, hrest⟩ := walk_cons_eq_ok h
    rcases mem_reached_cons.1 hloc with heq | hloc
    · rw [heq, hfolder]
    · rw [← step_eq_ok hmid] at hloc
      exact ih hrest hloc

/-- A walk reads nothing but the places that it reaches. -/
theorem walk_congr (h : ∀ loc ∈ reached start ps, x.get? loc = a.get? loc) :
    x.walk start ps = a.walk start ps := by
  -- a walk looks only at the locations it passes
  induction ps generalizing start with
  | nil => rfl
  | cons p ps ih =>
    have hstart := h start (mem_reached_cons.2 (.inl rfl))
    rw [walk, walk, hstart]
    split
    · rfl
    · rfl
    · split
      · rfl
      · next mid hmid =>
        refine ih fun loc hloc => h loc (mem_reached_cons.2 (.inr ?_))
        rwa [step_eq_ok hmid] at hloc

/-- One step fails only for a name that is too long. -/
theorem step_eq_error {piece : String} {e : DiskError} (h : step loc piece = .error e) :
    e = .nameTooLong ∧ maxNameLength < piece.utf8ByteSize := by
  unfold step at h
  split_ifs at h with _ _ hlong
  exact ⟨(Except.error.inj h).symm, hlong⟩

/-- A walk meets no file: it gets to its end, or something is missing or too long. -/
def EndsFree (d : Disk) (start : Location) (ps : List String) : Prop :=
  d.walk start ps = .error .notFound ∨ d.walk start ps = .ok (stepAll start ps) ∨
    (d.walk start ps = .error .nameTooLong ∧ ∃ p ∈ ps, maxNameLength < p.utf8ByteSize)

theorem EndsFree.cons {mid : Location} {p : String} (hfolder : d.get? start = some .folder)
    (hmid : step start p = .ok mid) (h : d.EndsFree mid ps) : d.EndsFree start (p :: ps) := by
  rw [EndsFree, walk_cons_of_folder ps hfolder hmid, Location.stepAll_cons, ← step_eq_ok hmid]
  rcases h with hmissing | hok | ⟨hlong, p', hp', hsize⟩
  · exact .inl hmissing
  · exact .inr (.inl hok)
  · exact .inr (.inr ⟨hlong, p', List.mem_cons_of_mem _ hp', hsize⟩)

/-- A walk that meets no file does not fail for one. -/
theorem EndsFree.ne_notDirectory (h : d.EndsFree start ps) :
    d.walk start ps ≠ .error .notDirectory := by
  rcases h with hmissing | hok | ⟨hlong, -⟩
  · simp [hmissing]
  · simp [hok]
  · simp [hlong]

/-- A walk meets no file if none stands at the places that it reaches. -/
theorem endsFree_of_no_file
    (h : ∀ loc ∈ reached start ps, ∀ content, d.get? loc ≠ some (.file content)) :
    d.EndsFree start ps := by
  -- the walk ends at the first place where nothing is, or at a name that is too long
  induction ps generalizing start with
  | nil => exact .inr (.inl rfl)
  | cons p ps ih =>
    have hstart := h start (mem_reached_cons.2 (.inl rfl))
    cases hitem : d.get? start with
    | none =>
      left
      simp only [walk, hitem]
    | some item =>
      cases item with
      | file content => exact absurd hitem (hstart content)
      | folder =>
        cases hstep : step start p with
        | error e =>
          obtain ⟨rfl, hlong⟩ := step_eq_error hstep
          exact .inr (.inr ⟨by simp only [walk, hitem, hstep], p, List.mem_cons_self, hlong⟩)
        | ok mid =>
          refine .cons hitem hstep (ih fun loc hloc => h loc (mem_reached_cons.2 (.inr ?_)))
          rwa [step_eq_ok hstep] at hloc

/-! ### A disk with more folders -/

/-- In a place, another disk has the same item, or a folder where here is nothing. -/
def AheadAt (d c : Disk) (loc : Location) : Prop :=
  c.get? loc = d.get? loc ∨ (d.get? loc = none ∧ c.get? loc = some .folder)

/-- So it is on all of the way of a path. -/
def AheadOn (d c : Disk) (path : String) : Prop :=
  ∀ loc ∈ reached (d.origin path) (Path.pieces path), d.AheadAt c loc

/-- No name is too long where the way of a path is missing. -/
def NamesFit (d : Disk) (path : String) : Prop :=
  d.locate path = .error .notFound → ∀ p ∈ Path.pieces path, p.utf8ByteSize ≤ maxNameLength

instance (d : Disk) (path : String) : Decidable (d.NamesFit path) :=
  inferInstanceAs (Decidable (_ → _))

/-- More folders on the way lead a straight walk on where it found nothing, but not to a file. -/
theorem walk_ahead (htree : d.IsTree) (hstraight : d.Straight start ps)
    (hahead : ∀ loc ∈ reached start ps, d.AheadAt c loc) :
    c.walk start ps = d.walk start ps ∨
      (d.walk start ps = .error .notFound ∧ d.get? (stepAll start ps) = none ∧
        c.EndsFree start ps) := by
  induction ps generalizing start with
  | nil => exact .inl rfl
  | cons p ps ih =>
    have hstart := hahead start (mem_reached_cons.2 (.inl rfl))
    cases hitem : d.get? start with
    | none =>
      -- nothing of the rest is there, so the other disk has at most folders
      have hmissing : ∀ loc ∈ reached start (p :: ps), d.get? loc = none := fun loc hloc =>
        hstraight.missing htree hitem hloc
      refine .inr ⟨by simp only [walk, hitem], hmissing _ (Location.stepAll_mem_reached _ _),
        endsFree_of_no_file fun loc hloc content => ?_⟩
      rcases hahead loc hloc with heq | ⟨-, hfolder⟩
      · simp [heq, hmissing loc hloc]
      · simp [hfolder]
    | some item =>
      -- what is there is there on both disks
      have hsame : c.get? start = some item := by
        rcases hstart with heq | ⟨hnone, -⟩
        · rw [heq, hitem]
        · simp [hitem] at hnone
      cases item with
      | file content =>
        left
        simp only [walk, hitem, hsame]
      | folder =>
        cases hstep : step start p with
        | error e =>
          left
          simp only [walk, hitem, hsame, hstep]
        | ok mid =>
          have hmid := step_eq_ok hstep
          have htail : d.Straight mid ps := hmid ▸ hstraight.tail
          have hrest := ih htail fun loc hloc =>
            hahead loc (mem_reached_cons.2 (.inr (hmid ▸ hloc)))
          rw [walk_cons_of_folder ps hitem hstep, walk_cons_of_folder ps hsame hstep,
            Location.stepAll_cons, ← hmid]
          rcases hrest with heq | ⟨hmissing, hnone, hends⟩
          · exact .inl heq
          · exact .inr ⟨hmissing, hnone, .cons hsame hstep hends⟩

/-- A file is in the way on both disks or on none. -/
theorem walk_eq_notDirectory_iff (htree : d.IsTree) (hstraight : d.Straight start ps)
    (hahead : ∀ loc ∈ reached start ps, d.AheadAt c loc) :
    c.walk start ps = .error .notDirectory ↔ d.walk start ps = .error .notDirectory := by
  rcases walk_ahead htree hstraight hahead with heq | ⟨hmissing, -, hends⟩
  · rw [heq]
  · exact iff_of_false hends.ne_notDirectory (by simp [hmissing])

theorem origin_congr (hcwd : c.cwd = d.cwd) (path : String) : c.origin path = d.origin path := by
  rw [origin, origin, hcwd]

/-- A path leads to the same place on a disk that is ahead, or the way is missing on the one disk
and no file is met on the other. -/
theorem locate_ahead {path : String} (htree : d.IsTree) (hcwd : c.cwd = d.cwd)
    (hstraight : d.StraightPath path) (hahead : d.AheadOn c path) :
    c.locate path = d.locate path ∨
      (d.locate path = .error .notFound ∧ d.get? (resolve d.cwd path) = none ∧
        c.locate path = c.walk (d.origin path) (Path.pieces path) ∧
        c.EndsFree (d.origin path) (Path.pieces path)) := by
  unfold locate
  rw [origin_congr hcwd]
  split_ifs with hempty hlong
  · exact .inl rfl
  · exact .inl rfl
  · rcases walk_ahead htree hstraight hahead with heq | ⟨hmissing, hnone, hends⟩
    · exact .inl heq
    · exact .inr ⟨hmissing, hnone, rfl, hends⟩

/-- A file is read in the same way on both disks, if what the path leads to is the same and no name
on a way that is missing is too long. -/
theorem read_ahead {path : String} (htree : d.IsTree) (hcwd : c.cwd = d.cwd)
    (hstraight : d.StraightPath path) (hahead : d.AheadOn c path)
    (hplace : c.get? (resolve d.cwd path) = d.get? (resolve d.cwd path))
    (hnames : d.NamesFit path) :
    c.read path = d.read path := by
  rcases locate_ahead htree hcwd hstraight hahead with heq | ⟨hmissing, hnone, hwalk, hends⟩
  · rw [read, read, heq]
    cases hlocate : d.locate path with
    | error e => rfl
    | ok loc =>
      obtain rfl := locate_eq_ok hlocate
      simp only [hplace]
  -- the way is missing here, and on the other disk it leads to no file
  · rw [read, read, hmissing, hwalk]
    rcases hends with hmissing' | hok | ⟨-, p, hp, hsize⟩
    · rw [hmissing']
    · have hnone' : c.get? (stepAll (d.origin path) (Path.pieces path)) = none :=
        hplace.trans hnone
      rw [hok]
      simp only [hnone']
    · exact absurd (hnames hmissing p hp) (by omega)

/-! ### The same changes -/

/-- Two disks change in the same places to the same items; a place may be so already. -/
def SameChange (d a c x : Disk) : Prop :=
  ∀ loc, (a.get? loc = d.get? loc ∧ x.get? loc = c.get? loc) ∨ x.get? loc = a.get? loc

namespace SameChange

theorem refl (d c : Disk) : SameChange d d c c := fun _ => .inl ⟨rfl, rfl⟩

theorem trans {a' x' : Disk} (h : SameChange d a c x) (h' : SameChange a a' x x') :
    SameChange d a' c x' := by
  intro loc
  rcases h' loc with ⟨ha, hx⟩ | heq
  · rw [ha, hx]
    exact h loc
  · exact .inr heq

theorem set (a x : Disk) (loc : Location) (item : Item) :
    SameChange a (a.set loc item) x (x.set loc item) := by
  intro other
  by_cases hother : other = loc
  · right
    subst hother
    by_cases hroot : other = []
    · rw [hroot, get?_root, get?_root]
    · rw [get?_set_self x item hroot, get?_set_self a item hroot]
  · left
    exact ⟨get?_set_of_ne a item hother, get?_set_of_ne x item hother⟩

theorem erase (a x : Disk) (loc : Location) : SameChange a (a.erase loc) x (x.erase loc) := by
  intro other
  by_cases hother : other = loc
  · right
    subst hother
    by_cases hroot : other = []
    · rw [hroot, get?_root, get?_root]
    · rw [get?_erase_self x hroot, get?_erase_self a hroot]
  · left
    exact ⟨get?_erase_of_ne a hother, get?_erase_of_ne x hother⟩

/-- The same change leaves one disk ahead of the other. -/
theorem ahead (h : SameChange d a c x) (hahead : d.AheadAt c loc) : a.AheadAt x loc := by
  rcases h loc with ⟨ha, hx⟩ | heq
  · rw [AheadAt, ha, hx]
    exact hahead
  · exact .inl heq

end SameChange

/-! ### Making folders -/

theorem ensureFolder_of_walk_error {names : List String} {e : DiskError}
    (h : d.walk start names = .error e) : d.ensureFolder start names = .error e := by
  simp only [ensureFolder, makeFolder, isFolderAt, h, Bool.false_eq_true, if_false]

/-- Where the way leads somewhere, a folder is made unless something stands there, and a file is an
error. -/
theorem ensureFolder_of_walk_ok {names : List String} (h : d.walk start names = .ok loc) :
    d.ensureFolder start names =
      match d.get? loc with
      | none => .ok (d.set loc .folder)
      | some .folder => .ok d
      | some (.file _) => .error .alreadyExists := by
  simp only [ensureFolder, makeFolder, isFolderAt, h]
  split
  · next made hmade =>
    split at hmade
    · cases hmade
    · next hnone =>
      cases hmade
      simp only [hnone]
  · next e hmake =>
    split at hmake
    · next item hitem =>
      cases hmake
      cases item <;> simp [hitem, Item.isFolder]
    · cases hmake

/-- Nothing is made where the folder is there. -/
theorem ensureFolders_of_isFolderAt {names : List String}
    (h : d.isFolderAt start names.reverse = true) : ensureFolders start names d = (none, d) := by
  cases names with
  | nil => rfl
  | cons name parents => rw [ensureFolders, ensureFolder_of_isFolderAt h]

/-- Making folders without an error leaves the last of them. -/
theorem isFolderAt_of_ensureFolders (names : List String) (hstart : d.get? start = some .folder)
    (h : (ensureFolders start names d).1 = none) :
    (ensureFolders start names d).2.isFolderAt start names.reverse = true := by
  cases names with
  | nil => exact isFolderAt_iff.2 ⟨start, rfl, hstart⟩
  | cons name parents => exact isFolderAt_ensureFolders h

theorem walk_concat_of_isFolderAt (h : d.isFolderAt start ps = true) (p : String) :
    d.walk start (ps ++ [p]) = step (stepAll start ps) p := by
  obtain ⟨loc, hwalk, hfolder⟩ := isFolderAt_iff.1 h
  rw [walk_append_of_ok hwalk, ← walk_eq_ok hwalk]
  cases hstep : step loc p with
  | error e => simp only [walk, hfolder, hstep]
  | ok next => simp only [walk, hfolder, hstep]

/-- What an operation that may fail comes to: the disk stays where it fails. -/
def settle (d : Disk) : Except DiskError Disk → Option DiskError × Disk
  | .ok d' => (none, d')
  | .error e => (some e, d)

/-- The folders above are made only where the last one misses them. -/
theorem ensureFolders_of_ne_notFound {name : String} {parents : List String}
    (h : d.ensureFolder start (name :: parents).reverse ≠ .error .notFound) :
    ensureFolders start (name :: parents) d =
      d.settle (d.ensureFolder start (name :: parents).reverse) := by
  rw [ensureFolders]
  cases hensure : d.ensureFolder start (name :: parents).reverse with
  | ok d' => rfl
  | error e => cases e <;> first | rfl | exact absurd hensure h

/-- Where the last folder misses those above, they are made first, and then it is tried once more.
-/
theorem ensureFolders_of_notFound {name : String} {parents : List String}
    (h : d.ensureFolder start (name :: parents).reverse = .error .notFound) :
    ensureFolders start (name :: parents) d =
      match ensureFolders start parents d with
      | (some e, d) => (some e, d)
      | (none, d) => d.settle (d.ensureFolder start (name :: parents).reverse) := by
  rw [ensureFolders, h]
  rfl

/-- Where no file is in the way, the folders are made from the first one to the last, although
`ensureFolders` tries the last one first. -/
theorem ensureFolders_cons {name : String} {parents : List String}
    (h : d.walk start (name :: parents).reverse ≠ .error .notDirectory) :
    ensureFolders start (name :: parents) d =
      match ensureFolders start parents d with
      | (some e, d) => (some e, d)
      | (none, d) => d.settle (d.ensureFolder start (name :: parents).reverse) := by
  by_cases hmissing : d.ensureFolder start (name :: parents).reverse = .error .notFound
  · exact ensureFolders_of_notFound hmissing
  rw [ensureFolders_of_ne_notFound hmissing]
  rw [List.reverse_cons] at h hmissing ⊢
  cases hparents : d.walk start parents.reverse with
  | error e =>
    -- the way ends before the last name, so making the parents fails there as well
    have hfull := ensureFolder_of_walk_error (walk_append_of_error hparents [name])
    rw [hfull] at hmissing ⊢
    cases parents with
    | nil => cases hparents
    | cons parent parents =>
      have hparent := ensureFolder_of_walk_error hparents
      rw [ensureFolders_of_ne_notFound (by rwa [hparent]), hparent]
      rfl
  | ok loc =>
    cases hitem : d.get? loc with
    | none =>
      have hfull : d.walk start (parents.reverse ++ [name]) = .error .notFound := by
        rw [walk_append_of_ok hparents]
        simp only [walk, hitem]
      exact absurd (ensureFolder_of_walk_error hfull) hmissing
    | some item =>
      cases item with
      | file content =>
        have hfull : d.walk start (parents.reverse ++ [name]) = .error .notDirectory := by
          rw [walk_append_of_ok hparents]
          simp only [walk, hitem]
        exact absurd hfull h
      | folder =>
        rw [ensureFolders_of_isFolderAt (isFolderAt_iff.2 ⟨loc, hparents, hitem⟩)]

/-! ### Making folders on both disks -/

/-- What an operation comes to is the same on two disks: both fail with one error, or both change in
the same way. -/
structure SameEnd (d c : Disk) (r r' : Option DiskError × Disk) : Prop where
  error : r'.1 = r.1
  change : SameChange d r.2 c r'.2

theorem SameEnd.refl (d c : Disk) (error? : Option DiskError) :
    SameEnd d c (error?, d) (error?, c) := ⟨rfl, .refl d c⟩

/-- One folder is made with the same end on a disk that is ahead. -/
theorem ensureFolder_ahead {names : List String}
    (hwalk : x.walk start names = a.walk start names)
    (hahead : a.AheadAt x (stepAll start names)) :
    SameEnd a x (a.settle (a.ensureFolder start names))
      (x.settle (x.ensureFolder start names)) := by
  cases ha : a.walk start names with
  | error e =>
    rw [ensureFolder_of_walk_error ha, ensureFolder_of_walk_error (hwalk.trans ha)]
    exact .refl a x (some e)
  | ok loc =>
    obtain rfl := walk_eq_ok ha
    rw [ensureFolder_of_walk_ok ha, ensureFolder_of_walk_ok (hwalk.trans ha)]
    rcases hahead with heq | ⟨hnone, hfolder⟩
    · rw [heq]
      cases a.get? (stepAll start names) with
      | none => exact ⟨rfl, .set a x _ _⟩
      | some item => cases item <;> exact .refl a x _
    · -- only one of the folders is still to be made
      rw [hnone, hfolder]
      refine ⟨rfl, fun other => ?_⟩
      by_cases hother : other = stepAll start names
      · right
        rw [hother]
        exact hfolder.trans (get?_set_self a _ (ne_root_of_get? (d := a) (by simp [hnone]))).symm
      · exact .inl ⟨get?_set_of_ne a _ hother, rfl⟩

/-- Folders on a straight way come to the same end on both disks. -/
theorem ensureFolders_ahead {names : List String} (htree : d.IsTree)
    (hstart : d.get? start = some .folder) (hstraight : d.Straight start names.reverse)
    (hahead : ∀ loc ∈ reached start names.reverse, d.AheadAt c loc) :
    SameEnd d c (ensureFolders start names d) (ensureFolders start names c) := by
  induction names with
  | nil => exact .refl d c none
  | cons name parents ih =>
    have hleading : parents.reverse <+: (name :: parents).reverse := by simp
    have hparents := ih (hstraight.mono hleading) fun loc hloc =>
      hahead loc (Location.reached_subset hleading hloc)
    have hiff := walk_eq_notDirectory_iff htree hstraight hahead
    by_cases hfile : d.walk start (name :: parents).reverse = .error .notDirectory
    · -- a file is in the way on both disks
      have hd := ensureFolder_of_walk_error hfile
      have hc := ensureFolder_of_walk_error (hiff.2 hfile)
      rw [ensureFolders_of_ne_notFound (by rw [hd]; simp),
        ensureFolders_of_ne_notFound (by rw [hc]; simp), hd, hc]
      exact .refl d c _
    · have hfile' : c.walk start (name :: parents).reverse ≠ .error .notDirectory := mt hiff.1 hfile
      have hstart' : c.get? start = some .folder := by
        rcases hahead start (Location.start_mem_reached _ _) with heq | ⟨-, hfolder⟩
        · rw [heq, hstart]
        · exact hfolder
      have hd := isFolderAt_of_ensureFolders parents hstart
      have hc := isFolderAt_of_ensureFolders parents hstart'
      rw [ensureFolders_cons hfile, ensureFolders_cons hfile']
      rcases hrun : ensureFolders start parents d with ⟨error?, a⟩
      rcases hrun' : ensureFolders start parents c with ⟨error?', x⟩
      rw [hrun, hrun'] at hparents
      obtain ⟨rfl, hchange⟩ : error?' = error? ∧ SameChange d a c x :=
        ⟨hparents.error, hparents.change⟩
      cases error?' with
      | some e => exact ⟨rfl, hchange⟩
      | none =>
        -- the parents are there, so the last folder is looked for in the same place
        rw [hrun] at hd
        rw [hrun'] at hc
        have hlast : x.walk start (name :: parents).reverse =
            a.walk start (name :: parents).reverse := by
          rw [List.reverse_cons, walk_concat_of_isFolderAt (hd rfl),
            walk_concat_of_isFolderAt (hc rfl)]
        have hend := ensureFolder_ahead hlast
          (hchange.ahead (hahead _ (Location.stepAll_mem_reached _ _)))
        exact ⟨hend.error, hchange.trans hend.change⟩

/-- So do the folders for the file at a straight path. -/
theorem makeParents_ahead {path : String} (htree : d.IsTree) (hcwd : c.cwd = d.cwd)
    (hstraight : d.StraightPath path) (hahead : d.AheadOn c path) :
    SameEnd d c (d.makeParents path) (c.makeParents path) := by
  rw [makeParents_eq, makeParents_eq, origin_congr hcwd]
  split
  · exact .refl d c _
  refine ensureFolders_ahead htree (htree.origin path) ?_ ?_ <;> rw [List.reverse_reverse]
  · exact (Straight.filter hstraight).mono (List.dropLast_prefix _)
  · exact fun loc hloc => hahead loc (Location.waypoints_subset d.cwd path hloc)

/-- All folders on the way of a path are there once they were made. -/
theorem folder_of_makeParents {path : String} (hstart : d.get? (d.origin path) = some .folder)
    (h : (d.makeParents path).1 = none) (hloc : loc ∈ Location.waypoints d.cwd path) :
    (d.makeParents path).2.get? loc = some .folder := by
  rw [makeParents_eq] at h ⊢
  split at h
  · cases h
  next hshort =>
  rw [if_neg hshort]
  have hthere := isFolderAt_of_ensureFolders _ hstart h
  rw [List.reverse_reverse] at hthere
  obtain ⟨last, hwalk, hlast⟩ := isFolderAt_iff.1 hthere
  exact folder_of_walk hwalk hlast hloc

/-! ### Files on both disks -/

/-- Paths start in the same folder of two disks, and some places are the same. -/
structure Alike (cwd : Location) (places : List Location) (a x : Disk) : Prop where
  left : a.cwd = cwd
  right : x.cwd = cwd
  get? : ∀ loc ∈ places, x.get? loc = a.get? loc

/-- What two operations come to: they fail with one error, or they change the disks in the same way
and leave them alike. -/
inductive SameResult (cwd : Location) (places : List Location) (a x : Disk) :
    Except DiskError Disk → Except DiskError Disk → Prop where
  | error (e : DiskError) : SameResult cwd places a x (.error e) (.error e)
  | ok {a' x' : Disk} (alike : Alike cwd places a' x') (change : SameChange a a' x x') :
    SameResult cwd places a x (.ok a') (.ok x')

namespace Alike

variable {cwd : Location} {places : List Location} {path : String}

theorem set (h : Alike cwd places a x) (loc : Location) (item : Item) :
    Alike cwd places (a.set loc item) (x.set loc item) := by
  refine ⟨h.left, h.right, fun other hother => ?_⟩
  rcases SameChange.set a x loc item other with ⟨ha, hx⟩ | heq
  · rw [ha, hx, h.get? other hother]
  · exact heq

theorem erase (h : Alike cwd places a x) (loc : Location) :
    Alike cwd places (a.erase loc) (x.erase loc) := by
  refine ⟨h.left, h.right, fun other hother => ?_⟩
  rcases SameChange.erase a x loc other with ⟨ha, hx⟩ | heq
  · rw [ha, hx, h.get? other hother]
  · exact heq

/-- All that a path goes through is among the places. -/
def Covers (cwd : Location) (places : List Location) (path : String) : Prop :=
  reached (Location.origin cwd path) (Path.pieces path) ⊆ places

theorem origin_left (h : Alike cwd places a x) : a.origin path = Location.origin cwd path := by
  rw [← h.left]
  rfl

theorem origin_right (h : Alike cwd places a x) : x.origin path = Location.origin cwd path := by
  rw [← h.right]
  rfl

/-- A path leads to the same place on both disks, and there is the same. -/
theorem locate (h : Alike cwd places a x) (hpath : Covers cwd places path) :
    x.locate path = a.locate path ∧
      ∀ loc, a.locate path = .ok loc → x.get? loc = a.get? loc := by
  have hwalk : x.walk (Location.origin cwd path) (Path.pieces path) =
      a.walk (Location.origin cwd path) (Path.pieces path) :=
    walk_congr fun loc hloc => h.get? loc (hpath hloc)
  constructor
  · rw [Disk.locate, Disk.locate, h.origin_left, h.origin_right, hwalk]
  · intro loc hloc
    rw [locate_eq_ok hloc, h.left]
    exact h.get? _ (hpath (Location.stepAll_mem_reached _ _))

/-- Writing reads and changes only places that the disks have in common. -/
theorem write (h : Alike cwd places a x) (hpath : Covers cwd places path) (content : ByteArray) :
    SameResult cwd places a x (a.write path content) (x.write path content) := by
  obtain ⟨hlocate, hsame⟩ := h.locate hpath
  rw [Disk.write, Disk.write, hlocate]
  cases hloc : a.locate path with
  | error e => exact .error e
  | ok loc =>
    simp only [hsame loc hloc]
    split_ifs
    · exact .error _
    · split
      · exact .error _
      · exact .ok (h.set _ _) (.set a x _ _)

theorem removeFile (h : Alike cwd places a x) (hpath : Covers cwd places path) :
    SameResult cwd places a x (a.removeFile path) (x.removeFile path) := by
  obtain ⟨hlocate, hsame⟩ := h.locate hpath
  rw [Disk.removeFile, Disk.removeFile, hlocate]
  cases hloc : a.locate path with
  | error e => exact .error e
  | ok loc =>
    simp only [hsame loc hloc]
    split
    · exact .error _
    · exact .error _
    · exact .ok (h.erase _) (.erase a x _)

/-- A file that is moved to a path comes to stand at the same place on both disks. -/
theorem landing (h : Alike cwd places a x) (hpath : Covers cwd places path) :
    x.landing path = a.landing path := by
  have hwalk : x.walk (x.origin path) ((Path.pieces path).reverse.dropWhile (· == "")).reverse =
      a.walk (a.origin path) ((Path.pieces path).reverse.dropWhile (· == "")).reverse := by
    have hprefix :
        ((Path.pieces path).reverse.dropWhile (· == "")).reverse <+: Path.pieces path := by
      simpa using
        List.reverse_prefix.2 (List.dropWhile_suffix (l := (Path.pieces path).reverse) (· == ""))
    rw [h.origin_right, h.origin_left]
    exact walk_congr fun loc hloc => h.get? loc (hpath (Location.reached_subset hprefix hloc))
  rw [Disk.landing, Disk.landing, hwalk]

theorem move {target : String} (h : Alike cwd places a x) (hpath : Covers cwd places path)
    (htarget : Covers cwd places target) :
    SameResult cwd places a x (a.move path target) (x.move path target) := by
  obtain ⟨hlocate, hsame⟩ := h.locate hpath
  rw [Disk.move, Disk.move, hlocate, h.landing htarget]
  cases hloc : a.locate path with
  | error e => exact .error e
  | ok loc =>
    simp only [hsame loc hloc]
    split
    · cases hloc' : a.landing target with
      | error e => exact .error e
      | ok loc' =>
        have hlocate' := (landing_eq_ok_iff.1 hloc').1
        simp only [(h.locate htarget).2 loc' hlocate']
        split
        · exact .error _
        · exact .ok ((h.erase _).set _ _) ((SameChange.erase a x _).trans (.set _ _ _ _))
    · exact .error _

end Alike

end RefPages.Disk
