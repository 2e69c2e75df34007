import RefPages.Proofs.Disk.Location

/-!
# What operations change

Every operation that writes is described by what it may change: some places where files stand, and
some places that were empty and where folders are made.

    Changes files folders d d'

No operation takes a folder away, so every path that led somewhere still leads to the same place
(`Keeps`, `locate_of_keeps`). That is what lets an operation that succeeded once succeed again.
-/

namespace RefPages.Disk

open Location (stepAll resolve reached mem_reached reached_subset waypoints)

/-! ### Folders stay -/

/-- The folders of one disk are folders of another, and paths start in the same folder. -/
structure Keeps (d d' : Disk) : Prop where
  cwd : d'.cwd = d.cwd
  folder : ∀ {loc : Location}, d.get? loc = some .folder → d'.get? loc = some .folder

theorem Keeps.refl (d : Disk) : Keeps d d := ⟨rfl, id⟩

theorem Keeps.trans {d d' d'' : Disk} (h : Keeps d d') (h' : Keeps d' d'') : Keeps d d'' :=
  ⟨h'.cwd.trans h.cwd, fun hloc => h'.folder (h.folder hloc)⟩

/-- A way that can be walked stays one as long as folders are kept. -/
theorem walk_of_keeps {d d' : Disk} (hkeeps : Keeps d d') {loc next : Location}
    {pieces : List String} (h : d.walk loc pieces = .ok next) : d'.walk loc pieces = .ok next := by
  induction pieces generalizing loc with
  | nil => exact h
  | cons piece pieces ih =>
    obtain ⟨hfolder, mid, hmid, hrest⟩ := walk_cons_eq_ok h
    rw [walk_cons_of_folder pieces (hkeeps.folder hfolder) hmid]
    exact ih hrest

/-- A path leads to the same place as long as folders are kept. -/
theorem locate_of_keeps {d d' : Disk} (hkeeps : Keeps d d') {path : String} {loc : Location}
    (h : d.locate path = .ok loc) : d'.locate path = .ok loc := by
  unfold locate at h ⊢
  split at h
  · cases h
  · next hempty =>
    split at h
    · cases h
    · next hlong =>
      rw [if_neg hempty, if_neg hlong, origin, hkeeps.cwd]
      exact walk_of_keeps hkeeps h

/-- What it means that a folder stands at the end of some names. -/
theorem isFolderAt_iff {d : Disk} {start : Location} {names : List String} :
    d.isFolderAt start names = true ↔
      ∃ loc, d.walk start names = .ok loc ∧ d.get? loc = some .folder := by
  unfold isFolderAt
  split
  · next loc hloc =>
    rw [hloc]
    cases hitem : d.get? loc with
    | none => simp [hitem]
    | some item => cases item <;> simp [hitem, Item.isFolder]
  · next e he => simp [he]

theorem isFolderAt_of_keeps {d d' : Disk} (hkeeps : Keeps d d') {start : Location}
    {names : List String} (h : d.isFolderAt start names = true) :
    d'.isFolderAt start names = true := by
  obtain ⟨loc, hwalk, hfolder⟩ := isFolderAt_iff.1 h
  exact isFolderAt_iff.2 ⟨loc, walk_of_keeps hkeeps hwalk, hkeeps.folder hfolder⟩

/-! ### Changes -/

/-- A disk differs from another at most in what stands at some places of files, and in folders at
some places that were empty. -/
structure Changes (files folders : List Location) (d d' : Disk) : Prop where
  cwd : d'.cwd = d.cwd
  get? : ∀ loc, d'.get? loc = d.get? loc ∨
    (loc ∈ folders ∧ d.get? loc = none ∧ d'.get? loc = some .folder) ∨
    (loc ∈ files ∧ d.get? loc ≠ some .folder ∧ d'.get? loc ≠ some .folder)

namespace Changes

variable {files folders files' folders' : List Location} {d d' d'' : Disk} {loc : Location}

theorem refl (d : Disk) : Changes files folders d d := ⟨rfl, fun _ => .inl rfl⟩

theorem mono (h : Changes files folders d d') (hfiles : files ⊆ files')
    (hfolders : folders ⊆ folders') : Changes files' folders' d d' := by
  refine ⟨h.cwd, fun loc => ?_⟩
  rcases h.get? loc with heq | ⟨hmem, hnew⟩ | ⟨hmem, hfile⟩
  · exact .inl heq
  · exact .inr (.inl ⟨hfolders hmem, hnew⟩)
  · exact .inr (.inr ⟨hfiles hmem, hfile⟩)

/-- Changes add up, unless a folder is made where a file stood before. -/
theorem trans (h : Changes files folders d d') (h' : Changes files' folders' d' d'')
    (hapart : ∀ loc ∈ files, loc ∉ folders') :
    Changes (files ++ files') (folders ++ folders') d d'' := by
  refine ⟨h'.cwd.trans h.cwd, fun loc => ?_⟩
  simp only [List.mem_append]
  -- what the first change did to the location decides what the second may do
  rcases h.get? loc with heq | ⟨hmem, hnone, hfolder⟩ | ⟨hmem, hold, hnew⟩
  · rw [← heq]
    rcases h'.get? loc with heq' | ⟨hmem', hnew'⟩ | ⟨hmem', hfile'⟩
    · exact .inl heq'
    · exact .inr (.inl ⟨.inr hmem', hnew'⟩)
    · exact .inr (.inr ⟨.inr hmem', hfile'⟩)
  · rcases h'.get? loc with heq' | ⟨-, hnone', -⟩ | ⟨-, hold', -⟩
    · exact .inr (.inl ⟨.inl hmem, hnone, heq'.trans hfolder⟩)
    -- a folder that was made is not made again, and no file is written over it
    · simp [hfolder] at hnone'
    · exact absurd hfolder hold'
  · rcases h'.get? loc with heq' | ⟨hmem', -, -⟩ | ⟨-, -, hnew'⟩
    · exact .inr (.inr ⟨.inl hmem, hold, heq' ▸ hnew⟩)
    -- a location that was written is none of the folders made later
    · exact absurd hmem' (hapart loc hmem)
    · exact .inr (.inr ⟨.inl hmem, hold, hnew'⟩)

/-- Changes of this kind keep all folders: no file is put in the place of one. -/
theorem keeps (h : Changes files folders d d') : Keeps d d' := by
  refine ⟨h.cwd, fun {loc} hloc => ?_⟩
  rcases h.get? loc with heq | ⟨-, hnone, -⟩ | ⟨-, hold, -⟩
  · rw [heq, hloc]
  · simp [hloc] at hnone
  · exact absurd hloc hold

/-- A file stays as it is where no file may change. -/
theorem get?_file (h : Changes files folders d d') {content : ByteArray} (hloc : loc ∉ files)
    (hfile : d.get? loc = some (.file content)) : d'.get? loc = some (.file content) := by
  rcases h.get? loc with heq | ⟨-, hnone, -⟩ | ⟨hmem, -⟩
  · rw [heq, hfile]
  · simp [hfile] at hnone
  · exact absurd hmem hloc

/-- A place stays empty where neither a file nor a folder may be put. -/
theorem get?_absent (h : Changes files folders d d') (hloc : loc ∉ files) (hway : loc ∉ folders)
    (hnone : d.get? loc = none) : d'.get? loc = none := by
  rcases h.get? loc with heq | ⟨hmem, -⟩ | ⟨hmem, -⟩
  · rw [heq, hnone]
  · exact absurd hmem hway
  · exact absurd hmem hloc

end Changes

theorem changes_set {d : Disk} {loc : Location} (content : ByteArray)
    (h : d.get? loc ≠ some .folder) : Changes [loc] [] d (d.set loc (.file content)) := by
  refine ⟨rfl, fun other => ?_⟩
  by_cases hother : other = loc
  · subst hother
    refine .inr (.inr ⟨by simp, h, ?_⟩)
    simp [get?_set_self d _ (ne_root_of_get? h)]
  · exact .inl (get?_set_of_ne d _ hother)

theorem changes_set_folder {d : Disk} {loc : Location} (h : d.get? loc = none) :
    Changes [] [loc] d (d.set loc .folder) := by
  refine ⟨rfl, fun other => ?_⟩
  by_cases hother : other = loc
  · subst hother
    exact .inr (.inl ⟨by simp, h, get?_set_self d _ (ne_root_of_get? (d := d) (by simp [h]))⟩)
  · exact .inl (get?_set_of_ne d _ hother)

theorem changes_erase {d : Disk} {loc : Location} (h : d.get? loc ≠ some .folder) :
    Changes [loc] [] d (d.erase loc) := by
  refine ⟨rfl, fun other => ?_⟩
  by_cases hother : other = loc
  · subst hother
    refine .inr (.inr ⟨by simp, h, ?_⟩)
    simp [get?_erase_self d (ne_root_of_get? h)]
  · exact .inl (get?_erase_of_ne d hother)

/-! ### Files

One description for each operation, and one lemma that says when it succeeds again. -/

theorem read_of_get? {d : Disk} {path : String} {loc : Location} {content : ByteArray}
    (hloc : d.locate path = .ok loc) (hfile : d.get? loc = some (.file content)) :
    d.read path = .ok content := by
  rw [read, hloc]
  simp only [hfile]

/-- A file that is read stands where its path leads. -/
theorem read_eq_ok {d : Disk} {path : String} {content : ByteArray}
    (h : d.read path = .ok content) :
    d.locate path = .ok (resolve d.cwd path) ∧
      d.get? (resolve d.cwd path) = some (.file content) := by
  unfold read at h
  split at h
  · cases h
  · next loc hloc =>
    rw [← locate_eq_ok hloc]
    split at h
    · cases h
    · cases h
    · next c hfile =>
      cases h
      exact ⟨hloc, hfile⟩

/-- What a write that succeeds has found and what it leaves. -/
theorem write_eq_ok {d d' : Disk} {path : String} {content : ByteArray}
    (h : d.write path content = .ok d') :
    d.locate path = .ok (resolve d.cwd path) ∧ endsInFolder path = false ∧
      d.get? (resolve d.cwd path) ≠ some .folder ∧
      d' = d.set (resolve d.cwd path) (.file content) := by
  unfold write at h
  split at h
  · cases h
  · next loc hloc =>
    rw [← locate_eq_ok hloc]
    split at h
    · cases h
    · next hends =>
      split at h
      · cases h
      · next hfolder => exact ⟨hloc, by simpa using hends, hfolder, (Except.ok.inj h).symm⟩

/-- A write changes the place of its path and nothing else. -/
theorem changes_write {d d' : Disk} {path : String} {content : ByteArray}
    (h : d.write path content = .ok d') : Changes [resolve d.cwd path] [] d d' := by
  obtain ⟨-, -, hfree, rfl⟩ := write_eq_ok h
  exact changes_set content hfree

/-- A write that succeeds on one disk succeeds on a later one that keeps its folders, if no folder
took its place. -/
theorem write_of_keeps {d d' d'' : Disk} {path : String} {content : ByteArray}
    (h : d.write path content = .ok d') (hkeeps : Keeps d d'')
    (hfree : d''.get? (resolve d''.cwd path) ≠ some .folder) :
    d''.write path content = .ok (d''.set (resolve d''.cwd path) (.file content)) := by
  obtain ⟨hloc, hends, -, -⟩ := write_eq_ok h
  rw [← hkeeps.cwd] at hloc
  rw [write, locate_of_keeps hkeeps hloc]
  simp only [hends, Bool.false_eq_true, if_false]

theorem removeFile_of_get? {d : Disk} {path : String} {content : ByteArray} {loc : Location}
    (hloc : d.locate path = .ok loc) (hfile : d.get? loc = some (.file content)) :
    d.removeFile path = .ok (d.erase loc) := by
  rw [removeFile, hloc]
  simp only [hfile]

/-- Where no slash ends a path, no pieces are dropped at its end. -/
theorem dropWhile_pieces {path : String} (h : (Path.pieces path).getLast? ≠ some "") :
    ((Path.pieces path).reverse.dropWhile (· == "")).reverse = Path.pieces path := by
  rw [List.reverse_eq_iff, List.dropWhile_eq_self_iff]
  intro hlength hempty
  rw [← List.head?_reverse, List.head?_eq_getElem?, List.getElem?_eq_getElem hlength] at h
  exact h (congrArg some (beq_iff_eq.1 hempty))

/-- Where no slash ends a path, only the dots at its end name nothing new. -/
theorem endsInFolder_eq {path : String} (h : (Path.pieces path).getLast? ≠ some "") :
    endsInFolder path = (Path.pieces path).getLast?.all fun p => p == "." || p == ".." := by
  unfold endsInFolder
  cases hlast : (Path.pieces path).getLast? with
  | none => rfl
  | some piece =>
    have hne : piece ≠ "" := by simpa [hlast] using h
    rw [Bool.eq_iff_iff]
    simp [Path.leads, hne]

/-- A file can only be moved to where a path leads that ends in a name. -/
theorem landing_eq_ok_iff {d : Disk} {path : String} {loc : Location} :
    d.landing path = .ok loc ↔ d.locate path = .ok loc ∧ endsInFolder path = false := by
  rw [landing, locate]
  split
  · simp
  split
  · simp
  -- a slash at the end is the only place where the two walks have different pieces
  by_cases hslash : (Path.pieces path).getLast? = some ""
  · have hends : endsInFolder path = true := by simp [endsInFolder, hslash, Path.leads]
    have hends' : endsInSlash path = true := by simp [endsInSlash, hslash]
    rw [hends, hends']
    split
    · simp
    · split <;> simp
  · have hends : endsInSlash path = false := by simpa [endsInSlash] using hslash
    rw [dropWhile_pieces hslash, endsInFolder_eq hslash, hends]
    cases d.walk (d.origin path) (Path.pieces path) with
    | error e => simp
    | ok next =>
      dsimp only
      split
      · next hdots => simp [hdots]
      · next hname => simpa using fun _ => hname

/-- What a move that succeeds has found and what it leaves. -/
theorem move_eq_ok {d d' : Disk} {source target : String} (h : d.move source target = .ok d') :
    ∃ content, d.locate source = .ok (resolve d.cwd source) ∧
      d.get? (resolve d.cwd source) = some (.file content) ∧
      d.landing target = .ok (resolve d.cwd target) ∧
      d.get? (resolve d.cwd target) ≠ some .folder ∧
      d' = (d.erase (resolve d.cwd source)).set (resolve d.cwd target) (.file content) := by
  unfold move at h
  split at h
  · cases h
  · next sourceLoc hsource =>
    rw [← locate_eq_ok hsource]
    split at h
    · next content hfile =>
      split at h
      · cases h
      · next targetLoc htarget =>
        rw [← locate_eq_ok (landing_eq_ok_iff.1 htarget).1]
        split at h
        · cases h
        · next hfree => exact ⟨content, hsource, hfile, htarget, hfree, (Except.ok.inj h).symm⟩
    · cases h

/-- A move changes the two places of its paths and nothing else. -/
theorem changes_move {d d' : Disk} {source target : String} (h : d.move source target = .ok d') :
    Changes [resolve d.cwd source, resolve d.cwd target] [] d d' := by
  obtain ⟨content, -, hfile, -, hfree, rfl⟩ := move_eq_ok h
  have hsource : d.get? (resolve d.cwd source) ≠ some .folder := by simp [hfile]
  have herase := changes_erase hsource
  have htarget : (d.erase (resolve d.cwd source)).get? (resolve d.cwd target) ≠ some .folder := by
    by_cases heq : resolve d.cwd target = resolve d.cwd source
    · simp [heq, get?_erase_self d (ne_root_of_get? hsource)]
    · rwa [get?_erase_of_ne d heq]
  exact herase.trans (changes_set content htarget) (by simp)

/-- A move that succeeds on one disk succeeds on a later one that keeps its folders, with the file
that stands there then. -/
theorem move_of_keeps {d d' d'' : Disk} {source target : String} {content : ByteArray}
    (h : d.move source target = .ok d') (hkeeps : Keeps d d'')
    (hfile : d''.get? (resolve d''.cwd source) = some (.file content))
    (hfree : d''.get? (resolve d''.cwd target) ≠ some .folder) :
    d''.move source target =
      .ok ((d''.erase (resolve d''.cwd source)).set (resolve d''.cwd target) (.file content)) := by
  obtain ⟨old, hsource, hold, hlanding, -, -⟩ := move_eq_ok h
  obtain ⟨htarget, hends⟩ := landing_eq_ok_iff.1 hlanding
  have hsource' := locate_of_keeps hkeeps hsource
  have htarget' := locate_of_keeps hkeeps htarget
  rw [← hkeeps.cwd] at hsource' htarget'
  have hlanding' := landing_eq_ok_iff.2 ⟨htarget', hends⟩
  unfold move
  simp only [hsource', hfile, hlanding']

/-! ### Folders on the way

`ensureFolders` goes up to the first folder that is there and comes down again, so what it makes
are folders at the ends of leading parts of the names. -/

/-- A folder that is made was missing, and the way to it was there. -/
theorem makeFolder_eq_ok {d d' : Disk} {start : Location} {names : List String}
    (h : d.makeFolder start names = .ok d') :
    d.walk start names = .ok (stepAll start names) ∧ d.get? (stepAll start names) = none ∧
      d' = d.set (stepAll start names) .folder := by
  unfold makeFolder at h
  split at h
  · cases h
  · next loc hloc =>
    rw [← walk_eq_ok hloc]
    split at h
    · cases h
    · next hnone => exact ⟨hloc, hnone, (Except.ok.inj h).symm⟩

/-- A folder that is ensured is there afterwards, and at most its own place has changed. -/
theorem ensureFolder_eq_ok {d d' : Disk} {start : Location} {names : List String}
    (h : d.ensureFolder start names = .ok d') :
    Changes [] [stepAll start names] d d' ∧ d'.isFolderAt start names = true := by
  -- the folder was made just now, or making it failed because it is there
  unfold ensureFolder at h
  split at h
  · next made hmade =>
    cases h
    obtain ⟨hwalk, hnone, rfl⟩ := makeFolder_eq_ok hmade
    have hchanges := changes_set_folder hnone
    refine ⟨hchanges, isFolderAt_iff.2 ⟨_, walk_of_keeps hchanges.keeps hwalk, ?_⟩⟩
    exact get?_set_self d _ (ne_root_of_get? (d := d) (by simp [hnone]))
  · split at h
    · next hthere =>
      cases h
      exact ⟨Changes.refl d, hthere⟩
    · cases h

theorem ensureFolder_of_isFolderAt {d : Disk} {start : Location} {names : List String}
    (h : d.isFolderAt start names = true) : d.ensureFolder start names = .ok d := by
  obtain ⟨loc, hwalk, hfolder⟩ := isFolderAt_iff.1 h
  have hmake : d.makeFolder start names = .error .alreadyExists := by
    rw [makeFolder, hwalk]
    simp only [hfolder]
  rw [ensureFolder, hmake]
  simp only [h, if_true]

/-- At most the places on the way change. -/
theorem changes_ensureFolder {d d' : Disk} {start : Location} {names : List String}
    (h : d.ensureFolder start names = .ok d') : Changes [] (reached start names) d d' :=
  (ensureFolder_eq_ok h).1.mono (List.Subset.refl _) (by
    simpa using mem_reached.2 ⟨names, List.prefix_rfl, rfl⟩)

/-- Whether or not all folders could be made, those that were made stand on the way, and nothing
else changed. -/
theorem changes_ensureFolders (start : Location) (names : List String) (d : Disk) :
    Changes [] (reached start names.reverse) d (ensureFolders start names d).2 := by
  induction names generalizing d with
  | nil => exact Changes.refl d
  | cons name parents ih =>
    have hparents : reached start parents.reverse ⊆ reached start (name :: parents).reverse :=
      reached_subset (by simp)
    simp only [ensureFolders]
    split
    · next made hmade => exact changes_ensureFolder hmade
    · -- the parent was not there: it is made first
      have hup := (ih d).mono (List.Subset.refl _) hparents
      split
      · next e d' hfail => simpa [hfail] using hup
      · next d' hmade =>
        rw [hmade] at hup
        split
        · next d'' hmade' =>
          exact (hup.trans (changes_ensureFolder hmade') (by simp)).mono (by simp) (by simp)
        · exact hup
    · exact Changes.refl d

/-- Where all folders could be made, they are there. -/
theorem isFolderAt_ensureFolders {start : Location} {name : String} {parents : List String}
    {d : Disk} (h : (ensureFolders start (name :: parents) d).1 = none) :
    (ensureFolders start (name :: parents) d).2.isFolderAt start (name :: parents).reverse =
      true := by
  simp only [ensureFolders] at h ⊢
  split at h
  · next made hmade => exact (ensureFolder_eq_ok hmade).2
  · split at h
    · cases h
    · split at h
      · next d'' hmade => exact (ensureFolder_eq_ok hmade).2
      · cases h
  · cases h

/-- Making the folders again changes nothing. -/
theorem ensureFolders_of_keeps {start : Location} {names : List String} {d d' : Disk}
    (h : (ensureFolders start names d).1 = none)
    (hkeeps : Keeps (ensureFolders start names d).2 d') :
    ensureFolders start names d' = (none, d') := by
  cases names with
  | nil => rfl
  | cons name parents =>
    have hthere := isFolderAt_of_keeps hkeeps (isFolderAt_ensureFolders h)
    rw [ensureFolders, ensureFolder_of_isFolderAt hthere]

/-- Making the folder of a path: all folders on the way to the last name, if the path of that folder
is not too long. -/
theorem makeParents_eq (d : Disk) (path : String) :
    d.makeParents path =
      if maxPathLength < (Path.folder path).utf8ByteSize then (some .nameTooLong, d)
      else ensureFolders (d.origin path) (Path.names path).dropLast.reverse d := by
  rw [makeParents, makeFolders, Path.names_folder]
  congr 1
  by_cases hnames : Path.names (Path.folder path) = []
  · rw [← Path.names_folder, hnames]
    rfl
  · rw [origin, origin, Path.isAbsolute_folder hnames]

/-- Making the folders of a path changes at most the places that the path goes through. -/
theorem changes_makeParents (d : Disk) (path : String) :
    Changes [] (waypoints d.cwd path) d (d.makeParents path).2 := by
  rw [makeParents_eq]
  split
  · exact Changes.refl d
  · have h := changes_ensureFolders (d.origin path) (Path.names path).dropLast.reverse d
    rwa [List.reverse_reverse] at h

/-- Folders that were made need not be made again as long as they are kept. -/
theorem makeParents_of_keeps {d d' : Disk} {path : String} (h : (d.makeParents path).1 = none)
    (hkeeps : Keeps (d.makeParents path).2 d') : d'.makeParents path = (none, d') := by
  have hcwd : d'.cwd = d.cwd := hkeeps.cwd.trans (changes_makeParents d path).cwd
  rw [makeParents_eq] at h hkeeps ⊢
  split at h
  · cases h
  · next hshort =>
    rw [if_neg hshort] at hkeeps ⊢
    rw [origin, hcwd]
    exact ensureFolders_of_keeps h hkeeps

end RefPages.Disk
