import Mathlib.Data.List.Infix
import Mathlib.Data.List.TakeWhile
import RefPages.Disk.Basic
import RefPages.Proofs.Path

/-!
# Locations of paths

Walking a path needs the disk only to see that there is a folder to stand in at each step. Where
there is one, the walk ends at the location that can be read off the path alone:

    d.locate path = .ok loc   ──▶   loc = Location.resolve d.cwd path

So two disks with the same folders agree on where a path leads, and the places that a run may change
can be named before it.
-/

namespace RefPages

/-! ### Items and updates

What stands at a location after `set` and `erase`. The root is no place of its own: it is always a
folder, so both lemmas about the changed place ask for another location. -/

namespace Disk

@[simp] theorem get?_root (d : Disk) : d.get? [] = some .folder := rfl

@[simp] theorem set_cwd (d : Disk) (loc : Location) (item : Item) : (d.set loc item).cwd = d.cwd :=
  rfl

@[simp] theorem erase_cwd (d : Disk) (loc : Location) : (d.erase loc).cwd = d.cwd := rfl

theorem ne_root_of_get? {d : Disk} {loc : Location} (h : d.get? loc ≠ some .folder) : loc ≠ [] := by
  rintro rfl
  exact h rfl

theorem get?_eq_none_iff {d : Disk} {loc : Location} (h : loc ≠ []) :
    d.get? loc = none ↔ ∀ e ∈ d.items, e.1 ≠ loc := by
  simp [get?, h]

theorem find?_set_go_self (loc : Location) (item : Item) (es : List (Location × Item)) :
    (set.go loc item es).find? (fun e => e.1 == loc) = some (loc, item) := by
  induction es with
  | nil => simp [set.go]
  | cons e es ih =>
    rw [set.go]
    by_cases he : e.1 = loc
    · simp [he]
    · simpa [he] using ih

theorem find?_set_go_of_ne {loc other : Location} (item : Item) (h : other ≠ loc)
    (es : List (Location × Item)) :
    (set.go loc item es).find? (fun e => e.1 == other) = es.find? fun e => e.1 == other := by
  induction es with
  | nil => simp [set.go, Ne.symm h]
  | cons e es ih =>
    rw [set.go]
    by_cases he : e.1 = loc
    · simp [he, beq_eq_false_iff_ne.2 (Ne.symm h)]
    · simp [he, List.find?_cons, ih]

/-- What is put at a location is there, except at the root. -/
theorem get?_set_self (d : Disk) {loc : Location} (item : Item) (h : loc ≠ []) :
    (d.set loc item).get? loc = some item := by
  simp [get?, set, h, find?_set_go_self]

/-- Nothing else changes when an item is put somewhere. -/
theorem get?_set_of_ne (d : Disk) {loc other : Location} (item : Item) (h : other ≠ loc) :
    (d.set loc item).get? other = d.get? other := by
  simp [get?, set, find?_set_go_of_ne item h]

theorem get?_erase_self (d : Disk) {loc : Location} (h : loc ≠ []) :
    (d.erase loc).get? loc = none := by
  rw [get?_eq_none_iff h]
  intro e he
  simpa using (List.mem_filter.1 he).2

theorem get?_erase_of_ne (d : Disk) {loc other : Location} (h : other ≠ loc) :
    (d.erase loc).get? other = d.get? other := by
  have hfind : (d.items.filter fun e => e.1 != loc).find? (fun e => e.1 == other) =
      d.items.find? fun e => e.1 == other := by
    rw [List.find?_filter]
    congr 1
    funext e
    by_cases he : e.1 = other
    · simp [he, h]
    · simp [he]
  simp only [get?, erase, hfind]

/-- Putting an item where it stands already changes nothing, also not the order of the items. -/
theorem set_go_of_find? {loc : Location} {item : Item} {es : List (Location × Item)}
    (h : (es.find? fun e => e.1 == loc).map Prod.snd = some item) : set.go loc item es = es := by
  induction es with
  | nil => simp at h
  | cons e es ih =>
    rw [set.go]
    by_cases he : e.1 = loc
    · obtain ⟨l, i⟩ := e
      simp_all
    · simp only [he, if_false, List.cons.injEq, true_and]
      exact ih (by simpa [List.find?_cons, beq_eq_false_iff_ne.2 he] using h)

/-- Putting an item where it stands already changes nothing. -/
theorem set_of_get?_eq_some {d : Disk} {loc : Location} {item : Item} (hroot : loc ≠ [])
    (h : d.get? loc = some item) : d.set loc item = d := by
  have : set.go loc item d.items = d.items := set_go_of_find? (by simpa [get?, hroot] using h)
  rw [set, this]

theorem set_go_of_forall_ne {loc : Location} {item : Item} {es : List (Location × Item)}
    (h : ∀ e ∈ es, e.1 ≠ loc) : set.go loc item es = es ++ [(loc, item)] := by
  induction es with
  | nil => rfl
  | cons e es ih =>
    rw [List.forall_mem_cons] at h
    rw [set.go, if_neg h.1, ih h.2, List.cons_append]

/-- Taking away what was put in an empty place gives the disk back. -/
theorem erase_set_of_get?_eq_none {d : Disk} {loc : Location} {item : Item}
    (h : d.get? loc = none) : (d.set loc item).erase loc = d := by
  have hitems := (get?_eq_none_iff (ne_root_of_get? (d := d) (by simp [h]))).1 h
  have hfilter : d.items.filter (fun e => e.1 != loc) = d.items :=
    List.filter_eq_self.2 fun e he => by simpa using hitems e he
  rw [set, erase, set_go_of_forall_ne hitems, List.filter_append, hfilter]
  simp

end Disk

/-! ### Resolving a path

The location of a path, read off its pieces. The steps are those of the walk without its checks. -/

namespace Location

def step (loc : Location) (piece : String) : Location :=
  if !Path.leads piece then loc else if piece = ".." then loc.dropLast else loc ++ [piece]

def stepAll (loc : Location) (pieces : List String) : Location := pieces.foldl step loc

/-- The location that a path starts from, for paths that start in the given folder. -/
def origin (cwd : Location) (path : String) : Location := if Path.isAbsolute path then [] else cwd

/-- The location that a path stands for. -/
def resolve (cwd : Location) (path : String) : Location :=
  stepAll (origin cwd path) (Path.pieces path)

/-- The locations at the ends of the leading parts of some names. -/
def reached (start : Location) (names : List String) : List Location :=
  names.inits.map (stepAll start)

/-- The folders that a path goes through on its way to its last name. A folder that the path enters
and leaves again by `..` is one of them. -/
def waypoints (cwd : Location) (path : String) : List Location :=
  reached (origin cwd path) (Path.names path).dropLast

@[simp] theorem stepAll_nil (loc : Location) : stepAll loc [] = loc := rfl

@[simp] theorem stepAll_cons (loc : Location) (piece : String) (pieces : List String) :
    stepAll loc (piece :: pieces) = stepAll (step loc piece) pieces := rfl

theorem stepAll_append (loc : Location) (ps qs : List String) :
    stepAll loc (ps ++ qs) = stepAll (stepAll loc ps) qs := List.foldl_append

theorem step_idle {piece : String} (loc : Location) (h : Path.leads piece = false) :
    step loc piece = loc := by
  simp [step, h]

theorem step_name {piece : String} (loc : Location) (h : Path.leads piece = true)
    (hup : piece ≠ "..") : step loc piece = loc ++ [piece] := by
  simp [step, h, hup]

theorem stepAll_idle {ps : List String} (loc : Location) (h : ∀ p ∈ ps, Path.leads p = false) :
    stepAll loc ps = loc := by
  induction ps with
  | nil => rfl
  | cons p ps ih =>
    rw [List.forall_mem_cons] at h
    rw [stepAll_cons, step_idle loc h.1, ih h.2]

/-- The reached locations are those of the leading parts of the names. -/
theorem mem_reached {start loc : Location} {names : List String} :
    loc ∈ reached start names ↔ ∃ ps, ps <+: names ∧ stepAll start ps = loc := by
  simp [reached, List.mem_inits]

theorem reached_subset {start : Location} {names more : List String} (h : names <+: more) :
    reached start names ⊆ reached start more := by
  intro loc hloc
  obtain ⟨ps, hps, rfl⟩ := mem_reached.1 hloc
  exact mem_reached.2 ⟨ps, hps.trans h, rfl⟩

end Location

/-! ### Walking finds the resolved location -/

namespace Disk

open Location (stepAll resolve)

theorem step_eq_ok {loc next : Location} {piece : String} (h : step loc piece = .ok next) :
    next = Location.step loc piece := by
  unfold step at h
  unfold Location.step
  split_ifs at h ⊢ <;> exact (Except.ok.inj h).symm

/-- A walk that succeeds starts in a folder. -/
theorem walk_cons_eq_ok {d : Disk} {loc next : Location} {piece : String} {pieces : List String}
    (h : d.walk loc (piece :: pieces) = .ok next) :
    d.get? loc = some .folder ∧ ∃ mid, step loc piece = .ok mid ∧ d.walk mid pieces = .ok next := by
  rw [walk] at h
  split at h
  · cases h
  · cases h
  · next hfolder =>
    split at h
    · cases h
    · next mid hmid => exact ⟨hfolder, mid, hmid, h⟩

theorem walk_cons_of_folder {d : Disk} {loc mid : Location} {piece : String}
    (pieces : List String) (hfolder : d.get? loc = some .folder) (hmid : step loc piece = .ok mid) :
    d.walk loc (piece :: pieces) = d.walk mid pieces := by
  simp only [walk, hfolder, hmid]

/-- A walk that succeeds ends where its pieces lead. -/
theorem walk_eq_ok {d : Disk} {loc next : Location} {pieces : List String}
    (h : d.walk loc pieces = .ok next) : next = stepAll loc pieces := by
  induction pieces generalizing loc with
  | nil => simpa [walk] using h.symm
  | cons piece pieces ih =>
    obtain ⟨-, mid, hmid, hrest⟩ := walk_cons_eq_ok h
    rw [Location.stepAll_cons, ← step_eq_ok hmid]
    exact ih hrest

/-- A path that can be walked leads to the location it stands for. -/
theorem locate_eq_ok {d : Disk} {path : String} {loc : Location} (h : d.locate path = .ok loc) :
    loc = resolve d.cwd path := by
  unfold locate at h
  split at h
  · cases h
  · split at h
    · cases h
    · exact walk_eq_ok h

end Disk

/-! ### Siblings -/

namespace Location

/-- A path that ends in a file name has that name as its last piece but for pieces that lead
nowhere, and a sibling has another name there and nothing after it. -/
theorem pieces_of_fileName? {path name : String} (h : Path.fileName? path = some name) :
    ∃ before idle, Path.pieces path = before ++ name :: idle ∧ (∀ p ∈ idle, Path.leads p = false) ∧
      Path.leads name = true ∧ name ≠ ".." ∧
      ∀ other, Path.sibling path other = "/".intercalate (before ++ [other]) := by
  -- the name is the last piece that leads anywhere
  have hlast : (Path.pieces path).reverse.find? Path.leads = some name ∧ name ≠ ".." := by
    rw [← List.getLast?_filter]
    unfold Path.fileName? Path.names at h
    split at h
    · cases h
    · next last hlast =>
      split at h
      · cases h
      · next hup =>
        cases h
        exact ⟨hlast, hup⟩
  obtain ⟨hfind, hup⟩ := hlast
  have hhead := hfind
  rw [List.find?_eq_head?_dropWhile_not] at hhead
  obtain ⟨more, hmore⟩ : ∃ more,
      (Path.pieces path).reverse.dropWhile (fun p => !Path.leads p) = name :: more :=
    ⟨_, (List.cons_head?_tail hhead).symm⟩
  refine ⟨more.reverse, ((Path.pieces path).reverse.takeWhile fun p => !Path.leads p).reverse,
    ?_, ?_, List.find?_some hfind, hup, ?_⟩
  · have hsplit := List.takeWhile_append_dropWhile (p := fun p => !Path.leads p)
      (l := (Path.pieces path).reverse)
    rw [hmore] at hsplit
    simpa using (congrArg List.reverse hsplit).symm
  · intro p hp
    simpa using List.mem_takeWhile_imp (List.mem_reverse.1 hp)
  · intro other
    rw [Path.sibling, hmore]
    simp

/-- A sibling has the same pieces up to the name, so it starts in the same folder. -/
theorem pieces_sibling {path name other : String} (h : Path.fileName? path = some name)
    (hslash : '/' ∉ other.toList) :
    ∃ before idle, Path.pieces path = before ++ name :: idle ∧
      (∀ p ∈ idle, Path.leads p = false) ∧ Path.leads name = true ∧ name ≠ ".." ∧
      Path.pieces (Path.sibling path other) = before ++ [other] ∧
      ∀ cwd, origin cwd (Path.sibling path other) = origin cwd path := by
  obtain ⟨before, idle, hpieces, hidle, hname, hup, hsibling⟩ := pieces_of_fileName? h
  have hslashes : ∀ p ∈ before ++ [other], '/' ∉ p.toList := by
    intro p hp
    rcases List.mem_append.1 hp with hp | hp
    · have hmem : p ∈ Path.pieces path := by simp [hpieces, hp]
      exact Path.not_mem_of_mem_pieces hmem
    · rwa [List.mem_singleton.1 hp]
  have hother : Path.pieces (Path.sibling path other) = before ++ [other] := by
    rw [hsibling, Path.pieces_intercalate (by simp) hslashes]
  refine ⟨before, idle, hpieces, hidle, hname, hup, hother, fun cwd => ?_⟩
  -- both paths start at the root or neither does, since they share all pieces but the last name
  have habs : Path.isAbsolute (Path.sibling path other) = Path.isAbsolute path := by
    rw [Bool.eq_iff_iff, Path.isAbsolute_iff, Path.isAbsolute_iff, hother, hpieces]
    cases before with
    | nil =>
      have hempty : name ≠ "" := by
        rintro rfl
        simp [Path.leads] at hname
      simp [hempty]
    | cons b bs => cases bs <;> simp
  rw [origin, origin, habs]

/-- Siblings stand in the same folder. -/
theorem resolve_sibling {cwd : Location} {path name other : String}
    (h : Path.fileName? path = some name) (hslash : '/' ∉ other.toList)
    (hleads : Path.leads other = true) (hup : other ≠ "..") :
    ∃ folder, resolve cwd path = folder ++ [name] ∧
      resolve cwd (Path.sibling path other) = folder ++ [other] := by
  obtain ⟨before, idle, hpieces, hidle, hname, hnameUp, hother, horigin⟩ := pieces_sibling h hslash
  refine ⟨stepAll (origin cwd path) before, ?_, ?_⟩
  · rw [resolve, hpieces, stepAll_append, stepAll_cons, step_name _ hname hnameUp,
      stepAll_idle _ hidle]
  · rw [resolve, hother, horigin, stepAll_append, stepAll_cons, step_name _ hleads hup, stepAll_nil]

end Location

end RefPages
