import RefPages.Proofs.Disk.Location

/-!
# Trees

On a disk that is a tree, whatever there is stands in a folder. A path on such a disk is straight
where each `..` leaves a folder that is there: what such a path goes through is a folder already or
stands above the place that the path leads to.

    out/../pages/a.md      the folder `out` is there
    pages/a.md             and all else on the way is above `pages/a.md`

So straight paths that lead to places apart from each other make folders in places apart from each
other's files.
-/

namespace RefPages

open Location (stepAll reached resolve mem_reached)

/-! ### Ways without idle pieces -/

namespace Location

/-- Pieces that lead nowhere do not matter to where a way ends. -/
theorem stepAll_filter (loc : Location) (ps : List String) :
    stepAll loc (ps.filter Path.leads) = stepAll loc ps := by
  induction ps generalizing loc with
  | nil => rfl
  | cons p ps ih =>
    cases hp : Path.leads p with
    | false => rw [List.filter_cons_of_neg (by simp [hp]), ih, stepAll_cons, step_idle loc hp]
    | true => rw [List.filter_cons_of_pos hp, stepAll_cons, ih, stepAll_cons]

@[simp] theorem reached_nil (start : Location) : reached start [] = [start] := rfl

/-- A way reaches its start, and what the rest reaches from the next place. -/
theorem mem_reached_cons {start loc : Location} {p : String} {ps : List String} :
    loc ∈ reached start (p :: ps) ↔ loc = start ∨ loc ∈ reached (step start p) ps := by
  simp [reached, List.map_map, Function.comp_def]

theorem start_mem_reached (start : Location) (ps : List String) : start ∈ reached start ps :=
  mem_reached.2 ⟨[], List.nil_prefix, rfl⟩

theorem stepAll_mem_reached (start : Location) (ps : List String) :
    stepAll start ps ∈ reached start ps := mem_reached.2 ⟨ps, List.prefix_rfl, rfl⟩

theorem mem_reached_concat {start loc : Location} {p : String} {ps : List String} :
    loc ∈ reached start (ps ++ [p]) ↔ loc ∈ reached start ps ∨ loc = stepAll start (ps ++ [p]) := by
  simp only [mem_reached, List.prefix_concat_iff]
  constructor
  · rintro ⟨qs, rfl | hqs, rfl⟩
    · exact .inr rfl
    · exact .inl ⟨qs, hqs, rfl⟩
  · rintro (⟨qs, hqs, rfl⟩ | rfl)
    · exact ⟨qs, .inr hqs, rfl⟩
    · exact ⟨_, .inl rfl, rfl⟩

/-- Pieces that lead nowhere reach nothing new. -/
theorem mem_reached_filter {start loc : Location} {ps : List String} :
    loc ∈ reached start (ps.filter Path.leads) ↔ loc ∈ reached start ps := by
  induction ps generalizing start with
  | nil => rfl
  | cons p ps ih =>
    rw [mem_reached_cons]
    cases hp : Path.leads p with
    | true => rw [List.filter_cons_of_pos hp, mem_reached_cons, ih]
    | false =>
      rw [List.filter_cons_of_neg (by simp [hp]), ih, step_idle start hp]
      exact ⟨.inr, fun h => h.elim (fun heq => heq ▸ start_mem_reached start ps) id⟩

/-- A path goes only through places that it reaches. -/
theorem waypoints_subset (cwd : Location) (path : String) :
    waypoints cwd path ⊆ reached (origin cwd path) (Path.pieces path) := fun _ hloc =>
  mem_reached_filter.1 (reached_subset (List.dropLast_prefix _) hloc)

/-- A path to a file, and one to a file beside it, go through the same folders before they end. -/
theorem mem_reached_sibling {path name other : String} (h : Path.fileName? path = some name)
    (hslash : '/' ∉ other.toList) (hleads : Path.leads other = true) (cwd loc : Location) :
    (loc ∈ reached (origin cwd path) (Path.pieces path) ↔
        loc ∈ waypoints cwd path ∨ loc = resolve cwd path) ∧
      (loc ∈ reached (origin cwd (Path.sibling path other))
          (Path.pieces (Path.sibling path other)) ↔
        loc ∈ waypoints cwd path ∨ loc = resolve cwd (Path.sibling path other)) := by
  obtain ⟨before, idle, hpieces, hidle, hname, -, hother, horigin⟩ := pieces_sibling h hslash
  have hnone : idle.filter Path.leads = [] :=
    List.filter_eq_nil_iff.2 fun p hp => by simp [hidle p hp]
  have hnames : (Path.pieces path).filter Path.leads = before.filter Path.leads ++ [name] := by
    rw [hpieces, List.filter_append, List.filter_cons_of_pos hname, hnone]
  have hnames' : (Path.pieces (Path.sibling path other)).filter Path.leads =
      before.filter Path.leads ++ [other] := by
    rw [hother, List.filter_append, List.filter_cons_of_pos hleads, List.filter_nil]
  -- both ways have the same names but for the last one
  have hway : waypoints cwd path = reached (origin cwd path) (before.filter Path.leads) := by
    rw [waypoints, Path.names, hnames, List.dropLast_concat]
  constructor
  · rw [← mem_reached_filter, resolve, ← stepAll_filter, hnames, mem_reached_concat, hway]
  · rw [← mem_reached_filter, resolve, ← stepAll_filter, hnames', mem_reached_concat, hway, horigin]

end Location

namespace Disk

/-! ### Trees -/

/-- Whatever there is stands in a folder, and paths start in one. -/
structure IsTree (d : Disk) : Prop where
  cwd : d.get? d.cwd = some .folder
  parent : ∀ {loc : Location} {name : String},
    d.get? (loc ++ [name]) ≠ none → d.get? loc = some .folder

variable {d : Disk} {start loc : Location} {ps qs : List String}

theorem any_isFolder_iff : (d.get? loc).any Item.isFolder = true ↔ d.get? loc = some .folder := by
  cases d.get? loc with
  | none => simp
  | some item => cases item <;> simp [Item.isFolder]

/-- It is enough to look at the items. -/
theorem isTree_of_items (hcwd : (d.get? d.cwd).any Item.isFolder = true)
    (h : ∀ e ∈ d.items, (d.get? e.1.dropLast).any Item.isFolder = true) : d.IsTree := by
  refine ⟨any_isFolder_iff.1 hcwd, fun {loc name} hthere => ?_⟩
  have hmem : ∃ e ∈ d.items, e.1 = loc ++ [name] := by
    by_contra hnone
    push Not at hnone
    exact hthere ((get?_eq_none_iff (by simp)).2 hnone)
  obtain ⟨e, he, heq⟩ := hmem
  simpa [heq] using any_isFolder_iff.1 (h e he)

namespace IsTree

/-- In a tree all that leads to a folder is a folder. -/
theorem folder_of_prefix (h : d.IsTree) {loc' : Location} (hleading : loc <+: loc')
    (hfolder : d.get? loc' = some .folder) : d.get? loc = some .folder := by
  obtain ⟨more, rfl⟩ := hleading
  induction more using List.reverseRecOn with
  | nil => simpa using hfolder
  | append_singleton more name ih =>
    rw [← List.append_assoc] at hfolder
    have hthere : d.get? (loc ++ more ++ [name]) ≠ none := hfolder ▸ Option.some_ne_none _
    exact ih (h.parent hthere)

/-- In a tree nothing stands below a missing folder. -/
theorem get?_below_none (h : d.IsTree) (hnone : d.get? loc = none) (name : String) :
    d.get? (loc ++ [name]) = none := by
  by_contra hthere
  simp [h.parent hthere] at hnone

/-- In a tree every path starts in a folder. -/
theorem origin (h : d.IsTree) (path : String) : d.get? (d.origin path) = some .folder := by
  unfold Disk.origin
  split
  · rfl
  · exact h.cwd

end IsTree

/-! ### Straight ways -/

/-- Where the pieces leave a folder by `..`, it is there. -/
def Straight (d : Disk) (start : Location) (ps : List String) : Prop :=
  ∀ qs, qs ++ [".."] <+: ps → d.get? (stepAll start qs) = some .folder

instance (d : Disk) (start : Location) (ps : List String) : Decidable (d.Straight start ps) :=
  decidable_of_iff
    (∀ qs ∈ ps.inits, qs ++ [".."] <+: ps →
      (d.get? (stepAll start qs)).any Item.isFolder = true) <| by
    simp only [any_isFolder_iff, List.mem_inits]
    exact ⟨fun h qs hqs => h qs ((List.prefix_append qs _).trans hqs) hqs, fun h qs _ => h qs⟩

namespace Straight

theorem tail {p : String} (h : d.Straight start (p :: ps)) :
    d.Straight (Location.step start p) ps := by
  intro qs hqs
  exact h (p :: qs) (List.cons_prefix_cons.2 ⟨rfl, hqs⟩)

theorem head (h : d.Straight start (".." :: ps)) : d.get? start = some .folder :=
  h [] (by simp)

theorem append (h : d.Straight start (ps ++ qs)) : d.Straight (stepAll start ps) qs := by
  intro rs hrs
  rw [← Location.stepAll_append]
  exact h (ps ++ rs) (by simpa using hrs)

theorem mono (h : d.Straight start ps) (hleading : qs <+: ps) : d.Straight start qs :=
  fun rs hrs => h rs (hrs.trans hleading)

/-- A straight way stays straight without the pieces that lead nowhere. -/
theorem filter (h : d.Straight start ps) : d.Straight start (ps.filter Path.leads) := by
  -- a component that does not lead anywhere leaves the location as it is
  induction ps generalizing start with
  | nil => exact h
  | cons p ps ih =>
    cases hp : Path.leads p with
    | false =>
      rw [List.filter_cons_of_neg (by simp [hp])]
      have htail := h.tail
      rw [Location.step_idle start hp] at htail
      exact ih htail
    | true =>
      rw [List.filter_cons_of_pos hp]
      rintro (_ | ⟨q, qs⟩) hqs
      · obtain ⟨rfl, -⟩ := List.cons_prefix_cons.1 hqs
        exact h.head
      · rw [List.cons_append] at hqs
        obtain ⟨rfl, hrest⟩ := List.cons_prefix_cons.1 hqs
        rw [Location.stepAll_cons]
        exact ih h.tail qs hrest

/-- From a place on, a straight way leaves only folders that are there. -/
theorem folder_or_prefix (htree : d.IsTree) (h : d.Straight start ps) (hloc : loc <+: start) :
    d.get? loc = some .folder ∨ loc <+: stepAll start ps := by
  induction ps generalizing start with
  | nil => exact .inr hloc
  | cons p ps ih =>
    rw [Location.stepAll_cons]
    cases hp : Path.leads p with
    | false => exact ih h.tail (by rwa [Location.step_idle start hp])
    | true =>
      by_cases hup : p = ".."
      -- a step up leaves a folder, and all above a folder are folders
      · subst hup
        exact .inl (htree.folder_of_prefix hloc h.head)
      · refine ih h.tail ?_
        rw [Location.step_name start hp hup]
        exact hloc.trans (List.prefix_append ..)

/-- What a straight way goes through is a folder already, or stands above its end. -/
theorem reached (htree : d.IsTree) (h : d.Straight start ps) (hloc : loc ∈ reached start ps) :
    d.get? loc = some .folder ∨ loc <+: stepAll start ps := by
  obtain ⟨qs, ⟨rs, rfl⟩, rfl⟩ := mem_reached.1 hloc
  rw [Location.stepAll_append]
  exact h.append.folder_or_prefix htree List.prefix_rfl

/-- A straight way does not come back from a place where nothing is. -/
theorem missing (htree : d.IsTree) (h : d.Straight start ps) (hnone : d.get? start = none)
    (hloc : loc ∈ Location.reached start ps) : d.get? loc = none := by
  induction ps generalizing start with
  | nil =>
    obtain rfl : loc = start := by simpa using hloc
    exact hnone
  | cons p ps ih =>
    rcases Location.mem_reached_cons.1 hloc with rfl | hloc
    · exact hnone
    · refine ih h.tail ?_ hloc
      cases hp : Path.leads p with
      | false => rwa [Location.step_idle start hp]
      | true =>
        by_cases hup : p = ".."
        -- nothing is left by a step up from a location that is missing
        · subst hup
          simp [h.head] at hnone
        · rw [Location.step_name start hp hup]
          exact htree.get?_below_none hnone p

end Straight

def StraightPath (d : Disk) (path : String) : Prop :=
  d.Straight (d.origin path) (Path.pieces path)

instance (d : Disk) (path : String) : Decidable (d.StraightPath path) :=
  inferInstanceAs (Decidable (d.Straight (d.origin path) (Path.pieces path)))

end Disk

end RefPages
