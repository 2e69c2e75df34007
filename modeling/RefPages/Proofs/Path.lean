import RefPages.Path

/-!
# Pieces of paths

A path is its pieces with slashes between them, so a path is known by its pieces, and so is whether
it starts at the root. What is used of this elsewhere: the temporary file of a page has the pieces
of the page's path with another name at the end, and its folder has the names of the path without
the last one.

    out/pages/a.md/.   ──sibling──▶   out/pages/.a.md.refdoc-tmp
    out/pages/a.md/.   ──folder───▶   out/pages
-/

namespace RefPages

/-! ### Splitting and joining -/

theorem Text.splitOn_eq (sep : Char) (cs : List Char) : Text.splitOn sep cs = cs.splitOn sep := by
  induction cs with
  | nil => rfl
  | cons c cs ih =>
    rw [Text.splitOn, List.splitOn_cons_eq_if_modifyHead, ih]
    by_cases hc : c = sep
    · simp [hc]
    · obtain ⟨w, ws, hws⟩ := List.exists_cons_of_ne_nil (List.splitOn_ne_nil sep cs)
      simp [hc, hws, Text.prependToFirst]

/-- The separator is in none of the pieces. -/
theorem Text.not_mem_of_mem_splitOn {sep : Char} {cs : List Char} :
    ∀ w ∈ Text.splitOn sep cs, sep ∉ w := by
  induction cs with
  | nil => simp [Text.splitOn]
  | cons c cs ih =>
    rw [Text.splitOn]
    split
    · simpa using ih
    · next hc =>
      cases hs : Text.splitOn sep cs with
      | nil => simpa [Text.prependToFirst] using Ne.symm hc
      | cons w ws =>
        rw [hs] at ih
        simp only [Text.prependToFirst, List.forall_mem_cons] at ih ⊢
        exact ⟨by simpa [Ne.symm hc] using ih.1, ih.2⟩

namespace Path

theorem not_mem_of_mem_pieces {path piece : String} (h : piece ∈ pieces path) :
    '/' ∉ piece.toList := by
  obtain ⟨w, hw, rfl⟩ := List.mem_map.1 h
  rw [String.toList_ofList]
  exact Text.not_mem_of_mem_splitOn w hw

/-- Joining pieces without slashes gives a path with just these pieces. -/
theorem pieces_intercalate {ps : List String} (hne : ps ≠ [])
    (hps : ∀ p ∈ ps, '/' ∉ p.toList) : pieces ("/".intercalate ps) = ps := by
  have hsplit : Text.splitOn '/' ("/".intercalate ps).toList = ps.map String.toList := by
    rw [Text.splitOn_eq, String.toList_intercalate]
    refine List.splitOn_intercalate '/' ?_ (by simpa using hne)
    simpa using hps
  rw [pieces, hsplit, List.map_map]
  simp [Function.comp_def]

/-- A path starts at the root if it has an empty piece with another after it. -/
theorem isAbsolute_iff {path : String} :
    isAbsolute path = true ↔ ∃ p ps, pieces path = "" :: p :: ps := by
  cases hcs : path.toList with
  | nil => simp [isAbsolute, pieces, hcs, Text.splitOn]
  | cons c cs =>
    have hne : Text.splitOn '/' cs ≠ [] := by
      rw [Text.splitOn_eq]
      exact List.splitOn_ne_nil _ _
    obtain ⟨w, ws, hws⟩ := List.exists_cons_of_ne_nil hne
    by_cases hc : c = '/'
    · simp [isAbsolute, pieces, hcs, Text.splitOn, hc, hws]
    · simp [isAbsolute, pieces, hcs, Text.splitOn, hc, hws, Text.prependToFirst]

/-! ### Folders of paths -/

/-- Pieces at the end that lead nowhere are no names. -/
theorem filter_reverse_dropWhile (ps : List String) :
    ((ps.dropWhile fun p => !leads p).reverse).filter leads = ps.reverse.filter leads := by
  induction ps with
  | nil => rfl
  | cons p ps ih =>
    rw [List.dropWhile_cons]
    split
    · next hidle => simp_all
    · rfl

theorem leads_of_dropWhile {ps more : List String} {p : String}
    (h : (ps.dropWhile fun p => !leads p) = p :: more) : leads p = true := by
  simpa [h] using List.head?_dropWhile_not (fun p => !leads p) ps

/-- The names in front of the last one are those of the pieces in front of it. -/
theorem dropLast_filter {ps before : List String} {last : String}
    (h : (ps.dropWhile fun p => !leads p) = last :: before) :
    (ps.reverse.filter leads).dropLast =
      ((before.dropWhile fun p => !leads p).reverse).filter leads := by
  rw [← filter_reverse_dropWhile ps, h, filter_reverse_dropWhile, List.reverse_cons,
    List.filter_append]
  simp [leads_of_dropWhile h]

/-- The folder of a path is a leading part of it that ends in a name, or the path has no name but
its last one. -/
theorem folder_spec (path : String) :
    (folder path = "" ∧ (names path).dropLast = []) ∨
      ∃ ps name qs, leads name = true ∧ qs ≠ [] ∧ pieces path = ps ++ name :: qs ∧
        pieces (folder path) = ps ++ [name] ∧
        (names path).dropLast = (ps ++ [name]).filter leads := by
  have hnames : names path = (pieces path).reverse.reverse.filter leads := by
    rw [List.reverse_reverse, names]
  obtain ⟨idle, hidle⟩ := List.dropWhile_suffix (fun p => !leads p) (l := (pieces path).reverse)
  rw [hnames, folder]
  cases hlast : (pieces path).reverse.dropWhile fun p => !leads p with
  | nil =>
    refine .inl ⟨rfl, ?_⟩
    rw [← filter_reverse_dropWhile, hlast]
    rfl
  | cons last before =>
    rw [hlast] at hidle
    rw [dropLast_filter hlast]
    obtain ⟨between, hbetween⟩ := List.dropWhile_suffix (fun p => !leads p) (l := before)
    dsimp only
    cases hname : before.dropWhile fun p => !leads p with
    | nil => exact .inl ⟨rfl, rfl⟩
    | cons name more =>
      rw [hname] at hbetween
      have hpieces : pieces path =
          (more.reverse ++ [name]) ++ (between.reverse ++ last :: idle.reverse) := by
        rw [← List.reverse_reverse (pieces path), ← hidle, ← hbetween]
        simp
      refine .inr ⟨more.reverse, name, between.reverse ++ last :: idle.reverse,
        leads_of_dropWhile hname, by simp, by simpa using hpieces, ?_, by simp⟩
      -- the folder is joined from pieces of the path, so it is cut at the same places
      rw [List.reverse_cons, pieces_intercalate (by simp)]
      intro p hp
      have hmem : p ∈ pieces path := hpieces ▸ List.mem_append_left _ hp
      exact not_mem_of_mem_pieces hmem

/-- The names of the folder are those of the path without the last one. -/
theorem names_folder (path : String) : names (folder path) = (names path).dropLast := by
  rcases folder_spec path with ⟨hfolder, hnames⟩ | ⟨ps, name, qs, -, -, -, hfolder, hnames⟩
  · rw [hfolder, hnames]
    decide
  · rw [hnames, names, hfolder]

/-- A folder with a name starts at the root if the path does. -/
theorem isAbsolute_folder {path : String} (h : names (folder path) ≠ []) :
    isAbsolute (folder path) = isAbsolute path := by
  rcases folder_spec path with ⟨hfolder, -⟩ | ⟨ps, name, qs, hname, hqs, hpieces, hfolder, -⟩
  · rw [hfolder] at h
    exact absurd (by decide) h
  · have hempty : name ≠ "" := by
      rintro rfl
      simp [leads] at hname
    obtain ⟨q, qs, rfl⟩ := List.exists_cons_of_ne_nil hqs
    rw [Bool.eq_iff_iff, isAbsolute_iff, isAbsolute_iff, hfolder, hpieces]
    -- a leading empty piece is what makes a path absolute
    cases ps with
    | nil => simp [hempty]
    | cons p ps => cases ps <;> simp

end Path

end RefPages
