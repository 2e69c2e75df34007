import RefPages.Proofs.Path
import RefPages.Proofs.Project.Kept

/-!
# Pages of a project elsewhere

A project can be moved. The root takes part in the path of a source, and with it in the choice of a
dialect and in what is said of failures, but a page knows a source only by the path in its entry. So
where two disks hold the same bytes at both paths of the source, the pages are the same, or both
fail for the same reason (`Failure.Elsewhere`).

    project/src/a.ts       ──▶  page, or  failed to parse `project/src/a.ts`: …
    /tmp/copy/src/a.ts     ──▶  page, or  failed to parse `/tmp/copy/src/a.ts`: …
-/

namespace RefPages

/-! ### Names of joined paths -/

theorem Text.splitOn_append_sep (sep : Char) (cs ds : List Char) :
    Text.splitOn sep (cs ++ sep :: ds) = Text.splitOn sep cs ++ Text.splitOn sep ds := by
  induction cs with
  | nil => simp [Text.splitOn]
  | cons c cs ih =>
    rw [List.cons_append, Text.splitOn, Text.splitOn, ih]
    split
    · rfl
    · obtain ⟨w, ws, hws⟩ := List.exists_cons_of_ne_nil
        (Text.splitOn_eq sep cs ▸ List.splitOn_ne_nil sep cs)
      simp [hws, Text.prependToFirst]

namespace Path

theorem pieces_append_slash (base path : String) :
    pieces (base ++ "/" ++ path) = pieces base ++ pieces path := by
  have hlist : (base ++ "/" ++ path).toList = base.toList ++ '/' :: path.toList := by
    simp [String.toList_append]
  rw [pieces, hlist, Text.splitOn_append_sep, List.map_append, pieces, pieces]

/-- A base may only add names in front. -/
theorem exists_names_join (base path : String) :
    ∃ before, names (join base path) = before ++ names path := by
  rw [join]
  split
  · exact ⟨[], rfl⟩
  · split
    · next hslash =>
      obtain ⟨stem, hstem⟩ := List.getLast?_eq_some_iff.1 (beq_iff_eq.1 hslash)
      have hbase : base = String.ofList stem ++ "/" := by
        rw [← String.ofList_toList (s := base), hstem]
        simp [String.ofList_append]
      rw [hbase, names, pieces_append_slash, List.filter_append]
      exact ⟨_, rfl⟩
    · rw [names, pieces_append_slash, List.filter_append]
      exact ⟨_, rfl⟩

/-- The file name of a path stays the same below a base. -/
theorem fileName?_join {base path : String} (h : fileName? path ≠ none) :
    fileName? (join base path) = fileName? path := by
  obtain ⟨before, hnames⟩ := exists_names_join base path
  have hne : names path ≠ [] := by
    intro hnil
    simp [fileName?, hnil] at h
  rw [fileName?, fileName?, hnames, List.getLast?_append_of_ne_nil _ hne]

end Path

/-- So does the dialect. -/
theorem SourceFile.dialect?_join {base path : String} (h : Path.fileName? path ≠ none) :
    dialect? (Path.join base path) = dialect? path := by
  rw [dialect?, dialect?, Path.extension?, Path.extension?, Path.fileName?_join h]

/-! ### The same failure elsewhere -/

/-- Two failures of the same kind with the same details, of which each shows its own path of a
source. -/
inductive Failure.Elsewhere (path path' : String) : Failure → Failure → Prop
  | readSource (error : DiskError) :
      Elsewhere path path' (.readSource path error) (.readSource path' error)
  | unsupportedSource : Elsewhere path path' (.unsupportedSource path) (.unsupportedSource path')
  | parse (position : Position) :
      Elsewhere path path' (.parse ⟨path, position⟩) (.parse ⟨path', position⟩)
  | subjectNotFound (s : Subject) (shown : String) :
      Elsewhere path path' (.subjectNotFound s shown) (.subjectNotFound s shown)

/-- The message of a syntax error shows the path and the place, and nothing else of it. -/
theorem Failure.message_parse (path : String) (position : Position) :
    (Failure.parse ⟨path, position⟩).message =
      "failed to parse `" ++ path ++ ("`: syntax error at " ++ position.text) := by
  rw [← String.append_assoc]
  rfl

example : (Failure.parse ⟨"src/a.ts", .at 12 3⟩).message =
    "failed to parse `src/a.ts`: syntax error at 12:3" := by decide

theorem Failure.message_readSource (path : String) (error : DiskError) :
    (Failure.readSource path error).message =
      "failed to read source file `" ++ path ++ ("`: " ++ error.message) := by
  rw [← String.append_assoc]
  rfl

/-- The messages differ only in the paths that they show. -/
theorem Failure.Elsewhere.messages {path path' : String} {failure failure' : Failure}
    (h : Elsewhere path path' failure failure') :
    failure.code = failure'.code ∧ failure.help? = failure'.help? ∧
      ∃ before after, (failure.message = before ++ path ++ after ∧
          failure'.message = before ++ path' ++ after) ∨
        failure.message = before ∧ failure'.message = before := by
  -- each message is a text around the path, or does not show the path at all
  cases h with
  | readSource error =>
    exact ⟨rfl, rfl, "failed to read source file `", "`: " ++ error.message,
      .inl ⟨message_readSource path error, message_readSource path' error⟩⟩
  | unsupportedSource => exact ⟨rfl, rfl, "unsupported source file: `", "`", .inl ⟨rfl, rfl⟩⟩
  | parse position =>
    exact ⟨rfl, rfl, "failed to parse `", "`: syntax error at " ++ position.text,
      .inl ⟨message_parse path position, message_parse path' position⟩⟩
  | subjectNotFound s shown => exact ⟨rfl, rfl, _, "", .inr ⟨rfl, rfl⟩⟩

namespace Project

/-! ### Two results -/

/-- The same result twice, or the same failure of a source at two paths. -/
def Alike {α : Type} (path path' : String) (x x' : Except Failure α) : Prop :=
  (∃ a, x = .ok a ∧ x' = .ok a) ∨
    ∃ failure failure', x = .error failure ∧ x' = .error failure' ∧
      failure.Elsewhere path path' failure'

section Elsewhere

variable {o o' : Options} {e : Entry}

/-- A page depends on the options only through the banner and the methods that are left out. -/
theorem pageOf_elsewhere (hbanner : o.bannerPrefix = o'.bannerPrefix)
    (extracted : Except Failure (Option Reference)) :
    pageOf o e extracted = pageOf o' e extracted := by
  unfold pageOf Page.render
  rw [hbanner]

/-- What is looked up in a source file does not depend on its path. -/
theorem referenceIn_elsewhere (hskipped : o.skippedMethods = o'.skippedMethods)
    (path path' text : String) (root : Syntax.Node) :
    referenceIn o e ⟨path, text, root⟩ = referenceIn o' e ⟨path', text, root⟩ := by
  have hskips : o.skips = o'.skips := by
    funext signature
    rw [Options.skips, Options.skips, hskipped]
  have hreference : ∀ comment, referenceOf o e.subject ⟨path, text, root⟩ comment =
      referenceOf o' e.subject ⟨path', text, root⟩ comment := by
    intro comment
    unfold referenceOf
    rw [hskips]
    rfl
  unfold referenceIn
  simp only [hreference]
  rfl

/-- Nor does a failure to look something up. -/
theorem alike_pageOf_referenceIn (path path' : String) (f : SourceFile) :
    Alike path path' (pageOf o e (referenceIn o e f)) (pageOf o e (referenceIn o e f)) := by
  cases href : referenceIn o e f with
  | ok reference? => cases reference? <;> exact .inl ⟨_, rfl, rfl⟩
  | error failure =>
    refine .inr ⟨failure, failure, rfl, rfl, ?_⟩
    unfold referenceIn at href
    split at href
    · split at href <;> cases href
    · cases href
      exact .subjectNotFound _ _

variable [SourceFile.ErrorPlaces]

/-- The same bytes at two paths with the same dialect. -/
theorem alike_pageOfContent (hbanner : o.bannerPrefix = o'.bannerPrefix)
    (hskipped : o.skippedMethods = o'.skippedMethods)
    (hdialect : SourceFile.dialect? (o.source e) = SourceFile.dialect? (o'.source e))
    (content : ByteArray) :
    Alike (o.source e) (o'.source e) (pageOfContent o e content) (pageOfContent o' e content) := by
  unfold pageOfContent
  cases String.fromUTF8? content with
  | none => exact .inr ⟨_, _, rfl, rfl, .readSource _⟩
  | some text =>
    simp only [SourceFile.parse, ← hdialect]
    cases SourceFile.dialect? (o.source e) with
    | none => exact .inr ⟨_, _, rfl, rfl, .unsupportedSource⟩
    | some dialect =>
      cases hroot : Syntax.parse? dialect text with
      | none =>
        -- dialect and text are the same for both, and with them the place of the error
        simp only [hroot]
        exact .inr ⟨_, _, rfl, rfl, .parse (SourceFile.ErrorPlaces.position dialect text)⟩
      | some root =>
        simp only [hroot]
        rw [← pageOf_elsewhere hbanner, ← referenceIn_elsewhere hskipped (o.source e)]
        exact alike_pageOf_referenceIn _ _ _

/-- **A page does not depend on where the project is.** Take an entry whose source has a file name,
and options that agree on the banner and on the methods that are left out. If reading the source
gives the same on both disks then so does making the page, or else both fail in the same way and the
messages differ only in the path of the source. -/
theorem page_elsewhere {d d' : Disk} (hname : Path.fileName? e.sourcePath ≠ none)
    (hbanner : o.bannerPrefix = o'.bannerPrefix) (hskipped : o.skippedMethods = o'.skippedMethods)
    (hread : d.read (o.source e) = d'.read (o'.source e)) :
    (∃ text?, page d o e = .ok text? ∧ page d' o' e = .ok text?) ∨
      ∃ failure failure', page d o e = .error failure ∧ page d' o' e = .error failure' ∧
        failure.Elsewhere (o.source e) (o'.source e) failure' ∧
        failure.code = failure'.code ∧ failure.help? = failure'.help? ∧
        ∃ before after, (failure.message = before ++ o.source e ++ after ∧
            failure'.message = before ++ o'.source e ++ after) ∨
          failure.message = before ∧ failure'.message = before := by
  have hdialect : SourceFile.dialect? (o.source e) = SourceFile.dialect? (o'.source e) := by
    rw [Options.source, Options.source, SourceFile.dialect?_join hname,
      SourceFile.dialect?_join hname]
  -- the two runs part only where they read the source
  have halike : Alike (o.source e) (o'.source e) (page d o e) (page d' o' e) := by
    cases hcontent : d.read (o.source e) with
    | error error =>
      rw [page_of_read_error hcontent, page_of_read_error (hread.symm.trans hcontent)]
      exact .inr ⟨_, _, rfl, rfl, .readSource error⟩
    | ok content =>
      rw [page_of_read hcontent, page_of_read (hread.symm.trans hcontent)]
      exact alike_pageOfContent hbanner hskipped hdialect content
  rcases halike with hpage | ⟨failure, failure', hfailure, hfailure', helsewhere⟩
  · exact .inl hpage
  · exact .inr ⟨failure, failure', hfailure, hfailure', helsewhere, helsewhere.messages⟩

end Elsewhere

namespace Copied

/-- A copy of the source file in another place, where pages go elsewhere too. -/
def disk : Disk where
  items := [(["tmp"], .folder), (["tmp", "copy"], .folder),
    (["tmp", "copy", "a.ts"], .file "/** One. */\nclass A {}\n/** Two. */\nclass B {}\n".toUTF8)]

def options : Options := { root := "/tmp/copy", outputRoot := "pages" }

end Copied

theorem page_elsewhere_copied :
    Path.fileName? "a.ts" ≠ none ∧
      Pair.disk.read "./a.ts" = Copied.disk.read "/tmp/copy/a.ts" ∧
      ∃ text, page Pair.disk {} (Pair.entry "A" "a.md") = .ok (some text) ∧
        page Copied.disk Copied.options (Pair.entry "A" "a.md") = .ok (some text) := by
  have hname : Path.fileName? (Pair.entry "A" "a.md").sourcePath ≠ none := by decide
  have hread : Pair.disk.read (Options.source {} (Pair.entry "A" "a.md")) =
      Copied.disk.read (Copied.options.source (Pair.entry "A" "a.md")) := rfl
  obtain ⟨text, htext⟩ := Option.isSome_iff_exists.1
    (by decide +kernel : (page Pair.disk {} (Pair.entry "A" "a.md")).toOption.join.isSome = true)
  refine ⟨hname, hread, text, ?_⟩
  have hbanner : ({} : Options).bannerPrefix = Copied.options.bannerPrefix := rfl
  have hskipped : ({} : Options).skippedMethods = Copied.options.skippedMethods := rfl
  rcases page_elsewhere hname hbanner hskipped hread with ⟨text?, hpage, hpage'⟩ | ⟨_, _, hpage, -⟩
  · rw [hpage] at htext
    cases Option.join_eq_some_iff.1 htext
    exact ⟨hpage, hpage'⟩
  · rw [hpage] at htext
    cases htext

end Project

end RefPages
