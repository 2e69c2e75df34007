import RefPages.Cli.Run
import RefPages.Proofs.Cli.Written
import RefPages.Proofs.Project.Kept
import RefPages.Proofs.Settings.Accepted
import RefPages.Proofs.Settings.Selection

/-!
# One page by its own arguments

A page of a project can be asked for in two ways: by the name that its subject has in the settings,
or by its parts, as options of `page`.

    generate --only=A
    page --source-path=a.ts --destination-path=a.md --class-name=A

Both change the disk in the same way (`run_page_agrees`). They end well together, and where
`generate` reports a failure with a status of 1, `page` has nothing else to report and ends with 2.
-/

namespace RefPages.Cli

open Project

/-! ### Arguments -/

/-- The project and the output root, if they are given on one side of the command. -/
structure Places where
  path? : Option String := none
  outputRoot? : Option String := none
deriving DecidableEq, Repr

def Places.values (p : Places) : List (String × Option String) :=
  [("path", p.path?), ("output-root", p.outputRoot?)]

/-- Neither place is given as an empty text. -/
def Places.isFit (p : Places) : Bool := p.path?.all (· != "") && p.outputRoot?.all (· != "")

/-- The places in force: what stands after the command goes before what stands ahead of it. -/
def Places.globals (before after : Places) : Globals where
  path? := after.path?.or before.path?
  outputRoot? := after.outputRoot?.or before.outputRoot?

def fieldsOf (s : Subject) : SubjectFields :=
  match s.kind with
  | .classKind => { className? := some s.name }
  | .component => { component? := some s.name }
  | .hook => { hook? := some s.name }

/-- The parts of an entry as options. -/
def pageValues (e : Entry) : List (String × Option String) :=
  [("source-path", some e.sourcePath), ("destination-path", some e.destinationPath),
    ("class-name", (fieldsOf e.subject).className?), ("component", (fieldsOf e.subject).component?),
    ("hook", (fieldsOf e.subject).hook?), ("description", e.description?)]

/-- The arguments for options of which some have values. -/
def writtenValues (values : List (String × Option String)) : List String :=
  (ofValues values).map writtenOption

/-- The arguments that ask for the page of an entry by its parts. -/
def pageArguments (before after : Places) (e : Entry) : List String :=
  writtenValues before.values ++ "page" :: writtenValues (pageValues e ++ after.values)

/-- The arguments that ask for the pages of subjects with a name. -/
def onlyArguments (before after : Places) (name : String) : List String :=
  writtenValues before.values ++ "generate" :: writtenValues (("only", some name) :: after.values)

/-- The same, with the name as an argument of its own. -/
def onlyArgumentsApart (before after : Places) (name : String) : List String :=
  writtenValues before.values ++ "generate" :: "--only" :: name :: writtenValues after.values

/-! ### Reading the arguments -/

def optionsOf (name : String) : List OptionSpec :=
  ((commandOptions.find? fun c => c.1 == name).map Prod.snd).getD []

/-- Every command takes the options for the two places, unless one of them is given as an empty
text. -/
theorem takes_values (p : Places) (specs : List OptionSpec) :
    (p.values.all fun v => v.2.all fun value => takes (globalOptions ++ specs) (v.1, value)) =
      p.isFit := by
  have hpath (value : String) :
      takes (globalOptions ++ specs) ("path", value) = (value != "") := rfl
  have houtput (value : String) :
      takes (globalOptions ++ specs) ("output-root", value) = (value != "") := rfl
  simp [Places.values, Places.isFit, hpath, houtput]

theorem valued_values (p : Places) :
    ∀ n ∈ p.values.map Prod.fst, isValued globalOptions n = true := by
  change ∀ n ∈ ["path", "output-root"], _
  decide

theorem nodup_values (p : Places) : (p.values.map Prod.fst).Nodup := by
  change ["path", "output-root"].Nodup
  decide

/-- What the program reads from both sides of a command. -/
theorem parse_writtenValues {name : String} {before : Places}
    {values : List (String × Option String)} (hcommand : IsCommand name (optionsOf name))
    (hvalued : ∀ n ∈ values.map Prod.fst, isValued (globalOptions ++ optionsOf name) n = true)
    (hnodup : (values.map Prod.fst).Nodup) :
    parse (writtenValues before.values ++ name :: writtenValues values) =
      if before.isFit && values.all (fun v =>
          v.2.all fun value => takes (globalOptions ++ optionsOf name) (v.1, value)) then
        (commandOf name (ofValues values)).map fun c =>
          ⟨globalsOf (ofValues before.values) (ofValues values), some c⟩
      else .error .usage := by
  have hfit : (ofValues before.values).all (takes globalOptions) = before.isFit := by
    rw [all_ofValues, ← takes_values before [], List.append_nil]
  rw [writtenValues, writtenValues, parse_written hcommand (valued_ofValues (valued_values before))
    (nodup_ofValues (nodup_values before)) (valued_ofValues hvalued) (nodup_ofValues hnodup), hfit,
    all_ofValues]

/-- No option of a single page is given twice. -/
theorem nodup_pageValues (e : Entry) (p : Places) :
    ((pageValues e ++ p.values).map Prod.fst).Nodup := by
  change ["source-path", "destination-path", "class-name", "component", "hook", "description",
    "path", "output-root"].Nodup
  decide

theorem nodup_only (name : String) (p : Places) :
    ((("only", some name) :: p.values).map Prod.fst).Nodup := by
  change ["only", "path", "output-root"].Nodup
  decide

/-- The values of a page and of the places make the command that writes the page. -/
theorem commandOf_pageValues (e : Entry) (after : Places) :
    commandOf "page" (ofValues (pageValues e ++ after.values)) =
      .ok (.page e.sourcePath e.destinationPath (fieldsOf e.subject) e.description?) := by
  have hsubject : Given.subject (ofValues (pageValues e ++ after.values)) =
      .ok (fieldsOf e.subject) := by
    obtain ⟨source, destination, ⟨kind, name⟩, description?⟩ := e
    simp only [Given.subject, has_eq_isSome_value?, value?_ofValues (nodup_pageValues _ after)]
    cases kind <;> rfl
  simp only [commandOf, Given.required, hsubject, value?_ofValues (nodup_pageValues e after)]
  rfl

/-- The arguments for one page are read as the parts of its entry. They are refused where a place is
given as an empty text. -/
theorem parse_pageArguments (before after : Places) (e : Entry) :
    parse (pageArguments before after e) =
      if before.isFit && after.isFit then
        .ok ⟨before.globals after, some (.page e.sourcePath e.destinationPath (fieldsOf e.subject)
          e.description?)⟩
      else .error .usage := by
  have hcommand : IsCommand "page" (optionsOf "page") := ⟨rfl, fun _ => rfl, by decide⟩
  have hvalued : ∀ n ∈ (pageValues e ++ after.values).map Prod.fst,
      isValued (globalOptions ++ optionsOf "page") n = true := by
    change ∀ n ∈ ["source-path", "destination-path", "class-name", "component", "hook",
      "description", "path", "output-root"], _
    decide
  -- the values of an entry fit always: only the two places can be refused
  have htakes : ∀ n ∈ (pageValues e).map Prod.fst, ∀ value,
      takes (globalOptions ++ optionsOf "page") (n, value) = true := by
    change ∀ n ∈ ["source-path", "destination-path", "class-name", "component", "hook",
      "description"], _
    simp only [List.forall_mem_cons]
    exact ⟨fun _ => rfl, fun _ => rfl, fun _ => rfl, fun _ => rfl, fun _ => rfl, fun _ => rfl,
      by simp⟩
  -- what stands after the command goes before what stands ahead of it
  have hglobals : globalsOf (ofValues before.values) (ofValues (pageValues e ++ after.values)) =
      before.globals after := by
    simp only [globalsOf, has_eq_isSome_value?, value?_ofValues (nodup_pageValues e after),
      value?_ofValues (nodup_values before)]
    rfl
  rw [pageArguments, parse_writtenValues hcommand hvalued (nodup_pageValues e after),
    List.all_append, takes_values, all_takes htakes, Bool.true_and, commandOf_pageValues, hglobals]
  rfl

/-- The arguments that select a name are read as the generation of its pages, under the same
condition. -/
theorem parse_onlyArguments (before after : Places) (name : String) :
    parse (onlyArguments before after name) =
      if before.isFit && after.isFit then
        .ok ⟨before.globals after, some (.generate [name])⟩
      else .error .usage := by
  have hcommand : IsCommand "generate" (optionsOf "generate") := ⟨rfl, fun _ => rfl, by decide⟩
  have hvalued : ∀ n ∈ (("only", some name) :: after.values).map Prod.fst,
      isValued (globalOptions ++ optionsOf "generate") n = true := by
    change ∀ n ∈ ["only", "path", "output-root"], _
    decide
  have htakes : takes (globalOptions ++ optionsOf "generate") ("only", name) = true := rfl
  have hglobals : globalsOf (ofValues before.values)
      (ofValues (("only", some name) :: after.values)) = before.globals after := by
    simp only [globalsOf, has_eq_isSome_value?, value?_ofValues (nodup_only name after),
      value?_ofValues (nodup_values before)]
    rfl
  have hselected : commandOf "generate" (ofValues (("only", some name) :: after.values)) =
      .ok (.generate [name]) := by
    simp only [commandOf, values_ofValues (nodup_only name after)]
    rfl
  rw [onlyArguments, parse_writtenValues hcommand hvalued (nodup_only name after), List.all_cons,
    takes_values, Option.all_some, htakes, Bool.true_and, hselected, hglobals]
  rfl

/-- The name may stand in an argument of its own, unless it looks like an option. -/
theorem parse_onlyArgumentsApart (before after : Places) (name : String) :
    parse (onlyArgumentsApart before after name) =
      if isValue name then parse (onlyArguments before after name) else .error .usage := by
  have hcommand : IsCommand "generate" (optionsOf "generate") := ⟨rfl, fun _ => rfl, by decide⟩
  have hvalued : isValued (globalOptions ++ optionsOf "generate") "only" = true := by decide
  have hbefore := valued_ofValues (valued_values before)
  have hnodup := nodup_ofValues (nodup_values before)
  have hne : "only" ≠ "" := by decide
  have hstart : "--only" = "--" ++ "only" := by decide
  rw [onlyArgumentsApart, onlyArguments, writtenValues, parse_command hcommand hbefore hnodup,
    parse_command hcommand hbefore hnodup, hstart, invocation, readLevel_apart hvalued hne,
    invocation]
  cases isValue name with
  | true => rfl
  | false => cases (ofValues before.values).all (takes globalOptions) <;> rfl

/-! ### Running -/

/-- Two runs change the disk in the same way. The first one is for a single page and ends with 2
where the other one, which may be for many pages, ends with 1. -/
structure Agree (page generate : Output × Disk) : Prop where
  disk : page.2 = generate.2
  success : page.1.exit = 0 ↔ generate.1.exit = 0
  failure : page.1.exit = 2 ↔ generate.1.exit = 1
  status : page.1.exit = 0 ∨ page.1.exit = 2

/-- A subject that its own name gives is the one that its fields name. -/
theorem subject_fieldsOf {s : Subject} (h : Subject.named s.kind s.name = .ok s) :
    (fieldsOf s).subject = .ok s := by
  obtain ⟨kind, name⟩ := s
  cases kind <;> simp_all [fieldsOf, SubjectFields.subject, Subject.ofFields]

/-- The parts of a tidy entry give the entry. -/
theorem planPage_of_isTidy {c : Context} {d : Disk} {s : Settings} {e : Entry}
    (hload : load d c.root = .ok (some s)) (h : e.IsTidy) :
    planPage c d e.sourcePath e.destinationPath (fieldsOf e.subject) e.description? =
      .ok (c.options (some s), e) := by
  simp only [planPage, hload, subject_fieldsOf h.subject, h.description]

/-- The name of a subject selects the only entry that has it. -/
theorem plan_of_unique {c : Context} {d : Disk} {s : Settings} {first rest : List Entry}
    {e : Entry} (hload : load d c.root = .ok (some s)) (hentries : s.entries = first ++ e :: rest)
    (hunique : ∀ f ∈ first ++ rest, f.subject.name ≠ e.subject.name) :
    plan c d [e.subject.name] = .ok (c.options (some s), [e]) := by
  have hself : Settings.selects [e.subject.name] e = true := by simp [Settings.selects_iff]
  have hothers (fs : List Entry) (hfs : ∀ f ∈ fs, f.subject.name ≠ e.subject.name) :
      fs.filter (Settings.selects [e.subject.name]) = [] := by
    rw [List.filter_eq_nil_iff]
    intro f hf
    simpa [Settings.selects_iff] using hfs f hf
  rw [List.forall_mem_append] at hunique
  have hselect : s.select [e.subject.name] = .ok [e] := by
    have hknown : s.Knows e.subject.name := ⟨e, by simp [hentries], rfl⟩
    refine Settings.select_eq_ok_iff_filter.2 ⟨List.forall_mem_singleton.2 hknown, ?_⟩
    rw [hentries, List.filter_append, hothers first hunique.1, List.filter_cons, if_pos hself,
      hothers rest hunique.2, List.nil_append]
  simp only [plan, loadRequired, hload, hselect]

section Runs

variable [SourceFile.ErrorPlaces]

/-- Writing the page of one entry by its parts is generating the pages of a list with only this
entry. -/
theorem agree_of_plan {c : Context} {d : Disk} {o : Options} {e : Entry} {only : List String}
    {source destination : String} {fields : SubjectFields} {description? : Option String}
    (hpage : planPage c d source destination fields description? = .ok (o, e))
    (honly : plan c d only = .ok (o, [e])) :
    Agree (runPage c source destination fields description? d) (runGenerate c only d) := by
  unfold runPage runGenerate
  simp only [hpage, honly, generateAll]
  have hrun : ∃ result d', generate d o e = (result, d') := ⟨_, _, rfl⟩
  obtain ⟨_ | _ | _, d', hrun⟩ := hrun <;>
    simp only [hrun] <;> constructor <;> simp [refused, GenerateReport.cons, GenerateReport.isOk]

variable {env : Environment} {d : Disk} {before after : Places} {s : Settings}
  {first rest : List Entry} {e : Entry}

/-- Where the places can be given, the run for the page of an entry agrees with the run for its
name, if no other entry has the name. -/
theorem run_agree_of_isFit
    (hload : load d (Context.of d env (before.globals after)).root = .ok (some s))
    (hentries : s.entries = first ++ e :: rest)
    (hunique : ∀ f ∈ first ++ rest, f.subject.name ≠ e.subject.name)
    (hfit : (before.isFit && after.isFit) = true) :
    Agree (run env d (pageArguments before after e))
      (run env d (onlyArguments before after e.subject.name)) := by
  have htidy : e.IsTidy := isTidy_of_load hload e (by simp [hentries])
  simp only [run, parse_pageArguments, parse_onlyArguments, hfit, if_true]
  exact agree_of_plan (planPage_of_isTidy hload htidy) (plan_of_unique hload hentries hunique)

/-- **A page by its parts is the page by its name.** For a project whose settings are accepted and
an entry in them whose subject shares its name with no other, both ways to ask for its page end with
the same disk; both end well or neither does.

The places may stand on either side of the command. If one is an empty text then neither way is
tried: what the program was given makes no sense. So it is with a name that looks like an option, if
it is an argument of its own. -/
theorem run_page_agrees
    (hload : load d (Context.of d env (before.globals after)).root = .ok (some s))
    (hentries : s.entries = first ++ e :: rest)
    (hunique : ∀ f ∈ first ++ rest, f.subject.name ≠ e.subject.name) :
    (if before.isFit && after.isFit then
        Agree (run env d (pageArguments before after e))
          (run env d (onlyArguments before after e.subject.name))
      else
        run env d (pageArguments before after e) = (stopOutput .usage, d) ∧
          run env d (onlyArguments before after e.subject.name) = (stopOutput .usage, d)) ∧
      run env d (onlyArgumentsApart before after e.subject.name) =
        if isValue e.subject.name then run env d (onlyArguments before after e.subject.name)
        else (stopOutput .usage, d) := by
  -- the two places decide for both spellings at once; only the name written apart can differ
  constructor
  · split_ifs with hfit
    · exact run_agree_of_isFit hload hentries hunique hfit
    · simp only [run, parse_pageArguments, parse_onlyArguments, if_neg hfit, and_self]
  · rw [run, run, parse_onlyArgumentsApart]
    cases isValue e.subject.name <;> rfl

theorem exit_runPage_of_failure {c : Context} {d : Disk} {o : Options} {e : Entry}
    {source destination : String} {fields : SubjectFields} {description? : Option String}
    {failure : Failure}
    (hplan : planPage c d source destination fields description? = .ok (o, e))
    (h : (generate d o e).1 = .error failure) :
    (runPage c source destination fields description? d).1.exit = 2 := by
  obtain ⟨result, d', hrun⟩ : ∃ result d', generate d o e = (result, d') := ⟨_, _, rfl⟩
  rw [hrun] at h
  cases h
  simp only [runPage, hplan, hrun, refused]

end Runs

/-! ### Arguments that make no sense -/

/-- A project with two classes in one source file and a settings file. -/
def configured (document : String) : Disk where
  items := Pair.disk.items ++ [(["project", "refdoc.toml"], .file document.toUTF8)]
  cwd := ["project"]

theorem load_configured {document : String} {s : Settings}
    (hsettings : Settings.ofToml document = .ok s) (g : Globals) (h : g.path? = none) :
    load (configured document) (Context.of (configured document) {} g).root = .ok (some s) := by
  have hpath : settingsPath? (configured document) "/project" = some "/project/refdoc.toml" := rfl
  have hbytes : (configured document).read "/project/refdoc.toml" = .ok document.toUTF8 := rfl
  have hread : (configured document).readText "/project/refdoc.toml" = .ok document :=
    readText_of_read hbytes
  have hroot : (Context.of (configured document) {} g).root = "/project" := by
    simp only [Context.of, h]
    rfl
  rw [load, hroot, hpath]
  simp only [hread, hsettings]

/-- The output root in a folder of the project. -/
def inFolder : Places := { outputRoot? := some "out" }

theorem run_page_agrees_of_two :
    load (configured (Pair.document "a.md" "b.md"))
        (Context.of (configured (Pair.document "a.md" "b.md")) {} (inFolder.globals {})).root =
        .ok (some (Pair.settings "a.md" "b.md")) ∧
      Agree
        (run {} (configured (Pair.document "a.md" "b.md"))
          (pageArguments inFolder {} (Pair.entry "A" "a.md")))
        (run {} (configured (Pair.document "a.md" "b.md")) (onlyArguments inFolder {} "A")) := by
  have hload := load_configured (Pair.ofToml_of_single (by decide +kernel) :
    Settings.ofToml (Pair.document "a.md" "b.md") = .ok (Pair.settings "a.md" "b.md"))
    (inFolder.globals {}) rfl
  have hentries : (Pair.settings "a.md" "b.md").entries =
      [] ++ Pair.entry "A" "a.md" :: [Pair.entry "B" "b.md"] := rfl
  have hagrees := (run_page_agrees hload hentries (by decide)).1
  rw [if_pos (by decide)] at hagrees
  exact ⟨hload, hagrees⟩

/-- An entry for a name that looks like an option. -/
def dashed : Entry := Pair.entry "-A" "a.md"

/-- Settings with only this entry. -/
def dashedDocument : String := "docs = [[\"a.ts\", \"a.md\", \"-A\"]]\n"

/-- The page of a declaration that is not there fails. -/
theorem exit_page_dashed :
    (run {} (configured dashedDocument) (pageArguments {} {} dashed)).1.exit = 2 := by
  have hload := load_configured (Pair.ofToml_of_single (by decide +kernel) :
    Settings.ofToml dashedDocument = .ok { entries := [dashed] }) (Places.globals {} {}) rfl
  have hplan := planPage_of_isTidy hload (isTidy_of_load hload dashed (by simp))
  have hparse : parse (pageArguments {} {} dashed) =
      .ok ⟨Places.globals {} {}, some (.page dashed.sourcePath dashed.destinationPath
        (fieldsOf dashed.subject) dashed.description?)⟩ := by
    rw [parse_pageArguments, if_pos (by decide)]
  have hmissing : (generate (configured dashedDocument)
      ((Context.of (configured dashedDocument) {} (Places.globals {} {})).options
        (some { entries := [dashed] })) dashed).1 =
      .error (.subjectNotFound dashed.subject "a.ts") := by decide +kernel
  rw [run, hparse]
  exact exit_runPage_of_failure hplan hmissing

/-- Both commands can make no sense, and then `page` ends with 2 but `generate` not with 1: with an
output root that is an empty text, and with a name that looks like an option. -/
theorem page_fails_with_generate_unread :
    (load (configured (Pair.document "a.md" "b.md"))
          (Context.of (configured (Pair.document "a.md" "b.md")) {}
            (Places.globals {} { outputRoot? := some "" })).root =
          .ok (some (Pair.settings "a.md" "b.md")) ∧
        (run {} (configured (Pair.document "a.md" "b.md"))
          (pageArguments {} { outputRoot? := some "" } (Pair.entry "A" "a.md"))).1.exit = 2 ∧
        (run {} (configured (Pair.document "a.md" "b.md"))
          (onlyArgumentsApart {} { outputRoot? := some "" } "A")).1.exit ≠ 1) ∧
      load (configured dashedDocument)
          (Context.of (configured dashedDocument) {} (Places.globals {} {})).root =
          .ok (some { entries := [dashed] }) ∧
        (run {} (configured dashedDocument) (pageArguments {} {} dashed)).1.exit = 2 ∧
        (run {} (configured dashedDocument) (onlyArgumentsApart {} {} "-A")).1.exit ≠ 1 := by
  have hpair : Settings.ofToml (Pair.document "a.md" "b.md") =
      .ok (Pair.settings "a.md" "b.md") := Pair.ofToml_of_single (by decide +kernel)
  have hdashed : Settings.ofToml dashedDocument = .ok { entries := [dashed] } :=
    Pair.ofToml_of_single (by decide +kernel)
  exact ⟨⟨load_configured hpair _ rfl, by decide +kernel, by decide +kernel⟩,
    load_configured hdashed _ rfl, exit_page_dashed, by decide +kernel⟩

end RefPages.Cli
