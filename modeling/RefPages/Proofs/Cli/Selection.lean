import RefPages.Proofs.Cli.SinglePage

/-!
# Commands with a selection

A command that generates pages is given the names of subjects, and it is planned before any page is
looked at. So a name that no subject has stops the whole command, whatever else was asked for.

    generate --only=A --only=X    ──▶   exit 2, no reference doc configured for `X`
-/

namespace RefPages.Cli

open Project

section Runs

variable [SourceFile.ErrorPlaces]

/-- What a command that generates pages does when it cannot be planned. -/
theorem run_of_plan_error {env : Environment} {d : Disk} {args : List String} {globals : Globals}
    {only : List String} {failure : Failure}
    (hparse : parse args = .ok ⟨globals, some (.generate only)⟩)
    (hplan : plan (Context.of d env globals) d only = .error failure) :
    run env d args = (refused (Context.of d env globals) "" failure, d) := by
  simp only [run, hparse, runCommand, runGenerate, hplan]

/-- **All that is asked for or nothing.** A selection is refused if and only if it holds a name that
no subject has, and the first such name is reported. Otherwise it gives the part of the entries
whose subjects have one of the names, all of them and in their own order, and every entry if there
are no names. Only the set of the names makes a difference. And a command to generate the pages of
a selection that is refused ends with 2 and leaves the disk as it was. -/
theorem select_all_or_nothing (s : Settings) (only : List String) :
    (∀ failure, s.select only = .error failure ↔
        ∃ before name after, only = before ++ name :: after ∧ (∀ n ∈ before, s.Knows n) ∧
          ¬s.Knows name ∧ failure = .unknownPage name) ∧
      ((∃ failure, s.select only = .error failure) ↔ ∃ n ∈ only, ¬s.Knows n) ∧
      (∀ es, s.select only = .ok es ↔
        (∀ n ∈ only, s.Knows n) ∧ es.Sublist s.entries ∧
          ∀ e, es.count e =
            if only = [] ∨ e.subject.name ∈ only then s.entries.count e else 0) ∧
      (∀ only', (∀ n, n ∈ only ↔ n ∈ only') →
        ∀ es, s.select only = .ok es ↔ s.select only' = .ok es) ∧
      ∀ env d args globals, parse args = .ok ⟨globals, some (.generate only)⟩ →
        loadRequired d (Context.of d env globals).root = .ok s →
        ∀ failure, s.select only = .error failure →
          (run env d args).1.exit = 2 ∧ (run env d args).2 = d := by
  refine ⟨fun failure => Settings.select_eq_error_iff, ?_, fun es => Settings.select_eq_ok_iff,
    fun only' h es => Settings.select_congr h es, ?_⟩
  · constructor
    · rintro ⟨failure, h⟩
      obtain ⟨before, name, after, rfl, -, hunknown, -⟩ := Settings.select_eq_error_iff.1 h
      exact ⟨name, by simp, hunknown⟩
    · rintro ⟨name, hname, hunknown⟩
      cases hselect : s.select only with
      | error failure => exact ⟨failure, rfl⟩
      | ok es => exact absurd ((Settings.select_eq_ok_iff.1 hselect).1 name hname) hunknown
  -- a refused selection stops the command before it reads any source
  · intro env d args globals hparse hload failure hselect
    have hplan : plan (Context.of d env globals) d only = .error failure := by
      simp only [plan, hload, hselect]
    rw [run_of_plan_error hparse hplan]
    exact ⟨rfl, rfl⟩

end Runs

/-- One of the names is known, and still nothing is written. -/
theorem select_all_or_nothing_of_two :
    (∃ s, loadRequired (configured (Pair.document "a.md" "b.md")) "/project" = .ok s ∧
        s.select ["A"] = .ok [Pair.entry "A" "a.md"] ∧
        s.select ["A", "C", "D"] = .error (.unknownPage "C") ∧
        s.select ["A", "A"] = s.select ["A"]) ∧
      (run {} (configured (Pair.document "a.md" "b.md"))
        ["generate", "--only", "A", "--only=C", "--only=D"]).1.exit = 2 ∧
      (run {} (configured (Pair.document "a.md" "b.md"))
        ["generate", "--only", "A", "--only=C", "--only=D"]).2 =
        configured (Pair.document "a.md" "b.md") := by
  have hload : load (configured (Pair.document "a.md" "b.md")) "/project" =
      .ok (some (Pair.settings "a.md" "b.md")) :=
    load_configured (Pair.ofToml_of_single (by decide +kernel)) {} rfl
  have hrequired : loadRequired (configured (Pair.document "a.md" "b.md")) "/project" =
      .ok (Pair.settings "a.md" "b.md") := by rw [loadRequired, hload]
  have hselect := select_all_or_nothing (Pair.settings "a.md" "b.md")
  have hone : (Pair.settings "a.md" "b.md").select ["A"] = .ok [Pair.entry "A" "a.md"] := by
    decide
  have hrefused : (Pair.settings "a.md" "b.md").select ["A", "C", "D"] =
      .error (.unknownPage "C") :=
    ((hselect _).1 _).2 ⟨["A"], "C", ["D"], rfl, by decide, by decide, rfl⟩
  have htwice : (Pair.settings "a.md" "b.md").select ["A", "A"] = .ok [Pair.entry "A" "a.md"] :=
    ((hselect ["A"]).2.2.2.1 ["A", "A"] (by simp) _).1 hone
  have hparse : parse ["generate", "--only", "A", "--only=C", "--only=D"] =
      .ok ⟨{}, some (.generate ["A", "C", "D"])⟩ := by decide +kernel
  refine ⟨⟨_, hrequired, hone, hrefused, htwice.trans hone.symm⟩, ?_⟩
  exact (hselect ["A", "C", "D"]).2.2.2.2 {} _ _ {} hparse hrequired _ hrefused

end RefPages.Cli
