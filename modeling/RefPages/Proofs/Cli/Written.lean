import Mathlib.Data.List.Nodup
import Mathlib.Data.List.TakeWhile
import RefPages.Cli.Arguments

/-!
# Written arguments

Options are written with their values in the same argument, and a command line is what its options,
its command and the options of the command are written as.

    --path=.  page  --source-path=a.ts  --class-name=A  --output-root=out
    └ before        └──────────── after ────────────┘

Reading it gives these options again, each with its value to the letter (`parse_written`). It is a
usage error if an option does not take its value, which only the ones for the project and for the
output do not do, with an empty one.
-/

namespace RefPages.Cli

/-! ### One option -/

/-- An option with its value, in one argument. -/
def writtenOption (o : String × String) : String := "--" ++ o.1 ++ "=" ++ o.2

def isValued (specs : List OptionSpec) (name : String) : Bool :=
  name != "help" && name != "version" && !name.toList.contains '=' &&
    (specs.find? fun s => s.name == name).any fun s => s.arity != .flag

def takes (specs : List OptionSpec) (o : String × String) : Bool :=
  (specs.find? fun s => s.name == o.1).all fun s => s.accepts o.2

theorem toList_writtenOption (o : String × String) :
    (writtenOption o).toList = '-' :: '-' :: (o.1.toList ++ '=' :: o.2.toList) := by
  simp [writtenOption, String.toList_append]

theorem writtenOption_ne (o : String × String) : writtenOption o ≠ "--" := by
  intro h
  have hlist := congrArg String.toList h
  rw [toList_writtenOption] at hlist
  simp at hlist

/-- The name of a written option ends at the first equals sign; all that follows is its value. -/
theorem readArgument_written {specs : List OptionSpec} {isTop : Bool} {o : String × String}
    {given : Given} (hname : '=' ∉ o.1.toList) :
    readArgument specs isTop (writtenOption o) given =
      readLong specs isTop o.1 (some o.2) given := by
  have hstop : ∀ c ∈ o.1.toList, (c != '=') = true := by
    intro c hc
    simpa using ne_of_mem_of_not_mem hc hname
  unfold readArgument
  rw [toList_writtenOption]
  simp only [List.takeWhile_append_of_pos hstop, List.dropWhile_append_of_pos hstop,
    List.takeWhile_cons, List.dropWhile_cons, bne_self_eq_false, Bool.false_eq_true, if_false,
    List.append_nil, String.ofList_toList]

/-- Two dashes start a long option, and a name without an equals sign is all of it. -/
theorem readArgument_dashes {specs : List OptionSpec} {isTop : Bool} {name : String} {given : Given}
    (hname : '=' ∉ name.toList) :
    readArgument specs isTop ("--" ++ name) given = readLong specs isTop name none given := by
  have hstop : ∀ c ∈ name.toList, (c != '=') = true := by
    intro c hc
    simpa using ne_of_mem_of_not_mem hc hname
  have htake : name.toList.takeWhile (· != '=') = name.toList := List.takeWhile_eq_self_iff.2 hstop
  have hdrop : name.toList.dropWhile (· != '=') = [] := List.dropWhile_eq_nil_iff.2 hstop
  have hlist : ("--" ++ name).toList = '-' :: '-' :: name.toList := by simp [String.toList_append]
  unfold readArgument
  rw [hlist]
  simp only [htake, hdrop, String.ofList_toList]

/-- What is known of an option with values, and what its name does with a value and without. -/
theorem exists_spec {specs : List OptionSpec} {name : String} (h : isValued specs name = true)
    (isTop : Bool) :
    '=' ∉ name.toList ∧ ∃ spec, specs.find? (fun s => s.name == name) = some spec ∧
      spec.name = name ∧ spec.arity ≠ .flag ∧ ∀ given,
        (∀ value, readLong specs isTop name (some value) given =
          (give spec value given).map .given) ∧
        readLong specs isTop name none given = .ok (.needsValue spec given) := by
  simp only [isValued, Bool.and_eq_true, bne_iff_ne, Bool.not_eq_true', List.contains_eq_mem,
    decide_eq_false_iff_not] at h
  obtain ⟨⟨⟨hhelp, hversion⟩, hequals⟩, hvalued⟩ := h
  obtain ⟨spec, hspec, harity⟩ := (Option.any_eq_true ..).1 hvalued
  refine ⟨hequals, spec, hspec, by simpa using List.find?_some hspec, by simpa using harity, ?_⟩
  intro given
  unfold readLong
  simp only [beq_eq_false_iff_ne.2 hhelp, beq_eq_false_iff_ne.2 hversion, Bool.false_and, hspec,
    Bool.false_eq_true, if_false]
  -- a flag is not among the options that take a value
  cases hkind : spec.arity with
  | flag => simp [hkind] at harity
  | single | repeated => exact ⟨fun _ => rfl, rfl⟩

/-- A written option is read as one more option, if its value is fit for it, and is refused
otherwise. -/
theorem readLevel_writtenOption {specs : List OptionSpec} {isTop : Bool} {o : String × String}
    {given : Given} (hvalued : isValued specs o.1 = true) (hnew : o.1 ∉ given.map Prod.fst)
    (args : List String) :
    readLevel specs isTop (writtenOption o :: args) given =
      if takes specs o then readLevel specs isTop args (given ++ [o]) else .error .usage := by
  obtain ⟨hequals, spec, hspec, hname, harity, hread⟩ := exists_spec hvalued isTop
  -- an option that is not given yet is refused for its value only
  have hgiven : given.any (fun g => g.1 == spec.name) = false := by
    rw [List.any_eq_false]
    intro g hg
    rw [hname, beq_iff_eq]
    rintro heq
    exact hnew (heq ▸ List.mem_map_of_mem hg)
  have hgive : give spec o.2 given =
      if spec.accepts o.2 then .ok (given ++ [o]) else .error .usage := by
    unfold give
    rw [hgiven, bne_iff_ne.2 harity, hname]
    cases spec.accepts o.2 <;> simp
  rw [readLevel, if_neg (by simpa using writtenOption_ne o), readArgument_written hequals,
    (hread given).1, hgive, takes, hspec, Option.all_some]
  cases spec.accepts o.2 <;> rfl

/-- The value of an option may also stand in the next argument, unless it looks like an option. -/
theorem readLevel_apart {specs : List OptionSpec} {isTop : Bool} {name value : String}
    {given : Given} (hvalued : isValued specs name = true) (hne : name ≠ "") (args : List String) :
    readLevel specs isTop (("--" ++ name) :: value :: args) given =
      if isValue value then readLevel specs isTop (writtenOption (name, value) :: args) given
      else .error .usage := by
  obtain ⟨hequals, spec, -, -, -, hread⟩ := exists_spec hvalued isTop
  have hdashes : "--" ++ name ≠ "--" := by simpa using hne
  have hwritten : readLevel specs isTop (writtenOption (name, value) :: args) given =
      (give spec value given).bind (readLevel specs isTop args) := by
    rw [readLevel, if_neg (by simpa using writtenOption_ne (name, value)),
      readArgument_written hequals, (hread given).1]
    cases give spec value given <;> rfl
  rw [readLevel, if_neg (by simpa using hdashes), readArgument_dashes hequals, (hread given).2,
    hwritten]
  dsimp only
  cases give spec value given <;> rfl

/-! ### Many options -/

/-- Written options are given in their order, or one of them does not take its value. -/
theorem readLevel_written {specs : List OptionSpec} {isTop : Bool} {options given : Given}
    (hvalued : ∀ name ∈ options.map Prod.fst, isValued specs name = true)
    (hnodup : ((given ++ options).map Prod.fst).Nodup) (args : List String) :
    readLevel specs isTop (options.map writtenOption ++ args) given =
      if options.all (takes specs) then readLevel specs isTop args (given ++ options)
      else .error .usage := by
  induction options generalizing given with
  | nil => simp
  | cons o options ih =>
    rw [List.map_cons, List.forall_mem_cons] at hvalued
    have hnew : o.1 ∉ given.map Prod.fst := by
      rw [List.map_append, List.nodup_append] at hnodup
      exact fun hmem => hnodup.2.2 _ hmem _ (by simp) rfl
    -- the option that was read counts as given when the rest is read
    have hrest : ((given ++ [o] ++ options).map Prod.fst).Nodup := by simpa using hnodup
    rw [List.map_cons, List.cons_append, readLevel_writtenOption hvalued.1 hnew,
      ih hvalued.2 hrest, List.all_cons]
    cases takes specs o with
    | false => rfl
    | true =>
      simp only [if_true, Bool.true_and, List.append_assoc, List.cons_append, List.nil_append]

/-! ### The command -/

/-- The name of a command with the options of the command. -/
structure IsCommand (name : String) (specs : List OptionSpec) : Prop where
  options : commandOptions.find? (fun c => c.1 == name) = some (name, specs)
  argument : ∀ given, readArgument globalOptions true name given = .ok (.command name)
  ne : name ≠ "--"

/-- What is read of a command: the options that follow, and what they ask for. -/
def invocation (before : Given) (name : String) (specs : List OptionSpec) (args : List String) :
    Except Stop Invocation :=
  (readLevel (globalOptions ++ specs) false args []).bind fun
    | (_, some _) => .error .usage
    | (after, none) => (commandOf name after).map fun c => ⟨globalsOf before after, some c⟩

/-- After written options, a command is read with all that follows. -/
theorem parse_command {before : Given} {name : String} {specs : List OptionSpec}
    (hcommand : IsCommand name specs)
    (hbefore : ∀ n ∈ before.map Prod.fst, isValued globalOptions n = true)
    (hnodup : (before.map Prod.fst).Nodup) (args : List String) :
    parse (before.map writtenOption ++ name :: args) =
      if before.all (takes globalOptions) then invocation before name specs args
      else .error .usage := by
  rw [parse, readLevel_written hbefore (by simpa using hnodup), List.nil_append]
  cases before.all (takes globalOptions) with
  | false => rfl
  | true =>
    have hlevel : readLevel globalOptions true (name :: args) before =
        .ok (before, some (name, args)) := by
      rw [readLevel, if_neg (by simpa using hcommand.ne), hcommand.argument]
    simp only [if_true, hlevel, hcommand.options, invocation]
    -- what follows the command is refused, names another command, or makes this one
    obtain _ | ⟨after, _ | _⟩ := readLevel (globalOptions ++ specs) false args []
    case true.ok.none =>
      dsimp only [Except.bind]
      cases commandOf name after <;> rfl
    all_goals rfl

/-- A command line of written options is read as these options and the command. -/
theorem parse_written {before after : Given} {name : String} {specs : List OptionSpec}
    (hcommand : IsCommand name specs)
    (hbefore : ∀ n ∈ before.map Prod.fst, isValued globalOptions n = true)
    (hbefore' : (before.map Prod.fst).Nodup)
    (hafter : ∀ n ∈ after.map Prod.fst, isValued (globalOptions ++ specs) n = true)
    (hafter' : (after.map Prod.fst).Nodup) :
    parse (before.map writtenOption ++ name :: after.map writtenOption) =
      if before.all (takes globalOptions) && after.all (takes (globalOptions ++ specs)) then
        (commandOf name after).map fun c => ⟨globalsOf before after, some c⟩
      else .error .usage := by
  -- nothing is given yet when the options behind the command are read
  have hlevel : readLevel (globalOptions ++ specs) false (after.map writtenOption) [] =
      if after.all (takes (globalOptions ++ specs)) then .ok (after, none) else .error .usage := by
    have hnodup : ((([] : Given) ++ after).map Prod.fst).Nodup := by simpa using hafter'
    simpa [readLevel] using readLevel_written hafter hnodup []
  rw [parse_command hcommand hbefore hbefore', invocation, hlevel]
  cases before.all (takes globalOptions) with
  | false => rfl
  | true => cases after.all (takes (globalOptions ++ specs)) <;> rfl

/-! ### Options that may be left out -/

/-- The options of some that have a value. -/
def ofValues (values : List (String × Option String)) : Given :=
  values.filterMap fun v => v.2.map fun value => (v.1, value)

theorem ofValues_cons (name : String) (value? : Option String)
    (values : List (String × Option String)) :
    ofValues ((name, value?) :: values) =
      (value?.map fun value => (name, value)).toList ++ ofValues values := by
  cases value? <;> rfl

theorem names_ofValues_sublist (values : List (String × Option String)) :
    ((ofValues values).map Prod.fst).Sublist (values.map Prod.fst) := by
  induction values with
  | nil => exact .slnil
  | cons v values ih =>
    obtain ⟨name, _ | value⟩ := v
    · exact ih.cons name
    · exact ih.cons_cons name

/-- What is asked of all options with a value is asked of the values that are there. -/
theorem all_ofValues (p : String × String → Bool) (values : List (String × Option String)) :
    (ofValues values).all p = values.all fun v => v.2.all fun value => p (v.1, value) := by
  induction values with
  | nil => rfl
  | cons v values ih =>
    obtain ⟨name, _ | value⟩ := v <;> simp [ofValues_cons, ih]

/-- Options that take any value take the ones that there are. -/
theorem all_takes {specs : List OptionSpec} {values : List (String × Option String)}
    (h : ∀ n ∈ values.map Prod.fst, ∀ value, takes specs (n, value) = true) :
    (values.all fun v => v.2.all fun value => takes specs (v.1, value)) = true := by
  rw [List.all_eq_true]
  intro v hv
  cases hvalue : v.2 with
  | none => rfl
  | some value => exact h v.1 (List.mem_map_of_mem hv) value

theorem notMem_ofValues {values : List (String × Option String)} {name : String}
    (h : name ∉ values.map Prod.fst) : ∀ o ∈ ofValues values, ¬(o.1 == name) = true := by
  intro o ho hname
  exact h (beq_iff_eq.1 hname ▸ (names_ofValues_sublist values).subset (List.mem_map_of_mem ho))

/-- The values of an option are the one that it has, if it has one. -/
theorem values_ofValues {values : List (String × Option String)}
    (h : (values.map Prod.fst).Nodup) (name : String) :
    Given.values (ofValues values) name = (values.lookup name).join.toList := by
  induction values with
  | nil => rfl
  | cons v values ih =>
    obtain ⟨first, value?⟩ := v
    rw [List.map_cons, List.nodup_cons] at h
    rw [ofValues_cons, Given.values, List.filter_append, List.map_append, ← Given.values,
      ← Given.values]
    by_cases hname : name = first
    -- the names are distinct, so nothing further on adds a value to this one
    · subst hname
      have hnone : Given.values (ofValues values) name = [] := by
        rw [Given.values, List.filter_eq_nil_iff.2 (notMem_ofValues h.1), List.map_nil]
      rw [hnone, List.lookup_cons, beq_self_eq_true, List.append_nil]
      cases value? <;> simp [Given.values]
    · rw [ih h.2, List.lookup_cons, beq_eq_false_iff_ne.2 hname]
      cases value? <;> simp [Given.values, Ne.symm hname]

theorem value?_eq_head?_values (given : Given) (name : String) :
    given.value? name = (given.values name).head? := by
  rw [Given.value?, Given.values, List.head?_map, List.head?_filter]

/-- An option has the value that it was written with, where none is written twice. -/
theorem value?_ofValues {values : List (String × Option String)}
    (h : (values.map Prod.fst).Nodup) (name : String) :
    Given.value? (ofValues values) name = (values.lookup name).join := by
  rw [value?_eq_head?_values, values_ofValues h, Option.head?_toList]

/-- Names without values are read by their names alone. -/
theorem valued_ofValues {specs : List OptionSpec} {values : List (String × Option String)}
    (h : ∀ n ∈ values.map Prod.fst, isValued specs n = true) :
    ∀ n ∈ (ofValues values).map Prod.fst, isValued specs n = true :=
  fun n hn => h n ((names_ofValues_sublist values).subset hn)

theorem nodup_ofValues {values : List (String × Option String)} (h : (values.map Prod.fst).Nodup) :
    ((ofValues values).map Prod.fst).Nodup := h.sublist (names_ofValues_sublist values)

theorem has_eq_isSome_value? (given : Given) (name : String) :
    given.has name = (given.value? name).isSome := by
  rw [Given.has, Given.value?, Option.isSome_map, Bool.eq_iff_iff, List.any_eq_true,
    List.find?_isSome]

end RefPages.Cli
