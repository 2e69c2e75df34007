import RefPages.Failure
import RefPages.Subject

/-!
# Arguments of the command line

The command line is read from left to right: options of the program, a command, options of the
command. An option has a long name and may have a letter; letters can be joined, and a value stands
in the same argument or in the next one. The options for the project and for the output may stand
before or after the command; the ones after it win.
-/

namespace RefPages.Cli

/-! ### Options -/

inductive Arity where
  /-- No value, at most once. -/
  | flag
  /-- One value, at most once. -/
  | single
  /-- One value each time. -/
  | repeated
deriving DecidableEq, Repr

structure OptionSpec where
  name : String
  letter? : Option Char := none
  arity : Arity := .single
  /-- Is the value one that the option takes? -/
  accepts : String → Bool := fun _ => true

def globalOptions : List OptionSpec :=
  [{ name := "path", letter? := some 'p', accepts := (· != "") },
   { name := "output-root", accepts := (· != "") },
   { name := "verbose", letter? := some 'v', arity := .flag },
   { name := "no-color", arity := .flag }]

def formatNames : List String := ["text", "json"]

def subjectOptions : List OptionSpec :=
  [{ name := "class-name" }, { name := "component" }, { name := "hook" }]

def onlyOption : OptionSpec := { name := "only", arity := .repeated }

def formatOption : OptionSpec := { name := "format", accepts := formatNames.contains }

def commandOptions : List (String × List OptionSpec) :=
  [("init", []),
   ("generate", [onlyOption]),
   ("check", [onlyOption, { name := "diff", arity := .flag }, formatOption]),
   ("page", [{ name := "source-path" }, { name := "destination-path" },
     { name := "description" }] ++ subjectOptions),
   ("inspect", [{ name := "source-path" }, formatOption] ++ subjectOptions)]

/-! ### Reading one level -/

/-- Why reading stops before a command can run. -/
inductive Stop where
  /-- The user asked for help. -/
  | help
  /-- The user asked for the version. -/
  | version
  /-- The arguments make no sense. -/
  | usage
deriving DecidableEq, Repr

/-- The options given at one level, with their values, in order. -/
abbrev Given := List (String × String)

def give (spec : OptionSpec) (value : String) (given : Given) : Except Stop Given :=
  if spec.arity != .repeated && given.any (fun g => g.1 == spec.name) then .error .usage
  else if spec.arity != .flag && !spec.accepts value then .error .usage
  else .ok (given ++ [(spec.name, value)])

/-- Can the argument be the value of an option? -/
def isValue (arg : String) : Bool :=
  match arg.toList with
  -- a single dash is a value, anything longer that starts with one is an option
  | '-' :: _ :: _ => false
  | _ => true

inductive Reading where
  | given (given : Given)
  | needsValue (spec : OptionSpec) (given : Given)
  | command (name : String)

/-- Read joined letters. -/
def readLetters (specs : List OptionSpec) (isTop : Bool) : List Char → Given → Except Stop Reading
  | [], given => .ok (.given given)
  | c :: cs, given =>
    if c == 'h' then .error .help
    else if c == 'V' && isTop then .error .version
    else
      match specs.find? fun s => s.letter? == some c with
      | none => .error .usage
      | some spec =>
        if spec.arity == .flag then
          match give spec "" given with
          | .error stop => .error stop
          | .ok given => readLetters specs isTop cs given
        else
          match cs with
          | [] => .ok (.needsValue spec given)
          -- the equals sign is no part of the value
          | '=' :: value => (give spec (String.ofList value) given).map .given
          | value => (give spec (String.ofList value) given).map .given

/-- Read a long option, given as its name and the text after an equals sign. -/
def readLong (specs : List OptionSpec) (isTop : Bool) (name : String) (value? : Option String)
    (given : Given) : Except Stop Reading :=
  if name == "help" then .error (if value?.isNone then .help else .usage)
  else if name == "version" && isTop then .error (if value?.isNone then .version else .usage)
  else
    match specs.find? fun s => s.name == name with
    | none => .error .usage
    | some spec =>
      match spec.arity, value? with
      | .flag, none => (give spec "" given).map .given
      | .flag, some _ => .error .usage
      | _, some value => (give spec value given).map .given
      | _, none => .ok (.needsValue spec given)

def readArgument (specs : List OptionSpec) (isTop : Bool) (arg : String) (given : Given) :
    Except Stop Reading :=
  match arg.toList with
  | '-' :: '-' :: cs =>
    let name := String.ofList (cs.takeWhile (· != '='))
    let value? := match cs.dropWhile (· != '=') with
      | [] => none
      | _ :: value => some (String.ofList value)
    readLong specs isTop name value? given
  | '-' :: c :: cs => readLetters specs isTop (c :: cs) given
  | _ => .ok (.command arg)

/-- Read the arguments of one level: the options given, and the command with its arguments if there
is one. -/
def readLevel (specs : List OptionSpec) (isTop : Bool) :
    List String → Given → Except Stop (Given × Option (String × List String))
  | [], given => .ok (given, none)
  | arg :: args, given =>
    -- no command takes arguments without names, so nothing may follow
    if arg == "--" then if args.isEmpty then .ok (given, none) else .error .usage
    else
      match readArgument specs isTop arg given with
      | .error stop => .error stop
      | .ok (.given given) => readLevel specs isTop args given
      | .ok (.command name) => .ok (given, some (name, args))
      | .ok (.needsValue spec given) =>
        match args with
        | [] => .error .usage
        | value :: args =>
          if isValue value then
            match give spec value given with
            | .error stop => .error stop
            | .ok given => readLevel specs isTop args given
          else .error .usage

/-! ### Commands -/

inductive Format where
  | text
  | json
deriving DecidableEq, Repr

/-- The three fields that can name a subject. -/
structure SubjectFields where
  className? : Option String := none
  component? : Option String := none
  hook? : Option String := none
deriving DecidableEq, Repr

def SubjectFields.subject (s : SubjectFields) : Except Failure Subject :=
  match Subject.ofFields s.className? s.component? s.hook? with
  | .ok subject => .ok subject
  | .error problem => .error (.invalidSubject problem)

/-- What the program is asked to do. -/
inductive Command where
  | init
  | generate (only : List String)
  | check (only : List String) (diff : Bool) (format : Format)
  | page (sourcePath destinationPath : String) (subject : SubjectFields)
      (description? : Option String)
  | inspect (sourcePath : String) (subject : SubjectFields) (format : Format)
deriving DecidableEq, Repr

structure Globals where
  path? : Option String := none
  outputRoot? : Option String := none
  verbose : Bool := false
  noColor : Bool := false
deriving DecidableEq, Repr

structure Invocation where
  globals : Globals
  command? : Option Command
deriving DecidableEq, Repr

namespace Given

def value? (given : Given) (name : String) : Option String :=
  (given.find? fun g => g.1 == name).map Prod.snd

/-- The values of an option that can be repeated. -/
def values (given : Given) (name : String) : List String :=
  (given.filter fun g => g.1 == name).map Prod.snd

def has (given : Given) (name : String) : Bool := given.any fun g => g.1 == name

def format (given : Given) : Format :=
  if given.value? "format" == some "json" then .json else .text

def subject (given : Given) : Except Stop SubjectFields :=
  let names := subjectOptions.filter fun s => given.has s.name
  -- one of the three is asked for, and not two
  if names.length == 1 then
    .ok ⟨given.value? "class-name", given.value? "component", given.value? "hook"⟩
  else .error .usage

def required (given : Given) (name : String) : Except Stop String :=
  match given.value? name with
  | none => .error .usage
  | some value => .ok value

end Given

/-- The command with a name and the options given to it. -/
def commandOf (name : String) (given : Given) : Except Stop Command :=
  match name with
  | "init" => .ok .init
  | "generate" => .ok (.generate (given.values "only"))
  | "check" => .ok (.check (given.values "only") (given.has "diff") given.format)
  | "page" => do
    let source ← given.required "source-path"
    let destination ← given.required "destination-path"
    let subject ← given.subject
    .ok (.page source destination subject (given.value? "description"))
  | "inspect" => do
    let source ← given.required "source-path"
    let subject ← given.subject
    .ok (.inspect source subject given.format)
  | _ => .error .usage

/-- The options for all commands, from those before and after the command. -/
def globalsOf (before after : Given) : Globals :=
  ⟨(after.value? "path").or (before.value? "path"),
   (after.value? "output-root").or (before.value? "output-root"),
   before.has "verbose" || after.has "verbose",
   before.has "no-color" || after.has "no-color"⟩

/-- Read the arguments that ask for help about commands. -/
def readHelp : List String → Stop
  | [] => .help
  | [name] => if name == "help" || commandOptions.any (·.1 == name) then .help else .usage
  | _ => .usage

def parse (args : List String) : Except Stop Invocation :=
  match readLevel globalOptions true args [] with
  | .error stop => .error stop
  | .ok (before, none) => .ok ⟨globalsOf before [], none⟩
  | .ok (before, some (name, args)) =>
    match commandOptions.find? fun c => c.1 == name with
    | none => .error (if name == "help" then readHelp args else .usage)
    | some (_, specs) =>
      -- the options of the program may stand behind the command as well
      match readLevel (globalOptions ++ specs) false args [] with
      | .error stop => .error stop
      | .ok (_, some _) => .error .usage
      | .ok (after, none) =>
        match commandOf name after with
        | .error stop => .error stop
        | .ok command => .ok ⟨globalsOf before after, some command⟩

end RefPages.Cli
