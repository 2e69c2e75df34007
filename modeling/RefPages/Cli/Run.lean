import RefPages.Cli.Arguments
import RefPages.Cli.LogFilter
import RefPages.Cli.ReferenceText
import RefPages.Cli.ReportText
import RefPages.Project.Events
import RefPages.Project.Load

/-!
# Running the program

`run` is the whole program as a function: from a disk, an environment and arguments to what is
printed, the exit status and the disk afterwards. A status of 0 is success, 1 says that there is
something to mend in the project, and 2 that the program could not do what it was asked for.
-/

namespace RefPages.Cli

variable [SourceFile.ErrorPlaces]

open Project

/-- What the program is given beside its arguments. -/
structure Environment where
  /-- May output be coloured? -/
  color : Bool := false
  /-- The filter of the log. -/
  log? : Option String := none
deriving DecidableEq, Repr

structure Output where
  exit : Nat := 0
  out : String := ""
  err : String := ""
deriving DecidableEq, Repr

/-- The settings of the program itself in one run. -/
structure Context where
  color : Color
  filter : LogFilter
  root : String
  outputRoot? : Option String
deriving DecidableEq, Repr

namespace Context

/-- The context of an invocation. Without a root the project is where the program is run. -/
def of (d : Disk) (env : Environment) (g : Globals) : Context :=
  ⟨env.color && !g.noColor, .resolve env.log? g.verbose,
   g.path?.getD ("/" ++ "/".intercalate d.cwd), g.outputRoot?⟩

def options (c : Context) (settings? : Option Settings) : Options :=
  let o : Options := match settings? with
    | none => ⟨c.root, Defaults.outputRoot, Defaults.bannerPrefix, Defaults.skippedMethods⟩
    | some s => s.options c.root
  ⟨o.root, c.outputRoot?.getD o.outputRoot, o.bannerPrefix, o.skippedMethods⟩

def log (c : Context) (events : List Event) : String := logText c.filter c.color events

end Context

/-- The output of a command that could not do what it was asked for, after a log. -/
def refused (c : Context) (log : String) (failure : Failure) : Output :=
  -- nothing is printed to the output itself
  ⟨2, "", log ++ report c.color failure⟩

/-! ### Commands -/

/-- The settings file that a new project starts with. -/
def sampleSettings : String :=
  "# refdoc configuration\n\n" ++
  "# Destination paths are resolved against this directory, relative to the project root.\n" ++
  "output_root = \"..\"\n\n" ++
  "# Shown before the source path in the \"do not modify\" banner of every page.\n" ++
  "banner_prefix = \"CopilotKit\"\n\n" ++
  "# One [[docs]] entry per reference page. " ++
  "Set exactly one of `class_name`, `component` or `hook`.\n" ++
  "# [[docs]]\n" ++
  "# source_path = \"packages/react-core/src/hooks/use-copilot-chat.ts\"\n" ++
  "# destination_path = \"docs/reference/hooks/useCopilotChat.mdx\"\n" ++
  "# hook = \"useCopilotChat\"\n" ++
  "# description = \"The useCopilotChat hook.\"\n"

def createdText (path : String) : String :=
  "Created " ++ path ++ "\n\nNext steps:\n" ++
  "  1. Add a [[docs]] entry for each class, component or hook\n" ++
  "  2. Run `refdoc generate` to write the reference pages\n" ++
  "  3. Run `refdoc check` in CI to keep them up to date\n"

/-- Make a settings file, unless the project has one. -/
def runInit (c : Context) (d : Disk) : Output × Disk :=
  match settingsPath? d c.root with
  | some path => (⟨0, "Config file already exists: " ++ path ++ "\n", ""⟩, d)
  | none =>
    let path := Path.join c.root "refdoc.toml"
    match d.write path sampleSettings.toUTF8 with
    | .error e => (⟨2, "", red c.color "error:" ++ " " ++ e.message ++ "\n"⟩, d)
    | .ok d => (⟨0, createdText path, ""⟩, d)

/-- The options and the entries of a run over several entries. -/
def plan (c : Context) (d : Disk) (only : List String) : Except Failure (Options × List Entry) :=
  match loadRequired d c.root with
  | .error failure => .error failure
  | .ok s =>
    match s.select only with
    | .error failure => .error failure
    | .ok entries => .ok (c.options (some s), entries)

def startEvent (root : String) (entries : List Entry) : Event :=
  ⟨.debug, .commandLine, "generating reference docs",
    [("root", root), ("docs", toString entries.length)]⟩

def runGenerate (c : Context) (only : List String) (d : Disk) : Output × Disk :=
  match plan c d only with
  | .error failure => (refused c "" failure, d)
  | .ok (o, entries) =>
    -- the events follow the disk from entry to entry, as the run itself does
    let log := c.log (startEvent c.root entries :: generateAllEvents o d entries)
    let (r, d) := generateAll o d entries
    (⟨if r.isOk then 0 else 1, generateText c.color c.root r,
      log ++ failuresText c.color r.failures⟩, d)

def runCheck (c : Context) (only : List String) (diff : Bool) (format : Format) (d : Disk) :
    Output :=
  match plan c d only with
  | .error failure => refused c "" failure
  | .ok (o, entries) =>
    let log := c.log (checkAllEvents o d entries)
    let r := checkAll o d entries
    let exit := if r.isOk then 0 else 1
    match format with
    | .json => ⟨exit, (checkJson c.root r).compact ++ "\n", log⟩
    | .text =>
      if r.isOk then ⟨exit, checkPassedText c.color r, log⟩
      else ⟨exit, "", log ++ checkFailedText c.color c.root diff r⟩

/-- The options for one page and its entry. -/
def planPage (c : Context) (d : Disk) (source destination : String) (fields : SubjectFields)
    (description? : Option String) : Except Failure (Options × Entry) :=
  match load d c.root with
  | .error failure => .error failure
  | .ok settings? =>
    match fields.subject with
    | .error failure => .error failure
    | .ok subject =>
      let description? := description?.filter fun s => !Text.blank s
      .ok (c.options settings?, ⟨source, destination, subject, description?⟩)

def runPage (c : Context) (source destination : String) (fields : SubjectFields)
    (description? : Option String) (d : Disk) : Output × Disk :=
  match planPage c d source destination fields description? with
  | .error failure => (refused c "" failure, d)
  | .ok (o, e) =>
    let log := c.log (generateEvents d o e)
    match generate d o e with
    | (.error failure, d) => (refused c log failure, d)
    | (.ok (.written path), d) => (⟨0, writtenLine c.color c.root path, log⟩, d)
    | (.ok .skipped, d) =>
      let text := " nothing written, the subject has no leading comment\n"
      (⟨0, skippedWord c.color ++ text, log⟩, d)

/-- Show what a page would be made from. -/
def runInspect (c : Context) (source : String) (fields : SubjectFields) (format : Format)
    (d : Disk) : Output :=
  match planPage c d source "" fields none with
  | .error failure => refused c "" failure
  | .ok (o, e) =>
    let log := c.log (extractEvents d o e)
    match extract d o e with
    | .error failure => refused c log failure
    | .ok none =>
      let text := " " ++ e.subject.display ++ " has no leading comment\n"
      ⟨1, "", log ++ skippedWord c.color ++ text⟩
    | .ok (some r) =>
      match format with
      | .json => ⟨0, (referenceJson r).pretty ++ "\n", log⟩
      | .text => ⟨0, referenceText c.color source r, log⟩

/-! ### The program -/

def noCommandText : String :=
  "No subcommand specified. Run `refdoc --help` for usage.\n"

def runCommand (c : Context) (d : Disk) : Command → Output × Disk
  | .init => runInit c d
  | .generate only => runGenerate c only d
  | .check only diff format => (runCheck c only diff format d, d)
  | .page source destination fields description? =>
    runPage c source destination fields description? d
  | .inspect source fields format => (runInspect c source fields format d, d)

def versionText : String := "refdoc_cli 0.3.0\n"

def stopOutput : Stop → Output
  | .help => ⟨0, "", ""⟩
  | .version => ⟨0, versionText, ""⟩
  | .usage => ⟨2, "", "usage error"⟩

def run (env : Environment) (d : Disk) (args : List String) : Output × Disk :=
  match parse args with
  | .error stop => (stopOutput stop, d)
  | .ok ⟨_, none⟩ => (⟨1, "", noCommandText⟩, d)
  | .ok ⟨globals, some command⟩ => runCommand (Context.of d env globals) d command

end RefPages.Cli
