import RefPages.Settings.Decode
import RefPages.Toml.Document

/-!
# Settings

The settings of a project: where pages go, what stands in their banner, which methods they leave
out, and the entries of the pages themselves. `select` picks the entries of a run by the names of
their subjects.
-/

namespace RefPages

structure Settings where
  outputRoot : String := Defaults.outputRoot
  bannerPrefix : String := Defaults.bannerPrefix
  skippedMethods : List String := Defaults.skippedMethods
  entries : List Entry := []
deriving DecidableEq, Repr

namespace Settings

open Toml

/-! ### Reading -/

/-- Change the settings by one key of the top table. Unknown keys change nothing. -/
def apply (s : Settings) (key : String) (value : Value) : Decoded Settings :=
  if key = "output_root" then
    (text "path string" value).map fun root => ⟨root, s.bannerPrefix, s.skippedMethods, s.entries⟩
  else if key = "banner_prefix" then
    (text "a string" value).map fun banner => ⟨s.outputRoot, banner, s.skippedMethods, s.entries⟩
  else if key = "skip_methods" then
    (do (← items value).mapM (text "a string")).map fun skipped =>
      ⟨s.outputRoot, s.bannerPrefix, skipped, s.entries⟩
  else if key = "docs" then
    (do (← items value).mapM entry).map fun entries =>
      ⟨s.outputRoot, s.bannerPrefix, s.skippedMethods, entries⟩
  else .ok s

def ofTable (entries : List (String × Value)) : Decoded Settings :=
  (sorted entries).foldlM (fun s e => s.apply e.1 e.2) {}

def ofToml (document : String) : Except Failure Settings :=
  match Toml.parse? document with
  | none => .error (.settings .notToml)
  | some entries =>
    match ofTable entries with
    | .error reason => .error (.settings (.shape reason))
    | .ok s => .ok s

/-! ### Use -/

/-- The options of a run for the project at a root. -/
def options (s : Settings) (root : String) : Options :=
  ⟨root, s.outputRoot, s.bannerPrefix, s.skippedMethods⟩

/-- The entries whose subjects have one of the names, in their own order. No names select all
entries, and a name that no subject has is an error. -/
def select (s : Settings) (only : List String) : Except Failure (List Entry) :=
  if only.isEmpty then .ok s.entries
  else
    match only.find? fun name => !s.entries.any fun e => e.subject.name == name with
    | some unknown => .error (.unknownPage unknown)
    | none => .ok (s.entries.filter fun e => only.contains e.subject.name)

end Settings

end RefPages
