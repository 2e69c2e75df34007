import RefPages.Cli.Style
import RefPages.Log
import RefPages.Text.Lines

/-!
# Which events are shown

A filter is a list of directives, each of which gives the lowest level to show, for all events or
for those whose origin starts with a name. Of several directives that match an event the one with
the longest name decides.
-/

namespace RefPages.Cli

structure Directive where
  /-- How the origin of an event must start. -/
  origin : String
  /-- The rank of the lowest level that is shown, zero for none. -/
  rank : Nat
deriving DecidableEq, Repr

abbrev LogFilter := List Directive

/-- The rank that a word or a digit stands for. -/
def rank? (word : String) : Option Nat :=
  match word.toLower with
  | "off" | "0" => some 0
  | "error" | "1" => some 1
  | "warn" | "2" => some 2
  | "info" | "3" => some 3
  | "debug" | "4" => some 4
  | "trace" | "5" => some 5
  | _ => none

def isOriginChar (c : Char) : Bool := c.isAlphanum || c == '_' || c == ':' || c == '-'

/-- The directive that a text stands for. A name alone shows all levels. -/
def Directive.ofText? (text : String) : Option Directive :=
  let cs := text.toList
  let name := cs.takeWhile (· != '=')
  if !name.all isOriginChar then none
  else
    match cs.dropWhile (· != '=') with
    | [] =>
      match rank? text with
      | some rank => some ⟨"", rank⟩
      | none => some ⟨text, 5⟩
    | _ :: level => (rank? (String.ofList level)).map fun rank => ⟨String.ofList name, rank⟩

/-- The filter that a text stands for: directives with commas between them. No directive shows only
errors. -/
def LogFilter.ofText? (text : String) : Option LogFilter :=
  let parts := ((Text.splitOn ',' text.toList).map String.ofList).filter (· != "")
  if parts.isEmpty then some [⟨"", 1⟩] else parts.mapM Directive.ofText?

/-- The filter where none is given. -/
def LogFilter.standard (verbose : Bool) : LogFilter :=
  let rank := if verbose then 4 else 3
  [⟨"refdoc_core", rank⟩, ⟨"refdoc", rank⟩]

/-- The filter of a run. A text that is none counts as not given. -/
def LogFilter.resolve (text? : Option String) (verbose : Bool) : LogFilter :=
  (text?.bind LogFilter.ofText?).getD (LogFilter.standard verbose)

def Directive.matches (d : Directive) (e : Event) : Bool :=
  d.origin.toList.isPrefixOf e.origin.word.toList

/-- The directive that decides about an event. -/
def LogFilter.deciding? (filter : LogFilter) (e : Event) : Option Directive :=
  (filter.filter fun d => d.matches e).foldl
    (fun best d =>
      match best with
      | some b => if d.origin.length < b.origin.length then some b else some d
      | none => some d)
    none

def LogFilter.shows (filter : LogFilter) (e : Event) : Bool :=
  match filter.deciding? e with
  | none => false
  | some d => e.level.rank ≤ d.rank

/-! ### Lines of the log -/

/-- A level in five columns. -/
def levelText : Level → String
  | .error => "ERROR"
  | .warn => " WARN"
  | .info => " INFO"
  | .debug => "DEBUG"
  | .trace => "TRACE"

/-- The terminal code of a level's colour. -/
def levelCode : Level → String
  | .error => "31"
  | .warn => "33"
  | .info => "32"
  | .debug => "34"
  | .trace => "35"

def valueText (color : Color) (name value : String) : String :=
  if color then " " ++ between "3" "0" name ++ between "2" "0" "=" ++ value
  else " " ++ name ++ "=" ++ value

def eventLine (color : Color) (e : Event) : String :=
  let level := levelText e.level
  let level := if color then between (levelCode e.level) "0" level else level
  let values := String.join (e.values.map fun (name, value) => valueText color name value)
  level ++ " " ++ e.message ++ values ++ "\n"

def logText (filter : LogFilter) (color : Color) (events : List Event) : String :=
  String.join ((events.filter filter.shows).map (eventLine color))

end RefPages.Cli
