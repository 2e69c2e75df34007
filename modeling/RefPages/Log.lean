/-!
# Log events

What a run reports beside its results: events with a level, the part of the program they come from,
a message and named values. Whether an event is shown is decided elsewhere.
-/

namespace RefPages

inductive Level where
  | error
  | warn
  | info
  | debug
  | trace
deriving DecidableEq, Repr

/-- The rank of a level: what is less important has a higher one. -/
def Level.rank : Level → Nat
  | .error => 1
  | .warn => 2
  | .info => 3
  | .debug => 4
  | .trace => 5

inductive Origin where
  /-- Reading sources. -/
  | source
  /-- Making pages. -/
  | engine
  /-- The command line. -/
  | commandLine
deriving DecidableEq, Repr

/-- The name of a part, which filters match by how it starts. -/
def Origin.word : Origin → String
  | .source => "refdoc_core::source"
  | .engine => "refdoc_core::engine"
  | .commandLine => "refdoc"

structure Event where
  level : Level
  origin : Origin
  message : String
  /-- Named values. -/
  values : List (String × String) := []
deriving DecidableEq, Repr

end RefPages
