import RefPages.Path
import RefPages.Subject

/-!
# Page entries and options

An entry says which declaration of which source file goes to which page. The options of a run say
where the project lives, where pages go and what is left out of them.
-/

namespace RefPages

/-- One page: the declaration it documents and where it goes. -/
structure Entry where
  /-- The source file, relative to the project root. -/
  sourcePath : String
  /-- The page, relative to the output root. -/
  destinationPath : String
  subject : Subject
  /-- The description in the front matter. -/
  description? : Option String := none
deriving DecidableEq, Repr

namespace Defaults

/-- Pages go one folder above the project root. -/
def outputRoot : String := ".."

/-- What stands before the source path in the banner of a page. -/
def bannerPrefix : String := "CopilotKit"

/-- The signatures of methods that never appear on pages. -/
def skippedMethods : List String :=
  ["process(request: CopilotRuntimeChatCompletionRequest)",
   "process(request: CopilotRuntimeRequest)"]

end Defaults

/-- What all pages of a run share. -/
structure Options where
  root : String := "."
  outputRoot : String := Defaults.outputRoot
  bannerPrefix : String := Defaults.bannerPrefix
  skippedMethods : List String := Defaults.skippedMethods
deriving DecidableEq, Repr

namespace Options

def source (o : Options) (e : Entry) : String := Path.join o.root e.sourcePath

def destination (o : Options) (e : Entry) : String :=
  Path.join (Path.join o.root o.outputRoot) e.destinationPath

/-- Is a method with this signature left out? -/
def skips (o : Options) (signature : String) : Bool := o.skippedMethods.contains signature

end Options

end RefPages
