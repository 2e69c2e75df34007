import RefPages.Page.FrontMatter
import RefPages.Reference

/-!
# Pages

A page is front matter, a banner that names the source file, the comment of the declaration, a
heading and a list of property blocks:

    front matter ++ banner ++ comment ++ heading ++ parameters ++ methods

It depends only on the entry, the reference and the options, so the same inputs always give the
same bytes.
-/

namespace RefPages.Page

/-! ### Banner -/

/-- The source file as the banner names it. -/
def bannerLocation (bannerPrefix sourcePath : String) : String :=
  if bannerPrefix = "" then sourcePath
  else
    let stem := (bannerPrefix.toList.reverse.dropWhile (· == '/')).reverse
    String.ofList stem ++ "/" ++ sourcePath

/-- The part of a page that warns against editing it. -/
def banner (bannerPrefix sourcePath : String) : String :=
  "\x7b\n /*\n  * ATTENTION! DO NOT MODIFY THIS FILE!\n  * This page is auto-generated. " ++
    "If you want to make any changes to this page, changes must be made at:\n  * " ++
    bannerLocation bannerPrefix sourcePath ++ "\n  */\n\x7d\n"

/-! ### Property blocks -/

def openTag (name type : String) (required : Bool) (default? : Option String) : String :=
  "<PropertyReference name=\"" ++ name ++ "\" type=\"" ++ type ++ "\"" ++
    (if required then " required" else "") ++
    (match default? with
      | none => ""
      | some value => " default=\"" ++ attributeValue value ++ "\"") ++
    ">"

def closeTag : String := "</PropertyReference>"

def memberTag (m : Member) : String :=
  openTag m.name (attributeValue m.type.text) m.required m.default?

def indentLines (indent : String) (text : String) : String :=
  if indent = "" then text
  else
    let indented := (Text.lines text.toList).map fun l =>
      if Text.isBlankText l then [] else indent.toList ++ l
    String.ofList (Text.unlines indented)

def propertyBlock (m : Member) : String :=
  memberTag m ++ "\n" ++ m.comment ++ "\n" ++ closeTag ++ "\n\n"

def parameterBlock (indent : String) (m : Member) : String :=
  indent ++ memberTag m ++ "\n" ++ indentLines indent m.comment ++ "\n" ++ indent ++ closeTag ++
    "\n\n"

/-- The indent of the parameters inside a method's block. -/
def nestedIndent : String := "  "

def methodBlock (m : Method) : String :=
  openTag m.name (attributeValue m.arguments) false none ++ "\n" ++ m.comment ++ "\n\n" ++
    String.join (m.parameters.map (parameterBlock nestedIndent)) ++ closeTag ++ "\n\n"

/-! ### The page -/

/-- The section of parameters. Deprecated properties are left out. -/
def parametersSection : Parameters → String
  | .ofInterface i =>
    String.join ((i.properties.filter fun p => !p.isDeprecated).map propertyBlock)
  | .ofConstructor c =>
    "## " ++ c.signature ++ "\n\n" ++ c.comment ++ "\n\n" ++
      String.join (c.parameters.map (parameterBlock ""))
  | .none => ""

def render (e : Entry) (r : Reference) (o : Options) : String :=
  FrontMatter.render e ++ banner o.bannerPrefix e.sourcePath ++ r.comment ++ "\n\n" ++
    "## " ++ e.subject.kind.heading ++ "\n\n" ++ parametersSection r.parameters ++
    String.join (r.methods.map methodBlock)

end RefPages.Page
