import RefPages.Cli.Style
import RefPages.Json.Basic
import RefPages.Reference
import RefPages.Text.Lines

/-!
# References on the terminal

A reference as a short text for people and as JSON for programs. Both show the comment, the
parameters and the methods in the order of the source.
-/

namespace RefPages.Cli

/-! ### Text -/

def propertyLine (color : Color) (m : Member) : String :=
  let mark := if m.required then "" else "?"
  let value := match m.default? with
    | none => ""
    | some value => " = " ++ value
  let deprecated := if m.isDeprecated then " " ++ yellow color "(deprecated)" else ""
  "  " ++ m.name ++ mark ++ ": " ++ m.type.text ++ value ++ deprecated ++ "\n"

def indented (s : String) : String :=
  String.join ((Text.lines s.toList).map fun line => "  " ++ String.ofList line ++ "\n")

def signatureLines (ms : List Method) : String :=
  String.join (ms.map fun m => "  " ++ m.signature ++ "\n")

def parametersText (color : Color) : Parameters → String
  | .ofInterface i =>
    bold color ("Interface " ++ i.name) ++ "\n" ++
      String.join (i.properties.map (propertyLine color))
  | .ofConstructor c => bold color "Constructor" ++ "\n" ++ signatureLines [c]
  | .none => "No parameters\n"

def methodsText (color : Color) (ms : List Method) : String :=
  if ms.isEmpty then "" else "\n" ++ bold color "Methods" ++ "\n" ++ signatureLines ms

def referenceText (color : Color) (sourcePath : String) (r : Reference) : String :=
  bold color r.subject.display ++ " (" ++ sourcePath ++ ")\n\n" ++ indented r.comment ++ "\n" ++
    parametersText color r.parameters ++ methodsText color r.methods

/-! ### JSON -/

def subjectJson (s : Subject) : Json :=
  .object [("kind", .string s.kind.word), ("name", .string s.name)]

def memberJson (m : Member) : Json :=
  let fields :=
    [("name", Json.string m.name), ("type", .string m.type.text), ("comment", .string m.comment),
     ("required", .boolean m.required)]
  match m.default? with
  | none => .object fields
  | some value => .object (fields ++ [("default_value", .string value)])

def interfaceJson (i : Interface) : Json :=
  .object [("name", .string i.name), ("properties", .array (i.properties.map memberJson))]

def methodJson (m : Method) : Json :=
  .object
    [("name", .string m.name), ("signature", .string m.signature), ("comment", .string m.comment),
     ("parameters", .array (m.parameters.map memberJson))]

def parametersJson : Parameters → Json
  | .ofInterface i => .object [("source", .string "interface"), ("definition", interfaceJson i)]
  | .ofConstructor c => .object [("source", .string "constructor"), ("definition", methodJson c)]
  | .none => .object [("source", .string "none")]

def referenceJson (r : Reference) : Json :=
  .object
    [("subject", subjectJson r.subject), ("comment", .string r.comment),
     ("parameters", parametersJson r.parameters), ("methods", .array (r.methods.map methodJson))]

end RefPages.Cli
