import RefPages.Page.Options

/-!
# Front matter

A page starts with a block of quoted values between two lines of dashes. Inside the quotes a
backslash and a double quote are written with a backslash before them.
-/

namespace RefPages.FrontMatter

/-- Write a value so that it can stand between double quotes. -/
def escape : List Char → List Char
  | [] => []
  | c :: cs => if c = '\\' || c = '"' then '\\' :: c :: escape cs else c :: escape cs

/-- A line that gives a key its quoted value. -/
def keyLine (key value : String) : String :=
  key ++ ": \"" ++ String.ofList (escape value.toList) ++ "\"\n"

/-- The front matter of a page: its title and, if it has one, its description. -/
def render (e : Entry) : String :=
  "---\n" ++ keyLine "title" e.subject.name ++
    (match e.description? with
      | none => ""
      | some description => keyLine "description" description) ++
    "---\n\n"

end RefPages.FrontMatter
