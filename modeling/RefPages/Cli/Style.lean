import RefPages.Failure

/-!
# Colours and reports

How texts look on a terminal: coloured words, and the report of a failure with its code, message and
hint. Without colour a report is plain text.
-/

namespace RefPages.Cli

/-- Is output coloured? -/
abbrev Color := Bool

def code (n : String) : String := "\x1b[" ++ n ++ "m"

def between (start finish text : String) : String := code start ++ text ++ code finish

def red (color : Color) (text : String) : String := if color then between "31" "39" text else text

def green (color : Color) (text : String) : String :=
  if color then between "32" "39" text else text

def yellow (color : Color) (text : String) : String :=
  if color then between "33" "39" text else text

def bold (color : Color) (text : String) : String := if color then between "1" "0" text else text

def report (color : Color) (f : Failure) : String :=
  let title := if color then between "31" "0" f.code else f.code
  let mark := if color then between "31" "0" "×" else "x"
  let hint := match f.help? with
    | none => ""
    | some help => (if color then between "36" "0" "  help: " else "  help: ") ++ help ++ "\n"
  title ++ "\n\n  " ++ mark ++ " " ++ f.message ++ "\n" ++ hint ++ "\n"

end RefPages.Cli
