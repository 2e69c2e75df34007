/-!
# Quoted texts

A text between double quotes in which everything can be seen: quotes and backslashes have a
backslash before them, and characters that do not show are written by their code.

    a"b⏎  ──quote──▶  "a\"b\n"
-/

namespace RefPages.Text

/-- Ranges of code points that are written by their code: controls, marks that combine with the
character before them, formats, surrogate and private codes. -/
def hiddenRanges : List (Nat × Nat) :=
  [(0x00, 0x1F), (0x7F, 0x9F), (0xAD, 0xAD), (0x300, 0x36F), (0x483, 0x489), (0x591, 0x5BD),
   (0x600, 0x605), (0x610, 0x61A), (0x61C, 0x61C), (0x64B, 0x65F), (0x180E, 0x180E),
   (0x1AB0, 0x1AFF), (0x1DC0, 0x1DFF), (0x2000, 0x200F), (0x2028, 0x202F), (0x205F, 0x206F),
   (0x20D0, 0x20F0), (0xA0, 0xA0), (0x1680, 0x1680), (0x3000, 0x3000), (0xD800, 0xF8FF),
   (0xFE00, 0xFE0F), (0xFE20, 0xFE2F), (0xFEFF, 0xFEFF), (0xFFF0, 0xFFFB), (0xFFFE, 0xFFFF),
   (0xE0000, 0x10FFFF)]

/-- Is a character written by its code? -/
def isHidden (c : Char) : Bool :=
  hiddenRanges.any fun (low, high) => low ≤ c.toNat && c.toNat ≤ high

/-- A character inside a quoted text. -/
def quoteChar (c : Char) : List Char :=
  if c = '"' || c = '\\' then ['\\', c]
  else if c = '\t' then ['\\', 't']
  else if c = '\r' then ['\\', 'r']
  else if c = '\n' then ['\\', 'n']
  else if c.toNat = 0 then ['\\', '0']
  else if isHidden c then "\\u\x7b".toList ++ Nat.toDigits 16 c.toNat ++ "\x7d".toList
  else [c]

def quote (s : String) : String :=
  "\"" ++ String.ofList (s.toList.flatMap quoteChar) ++ "\""

end RefPages.Text
