/-!
# Texts from bytes

Reading bytes as a text where some of them may not be part of one. Bytes that start the code of a
character but do not complete it become one replacement character, and so does each byte that can
start none.

    61 E2 82 FF 62  ──decode──▶  a � � b
-/

namespace RefPages.Text

/-- What stands for bytes that are no part of a text. -/
def replacement : Char := '\uFFFD'

def continues (b : UInt8) : Bool := 0x80 ≤ b && b ≤ 0xBF

/-- May the second byte follow the first one in the code of a character? -/
def follows (first second : UInt8) : Bool :=
  if first == 0xE0 then 0xA0 ≤ second && second ≤ 0xBF
  else if first == 0xED then 0x80 ≤ second && second ≤ 0x9F
  else if first == 0xF0 then 0x90 ≤ second && second ≤ 0xBF
  else if first == 0xF4 then 0x80 ≤ second && second ≤ 0x8F
  else continues second

/-- The number of bytes in the code of a character that starts with the given byte, zero if none
does. -/
def codeLength (b : UInt8) : Nat :=
  if b < 0x80 then 1
  else if 0xC2 ≤ b && b ≤ 0xDF then 2
  else if 0xE0 ≤ b && b ≤ 0xEF then 3
  else if 0xF0 ≤ b && b ≤ 0xF4 then 4
  else 0

/-- The low bits of a byte inside the code of a character. -/
def payload (b : UInt8) : Nat := b.toNat % 64

def charAt (b : UInt8) (rest : List UInt8) : Char × Nat :=
  match codeLength b, rest with
  | 1, _ => (Char.ofNat b.toNat, 0)
  | 2, c :: _ =>
    if follows b c then (Char.ofNat (b.toNat % 32 * 64 + payload c), 1) else (replacement, 0)
  | 3, c :: rest =>
    if follows b c then
      match rest with
      | d :: _ =>
        if continues d then
          (Char.ofNat (b.toNat % 16 * 4096 + payload c * 64 + payload d), 2)
        else (replacement, 1)
      | [] => (replacement, 1)
    else (replacement, 0)
  | 4, c :: rest =>
    if follows b c then
      match rest with
      | d :: rest =>
        if continues d then
          match rest with
          | e :: _ =>
            if continues e then
              (Char.ofNat (b.toNat % 8 * 262144 + payload c * 4096 + payload d * 64 + payload e), 3)
            else (replacement, 2)
          | [] => (replacement, 2)
        else (replacement, 1)
      | [] => (replacement, 1)
    else (replacement, 0)
  | _, _ => (replacement, 0)

/-- The characters of bytes. The number says how many bytes are still to be passed. -/
def decodeFrom : Nat → List UInt8 → List Char
  | _, [] => []
  | pass + 1, _ :: bs => decodeFrom pass bs
  | 0, b :: bs =>
    let (c, more) := charAt b bs
    c :: decodeFrom more bs

/-- The text of bytes, with replacements where they are no text. -/
def decode (bytes : ByteArray) : String := String.ofList (decodeFrom 0 bytes.toList)

end RefPages.Text
