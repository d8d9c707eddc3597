/-!
# UTF-8, one character at a time

The first byte of a character announces how many bytes the character takes. `width?` reads that
announcement, `whole?` decodes the bytes of one character, and `faultyLength` tells, for bytes that
are no character, how many of them still could have begun one.
-/

namespace ShellWords.Text.Utf8

/-- The bytes of a text. -/
def encode (cs : List Char) : List UInt8 := cs.flatMap String.utf8EncodeChar

/-- The text that bytes encode, when they encode one. -/
def decode? (bytes : List UInt8) : Option String := String.fromUTF8? bytes.toByteArray

/-- How many bytes a character takes, as its first byte announces it. A byte that begins no
character announces nothing. -/
def width? (lead : UInt8) : Option Nat :=
  if lead ≤ 0x7F then some 1
  else if 0xC2 ≤ lead && lead ≤ 0xDF then some 2
  else if 0xE0 ≤ lead && lead ≤ 0xEF then some 3
  else if 0xF0 ≤ lead && lead ≤ 0xF4 then some 4
  else none

/-- The character that these bytes begin with. -/
def whole? (bytes : List UInt8) : Option Char := bytes.toByteArray.utf8DecodeChar? 0

/-- Whether a byte continues a character. -/
def isContinuation (b : UInt8) : Bool := 0x80 ≤ b && b ≤ 0xBF

/-- Whether a byte may follow this first byte. Four first bytes narrow the range, which keeps out
overlong forms, surrogates and code points past the last one. -/
def admitsSecond (lead b : UInt8) : Bool :=
  if lead == 0xE0 then 0xA0 ≤ b && b ≤ 0xBF
  else if lead == 0xED then 0x80 ≤ b && b ≤ 0x9F
  else if lead == 0xF0 then 0x90 ≤ b && b ≤ 0xBF
  else if lead == 0xF4 then 0x80 ≤ b && b ≤ 0x8F
  else isContinuation b

/-- Of bytes that encode no character, how many begin one: the bytes before the first that cannot
follow. -/
def faultyLength : List UInt8 → Nat
  | lead :: second :: rest =>
    if !admitsSecond lead second then 1
    else match rest with
      | third :: _ => if !isContinuation third then 2 else 3
      | [] => 2
  | _ => 1

end ShellWords.Text.Utf8
