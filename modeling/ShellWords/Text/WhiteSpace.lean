/-!
# White space

The characters with the Unicode property White_Space, and the texts that hold nothing else.
-/

namespace ShellWords.Text

/-- Code points from the first to the last. -/
abbrev CodeRange := Nat × Nat

/-- Whether a code point is in one of these ranges. -/
def inRanges (ranges : List CodeRange) (n : Nat) : Bool := ranges.any fun r => r.1 ≤ n && n ≤ r.2

/-- The code points with the property White_Space. -/
def whiteSpaceRanges : List CodeRange :=
  [(0x09, 0x0D), (0x20, 0x20), (0x85, 0x85), (0xA0, 0xA0), (0x1680, 0x1680), (0x2000, 0x200A),
    (0x2028, 0x2029), (0x202F, 0x202F), (0x205F, 0x205F), (0x3000, 0x3000)]

/-- Whether a character has the property White_Space. -/
def isWhiteSpace (c : Char) : Bool := inRanges whiteSpaceRanges c.toNat

/-- Whether a text holds white space only. The empty text does. -/
def isBlank (s : String) : Bool := s.toList.all isWhiteSpace

end ShellWords.Text
