/-!
# Blanks

The blank characters of all scripts: the Unicode white space, and the four information separators
U+001C to U+001F.
-/

namespace GivenClause.Text

/-- The blank characters as ranges of code points, both ends included. -/
def blankRanges : List (Nat × Nat) := [
  (0x9, 0xD), (0x1C, 0x20), (0x85, 0x85), (0xA0, 0xA0), (0x1680, 0x1680), (0x2000, 0x200A),
  (0x2028, 0x2029), (0x202F, 0x202F), (0x205F, 0x205F), (0x3000, 0x3000)]

/-- Whether a character is a blank of some script. -/
def isBlank (c : Char) : Bool :=
  blankRanges.any fun (first, last) => first ≤ c.toNat && c.toNat ≤ last

end GivenClause.Text
