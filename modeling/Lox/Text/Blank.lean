import Lox.Text.Ranges

/-!
# Blank characters

`isBlank` is the white space of Unicode (the property White_Space), and `trim` takes it off both
ends of a text. A number read from a text may stand between blanks.
-/

namespace Lox.Text

/-- White space in the sense of Unicode. -/
def blankRanges : Ranges :=
  [(0x9, 0xD), (0x20, 0x20), (0x85, 0x85), (0xA0, 0xA0), (0x1680, 0x1680), (0x2000, 0x200A),
   (0x2028, 0x2029), (0x202F, 0x202F), (0x205F, 0x205F), (0x3000, 0x3000)]

/-- A character that is white space. -/
def isBlank (c : Char) : Bool := blankRanges.has c

/-- Characters without those at the end that satisfy `p`. -/
def dropTrailing (p : Char → Bool) (cs : List Char) : List Char :=
  (cs.reverse.dropWhile p).reverse

/-- Characters without the blanks around them. -/
def trim (cs : List Char) : List Char := dropTrailing isBlank (cs.dropWhile isBlank)

/-- The ranges are in order. -/
theorem ascending_blankRanges : blankRanges.ascending = true := by decide

end Lox.Text
