import Gcode.Text.Ranges

/-!
White space. A line is cut free of it at both ends, and inside a line it never separates anything.
Two sets are in use: the full Unicode set for text, and a smaller one for the text of a number, in
which the four information separators do not count.
-/

namespace Gcode.Text

/-- The white space of Unicode. -/
def blankRanges : Ranges :=
  [(0x09, 0x0D), (0x1C, 0x20), (0x85, 0x85), (0xA0, 0xA0), (0x1680, 0x1680), (0x2000, 0x200A),
   (0x2028, 0x2029), (0x202F, 0x202F), (0x205F, 0x205F), (0x3000, 0x3000)]

/-- White space of any kind. -/
def isBlank (c : Char) : Bool := blankRanges.has c

/-- White space that may stand around the text of a number: all but the information separators. -/
def isPadding (c : Char) : Bool :=
  isBlank c && !(decide (0x1C ≤ c.toNat) && decide (c.toNat ≤ 0x1F))

/-- Drops the characters of a class at the end of a text. -/
def dropEndWhile (p : Char → Bool) (s : List Char) : List Char :=
  (s.reverse.dropWhile p).reverse

/-- Drops the characters of a class at both ends of a text. -/
def trimWhile (p : Char → Bool) (s : List Char) : List Char := dropEndWhile p (s.dropWhile p)

/-- The text without the white space around it. -/
def trim (s : List Char) : List Char := trimWhile isBlank s

end Gcode.Text
