import Symbolic.Text.Interval

/-!
# Blank characters

White space that separates tokens and may surround a numeral: the ASCII
blanks, the four information separators, the next-line control and the space
and line separators of Unicode.
-/

namespace Symbolic
namespace Text

/-- The intervals of blank characters. -/
def blanks : List Interval :=
  [
    ⟨0x9, 0xD⟩, ⟨0x1C, 0x20⟩, ⟨0x85, 0x85⟩, ⟨0xA0, 0xA0⟩, ⟨0x1680, 0x1680⟩,
    ⟨0x2000, 0x200A⟩, ⟨0x2028, 0x2029⟩, ⟨0x202F, 0x202F⟩, ⟨0x205F, 0x205F⟩,
    ⟨0x3000, 0x3000⟩
  ]

/-- A character of white space. -/
def isBlank (c : Char) : Bool :=
  inIntervals blanks c

/-- A blank that may surround a numeral; the information separators may not. -/
def isNumeralBlank (c : Char) : Bool :=
  isBlank c && !(Interval.holds ⟨0x1C, 0x1F⟩ c)

/-- A text without the characters of a class at its two ends. -/
def trim (inClass : Char -> Bool) (cs : List Char) : List Char :=
  ((cs.dropWhile inClass).reverse.dropWhile inClass).reverse

end Text
end Symbolic
