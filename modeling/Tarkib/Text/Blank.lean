import Tarkib.Text.Table

/-!
# Blank characters

A character is blank when it has the Unicode property White_Space. Trimming removes blank
characters at the ends of a text and nothing else.
-/

namespace Tarkib.Text

def blankRanges : List (Nat × Nat) := [
  (0x9, 0xD), (0x20, 0x20), (0x85, 0x85), (0xA0, 0xA0), (0x1680, 0x1680), (0x2000, 0x200A),
  (0x2028, 0x2029), (0x202F, 0x202F), (0x205F, 0x205F), (0x3000, 0x3000)]

/-- Blank characters: tabs, line ends, and every kind of space. -/
def isBlank (c : Char) : Bool :=
  inRanges blankRanges c

/-- The text without the blank characters at its end. -/
def trimEnd (s : String) : String :=
  String.ofList (s.toList.reverse.dropWhile isBlank).reverse

/-- The text without the blank characters at its ends. -/
def trim (s : String) : String :=
  trimEnd (String.ofList (s.toList.dropWhile isBlank))

end Tarkib.Text
