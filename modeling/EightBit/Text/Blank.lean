import EightBit.Text.CodePoint
set_option autoImplicit false

/-!
# Blank characters

The characters that separate words and may surround a number: the ASCII blanks and line ends, the
four information separators, and the Unicode spaces and line and paragraph separators.  The zero-width
characters are not among them.
-/

namespace EightBit.Text

/-- The ranges of blank characters, first and last code point. -/
def blankRanges : List (Nat × Nat) :=
  [(0x0009, 0x000D), (0x001C, 0x0020), (0x0085, 0x0085), (0x00A0, 0x00A0), (0x1680, 0x1680),
   (0x2000, 0x200A), (0x2028, 0x2029), (0x202F, 0x202F), (0x205F, 0x205F), (0x3000, 0x3000)]

/-- The character separates words. -/
def isBlank (c : Char) : Bool :=
  blankRanges.any fun r => r.1 ≤ c.toNat && c.toNat ≤ r.2

/-- The text without the blanks at its two ends. -/
def trim (s : List Char) : List Char :=
  ((s.dropWhile isBlank).reverse.dropWhile isBlank).reverse

/-- Puts a code point in front of a word list whose first word, if `joined`, it belongs to. -/
def consWord (c : CodePoint) (joined : Bool) : List Text → List Text
  | word :: rest => if joined then (c :: word) :: rest else [c] :: word :: rest
  | [] => [[c]]

/-- The maximal runs of code points that are not blank. -/
def words : Text → List Text
  | [] => []
  | c :: rest =>
      if isBlank c.toChar then words rest
      else consWord c (rest.head?.any fun d => !isBlank d.toChar) (words rest)

example : words (ofString " a9\t01  ") = [ofString "a9", ofString "01"] := by decide
example : trim " a b ".toList = "a b".toList := by decide

end EightBit.Text
