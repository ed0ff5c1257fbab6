import EightBit.Text.CodePoint
import EightBit.Text.Printable
import EightBit.Number.Digits
set_option autoImplicit false

/-!
# Quoted text

A text is quoted with apostrophes, or with double quotes if it holds an apostrophe and no double quote.
Inside, the backslash and the quote in use are escaped, tab and the two line ends have short escapes,
and any other character that is not printable, and every surrogate, is written by its number.
-/

namespace EightBit.Text

/-- The quote that a text is put into. -/
def quoteFor (s : Text) : Char :=
  if s.contains (.char '\'') && !s.contains (.char '"') then '"' else '\''

/-- A number in small hexadecimal digits, filled with zeros. -/
def smallHex (width : Nat) (n : Nat) : List Char :=
  zeroFill width (Nat.toDigits 16 n)

/-- A character as it is written between quotes `q`. -/
def escapedChar (q : Char) (c : Char) : List Char :=
  if c = q || c = '\\' then ['\\', c]
  else if c = '\t' then "\\t".toList
  else if c = '\n' then "\\n".toList
  else if c = '\r' then "\\r".toList
  else if isPrintable c then [c]
  else if c.toNat ≤ 0xFF then "\\x".toList ++ smallHex 2 c.toNat
  else if c.toNat ≤ 0xFFFF then "\\u".toList ++ smallHex 4 c.toNat
  else "\\U".toList ++ smallHex 8 c.toNat

/-- A code point as it is written between quotes `q`. -/
def escaped (q : Char) : CodePoint → List Char
  | .char c => escapedChar q c
  | .surrogate index => "\\u".toList ++ smallHex 4 (0xD800 + index)

/-- The text between quotes. -/
def quoted (s : Text) : List Char :=
  let q := quoteFor s
  q :: s.flatMap (escaped q) ++ [q]

end EightBit.Text
