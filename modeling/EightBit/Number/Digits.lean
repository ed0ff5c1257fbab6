set_option autoImplicit false

/-!
# Numbers as text

Decimal numbers with a sign where it is needed or always, and capital hexadecimal numbers padded with
zeros.  The width of a padded number counts its sign, and the zeros follow the sign: `-1` at width
four is `-001`.
-/

namespace EightBit

/-- The decimal text of an integer. -/
def decimal (value : Int) : List Char :=
  if value < 0 then '-' :: Nat.toDigits 10 value.natAbs else Nat.toDigits 10 value.natAbs

/-- The decimal text of an integer, with a sign in front of every number. -/
def signedDecimal (value : Int) : List Char :=
  if value < 0 then decimal value else '+' :: decimal value

/-- The capital hexadecimal digits of a number. -/
def hexDigits (n : Nat) : List Char :=
  (Nat.toDigits 16 n).map Char.toUpper

/-- Fills a digit text with zeros in front, up to the given width. -/
def zeroFill (width : Nat) (digits : List Char) : List Char :=
  List.replicate (width - digits.length) '0' ++ digits

/-- The hexadecimal text of an integer, filled with zeros; the sign counts as one of `width`. -/
def hexPadded (width : Nat) (value : Int) : List Char :=
  if value < 0 then '-' :: zeroFill (width - 1) (hexDigits value.natAbs)
  else zeroFill width (hexDigits value.natAbs)

/-- The low byte of a number as two hexadecimal digits. -/
def hex8 (value : Int) : List Char :=
  hexPadded 2 (value % 0x100)

/-- The low sixteen bits of a number as four hexadecimal digits. -/
def hex16 (value : Int) : List Char :=
  hexPadded 4 (value % 0x10000)

example : hexPadded 4 (-1) = "-001".toList := by decide
example : hexPadded 4 65536 = "10000".toList := by decide
example : signedDecimal 0 = "+0".toList := by decide

end EightBit
