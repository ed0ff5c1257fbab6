set_option autoImplicit false

/-!
# Bits of unbounded integers

Instruction bytes are joined into words, and numbers cut to a width, before anything is known about
their range.  So the bitwise operations are those of two's complement numbers of unbounded width: a
negative number `-(n + 1)` has the complement of the bits of `n`.
-/

namespace EightBit

/-- Bitwise or of two's complement numbers of unbounded width. -/
def bitOr : Int → Int → Int
  | .ofNat a, .ofNat b => .ofNat (a ||| b)
  | .ofNat a, .negSucc b => .negSucc (b - (a &&& b))
  | .negSucc a, .ofNat b => .negSucc (a - (a &&& b))
  | .negSucc a, .negSucc b => .negSucc (a &&& b)

/-- Bitwise and of two's complement numbers of unbounded width. -/
def bitAnd : Int → Int → Int
  | .ofNat a, .ofNat b => .ofNat (a &&& b)
  | .ofNat a, .negSucc b => .ofNat (a - (a &&& b))
  | .negSucc a, .ofNat b => .ofNat (b - (a &&& b))
  | .negSucc a, .negSucc b => .negSucc (a ||| b)

/-- The word whose high part is `high` and whose low part is `low`; parts wider than a byte overlap. -/
def joinBytes (high low : Int) : Int :=
  bitOr (high * 0x100) low

end EightBit
