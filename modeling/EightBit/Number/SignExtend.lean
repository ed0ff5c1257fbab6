import EightBit.Fault
import EightBit.Number.Bitwise
set_option autoImplicit false

/-!
# Two's complement at a fixed width

`signExtend bits v` reads the low `bits` bits of `v` as a two's complement number: they are masked out,
and if the highest of them is set, the number they stand for is negative.  `wrap16 v` is the
representative of `v` modulo `0x10000` in `0 .. 0xFFFF`, which is how addresses are shown.
-/

namespace EightBit

/-- The low `bits` bits of a number, read as two's complement. -/
def signExtend (bits : Nat) (value : Int) : Int :=
  let low := bitAnd value (Nat.pow 2 bits - 1 : Nat)
  if bitAnd low (Nat.pow 2 (bits - 1) : Nat) = 0 then low else low - (Nat.pow 2 bits : Nat)

/-- `signExtend` at a width given as an integer; a width below one is refused. -/
def signExtendAt (value bits : Int) : Except Fault Int :=
  if 1 ≤ bits then .ok (signExtend bits.toNat value) else .error .width

/-- The low sixteen bits of a number. -/
def wrap16 (value : Int) : Int :=
  value % 0x10000

/-- The address that lies `offset` behind `base`, addresses wrapping at sixteen bits. -/
def targetOf (base offset : Int) : Int :=
  wrap16 (base + offset)

theorem wrap16_nonneg (value : Int) : 0 ≤ wrap16 value := by
  unfold wrap16; omega

theorem wrap16_lt (value : Int) : wrap16 value < 0x10000 := by
  unfold wrap16; omega

end EightBit
