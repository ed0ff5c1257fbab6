set_option autoImplicit false

/-!
# Faults

Every way in which an operation on instruction bytes can have no result.  A fault is the cause; its
wording is `Fault.message`.
-/

namespace EightBit

/-- Why an operation on instruction bytes has no result. -/
inductive Fault where
  /-- An address outside `0 .. 0xFFFF`. -/
  | addressRange (value : Int)
  /-- A byte outside `0 .. 0xFF`. -/
  | byteRange (value : Int)
  /-- A value that a buffer cell cannot hold. -/
  | storeRange
  /-- A position before the first or behind the last entry. -/
  | position
  /-- A bit width that is not positive. -/
  | width
  /-- An instruction shown before its opcode is decided. -/
  | undecided
  /-- A mode without an instruction length. -/
  | unsized
  deriving DecidableEq, Repr

/-- The wording of a fault. -/
def Fault.message : Fault → String
  | .addressRange value => s!"Address out of range: {value}"
  | .byteRange value => s!"Byte value out of range: {value}"
  | .storeRange => "byte must be in range(0, 256)"
  | .position => "position out of range"
  | .width => "negative shift count"
  | .undecided => "opcode not decided"
  | .unsized => "mode has no instruction length"

end EightBit
