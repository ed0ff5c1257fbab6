import EightBit.Processor
import EightBit.Proofs.Mc6800
import EightBit.Proofs.Mc6809
import EightBit.Proofs.Mos6502
import EightBit.Proofs.Z80
set_option autoImplicit false

/-!
# The laws of each architecture

Every instruction set is lawful, each with the length of its longest instruction and with the number of
bytes that may leave mode and length open.  What is derived from the laws holds of all architectures.
-/

namespace EightBit.Architecture

/-- The number of bytes of the longest instruction. -/
def longest : Architecture → Nat
  | .mos6502 | .mos65c02 | .mc6800 => 3
  | .mc6809 | .mc6809e => 5
  | .z80 => 4

/-- The number of bytes that may leave mode and length of an instruction open. -/
def opening : Architecture → Nat
  | .mos6502 | .mos65c02 | .mc6800 => 0
  | .mc6809 | .mc6809e => 2
  | .z80 => 3

theorem longest_le_five (a : Architecture) : a.longest ≤ 5 := by
  cases a <;> decide

theorem lawful : (a : Architecture) → a.instructionSet.Lawful a.longest a.opening
  | .mos6502 => Mos6502.lawful .mos6502
  | .mos65c02 => Mos6502.lawful .mos65c02
  | .mc6800 => Mc6800.lawful
  | .mc6809 | .mc6809e => Mc6809.lawful
  | .z80 => Z80.lawful

end EightBit.Architecture
