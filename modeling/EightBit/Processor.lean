import EightBit.Architecture
import EightBit.Mc6800.InstructionSet
import EightBit.Mc6809.InstructionSet
import EightBit.Mos6502.InstructionSet
import EightBit.Z80.InstructionSet
set_option autoImplicit false

/-!
# The instruction set of each architecture

The 6502 and the 65C02 differ in their opcode tables only; the 6809 and the 6809E do not differ.
-/

namespace EightBit.Architecture

/-- The addressing modes of an architecture. -/
def Mode : Architecture → Type
  | .mos6502 | .mos65c02 => Mos6502.Mode
  | .mc6800 => Mc6800.Mode
  | .mc6809 | .mc6809e => Mc6809.Mode
  | .z80 => Z80.Mode

instance (a : Architecture) : DecidableEq a.Mode :=
  match a with
  | .mos6502 | .mos65c02 => inferInstanceAs (DecidableEq Mos6502.Mode)
  | .mc6800 => inferInstanceAs (DecidableEq Mc6800.Mode)
  | .mc6809 | .mc6809e => inferInstanceAs (DecidableEq Mc6809.Mode)
  | .z80 => inferInstanceAs (DecidableEq Z80.Mode)

/-- The instruction set of an architecture. -/
def instructionSet : (a : Architecture) → InstructionSet a.Mode
  | .mos6502 => Mos6502.instructionSet .mos6502
  | .mos65c02 => Mos6502.instructionSet .mos65c02
  | .mc6800 => Mc6800.instructionSet
  | .mc6809 | .mc6809e => Mc6809.instructionSet
  | .z80 => Z80.instructionSet

end EightBit.Architecture
