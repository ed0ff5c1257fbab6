import EightBit.Code
import EightBit.InstructionSet
import EightBit.Mc6800.Opcodes
import EightBit.Number.Digits
import EightBit.Statement
set_option autoImplicit false

/-!
# The instruction set of the 6800

The high digit of an opcode decides the addressing mode, but for a few opcodes in the immediate rows.
An opcode without an instruction has a mode all the same.
-/

namespace EightBit.Mc6800

/-- The addressing modes. -/
inductive Mode where
  | inherent
  | relative
  | indexed
  | imm8
  | imm16
  | direct
  | extended
  | invalid
  deriving DecidableEq, Repr

namespace Mode

/-- The written name of a mode. -/
def name : Mode → String
  | .inherent => "inherent"
  | .relative => "relative"
  | .indexed => "indexed"
  | .imm8 => "imm8"
  | .imm16 => "imm16"
  | .direct => "direct"
  | .extended => "extended"
  | .invalid => "invalid"

/-- All modes. -/
def all : List Mode :=
  [.inherent, .relative, .indexed, .imm8, .imm16, .direct, .extended, .invalid]

/-- The length of an instruction in a mode; the invalid mode has none. -/
def length? : Mode → Option Int
  | .inherent => some 1
  | .relative | .indexed | .imm8 | .direct => some 2
  | .extended | .imm16 => some 3
  | .invalid => none

/-- The mode of an opcode, by its high digit. -/
def ofOpcode (opcode : Int) : Mode :=
  let row := opcode / 0x10
  if row ∈ [0x0, 0x1, 0x3, 0x4, 0x5] then .inherent
  else if row = 0x2 then .relative
  else if row ∈ [0x6, 0xA, 0xE] then .indexed
  else if row ∈ [0x7, 0xB, 0xF] then .extended
  else if row ∈ [0x8, 0xC] then
    if opcode = 0x8D then .relative
    else if opcode = 0x8E ∨ opcode = 0xCE then .imm16
    else .imm8
  else if row ∈ [0x9, 0xD] then .direct
  else .invalid

end Mode

/-- The mode and length that an opcode decides; the invalid mode takes no further bytes. -/
def layout (code : List Int) (count : Int) : Except Fault (Option (Mode × Int)) := do
  let mode := Mode.ofOpcode (← pick code 0)
  return some (mode, mode.length?.getD count)

/-- The operands in a mode, and the branch distance if there is one. -/
def operands (mode : Mode) (code : List Int) : Except Fault (List (List Char) × Option Int) :=
  match mode with
  | .relative => do
      let offset ← readS8 code 1
      return ([decimal offset], some offset)
  | .indexed => return ([decimal (← pick code 1), ['X']], none)
  | .extended => return (['$' :: hex16 (← readU16be code 1)], none)
  | .direct => return (['$' :: hex8 (← pick code 1)], none)
  | .imm8 => return (['#' :: '$' :: hex8 (← pick code 1)], none)
  | .imm16 => return (['#' :: '$' :: hex16 (← readU16be code 1)], none)
  | .inherent | .invalid => return ([], none)

/-- The instruction of a record shown.  A branch distance counts from the end of the two bytes. -/
def render (r : Record Mode) : Except Fault Rendering :=
  match r.mode with
  | none | some .invalid => .ok unknownMode
  | some mode => do
      let mnemonic ← pick opcodes (← pick r.buffer.code 0)
      let (operands, offset) ← operands mode r.buffer.code
      return {
        text := statement mnemonic.toList operands
        target := offset.map fun o => targetOf r.address (2 + o) }

/-- The instruction set of the 6800. -/
def instructionSet : InstructionSet Mode where
  layout := layout
  render := render
  modes := Mode.all
  modeName := Mode.name

end EightBit.Mc6800
