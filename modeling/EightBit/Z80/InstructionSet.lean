import EightBit.InstructionSet
import EightBit.Number.Digits
import EightBit.Z80.Template
set_option autoImplicit false

/-!
# The instruction set of the Z80

The placeholders of the template give the mode and, with the bytes of the opcode, the length.  A
distance is stored counted from two bytes behind the instruction's address, and shown counted from the
address itself.
-/

namespace EightBit.Z80

/-- What the first operand is. -/
inductive Mode where
  | implied
  | u8
  | u16
  | disp8
  | pcrel8
  deriving DecidableEq, Repr

namespace Mode

/-- The written name of a mode. -/
def name : Mode → String
  | .implied => "implied"
  | .u8 => "u8"
  | .u16 => "u16"
  | .disp8 => "disp8"
  | .pcrel8 => "pcrel8"

/-- All modes. -/
def all : List Mode :=
  [.implied, .u8, .u16, .disp8, .pcrel8]

/-- The mode of an instruction with the given placeholders. -/
def ofOperands : List (Placeholder Char) → Mode
  | [] => .implied
  | p :: _ =>
      match p.kind with
      | .u16 => .u16
      | .u8 => .u8
      | .disp8 => .disp8
      | _ => .pcrel8

end Mode

/-- The placeholders of the templates, the longer before the shorter. -/
def placeholders : List (Placeholder Char) :=
  [⟨"XXXXh".toList, .u16, 2⟩, ⟨"XXh".toList, .u8, 1⟩, ⟨"+ddd".toList, .disp8, 1⟩,
   ⟨"rrrr".toList, .pcrel8, 1⟩]

/-- The mode and length that the first `count` bytes decide. -/
def layout (code : List Int) (count : Int) : Except Fault (Option (Mode × Int)) := do
  match ← templateOf code count with
  | none => return none
  | some template =>
      let operands := Template.operands (Template.parse placeholders template)
      return some (Mode.ofOperands operands, (← opcodeLength code) + Template.operandBytes operands)

/-- The operand at a position. -/
def operand (r : Record Mode) (i : Int) (p : Placeholder Char) : Except Fault Rendering :=
  match p.kind with
  | .u16 => return { text := hex16 (← readU16le r.buffer.code i) ++ ['h'] }
  | .u8 => return { text := hex8 (← pick r.buffer.code i) ++ ['h'] }
  | .disp8 => return { text := signedDecimal (← readS8 r.buffer.code i) }
  | _ => do
      let offset := (← readS8 r.buffer.code i) + 2
      return { text := decimal offset, target := some (targetOf r.address offset) }

/-- The instruction of a record shown. -/
def render (r : Record Mode) : Except Fault Rendering := do
  match ← templateOf r.buffer.code r.count with
  | none => .error .undecided
  | some template =>
      Template.render (operand r) (← operandOffset r.buffer.code) (Template.parse placeholders template)

/-- The instruction set of the Z80. -/
def instructionSet : InstructionSet Mode where
  layout := layout
  render := render
  modes := Mode.all
  modeName := Mode.name

end EightBit.Z80
