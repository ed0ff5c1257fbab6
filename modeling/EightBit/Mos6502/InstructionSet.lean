import EightBit.Code
import EightBit.InstructionSet
import EightBit.Mos6502.Opcodes
import EightBit.Number.Digits
set_option autoImplicit false

/-!
# The instruction sets of the 6502 and the 65C02

The template of an opcode holds at most one placeholder, and its kind is the addressing mode.  So the
opcode alone decides the length, and an operand always starts behind the opcode.
-/

namespace EightBit.Mos6502

/-- What follows the opcode. -/
inductive Mode where
  | implied
  | u8
  | u16
  | rel8
  deriving DecidableEq, Repr

namespace Mode

/-- The written name of a mode. -/
def name : Mode → String
  | .implied => "implied"
  | .u8 => "u8"
  | .u16 => "u16"
  | .rel8 => "rel8"

/-- All modes. -/
def all : List Mode :=
  [.implied, .u8, .u16, .rel8]

/-- The length of an instruction in a mode. -/
def length : Mode → Int
  | .implied => 1
  | .u8 | .rel8 => 2
  | .u16 => 3

end Mode

/-- The two opcode tables. -/
inductive Variant where
  | mos6502
  | mos65c02
  deriving DecidableEq, Repr

/-- The opcode table of a variant. -/
def Variant.opcodes : Variant → List String
  | .mos6502 => opcodes6502
  | .mos65c02 => opcodes65c02

/-- The placeholders of the templates, the longer before the shorter. -/
def placeholders : List (Placeholder Char) :=
  [⟨"nnnn".toList, .u16, 2⟩, ⟨"nn".toList, .u8, 1⟩, ⟨"rrrr".toList, .rel8, 1⟩]

/-- The template of an opcode. -/
def template (v : Variant) (opcode : Int) : Except Fault (List Char) := do
  return (← pick v.opcodes opcode).toList

/-- The mode that the first placeholder of a template shows. -/
def modeOf (template : List Char) : Mode :=
  match Template.operands (Template.parse placeholders template) with
  | [] => .implied
  | p :: _ =>
      match p.kind with
      | .u16 => .u16
      | .u8 => .u8
      | _ => .rel8

/-- The mode and length that an opcode decides. -/
def layout (v : Variant) (code : List Int) (_count : Int) : Except Fault (Option (Mode × Int)) := do
  let mode := modeOf (← template v (← pick code 0))
  return some (mode, mode.length)

/-- The operand behind the opcode.  A branch distance counts from the end of the instruction. -/
def operand (r : Record Mode) (p : Placeholder Char) : Except Fault Rendering :=
  match p.kind with
  | .u16 => return { text := hex16 (← readU16le r.buffer.code 1) }
  | .u8 => return { text := hex8 (← pick r.buffer.code 1) }
  | _ => do
      let offset ← readS8 r.buffer.code 1
      return { text := decimal offset, target := some (targetOf r.address (r.required + offset)) }

/-- The instruction of a record shown. -/
def render (v : Variant) (r : Record Mode) : Except Fault Rendering := do
  let text ← template v (← pick r.buffer.code 0)
  Template.render (fun _ p => operand r p) 1 (Template.parse placeholders text)

/-- The instruction set of a variant. -/
def instructionSet (v : Variant) : InstructionSet Mode where
  layout := layout v
  render := render v
  modes := Mode.all
  modeName := Mode.name

end EightBit.Mos6502
