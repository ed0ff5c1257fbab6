import EightBit.InstructionSet
import EightBit.Mc6809.Mode
import EightBit.Mc6809.Opcodes
import EightBit.Number.Digits
import EightBit.Statement
set_option autoImplicit false

/-!
# The instruction set of the 6809

An instruction is shown as its mnemonic and the operands of its mode.  A mode that goes through memory
is put in square brackets.  Distances are shown as they stand in the code, and the target is counted
from the address of the instruction.
-/

namespace EightBit.Mc6809

/-- The mnemonic of an instruction on the second or third page, by its joined opcode. -/
def pagedMnemonic (opcode : Int) : String :=
  let row := opcode % 0x10000 / 0x10
  let digit := (opcode % 0x10).toNat
  if 0x1020 ≤ opcode ∧ opcode ≤ 0x102F then longBranches.getD digit "?"
  else if opcode = 0x103F then "SWI2"
  else if opcode = 0x113F then "SWI3"
  else if row ∈ [0x108, 0x109, 0x10A, 0x10B] then
    if opcode = 0x108F then "?"
    else match digit with
      | 0x3 => "CMPD"
      | 0xC => "CMPY"
      | 0xE => "LDY"
      | 0xF => "STY"
      | _ => "?"
  else if row ∈ [0x10C, 0x10D, 0x10E, 0x10F] then
    if opcode = 0x10CF then "?"
    else match digit with
      | 0xE => "LDS"
      | 0xF => "STS"
      | _ => "?"
  else if row ∈ [0x118, 0x119, 0x11A, 0x11B] then
    match digit with
    | 0x3 => "CMPU"
    | 0xC => "CMPS"
    | _ => "?"
  else "?"

/-- The mnemonic of an instruction. -/
def mnemonic (code : List Int) : Except Fault String := do
  let opcode ← pick code 0
  if Mode.opensPage opcode then return pagedMnemonic (joinBytes opcode (← pick code 1))
  else pick opcodes opcode

/-- The registers of a push or pull by the bits of its mask.  The bit of the other stack pointer is `U`
on the system stack and `S` on the user stack. -/
def stackedRegisters (opcode : Int) (mask : UInt8) : List String :=
  let other := if opcode = 0x34 ∨ opcode = 0x35 then "U" else "S"
  let bits : List (UInt8 × String) :=
    [(0x01, "CCR"), (0x02, "A"), (0x04, "B"), (0x08, "DPR"), (0x10, "X"), (0x20, "Y"), (0x40, other),
     (0x80, "PC")]
  (bits.filter fun b => mask &&& b.1 ≠ 0).map Prod.snd

/-- The accumulator that the low digit of a postbyte selects. -/
def accumulator (postbyte : UInt8) : Char :=
  match postbyte &&& 0x0F with
  | 0x6 => 'A'
  | 0x5 => 'B'
  | 0xB => 'D'
  | _ => '?'

/-- The operands in a mode, the first of their bytes at position `i`, and the distance to the target if
there is one. -/
def operands (mode : Mode) (code : List Int) (i : Int) :
    Except Fault (List (List Char) × Option Int) := do
  let byte ← pick code i
  let postbyte := UInt8.ofInt byte
  let register := (indexRegisters.getD ((postbyte >>> 5) &&& 3).toNat "").toList
  let through (text : List Char) := if mode.isIndirect then '[' :: text ++ [']'] else text
  match mode with
  | .inherent | .invalid => return ([], none)
  | .direct => return ([['<', ' ', '$'] ++ hex8 byte], none)
  | .extended => return (['$' :: hex16 (← readU16be code i)], none)
  | .extendedInd => return ([through ('$' :: hex16 (← readU16be code (i + 1)))], none)
  | .rel8 => return ([decimal (signExtend 8 byte)], some (signExtend 8 byte))
  | .rel16 => do
      let offset ← readS16be code i
      return ([decimal offset], some offset)
  | .imm8 => return (['#' :: '$' :: hex8 byte], none)
  | .imm16 => return (['#' :: '$' :: hex16 (← readU16be code i)], none)
  | .zeroOff | .zeroOffInd => return ([through (',' :: register)], none)
  | .constOff5 => return ([decimal (signExtend 5 byte) ++ ',' :: register], none)
  | .constOff8 | .constOff8Ind => do
      let offset ← readS8 code (i + 1)
      return ([through (decimal offset ++ ',' :: register)], none)
  | .constOff16 | .constOff16Ind => do
      let offset ← readS16be code (i + 1)
      return ([through (decimal offset ++ ',' :: register)], none)
  | .accOff | .accOffInd => return ([through (accumulator postbyte :: ',' :: register)], none)
  | .postInc1 => return ([',' :: register ++ ['+']], none)
  | .postInc2 | .postInc2Ind => return ([through (',' :: register ++ ['+', '+'])], none)
  | .preDec1 => return ([',' :: '-' :: register], none)
  | .preDec2 | .preDec2Ind => return ([through (',' :: '-' :: '-' :: register)], none)
  | .pcrel8 | .pcrel8Ind => do
      let offset ← readS8 code (i + 1)
      return ([through (decimal offset ++ ",PCR".toList)], some offset)
  | .pcrel16 | .pcrel16Ind => do
      let offset ← readS16be code (i + 1)
      return ([through (decimal offset ++ ",PCR".toList)], some offset)
  | .exgTfr => do
      let source ← pick transferRegisters (byte / 0x10)
      let target ← pick transferRegisters (byte % 0x10)
      return ([source.toList, target.toList], none)
  | .pshPul => return ((stackedRegisters (← pick code 0) postbyte).map String.toList, none)

/-- The mode and length that the first `count` bytes decide.  The invalid mode takes no further bytes. -/
def layout (code : List Int) (count : Int) : Except Fault (Option (Mode × Int)) := do
  match ← Mode.ofCode code count with
  | none => return none
  | some .invalid => return some (.invalid, count)
  | some mode => return some (mode, ← mode.instructionLength (← pick code 0))

/-- The instruction of a record shown. -/
def render (r : Record Mode) : Except Fault Rendering :=
  match r.mode with
  | none | some .invalid => .ok unknownMode
  | some mode => do
      let code := r.buffer.code
      let i := if Mode.opensPage (← pick code 0) then 2 else 1
      let name ← mnemonic code
      let (operands, offset) ← operands mode code i
      return {
        text := statement name.toList operands
        target := offset.map (targetOf r.address) }

/-- The instruction set of the 6809. -/
def instructionSet : InstructionSet Mode where
  layout := layout
  render := render
  modes := Mode.all
  modeName := Mode.name

end EightBit.Mc6809
