import EightBit.Code
set_option autoImplicit false

/-!
# Addressing modes of the 6809

The mode of an instruction is decided by its opcode, by the opcode of the second or third page that a
leading `0x10` or `0x11` opens, and, for indexed addressing, by a postbyte.  While the bytes that it
takes are not all there, the mode is open.
-/

namespace EightBit.Mc6809

/-- The addressing modes.  Those of the indexed group have a second form that goes through memory, named
with a final `Ind`. -/
inductive Mode where
  | inherent
  | direct
  | extended
  | rel8
  | rel16
  | imm8
  | imm16
  | zeroOff
  | zeroOffInd
  | constOff5
  | constOff8
  | constOff8Ind
  | constOff16
  | constOff16Ind
  | accOff
  | accOffInd
  | postInc1
  | postInc2
  | postInc2Ind
  | preDec1
  | preDec2
  | preDec2Ind
  | pcrel8
  | pcrel8Ind
  | pcrel16
  | pcrel16Ind
  | extendedInd
  | exgTfr
  | pshPul
  | invalid
  deriving DecidableEq, Repr

namespace Mode

/-- The written name of a mode. -/
def name : Mode → String
  | .inherent => "inherent"
  | .direct => "direct"
  | .extended => "extended"
  | .rel8 => "rel8"
  | .rel16 => "rel16"
  | .imm8 => "imm8"
  | .imm16 => "imm16"
  | .zeroOff => "zero_off"
  | .zeroOffInd => "zero_off_ind"
  | .constOff5 => "const_off5"
  | .constOff8 => "const_off8"
  | .constOff8Ind => "const_off8_ind"
  | .constOff16 => "const_off16"
  | .constOff16Ind => "const_off16_ind"
  | .accOff => "acc_off"
  | .accOffInd => "acc_off_ind"
  | .postInc1 => "post_inc1"
  | .postInc2 => "post_inc2"
  | .postInc2Ind => "post_inc2_ind"
  | .preDec1 => "pre_dec1"
  | .preDec2 => "pre_dec2"
  | .preDec2Ind => "pre_dec2_ind"
  | .pcrel8 => "pcrel8"
  | .pcrel8Ind => "pcrel8_ind"
  | .pcrel16 => "pcrel16"
  | .pcrel16Ind => "pcrel16_ind"
  | .extendedInd => "extended_ind"
  | .exgTfr => "exg_tfr"
  | .pshPul => "psh_pul"
  | .invalid => "invalid"

/-- All modes. -/
def all : List Mode :=
  [.inherent, .direct, .extended, .rel8, .rel16, .imm8, .imm16, .zeroOff, .zeroOffInd, .constOff5,
   .constOff8, .constOff8Ind, .constOff16, .constOff16Ind, .accOff, .accOffInd, .postInc1, .postInc2,
   .postInc2Ind, .preDec1, .preDec2, .preDec2Ind, .pcrel8, .pcrel8Ind, .pcrel16, .pcrel16Ind,
   .extendedInd, .exgTfr, .pshPul, .invalid]

/-- The number of bytes behind the opcode; the invalid mode has none. -/
def operandBytes? : Mode → Option Int
  | .inherent => some 0
  | .direct | .rel8 | .imm8 | .zeroOff | .zeroOffInd | .constOff5 | .accOff | .accOffInd | .postInc1
  | .postInc2 | .postInc2Ind | .preDec1 | .preDec2 | .preDec2Ind | .exgTfr | .pshPul => some 1
  | .extended | .rel16 | .imm16 | .constOff8 | .constOff8Ind | .pcrel8 | .pcrel8Ind => some 2
  | .constOff16 | .constOff16Ind | .pcrel16 | .pcrel16Ind | .extendedInd => some 3
  | .invalid => none

/-- The form of an indexed mode that goes through memory.  Stepping by one has no such form. -/
def indirect? : Mode → Option Mode
  | .zeroOff => some .zeroOffInd
  | .constOff8 => some .constOff8Ind
  | .constOff16 => some .constOff16Ind
  | .accOff => some .accOffInd
  | .postInc2 => some .postInc2Ind
  | .preDec2 => some .preDec2Ind
  | .pcrel8 => some .pcrel8Ind
  | .pcrel16 => some .pcrel16Ind
  | _ => none

/-- The mode goes through memory. -/
def isIndirect : Mode → Bool
  | .zeroOffInd | .constOff8Ind | .constOff16Ind | .accOffInd | .postInc2Ind | .preDec2Ind
  | .pcrel8Ind | .pcrel16Ind | .extendedInd => true
  | _ => false

/-- The indexed mode that the low digit of a postbyte selects. -/
def ofIndexDigit? (digit : UInt8) : Option Mode :=
  match digit with
  | 0x0 => some .postInc1
  | 0x1 => some .postInc2
  | 0x2 => some .preDec1
  | 0x3 => some .preDec2
  | 0x4 => some .zeroOff
  | 0x5 | 0x6 | 0xB => some .accOff
  | 0x8 => some .constOff8
  | 0x9 => some .constOff16
  | 0xC => some .pcrel8
  | 0xD => some .pcrel16
  | _ => none

/-- The mode of a postbyte.  The bit patterns overlap and the first one that fits counts: extended
indirect, then the five-bit offset, then the low digit with the indirect bit. -/
def ofPostbyte (postbyte : UInt8) : Mode :=
  if postbyte &&& 0x9F = 0x9F then .extendedInd
  else if postbyte &&& 0x80 = 0 then .constOff5
  else
    match ofIndexDigit? (postbyte &&& 0x0F) with
    | none => .invalid
    | some mode => if postbyte &&& 0x10 = 0 then mode else mode.indirect?.getD .invalid

/-- The mode of the postbyte at a position, which is open until `count` bytes reach it. -/
def ofPostbyteAt (code : List Int) (count i : Int) : Except Fault (Option Mode) :=
  if count ≤ i then .ok none
  else do return some (ofPostbyte (UInt8.ofInt (← pick code i)))

/-- The opcode opens the second or the third page. -/
def opensPage (opcode : Int) : Bool :=
  opcode = 0x10 || opcode = 0x11

/-- The mode of a joined opcode of the second or third page, by its row; `none` if it is indexed. -/
def ofPagedOpcode? (opcode : Int) : Option Mode :=
  let row := opcode % 0x10000 / 0x10
  if row = 0x102 then some .rel16
  else if row ∈ [0x103, 0x113] then some .inherent
  else if row ∈ [0x108, 0x118, 0x10C] then some .imm16
  else if row ∈ [0x109, 0x119, 0x10D] then some .direct
  else if row ∈ [0x10A, 0x11A, 0x10E] then none
  else if row ∈ [0x10B, 0x11B, 0x10F] then some .extended
  else some .invalid

/-- The mode of an opcode in the row `0x10 .. 0x1F` of the first page. -/
def ofMixedRow (opcode : Int) : Mode :=
  if opcode ∈ [0x12, 0x13, 0x19, 0x1D] then .inherent
  else if opcode ∈ [0x16, 0x17] then .rel16
  else if opcode ∈ [0x1A, 0x1C] then .imm8
  else if opcode ∈ [0x1E, 0x1F] then .exgTfr
  else .invalid

/-- The mode of an opcode of the first page, by its row; `none` if it is indexed. -/
def ofOpcode? (opcode : Int) : Option Mode :=
  let row := opcode / 0x10
  if row ∈ [0x0, 0x9, 0xD] then some .direct
  else if row = 0x1 then some (ofMixedRow opcode)
  else if row = 0x2 then some .rel8
  else if row = 0x3 then
    if opcode ≤ 0x33 then none
    else if opcode ≤ 0x37 then some .pshPul
    else if opcode = 0x38 then some .invalid
    else some .inherent
  else if row ∈ [0x4, 0x5] then some .inherent
  else if row ∈ [0x6, 0xA, 0xE] then none
  else if row ∈ [0x7, 0xB, 0xF] then some .extended
  else if row ∈ [0x8, 0xC] then
    if opcode = 0x8D then some .rel8
    else if opcode % 0x10 ∈ [0x3, 0xC, 0xE] then some .imm16
    else some .imm8
  else some .invalid

/-- The mode of an instruction on the second or third page, open until its opcode and, if that is
indexed, its postbyte are there. -/
def ofPaged (code : List Int) (count : Int) : Except Fault (Option Mode) :=
  if count < 2 then .ok none
  else do
    match ofPagedOpcode? (joinBytes (← pick code 0) (← pick code 1)) with
    | some mode => return some mode
    | none => ofPostbyteAt code count 2

/-- The mode that the first `count` bytes of an instruction decide, or `none` if it takes more. -/
def ofCode (code : List Int) (count : Int) : Except Fault (Option Mode) :=
  if count = 0 then .ok none
  else do
    let opcode ← pick code 0
    if opensPage opcode then ofPaged code count
    else
      match ofOpcode? opcode with
      | some mode => return some mode
      | none => ofPostbyteAt code count 1

/-- The length of an instruction in a mode, its leading page byte included. -/
def instructionLength (opcode : Int) (mode : Mode) : Except Fault Int :=
  match mode.operandBytes? with
  | none => .error .unsized
  | some n => .ok (if opensPage opcode then n + 2 else n + 1)

end Mode

end EightBit.Mc6809
