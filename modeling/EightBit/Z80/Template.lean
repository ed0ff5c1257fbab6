import EightBit.Code
import EightBit.Text.CodePoint
import EightBit.Z80.Opcodes
set_option autoImplicit false

/-!
# Instruction templates of the Z80

The template of an instruction is found by its opcode, behind a leading byte if it has one: `0xCB` opens
the bit group, `0xED` the extended group, and `0xDD` and `0xFD` put an index register in the place of
`HL`.  Behind `0xDD 0xCB` and `0xFD 0xCB` the displacement comes before the opcode, so the template is
open until the fourth byte.
-/

namespace EightBit.Z80

/-- The leading byte puts an index register in the place of `HL`. -/
def isIndexLead (lead : Int) : Bool :=
  lead = 0xDD || lead = 0xFD

/-- The byte leads to an opcode behind it. -/
def isLead (lead : Int) : Bool :=
  lead = 0xCB || lead = 0xED || isIndexLead lead

/-- The index register of a leading byte. -/
def indexRegister (lead : Int) : List Char :=
  if lead = 0xDD then "IX".toList else "IY".toList

section

variable {α : Type} [Alphabet α] [DecidableEq α]

/-- `indexed` behind the symbol `before`. -/
def indexedFrom (lead : Int) (transfer : Bool) : Option α → List α → List α
  | before, c :: d :: rest =>
      if c = Alphabet.ofChar 'H' ∧ d = Alphabet.ofChar 'L' then
        let isCell := before = some (Alphabet.ofChar '(') && !transfer
        let displacement := if isCell then "+ddd".toList else []
        (indexRegister lead ++ displacement).map Alphabet.ofChar ++ rest
      else c :: indexedFrom lead transfer (some c) (d :: rest)
  | _, rest => rest

/-- The template with the index register of `lead` in the place of the first `HL`.  A memory cell
`(HL)` gets a displacement, unless the instruction only transfers the register. -/
def indexed (lead : Int) (transfer : Bool) (template : List α) : List α :=
  indexedFrom lead transfer none template

end

/-- The name of a numbered entry of a register table. -/
def entry (names : List String) (number : UInt8) : List Char :=
  (names.getD number.toNat "").toList

/-- The template of an opcode in the extended group.  The bit patterns come before the table, and only
the table looks at more than the low byte. -/
def extendedTemplate (opcode : Int) : List Char :=
  let low := UInt8.ofInt opcode
  let word := entry wordRegisters ((low >>> 4) &&& 3)
  let number := (low >>> 3) &&& 7
  let register := entry transferRegisters number
  if low &&& 0xCF = 0x4B then "LD ".toList ++ word ++ ",(XXXXh)".toList
  else if low &&& 0xCF = 0x43 then "LD (XXXXh),".toList ++ word
  else if low &&& 0xCF = 0x4A then "ADC HL,".toList ++ word
  else if low &&& 0xCF = 0x42 then "SBC HL,".toList ++ word
  else if low &&& 0xC7 = 0x40 then
    "IN ".toList ++ (if number = 6 then "Flags".toList else register) ++ ",(C)".toList
  else if low &&& 0xC7 = 0x41 then "OUT (C),".toList ++ register
  else
    match extendedOpcodes.lookup opcode with
    | some template => template.toList
    | none => ['?']

/-- The template of an opcode in the bit group.  Behind an index lead it always works on the indexed
memory cell; a register other than that cell gets a copy of the result, unless the bit is only tested. -/
def bitTemplate (opcode : UInt8) (lead : Option Int) : List Char :=
  let operation := entry bitGroup (opcode >>> 3)
  let register := opcode &&& 7
  match lead with
  | none => operation ++ entry byteRegisters register
  | some lead =>
      let cell := indexed lead false (operation ++ entry byteRegisters 6)
      if register ≠ 6 ∧ opcode &&& 0xC0 ≠ 0x40 then cell ++ ',' :: entry byteRegisters register
      else cell

/-- The template of an opcode behind an index lead. -/
def indexedTemplate (lead opcode : Int) : Except Fault (List Char) := do
  let low := UInt8.ofInt opcode
  let plain ←
    if low &&& 0xCF = 0x09 then
      .ok ("ADD ".toList ++ indexRegister lead ++ ',' :: entry wordRegisters ((low >>> 4) &&& 3))
    else
      match pick opcodes opcode with
      | .ok template => .ok template.toList
      | .error e => .error e
  return indexed lead (opcode = 0xE9) plain

/-- The template that the first `count` bytes of an instruction decide, or `none` if it takes more. -/
def templateOf (code : List Int) (count : Int) : Except Fault (Option (List Char)) := do
  let opcode ← pick code 0
  if isIndexLead opcode then
    if count < 2 then return none
    else
      let second ← pick code 1
      if second = 0xCB then
        if count < 4 then return none
        else return some (bitTemplate (UInt8.ofInt (← pick code 3)) (some opcode))
      else return some (← indexedTemplate opcode second)
  else if opcode = 0xED then
    if count < 2 then return none else return some (extendedTemplate (← pick code 1))
  else if opcode = 0xCB then
    if count < 2 then return none else return some (bitTemplate (UInt8.ofInt (← pick code 1)) none)
  else return some (← pick opcodes opcode).toList

/-- The number of bytes that leading bytes and opcode take. -/
def opcodeLength (code : List Int) : Except Fault Int := do
  let opcode ← pick code 0
  if isIndexLead opcode then
    return if (← pick code 1) = 0xCB then 3 else 2
  else return if isLead opcode then 2 else 1

/-- The position of the first operand byte. -/
def operandOffset (code : List Int) : Except Fault Int := do
  return if isLead (← pick code 0) then 2 else 1

end EightBit.Z80
