import EightBit.Record
import EightBit.Template
set_option autoImplicit false

/-!
# Instruction sets

An instruction set says two things about the bytes of an instruction: how they decide its addressing
mode and length, and how a record that holds them all is shown.
-/

namespace EightBit

/-- The text of an instruction or operand, with the address it refers to if it refers to one. -/
structure Rendering where
  text : List Char
  target : Option Int := none
  deriving DecidableEq, Repr

/-- What a family of processors makes of the bytes of an instruction. -/
structure InstructionSet (μ : Type) where
  /-- The mode and the length, decided by the first `count` bytes; `none` if it takes more of them. -/
  layout : (code : List Int) → (count : Int) → Except Fault (Option (μ × Int))
  /-- The instruction shown. -/
  render : Record μ → Except Fault Rendering
  /-- All addressing modes. -/
  modes : List μ
  /-- The written name of an addressing mode. -/
  modeName : μ → String

/-- A template with its operands shown, the bytes of the first one at position `i`.  If several operands
refer to an address, the last one counts. -/
def Template.render (operand : Int → Placeholder Char → Except Fault Rendering) (i : Int)
    (segments : List (Segment Char)) : Except Fault Rendering := do
  let shown ← (placed i (operands segments)).mapM fun p => operand p.1 p.2
  let text ← fill segments (shown.map Rendering.text)
  return { text := text, target := shown.foldl (fun target r => r.target.or target) none }

/-- The text of an instruction whose mode is not known. -/
def unknownMode : Rendering where
  text := "<?ADDRMODE?>".toList

end EightBit
