import EightBit.Fault
import EightBit.Number.Bitwise
import EightBit.Number.SignExtend
set_option autoImplicit false

/-!
# Instruction bytes by position

The bytes of an instruction are a list of integers.  A position counts from the front from `0` on and
from the back from `-1` down; anything else is a fault.  Opcode tables are read by the same rule.
-/

namespace EightBit

/-- The entry at a position, if there is one. -/
def pick? {α : Type} (entries : List α) (i : Int) : Option α :=
  if 0 ≤ i then entries[i.toNat]?
  else if i.natAbs ≤ entries.length then entries[entries.length - i.natAbs]?
  else none

/-- The entry at a position; a position outside the list is a fault. -/
def pick {α : Type} (entries : List α) (i : Int) : Except Fault α :=
  match pick? entries i with
  | some a => .ok a
  | none => .error .position

/-- The word at a position, low byte first. -/
def readU16le (code : List Int) (i : Int) : Except Fault Int := do
  let low ← pick code i
  let high ← pick code (i + 1)
  return joinBytes high low

/-- The word at a position, high byte first. -/
def readU16be (code : List Int) (i : Int) : Except Fault Int := do
  let high ← pick code i
  let low ← pick code (i + 1)
  return joinBytes high low

/-- The signed word at a position, high byte first. -/
def readS16be (code : List Int) (i : Int) : Except Fault Int := do
  return signExtend 16 (← readU16be code i)

/-- The signed byte at a position. -/
def readS8 (code : List Int) (i : Int) : Except Fault Int := do
  return signExtend 8 (← pick code i)

end EightBit
