import EightBit.Text.CodePoint
set_option autoImplicit false

/-!
# Assembly statements

A statement is a mnemonic, then a blank and the operands with commas between them if there are any.
-/

namespace EightBit

/-- The text of a mnemonic with its operands. -/
def statement {α : Type} [Alphabet α] (mnemonic : List α) (operands : List (List α)) : List α :=
  if operands.isEmpty then mnemonic
  else mnemonic ++ Alphabet.ofChar ' ' :: List.intercalate [Alphabet.ofChar ','] operands

end EightBit
