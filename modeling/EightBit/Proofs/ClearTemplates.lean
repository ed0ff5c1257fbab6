import EightBit.Proofs.DataRows
import EightBit.Proofs.Legible
set_option autoImplicit false

/-!
# The templates of the opcode tables are clear

Whatever template the opcode of a 6502 or of a Z80 leads to: its literals are printable and leave room for
the operands, and each operand ends where the template goes on (`Template.Clear`).  The tables are gone
through by evaluation.  In the bit group of the Z80 only what stands behind an operation has to be.
-/

namespace EightBit

namespace Mos6502

theorem opcodes_clear (v : Variant) :
    ∀ t ∈ v.opcodes, Template.Clear bodyWidth (Template.parse placeholders t.toList) := by
  cases v with
  | mos6502 =>
      change ∀ t ∈ opcodes6502, _
      apply Spelled.forall_mem (P := fun t => Template.Clear bodyWidth (Template.parse placeholders t))
      · unfold opcodes6502
        repeat' constructor
      · decide +kernel
  | mos65c02 =>
      change ∀ t ∈ opcodes65c02, _
      apply Spelled.forall_mem (P := fun t => Template.Clear bodyWidth (Template.parse placeholders t))
      · unfold opcodes65c02
        repeat' constructor
      · decide +kernel

end Mos6502

namespace Z80

/-- A printable plain text in front of a clear template leaves it clear. -/
theorem clear_append {m n : Nat} {s t : List Char} (hplain : Template.Plain placeholders s) (hs : Legible m s)
    (ht : Template.Clear n (Template.parse placeholders t)) :
    Template.Clear (m + n) (Template.parse placeholders (s ++ t)) := by
  rw [Template.parse_append hplain]
  exact ht.foldr_consSymbol hs

theorem opcodes_clear : ∀ t ∈ opcodes, Template.Clear bodyWidth (Template.parse placeholders t.toList) := by
  have htable : ∀ t ∈ opcodes, (Template.Plain placeholders t.toList ∧ Legible bodyWidth t.toList) ∨
      Template.Clear bodyWidth (Template.parse placeholders t.toList) := by
    apply Spelled.forall_mem (P := fun t => (Template.Plain placeholders t ∧ Legible bodyWidth t) ∨
      Template.Clear bodyWidth (Template.parse placeholders t))
    · unfold opcodes
      repeat' constructor
    · decide +kernel
  intro t ht
  rcases htable t ht with ⟨hplain, hlegible⟩ | hclear
  · have hempty : Template.Clear 0 (Template.parse placeholders []) := by decide
    have hclear := clear_append hplain hlegible hempty
    rwa [List.append_nil] at hclear
  · exact hclear

/-- An operation of the bit group takes six symbols. -/
theorem clear_operation {operation : String} (h : operation ∈ bitGroup) {t : List Char}
    (ht : Template.Clear 19 (Template.parse placeholders t)) :
    Template.Clear bodyWidth (Template.parse placeholders (operation.toList ++ t)) := by
  have hlegible : ∀ operation ∈ bitGroup, Legible 6 operation.toList := by decide
  obtain ⟨-, -, hplain⟩ := bitGroup_plain operation h
  exact clear_append hplain (hlegible operation h) ht

theorem clear_ofTables : OfTables fun t => Template.Clear bodyWidth (Template.parse placeholders t) where
  plain := opcodes_clear
  indexed := by
    apply forall_indexed (P := fun t => Template.Clear bodyWidth (Template.parse placeholders t)) opcodes_clear
    apply Spelled.forall_mem (P := fun t => 'H' ∈ t → ∀ lead ∈ [0xDD, 0xFD], ∀ transfer,
      Template.Clear bodyWidth (Template.parse placeholders (indexed lead transfer t)))
    · unfold opcodes
      repeat' constructor
    · decide +kernel
  addition := by decide +kernel
  extended byte := by
    apply forall_extended (P := fun t => Template.Clear bodyWidth (Template.parse placeholders t))
    all_goals decide +kernel
  bit operation hoperation register hregister := by
    have htable : ∀ register ∈ byteRegisters,
        Template.Clear 19 (Template.parse placeholders register.toList) := by decide +kernel
    exact clear_operation hoperation (htable register hregister)
  cell operation hoperation lead hlead := by
    have htable : ∀ lead ∈ [0xDD, 0xFD],
        Template.Clear 19 (Template.parse placeholders (indexed lead false "(HL)".toList)) := by decide +kernel
    rw [indexed_operation hoperation]
    exact clear_operation hoperation (htable lead hlead)
  copy operation hoperation lead hlead register hregister := by
    have htable : ∀ lead ∈ [0xDD, 0xFD], ∀ register ∈ byteRegisters, Template.Clear 19
        (Template.parse placeholders (indexed lead false "(HL)".toList ++ ',' :: register.toList)) := by
      decide +kernel
    rw [indexed_operation hoperation, List.append_assoc]
    exact clear_operation hoperation (htable lead hlead register hregister)

end Z80

end EightBit
