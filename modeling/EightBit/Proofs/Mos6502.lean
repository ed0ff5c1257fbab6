import EightBit.Mos6502.InstructionSet
import EightBit.Proofs.Lawful
import EightBit.Proofs.Rendering
set_option autoImplicit false

/-!
# The laws of the 6502 and the 65C02

The opcode decides alone, so the decision falls with the first cell.  A template has at most one operand
and its mode is the kind of that operand, so the length of the mode covers every cell that is read.
-/

namespace EightBit.Mos6502

open InstructionSet

/-! ## The tables -/

/-- The template begins with its mnemonic and has at most one operand. -/
def WellFormed (template : List Char) : Prop :=
  Template.startsLiteral (Template.parse placeholders template) = true ∧
    (Template.operands (Template.parse placeholders template)).length ≤ 1

instance (template : List Char) : Decidable (WellFormed template) :=
  inferInstanceAs (Decidable (_ ∧ _))

theorem opcodes6502_wellFormed : ∀ t ∈ opcodes6502, WellFormed t.toList := by
  apply Spelled.forall_mem (P := WellFormed)
  · unfold opcodes6502
    repeat' constructor
  · decide +kernel

theorem opcodes65c02_wellFormed : ∀ t ∈ opcodes65c02, WellFormed t.toList := by
  apply Spelled.forall_mem (P := WellFormed)
  · unfold opcodes65c02
    repeat' constructor
  · decide +kernel

theorem opcodes_wellFormed (v : Variant) : ∀ t ∈ v.opcodes, WellFormed t.toList :=
  match v with
  | .mos6502 => opcodes6502_wellFormed
  | .mos65c02 => opcodes65c02_wellFormed

theorem length_opcodes (v : Variant) : v.opcodes.length = 256 :=
  match v with
  | .mos6502 => length_opcodes6502
  | .mos65c02 => length_opcodes65c02

theorem exists_template (v : Variant) (byte : UInt8) :
    ∃ t ∈ v.opcodes, template v (byte.toNat : Int) = .ok t.toList := by
  have hbyte : byte.toNat < 256 := byte.toNat_lt
  have hpick : ∃ t ∈ v.opcodes, pick v.opcodes (byte.toNat : Int) = .ok t :=
    exists_pick (by omega) (by rw [length_opcodes]; omega)
  obtain ⟨t, hmem, ht⟩ := hpick
  exact ⟨t, hmem, by simp [template, ht]⟩

/-! ## Modes and operands -/

theorem length_pos (mode : Mode) : 1 ≤ mode.length ∧ mode.length ≤ 3 := by
  cases mode <;> decide

/-- The mode of a template with one operand is the kind of that operand. -/
theorem modeOf_cases {t : List Char} {p : Placeholder Char}
    (hlength : (Template.operands (Template.parse placeholders t)).length ≤ 1)
    (hp : p ∈ Template.operands (Template.parse placeholders t)) :
    (p.kind = .u16 ∧ modeOf t = .u16) ∨ (p.kind = .u8 ∧ modeOf t = .u8) ∨
      (p.kind ≠ .u16 ∧ p.kind ≠ .u8 ∧ modeOf t = .rel8) := by
  cases hoperands : Template.operands (Template.parse placeholders t) with
  | nil => simp [hoperands] at hp
  | cons q rest =>
      have hrest : rest = [] := by
        rw [hoperands, List.length_cons] at hlength
        exact List.eq_nil_of_length_eq_zero (by omega)
      subst hrest
      rw [hoperands, List.mem_singleton] at hp
      subst hp
      cases hkind : p.kind <;> simp [modeOf, hoperands, hkind]

theorem exists_operand (r : Record Mode) (p : Placeholder Char) : ∃ shown, operand r p = .ok shown := by
  obtain ⟨-, low, high, -, -, hlow, hhigh, -⟩ := r.buffer.exists_front
  unfold operand
  split
  · exact ⟨_, by simp only [readU16le, hlow, Int.reduceAdd, hhigh, ok_bind]; rfl⟩
  · exact ⟨_, by rw [hlow, ok_bind]; rfl⟩
  · exact ⟨_, by simp only [readS8, hlow, ok_bind]; rfl⟩

/-- The operand of a template is read within the length of its mode. -/
theorem operand_congr {r q : Record Mode} {t : List Char} {p : Placeholder Char}
    (hlength : (Template.operands (Template.parse placeholders t)).length ≤ 1)
    (hp : p ∈ Template.operands (Template.parse placeholders t))
    (hagree : AgreeBelow (modeOf t).length r.buffer.code q.buffer.code)
    (haddress : r.address = q.address) (hrequired : r.required = q.required) :
    operand r p = operand q p := by
  rcases modeOf_cases hlength hp with ⟨hkind, hmode⟩ | ⟨hkind, hmode⟩ | ⟨hu16, hu8, hmode⟩
  · rw [hmode] at hagree
    simp only [operand, hkind, hagree.readU16le (i := 1) (by decide) (by decide)]
  · rw [hmode] at hagree
    simp only [operand, hkind, hagree.second (by decide)]
  · rw [hmode] at hagree
    simp only [operand, hagree.readS8 (i := 1) (by decide) (by decide), haddress, hrequired]

/-! ## The laws -/

/-- The first cell has a template, and it decides mode and length for any number of cells. -/
theorem exists_layout (v : Variant) (b : Buffer) :
    ∃ (byte : UInt8) (t : String), t ∈ v.opcodes ∧ pick b.code 0 = .ok (byte.toNat : Int) ∧
      template v (byte.toNat : Int) = .ok t.toList ∧
      ∀ count, layout v b.code count = .ok (some (modeOf t.toList, (modeOf t.toList).length)) := by
  obtain ⟨byte, -, -, -, hbyte, -, -, -⟩ := b.exists_front
  obtain ⟨t, hmem, ht⟩ := exists_template v byte
  exact ⟨byte, t, hmem, hbyte, ht, fun count => by simp [layout, hbyte, ht]⟩

/-- A settled record has the mode and length of the template of its opcode. -/
theorem settled_template {v : Variant} {r : Record Mode} (h : (instructionSet v).Settled r) :
    ∃ (byte : UInt8) (t : String), t ∈ v.opcodes ∧ pick r.buffer.code 0 = .ok (byte.toNat : Int) ∧
      template v (byte.toNat : Int) = .ok t.toList ∧ r.required = (modeOf t.toList).length := by
  obtain ⟨k, mode, length, hdecides, -, -, hrequired⟩ := h
  obtain ⟨byte, t, hmem, hbyte, ht, hlayout⟩ := exists_layout v r.buffer
  have heq := (hlayout k).symm.trans hdecides.layout_eq
  simp only [Except.ok.injEq, Option.some.injEq, Prod.mk.injEq] at heq
  exact ⟨byte, t, hmem, hbyte, ht, by rw [hrequired, heq.2]⟩

theorem lawful (v : Variant) : (instructionSet v).Lawful 3 0 where
  opening_lt := by decide
  longest_le := by decide
  decides b := by
    obtain ⟨byte, t, -, -, -, hlayout⟩ := exists_layout v b
    obtain ⟨hpos, hle⟩ := length_pos (modeOf t.toList)
    exact ⟨1, _, _, ⟨by decide, fun j h0 h1 => by omega, hlayout 1⟩, by decide, hpos, hle⟩
  layout_congr b c k hpos hagree := by
    change layout v b.code k = layout v c.code k
    simp only [layout, hagree.first (by omega)]
  render_ok r hsettled hcount := by
    obtain ⟨byte, t, hmem, hbyte, ht, -⟩ := settled_template hsettled
    change ∃ shown, render v r = .ok shown ∧ shown.text ≠ []
    simp only [render, hbyte, ht, ok_bind]
    exact Template.exists_render (opcodes_wellFormed v t hmem).1 fun _ p _ => exists_operand r p
  render_congr r q hsettled hcount haddress hmode hrequired hfetched := by
    obtain ⟨byte, t, hmem, hbyte, ht, hlength⟩ := settled_template hsettled
    have hagree : AgreeBelow r.count r.buffer.code q.buffer.code :=
      Buffer.agreeBelow_of_fetched_eq hfetched
    have hpos := (length_pos (modeOf t.toList)).1
    rw [hcount, hlength] at hagree
    have hbyte' : pick q.buffer.code 0 = .ok (byte.toNat : Int) := by
      rw [← hagree.first (by omega), hbyte]
    change render v r = render v q
    simp only [render, hbyte, hbyte', ht, ok_bind]
    apply Template.render_congr
    intro j p hp
    exact operand_congr (opcodes_wellFormed v t hmem).2 (Template.mem_placed hp).1 hagree haddress hrequired

end EightBit.Mos6502
