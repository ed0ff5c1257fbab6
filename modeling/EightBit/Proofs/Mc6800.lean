import EightBit.Mc6800.InstructionSet
import EightBit.Proofs.Lawful
import EightBit.Proofs.Rendering
set_option autoImplicit false

/-!
# The laws of the 6800

The opcode decides alone.  In each mode the operands are read from the one or two cells behind the
opcode that the length of the mode counts; the invalid mode reads none and takes no further byte.
-/

namespace EightBit.Mc6800

open InstructionSet

theorem opcodes_ne_empty : ∀ t ∈ opcodes, t ≠ "" := by
  decide +kernel

theorem exists_mnemonic (byte : UInt8) : ∃ t ∈ opcodes, pick opcodes (byte.toNat : Int) = .ok t := by
  have hbyte : byte.toNat < 256 := byte.toNat_lt
  exact exists_pick (by omega) (by rw [length_opcodes]; omega)

/-- A mode that takes no bytes of its own ends where it was decided. -/
theorem length?_bounds (mode : Mode) : 1 ≤ mode.length?.getD 1 ∧ mode.length?.getD 1 ≤ 3 := by
  cases mode <;> decide

/-! ## Operands -/

theorem exists_operands (mode : Mode) (b : Buffer) : ∃ shown, operands mode b.code = .ok shown := by
  obtain ⟨-, first, second, -, -, hfirst, hsecond, -⟩ := b.exists_front
  cases mode <;>
    exact ⟨_, by simp only [operands, readS8, readU16be, hfirst, Int.reduceAdd, hsecond, ok_bind]; rfl⟩

/-- The operands of a mode are read within its length. -/
theorem operands_congr {mode : Mode} {c d : List Int} {length : Int} (hlength : mode.length? = some length)
    (h : AgreeBelow length c d) : operands mode c = operands mode d := by
  cases mode <;> cases hlength
  case inherent => rfl
  case relative => simp only [operands, h.readS8 (i := 1) (by decide) (by decide)]
  case imm16 => simp only [operands, h.readU16be (i := 1) (by decide) (by decide)]
  case extended => simp only [operands, h.readU16be (i := 1) (by decide) (by decide)]
  all_goals simp only [operands, h.second (by decide)]

/-! ## The laws -/

theorem layout_eq {b : Buffer} {byte : UInt8} (h : pick b.code 0 = .ok (byte.toNat : Int)) (count : Int) :
    layout b.code count = .ok (some (Mode.ofOpcode byte.toNat,
      (Mode.ofOpcode byte.toNat).length?.getD count)) := by
  simp [layout, h]

/-- A settled record has a valid mode with its length, or the invalid mode. -/
theorem settled_mode {r : Record Mode} (h : instructionSet.Settled r) :
    ∃ mode, r.mode = some mode ∧ (mode = .invalid ∨ mode.length? = some r.required) := by
  obtain ⟨k, mode, length, hdecides, -, hmode, hrequired⟩ := h
  obtain ⟨byte, -, -, -, hbyte, -, -, -⟩ := r.buffer.exists_front
  have heq := (layout_eq hbyte k).symm.trans hdecides.layout_eq
  simp only [Except.ok.injEq, Option.some.injEq, Prod.mk.injEq] at heq
  obtain ⟨rfl, rfl⟩ := heq
  refine ⟨_, hmode, ?_⟩
  rw [hrequired]
  cases Mode.ofOpcode byte.toNat <;> simp [Mode.length?]

theorem lawful : instructionSet.Lawful 3 0 where
  opening_lt := by decide
  longest_le := by decide
  decides b := by
    obtain ⟨byte, -, -, -, hbyte, -, -, -⟩ := b.exists_front
    obtain ⟨hpos, hle⟩ := length?_bounds (Mode.ofOpcode byte.toNat)
    exact ⟨1, _, _, ⟨by decide, fun j h0 h1 => by omega, layout_eq hbyte 1⟩, by decide, hpos, hle⟩
  layout_congr b c k hpos hagree := by
    change layout b.code k = layout c.code k
    simp only [layout, hagree.first (by omega)]
  render_ok r hsettled hcount := by
    obtain ⟨mode, hmode, -⟩ := settled_mode hsettled
    obtain ⟨byte, -, -, -, hbyte, -, -, -⟩ := r.buffer.exists_front
    obtain ⟨t, hmem, ht⟩ := exists_mnemonic byte
    obtain ⟨shown, hshown⟩ := exists_operands mode r.buffer
    change ∃ shown, render r = .ok shown ∧ shown.text ≠ []
    by_cases hinvalid : mode = .invalid
    · subst hinvalid
      exact ⟨unknownMode, by simp [render, hmode], by decide⟩
    · refine ⟨_, by simp only [render, hmode, hbyte, ht, hshown, ok_bind]; rfl, ?_⟩
      exact statement_ne_nil (opcodes_ne_empty t hmem) shown.1
  render_congr r q hsettled hcount haddress hmode hrequired hfetched := by
    obtain ⟨mode, hr, hinvalid | hlength⟩ := settled_mode hsettled
    · have hq : q.mode = some .invalid := by rw [← hmode, hr, hinvalid]
      change render r = render q
      rw [render, render, hr, hq, hinvalid]
    · have hagree : AgreeBelow r.count r.buffer.code q.buffer.code :=
        Buffer.agreeBelow_of_fetched_eq hfetched
      rw [hcount] at hagree
      have hpos : 1 ≤ r.required := by
        have := (length?_bounds mode).1
        simpa [hlength] using this
      have hvalid : mode ≠ .invalid := by
        rintro rfl
        cases hlength
      have hq : q.mode = some mode := by rw [← hmode, hr]
      change render r = render q
      simp only [render, hr, hq, operands_congr hlength hagree, hagree.first (by omega), haddress]

end EightBit.Mc6800
