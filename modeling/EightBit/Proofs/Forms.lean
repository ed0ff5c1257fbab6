import EightBit.Proofs.Compatibility
import EightBit.Proofs.DataRows
import EightBit.Proofs.Whole
set_option autoImplicit false

/-!
# The forms of Z80 instructions

The leading bytes of an instruction say where its template comes from, where its operands begin and how many
bytes stand besides them (`Form`).  There are five forms, and every code has one.  From the form of a record
follows all that there is to know about a whole instruction: its mode, its length and its text (`Form.of_holds`).

A symbol that only the table of the opcodes has tells that a template comes from there, with an index lead or
without one (`Form.opcode_of_mem`).  So it is by the `r` of its placeholder that a relative jump is found.
-/

namespace EightBit

namespace Z80

open InstructionSet

/-- The template of an opcode without a leading byte. -/
def plainTemplate (opcode : UInt8) : List Char :=
  (opcodes.getD opcode.toNat "?").toList

theorem pick_opcodes (opcode : UInt8) :
    pick opcodes (opcode.toNat : Int) = .ok (opcodes.getD opcode.toNat "?") := by
  apply pick_eq_getD
  rw [length_opcodes]
  exact opcode.toNat_lt

theorem isIndexLead_toNat {lead : UInt8} : isIndexLead (lead.toNat : Int) = true ↔ lead = 0xDD ∨ lead = 0xFD := by
  constructor
  · intro h
    have hmem := mem_leads h
    simp only [List.mem_cons, List.not_mem_nil, or_false] at hmem
    rcases hmem with hmem | hmem
    · exact .inl (toNat_injective hmem)
    · exact .inr (toNat_injective hmem)
  · rintro (rfl | rfl) <;> rfl

/-- The template behind an index lead of an opcode that has the template `t` without it. -/
def leadTemplate (lead opcode : UInt8) (t : List Char) : List Char :=
  indexed lead.toNat ((opcode.toNat : Int) = 0xE9)
    (if opcode &&& 0xCF = 0x09 then
      "ADD ".toList ++ indexRegister lead.toNat ++ ',' :: entry wordRegisters ((opcode >>> 4) &&& 3)
    else t)

theorem indexedTemplate_eq (lead opcode : UInt8) :
    indexedTemplate lead.toNat opcode.toNat = .ok (leadTemplate lead opcode (plainTemplate opcode)) := by
  simp only [indexedTemplate, ofInt_toNat, pick_opcodes, leadTemplate, plainTemplate]
  split <;> rfl

theorem leadTemplate_eq_self {lead opcode : UInt8} {t : List Char} (h : 'H' ∉ t) (hadd : opcode &&& 0xCF ≠ 0x09) :
    leadTemplate lead opcode t = t := by
  rw [leadTemplate, if_neg hadd, indexed_eq_self h]

/-- The code leads to the template, whose operands begin at `offset`; `length` bytes do not belong to them. -/
inductive Form (code : List Int) : (t : List Char) → (offset length : Int) → Prop
  | plain {opcode : UInt8} (h0 : pick code 0 = .ok (opcode.toNat : Int))
      (hlead : isLead (opcode.toNat : Int) = false) : Form code (plainTemplate opcode) 1 1
  | extended {second : UInt8} (h0 : pick code 0 = .ok 0xED) (h1 : pick code 1 = .ok (second.toNat : Int)) :
      Form code (extendedTemplate second.toNat) 2 2
  | bit {second : UInt8} (h0 : pick code 0 = .ok 0xCB) (h1 : pick code 1 = .ok (second.toNat : Int)) :
      Form code (bitTemplate second none) 2 2
  | indexed {lead second : UInt8} {t : List Char} (h0 : pick code 0 = .ok (lead.toNat : Int))
      (h1 : pick code 1 = .ok (second.toNat : Int)) (hindex : isIndexLead (lead.toNat : Int) = true)
      (hbit : second ≠ 0xCB) (ht : indexedTemplate lead.toNat second.toNat = .ok t) : Form code t 2 2
  | indexedBit {lead fourth : UInt8} (h0 : pick code 0 = .ok (lead.toNat : Int)) (h1 : pick code 1 = .ok 0xCB)
      (h3 : pick code 3 = .ok (fourth.toNat : Int)) (hindex : isIndexLead (lead.toNat : Int) = true) :
      Form code (bitTemplate fourth (some lead.toNat)) 2 3

/-- Every buffer has a form. -/
theorem exists_form (b : Buffer) : ∃ t offset length, Form b.code t offset length := by
  obtain ⟨lead, second, -, fourth, h0, h1, -, h3⟩ := b.exists_front
  by_cases hindex : isIndexLead (lead.toNat : Int) = true
  · by_cases hbit : second = 0xCB
    · subst hbit
      exact ⟨_, _, _, .indexedBit h0 h1 h3 hindex⟩
    · obtain ⟨t, ht, -⟩ := exists_indexedTemplate second hindex
      exact ⟨t, _, _, .indexed h0 h1 hindex hbit ht⟩
  · by_cases hed : (lead.toNat : Int) = 0xED
    · rw [hed] at h0
      exact ⟨_, _, _, .extended h0 h1⟩
    · by_cases hcb : (lead.toNat : Int) = 0xCB
      · rw [hcb] at h0
        exact ⟨_, _, _, .bit h0 h1⟩
      · exact ⟨_, _, _, .plain h0 (by simp [isLead, hindex, hed, hcb])⟩

namespace Form

variable {code : List Int} {b : Buffer} {t : List Char} {offset length : Int}

/-- The form of a code decides its template. -/
theorem exists_decidedAt (h : Form code t offset length) : ∃ k, DecidedAt code k t offset length := by
  cases h with
  | @plain opcode h0 hlead =>
      obtain ⟨t, hdecided⟩ := decidedAt_plain h0 hlead
      have htemplate := hdecided.decided 1 (Nat.le_refl 1)
      simp only [isLead, Bool.or_eq_false_iff, decide_eq_false_iff_not] at hlead
      obtain ⟨⟨hcb, hed⟩, hindex⟩ := hlead
      simp only [templateOf, h0, hindex, hed, hcb, pick_opcodes, ok_bind, pure_eq_ok, Bool.false_eq_true,
        ↓reduceIte, Except.ok.injEq, Option.some.injEq] at htemplate
      rw [plainTemplate, htemplate]
      exact ⟨1, hdecided⟩
  | extended h0 h1 => exact ⟨2, decidedAt_extended h0 h1⟩
  | @bit second h0 h1 =>
      have hdecided := decidedAt_bit h0 h1
      rw [ofInt_toNat] at hdecided
      exact ⟨2, hdecided⟩
  | @indexed lead second t h0 h1 hindex hbit ht =>
      have hbit' : (second.toNat : Int) ≠ 0xCB := fun heq => hbit (toNat_injective heq)
      obtain ⟨t', hdecided⟩ := decidedAt_indexed h0 h1 hindex hbit'
      have htemplate := hdecided.decided 2 (Nat.le_refl 2)
      have htwo : ¬ ((2 : Nat) : Int) < 2 := by decide
      simp only [templateOf, h0, h1, hindex, htwo, hbit', ht, ok_bind, pure_eq_ok, ↓reduceIte, Except.ok.injEq,
        Option.some.injEq] at htemplate
      exact ⟨2, htemplate ▸ hdecided⟩
  | @indexedBit lead fourth h0 h1 h3 hindex =>
      obtain ⟨t', hdecided⟩ := decidedAt_indexed_bit h0 h1 h3 hindex
      have htemplate := hdecided.decided 4 (Nat.le_refl 4)
      have htwo : ¬ ((4 : Nat) : Int) < 2 := by decide
      have hfour : ¬ ((4 : Nat) : Int) < 4 := by decide
      simp only [templateOf, h0, h1, h3, hindex, htwo, hfour, ofInt_toNat, ok_bind, pure_eq_ok, ↓reduceIte,
        Except.ok.injEq, Option.some.injEq] at htemplate
      exact ⟨4, htemplate ▸ hdecided⟩

theorem exists_decidesAt (h : Form b.code t offset length) :
    ∃ k, instructionSet.DecidesAt b k (Mode.ofOperands (Template.operands (Template.parse placeholders t)))
      (length + Template.size (Template.parse placeholders t)) := by
  obtain ⟨k, hdecided⟩ := h.exists_decidedAt
  refine ⟨k, hdecided.pos, ?_, layout_of_decidedAt hdecided (Nat.le_refl k)⟩
  intro j hpos hlt
  exact layout_of_open (hdecided.open_before j hpos hlt)

/-- Bytes of a form are a whole instruction if they are those of the form and of the operands. -/
theorem measures {bytes : List UInt8} (h : Form b.code t offset length) (hfetched : b.fetched = bytes)
    (hlength : (bytes.length : Int) = length + Template.size (Template.parse placeholders t)) :
    instructionSet.Measures bytes (Mode.ofOperands (Template.operands (Template.parse placeholders t))) := by
  obtain ⟨k, hdecides⟩ := h.exists_decidesAt
  exact ⟨b, k, hfetched, hlength ▸ hdecides⟩

/-- The mode, the length and the text of a whole instruction follow from its form. -/
theorem of_holds {r : Record Mode} {address : Int} {bytes : List UInt8} {mode : Mode} {shown : Rendering}
    (h : Form r.buffer.code t offset length) (hholds : instructionSet.Holds r address bytes mode shown) :
    mode = Mode.ofOperands (Template.operands (Template.parse placeholders t)) ∧
      (bytes.length : Int) = length + Template.size (Template.parse placeholders t) ∧
      Template.render (operand r) offset (Template.parse placeholders t) = .ok shown := by
  obtain ⟨k, hdecided⟩ := h.exists_decidedAt
  obtain ⟨k', hdecides⟩ := h.exists_decidesAt
  obtain ⟨k'', hdecides', -⟩ := hholds.exists_decidesAt
  obtain ⟨-, hmode, hlength⟩ := hdecides'.unique hdecides
  refine ⟨hmode, hlength, ?_⟩
  have hcount : (r.count : Int) = length + Template.size (Template.parse placeholders t) := by
    rw [hholds.count_eq, hholds.required_eq, hlength]
  have hk : k ≤ r.count := by
    have := hdecided.covered
    omega
  rw [← render_eq (hdecided.decided r.count hk) hdecided.operandOffset_eq]
  exact hholds.render_eq

end Form

/-! ## Symbols of the opcode table -/

theorem mem_indexedFrom {lead : Int} {transfer : Bool} {before : Option Char} {s : List Char} {c : Char}
    (h : c ∈ indexedFrom lead transfer before s) : c ∈ s ∨ c ∈ "IXY+d".toList := by
  have hregister : (indexRegister lead ++ "+ddd".toList) ⊆ "IXY+d".toList := by
    unfold indexRegister
    split <;> decide
  induction s generalizing before with
  | nil => exact .inl h
  | cons first rest ih =>
      cases rest with
      | nil => exact .inl h
      | cons second rest =>
          rw [indexedFrom] at h
          split at h
          · rw [List.mem_append] at h
            rcases h with h | h
            · obtain ⟨d, hd, rfl⟩ := List.mem_map.mp h
              refine .inr (hregister ?_)
              rcases List.mem_append.mp hd with hd | hd
              · exact List.mem_append_left _ hd
              · split at hd
                · exact List.mem_append_right _ hd
                · cases hd
            · exact .inl (List.mem_cons_of_mem _ (List.mem_cons_of_mem _ h))
          · rcases List.mem_cons.mp h with rfl | h
            · exact .inl List.mem_cons_self
            · rcases ih h with h | h
              · exact .inl (List.mem_cons_of_mem _ h)
              · exact .inr h

/-- The symbol occurs in no table but that of the opcodes, and no index lead brings it in. -/
structure Rare (c : Char) : Prop where
  index : c ∉ "IXY+d".toList
  cell : c ∉ "(HL)".toList
  addition : c ∉ "ADD ,".toList
  words : ∀ word ∈ wordRegisters, c ∉ word.toList
  extended : ∀ byte : UInt8, c ∉ extendedTemplate (byte.toNat : Int)
  operations : ∀ operation ∈ bitGroup, c ∉ operation.toList
  registers : ∀ register ∈ byteRegisters, c ∉ register.toList

/-- The symbols of these tables and of what an index lead brings in. -/
def commonSymbols : List Char :=
  " (),+?01234567ABCDEFGHILMNOPRSTUXYadghls".toList

theorem extendedTemplate_subset (byte : UInt8) : extendedTemplate (byte.toNat : Int) ⊆ commonSymbols := by
  apply forall_extended (P := (· ⊆ commonSymbols))
  all_goals decide

namespace Rare

variable {c : Char} {lead : Int} {transfer : Bool} {s : List Char}

theorem of_not_mem (h : c ∉ commonSymbols) : Rare c := by
  have hpieces : "IXY+d".toList ⊆ commonSymbols ∧ "(HL)".toList ⊆ commonSymbols ∧
      "ADD ,".toList ⊆ commonSymbols := by decide
  have htables : ∀ t ∈ wordRegisters ++ bitGroup ++ byteRegisters, t.toList ⊆ commonSymbols := by decide
  exact {
    index := fun hmem => h (hpieces.1 hmem)
    cell := fun hmem => h (hpieces.2.1 hmem)
    addition := fun hmem => h (hpieces.2.2 hmem)
    words := fun word hword hmem => h (htables word (by simp [hword]) hmem)
    extended := fun byte hmem => h (extendedTemplate_subset byte hmem)
    operations := fun operation hoperation hmem => h (htables operation (by simp [hoperation]) hmem)
    registers := fun register hregister hmem => h (htables register (by simp [hregister]) hmem) }

theorem mem_of_mem_indexed (h : Rare c) (hmem : c ∈ indexed lead transfer s) : c ∈ s :=
  (mem_indexedFrom hmem).resolve_right h.index

theorem not_mem_bitTemplate (h : Rare c) (byte : UInt8) (lead : Option Int) : c ∉ bitTemplate byte lead := by
  obtain ⟨operation, hoperation, heq⟩ := exists_operation byte
  obtain ⟨register, hregister, heq'⟩ := exists_register byte
  have hmemory : entry byteRegisters 6 = "(HL)".toList := rfl
  have hfront := h.operations operation hoperation
  have hback := h.registers register hregister
  have hcomma : c ≠ ',' := fun hc => h.addition (hc ▸ by decide)
  have hindexed : ∀ lead, c ∉ Z80.indexed lead false (operation.toList ++ "(HL)".toList) := by
    intro lead hmem
    rcases List.mem_append.mp (h.mem_of_mem_indexed hmem) with hmem | hmem
    · exact hfront hmem
    · exact h.cell hmem
  cases lead with
  | none =>
      simp only [bitTemplate, heq, heq', List.mem_append, not_or]
      exact ⟨hfront, hback⟩
  | some lead =>
      simp only [bitTemplate, heq, heq', hmemory]
      split
      · simp only [List.mem_append, List.mem_cons, not_or]
        exact ⟨hindexed lead, hcomma, hback⟩
      · exact hindexed lead

/-- Behind an index lead the symbol stays where it was. -/
theorem indexedTemplate_of_mem (h : Rare c) {opcode : UInt8} {t : List Char}
    (ht : indexedTemplate lead (opcode.toNat : Int) = .ok t) (hmem : c ∈ t) :
    t = indexed lead ((opcode.toNat : Int) = 0xE9) (plainTemplate opcode) ∧ c ∈ plainTemplate opcode := by
  obtain ⟨word, hword, heq⟩ := exists_word (UInt8.ofInt opcode.toNat >>> 4)
  simp only [indexedTemplate, pick_opcodes, heq] at ht
  split at ht
  · cases ht
    have haddition := h.mem_of_mem_indexed hmem
    have hregister : indexRegister lead ⊆ "IXY+d".toList := by
      unfold indexRegister
      split <;> decide
    simp only [List.mem_append, List.mem_cons] at haddition
    rcases haddition with (hfront | hregisters) | hcomma | hback
    · exact absurd (List.mem_append_left [','] hfront) h.addition
    · exact absurd (hregister hregisters) h.index
    · exact absurd (hcomma ▸ by decide) h.addition
    · exact absurd hback (h.words word hword)
  · cases ht
    exact ⟨rfl, h.mem_of_mem_indexed hmem⟩

end Rare

/-- Such a symbol of a template comes from the opcode, which stands first or behind an index lead. -/
theorem Form.opcode_of_mem {code : List Int} {t : List Char} {offset length : Int} {c : Char}
    (h : Form code t offset length) (hrare : Rare c) (hmem : c ∈ t) :
    ∃ opcode : UInt8, c ∈ plainTemplate opcode ∧
      ((pick code 0 = .ok (opcode.toNat : Int) ∧ t = plainTemplate opcode ∧ offset = 1 ∧ length = 1) ∨
        ∃ lead : UInt8, isIndexLead (lead.toNat : Int) = true ∧ pick code 0 = .ok (lead.toNat : Int) ∧
          pick code 1 = .ok (opcode.toNat : Int) ∧
          t = Z80.indexed lead.toNat ((opcode.toNat : Int) = 0xE9) (plainTemplate opcode) ∧ offset = 2 ∧
          length = 2) := by
  cases h with
  | @plain opcode h0 hlead => exact ⟨opcode, hmem, .inl ⟨h0, rfl, rfl, rfl⟩⟩
  | @extended second h0 h1 => exact absurd hmem (hrare.extended second)
  | @bit second h0 h1 => exact absurd hmem (hrare.not_mem_bitTemplate second none)
  | @indexed lead second t h0 h1 hindex hbit ht =>
      obtain ⟨rfl, hplain⟩ := hrare.indexedTemplate_of_mem ht hmem
      exact ⟨second, hplain, .inr ⟨lead, hindex, h0, h1, rfl, rfl, rfl⟩⟩
  | @indexedBit lead fourth h0 h1 h3 hindex => exact absurd hmem (hrare.not_mem_bitTemplate fourth _)

end Z80

end EightBit
