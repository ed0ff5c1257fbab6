import EightBit.Proofs.Lawful
import EightBit.Proofs.Rendering
import EightBit.Z80.InstructionSet
set_option autoImplicit false

/-!
# The laws of the Z80

A template is decided by the opcode, by the opcode behind a leading byte, or, behind `0xDD 0xCB` and
`0xFD 0xCB`, by the fourth byte.  There the displacement at the third byte is the only operand, and the
opcode behind it is counted by neither: leading bytes and displacement place take three bytes, and the
size of the one operand makes up the fourth.  So such a template must have exactly one operand byte.
-/

namespace EightBit.Z80

open InstructionSet

/-! ## Entries of the tables -/

theorem mem_leads {lead : Int} (h : isIndexLead lead = true) : lead ∈ [0xDD, 0xFD] := by
  simpa [isIndexLead] using h

theorem exists_entry {names : List String} {number : UInt8} (h : number.toNat < names.length) :
    ∃ name ∈ names, entry names number = name.toList := by
  refine ⟨names[number.toNat], List.getElem_mem h, ?_⟩
  rw [entry, List.getD_eq_getElem?_getD, List.getElem?_eq_getElem h, Option.getD_some]

theorem exists_operation (byte : UInt8) : ∃ name ∈ bitGroup, entry bitGroup (byte >>> 3) = name.toList := by
  refine exists_entry ?_
  have hbyte : byte.toNat < 256 := byte.toNat_lt
  have hshift : (byte >>> 3).toNat = byte.toNat / 8 := by
    rw [UInt8.toNat_shiftRight]
    exact Nat.shiftRight_eq_div_pow byte.toNat 3
  change (byte >>> 3).toNat < 32
  omega

/-- A masked number is found in a table with an entry for the mask. -/
theorem exists_masked {names : List String} {mask : UInt8} (h : mask.toNat < names.length) (number : UInt8) :
    ∃ name ∈ names, entry names (number &&& mask) = name.toList := by
  refine exists_entry ?_
  have hle : (number &&& mask).toNat ≤ mask.toNat := by
    rw [UInt8.toNat_and]
    exact Nat.and_le_right
  omega

theorem exists_register (byte : UInt8) :
    ∃ name ∈ byteRegisters, entry byteRegisters (byte &&& 7) = name.toList :=
  exists_masked (by decide) byte

theorem exists_word (byte : UInt8) :
    ∃ name ∈ wordRegisters, entry wordRegisters (byte &&& 3) = name.toList :=
  exists_masked (by decide) byte

/-! ## What the tables lead to -/

section

variable {lead : Int} {transfer : Bool} {s t : List Char}

theorem indexedFrom_eq_self {before : Option Char} (h : 'H' ∉ s) : indexedFrom lead transfer before s = s := by
  induction s generalizing before with
  | nil => rfl
  | cons c s ih =>
      rw [List.mem_cons, not_or] at h
      cases s with
      | nil => rfl
      | cons d s => rw [indexedFrom, if_neg fun heq => h.1 heq.1.symm, ih h.2]

/-- A template without an `H` does not mention the register that is replaced. -/
theorem indexed_eq_self (h : 'H' ∉ s) : indexed lead transfer s = s :=
  indexedFrom_eq_self h

theorem indexedFrom_append_cell {before : Option Char} (h : 'H' ∉ s) :
    indexedFrom lead transfer before (s ++ '(' :: t) = s ++ indexed lead transfer ('(' :: t) := by
  induction s generalizing before with
  | nil => cases t <;> rfl
  | cons c s ih =>
      rw [List.mem_cons, not_or] at h
      obtain ⟨d, rest, hrest⟩ : ∃ d rest, s ++ '(' :: t = d :: rest := by
        cases s with
        | nil => exact ⟨_, _, rfl⟩
        | cons d s => exact ⟨_, _, rfl⟩
      rw [List.cons_append, hrest, indexedFrom, if_neg fun heq => h.1 heq.1.symm, ← hrest, ih h.2, List.cons_append]

/-- What stands in front of a memory cell is kept. -/
theorem indexed_append_cell (h : 'H' ∉ s) :
    indexed lead transfer (s ++ '(' :: t) = s ++ indexed lead transfer ('(' :: t) :=
  indexedFrom_append_cell h

end

/-- What holds of the opcodes, and of those with an `H` behind an index lead, holds of all behind it. -/
theorem forall_indexed {P : List Char → Prop} (hplain : ∀ t ∈ opcodes, P t.toList)
    (hindexed : ∀ t ∈ opcodes, 'H' ∈ t.toList → ∀ lead ∈ [0xDD, 0xFD], ∀ transfer,
      P (indexed lead transfer t.toList)) :
    ∀ t ∈ opcodes, ∀ lead ∈ [0xDD, 0xFD], ∀ transfer, P (indexed lead transfer t.toList) := by
  intro t ht lead hlead transfer
  by_cases hmem : 'H' ∈ t.toList
  · exact hindexed t ht hmem lead hlead transfer
  · rw [indexed_eq_self hmem]
    exact hplain t ht

/-- What holds of the patterns and the table of the extended group holds of all its templates. -/
theorem forall_extended {P : List Char → Prop}
    (hwords : ∀ word ∈ wordRegisters,
      P ("LD ".toList ++ word.toList ++ ",(XXXXh)".toList) ∧ P ("LD (XXXXh),".toList ++ word.toList) ∧
      P ("ADC HL,".toList ++ word.toList) ∧ P ("SBC HL,".toList ++ word.toList))
    (hregisters : ∀ register ∈ transferRegisters,
      P ("IN ".toList ++ register.toList ++ ",(C)".toList) ∧ P ("OUT (C),".toList ++ register.toList))
    (hflags : P ("IN ".toList ++ "Flags".toList ++ ",(C)".toList))
    (htable : ∀ entry ∈ extendedOpcodes, P entry.2.toList) (hunknown : P ['?']) (byte : UInt8) :
    P (extendedTemplate (byte.toNat : Int)) := by
  obtain ⟨word, hword, hentry⟩ := exists_word (UInt8.ofInt byte.toNat >>> 4)
  obtain ⟨register, hregister, hentry'⟩ : ∃ name ∈ transferRegisters,
      entry transferRegisters ((UInt8.ofInt byte.toNat >>> 3) &&& 7) = name.toList :=
    exists_masked (by decide) _
  obtain ⟨hload, hstore, hadd, hsubtract⟩ := hwords word hword
  obtain ⟨hinput, houtput⟩ := hregisters register hregister
  simp only [extendedTemplate, hentry, hentry']
  split
  · exact hload
  split
  · exact hstore
  split
  · exact hadd
  split
  · exact hsubtract
  split
  · split
    · exact hflags
    · exact hinput
  split
  · exact houtput
  split
  · rename_i template hlookup
    obtain ⟨front, back, hsplit, -⟩ := List.lookup_eq_some_iff.mp hlookup
    have hmem : ((byte.toNat : Int), template) ∈ extendedOpcodes := by
      rw [hsplit]
      exact List.mem_append_right front List.mem_cons_self
    exact htable _ hmem
  · exact hunknown

/-! ## The tables -/

/-- The template begins with its mnemonic, and its operands take between `least` and `most` bytes. -/
def Fits (least most : Nat) (template : List Char) : Prop :=
  Template.startsLiteral (Template.parse placeholders template) = true ∧
    least ≤ Template.size (Template.parse placeholders template) ∧
    Template.size (Template.parse placeholders template) ≤ most

instance (least most : Nat) (template : List Char) : Decidable (Fits least most template) :=
  inferInstanceAs (Decidable (_ ∧ _ ∧ _))

/-- A plain text in front of a template adds to its first literal only. -/
theorem fits_append {least most : Nat} {s t : List Char} (hne : s ≠ []) (hplain : Template.Plain placeholders s)
    (hleast : least ≤ Template.size (Template.parse placeholders t))
    (hmost : Template.size (Template.parse placeholders t) ≤ most) : Fits least most (s ++ t) := by
  unfold Fits
  rw [Template.parse_append hplain, Template.size, Template.operands_foldr_consSymbol]
  refine ⟨?_, hleast, hmost⟩
  obtain ⟨c, rest, rfl⟩ := List.exists_cons_of_ne_nil hne
  rw [List.foldr_cons, Template.startsLiteral_consSymbol]

theorem opcodes_fits : ∀ t ∈ opcodes, Fits 0 2 t.toList := by
  -- Most templates have no placeholder, which is cheaper to see than to cut them.
  have htable : ∀ t ∈ opcodes, (t.toList ≠ [] ∧ Template.Plain placeholders t.toList) ∨ Fits 0 2 t.toList := by
    apply Spelled.forall_mem (P := fun t => (t ≠ [] ∧ Template.Plain placeholders t) ∨ Fits 0 2 t)
    · unfold opcodes
      repeat' constructor
    · decide +kernel
  intro t ht
  rcases htable t ht with ⟨hne, hplain⟩ | hfits
  · rw [← List.append_nil t.toList]
    exact fits_append hne hplain (Nat.zero_le _) (Nat.zero_le _)
  · exact hfits

theorem indexed_opcodes_fits : ∀ t ∈ opcodes, ∀ lead ∈ [0xDD, 0xFD], ∀ transfer,
    Fits 0 2 (indexed lead transfer t.toList) := by
  apply forall_indexed opcodes_fits
  apply Spelled.forall_mem (P := fun t => 'H' ∈ t → ∀ lead ∈ [0xDD, 0xFD], ∀ transfer,
    Fits 0 2 (indexed lead transfer t))
  · unfold opcodes
    repeat' constructor
  · decide +kernel

/-- The addition of a word register to an index register. -/
theorem indexed_addition_fits : ∀ word ∈ wordRegisters, ∀ lead ∈ [0xDD, 0xFD], ∀ transfer,
    Fits 0 2 (indexed lead transfer ("ADD ".toList ++ indexRegister lead ++ ',' :: word.toList)) := by
  decide

theorem extendedTemplate_fits (byte : UInt8) : Fits 0 2 (extendedTemplate (byte.toNat : Int)) := by
  apply forall_extended (P := Fits 0 2)
  all_goals decide

/-- The operations of the bit group have no symbol that matters to the templates behind them. -/
theorem bitGroup_plain : ∀ operation ∈ bitGroup, operation.toList ≠ [] ∧ 'H' ∉ operation.toList ∧
    Template.Plain placeholders operation.toList := by
  decide

/-- The operation of the bit group is kept in front of its memory cell. -/
theorem indexed_operation {operation : String} (h : operation ∈ bitGroup) {lead : Int} :
    indexed lead false (operation.toList ++ "(HL)".toList) =
      operation.toList ++ indexed lead false "(HL)".toList := by
  obtain ⟨-, hmem, -⟩ := bitGroup_plain operation h
  exact indexed_append_cell hmem

theorem bitGroup_fits : ∀ operation ∈ bitGroup, ∀ register ∈ byteRegisters,
    Fits 0 2 (operation.toList ++ register.toList) := by
  have hregisters : ∀ register ∈ byteRegisters,
      Template.size (Template.parse placeholders register.toList) ≤ 2 := by decide +kernel
  intro operation hoperation register hregister
  obtain ⟨hne, -, hplain⟩ := bitGroup_plain operation hoperation
  exact fits_append hne hplain (Nat.zero_le _) (hregisters register hregister)

/-- The memory cell of the bit group, with and without a copy of the result. -/
theorem indexed_bitGroup_fits : ∀ operation ∈ bitGroup, ∀ lead ∈ [0xDD, 0xFD],
    Fits 1 1 (indexed lead false (operation.toList ++ "(HL)".toList)) ∧ ∀ register ∈ byteRegisters,
    Fits 1 1 (indexed lead false (operation.toList ++ "(HL)".toList) ++ ',' :: register.toList) := by
  have hcells : ∀ lead ∈ [0xDD, 0xFD],
      Template.size (Template.parse placeholders (indexed lead false "(HL)".toList)) = 1 ∧
      ∀ register ∈ byteRegisters, Template.size (Template.parse placeholders
        (indexed lead false "(HL)".toList ++ ',' :: register.toList)) = 1 := by decide +kernel
  intro operation hoperation lead hlead
  obtain ⟨hcell, hcopy⟩ := hcells lead hlead
  obtain ⟨hne, -, hplain⟩ := bitGroup_plain operation hoperation
  rw [indexed_operation hoperation]
  refine ⟨fits_append hne hplain (Nat.le_of_eq hcell.symm) (Nat.le_of_eq hcell), ?_⟩
  intro register hregister
  have hone := hcopy register hregister
  rw [List.append_assoc]
  exact fits_append hne hplain (Nat.le_of_eq hone.symm) (Nat.le_of_eq hone)

/-! ## Templates of every byte -/

theorem bitTemplate_fits (byte : UInt8) : Fits 0 2 (bitTemplate byte none) := by
  obtain ⟨operation, hoperation, heq⟩ := exists_operation byte
  obtain ⟨register, hregister, heq'⟩ := exists_register byte
  simp only [bitTemplate, heq, heq']
  exact bitGroup_fits operation hoperation register hregister

theorem indexed_bitTemplate_fits (byte : UInt8) {lead : Int} (hlead : isIndexLead lead = true) :
    Fits 1 1 (bitTemplate byte (some lead)) := by
  obtain ⟨operation, hoperation, heq⟩ := exists_operation byte
  obtain ⟨register, hregister, heq'⟩ := exists_register byte
  obtain ⟨hcell, hcopy⟩ := indexed_bitGroup_fits operation hoperation lead (mem_leads hlead)
  have hmemory : entry byteRegisters 6 = "(HL)".toList := rfl
  simp only [bitTemplate, heq, heq', hmemory]
  split
  · exact hcopy register hregister
  · exact hcell

theorem exists_opcode (byte : UInt8) : ∃ t ∈ opcodes, pick opcodes (byte.toNat : Int) = .ok t := by
  have hbyte : byte.toNat < 256 := byte.toNat_lt
  exact exists_pick (by omega) (by rw [length_opcodes]; omega)

theorem exists_indexedTemplate (byte : UInt8) {lead : Int} (hlead : isIndexLead lead = true) :
    ∃ t, indexedTemplate lead (byte.toNat : Int) = .ok t ∧ Fits 0 2 t := by
  obtain ⟨word, hword, heq⟩ := exists_word (UInt8.ofInt byte.toNat >>> 4)
  obtain ⟨t, ht, hpick⟩ := exists_opcode byte
  simp only [indexedTemplate, hpick, heq, ok_bind, pure_eq_ok]
  split
  · exact ⟨_, rfl, indexed_addition_fits word hword lead (mem_leads hlead) _⟩
  · exact ⟨_, rfl, indexed_opcodes_fits t ht lead (mem_leads hlead) _⟩

/-! ## When the template is decided -/

/-- The template is open below a number of bytes and the same from there on, and that number is covered
by leading bytes, opcode and operands, of which there are at most four. -/
structure DecidedAt (code : List Int) (k : Nat) (template : List Char) (offset length : Int) : Prop where
  pos : 0 < k
  le_four : k ≤ 4
  open_before : ∀ j : Nat, 0 < j → j < k → templateOf code j = .ok none
  decided : ∀ j : Nat, k ≤ j → templateOf code j = .ok (some template)
  starts : Template.startsLiteral (Template.parse placeholders template) = true
  operandOffset_eq : operandOffset code = .ok offset
  offset_pos : 0 < offset
  offset_le : offset ≤ length
  opcodeLength_eq : opcodeLength code = .ok length
  covered : (k : Int) ≤ length + Template.size (Template.parse placeholders template)
  bounded : length + Template.size (Template.parse placeholders template) ≤ 4

section

variable {code : List Int} {opcode second fourth : UInt8}

theorem decidedAt_plain (h0 : pick code 0 = .ok (opcode.toNat : Int))
    (hlead : isLead (opcode.toNat : Int) = false) :
    ∃ t, DecidedAt code 1 t 1 1 := by
  obtain ⟨t, hmem, ht⟩ := exists_opcode opcode
  obtain ⟨hstarts, -, hmost⟩ := opcodes_fits t hmem
  simp only [isLead, Bool.or_eq_false_iff, decide_eq_false_iff_not] at hlead
  obtain ⟨⟨hcb, hed⟩, hindex⟩ := hlead
  refine ⟨t.toList, by decide, by decide, fun j hpos hlt => by omega, ?_, hstarts, ?_, by decide, by decide,
    ?_, by omega, by omega⟩
  · intro j _
    simp [templateOf, h0, hindex, hed, hcb, ht]
  · simp [operandOffset, h0, isLead, hindex, hed, hcb]
  · simp [opcodeLength, h0, isLead, hindex, hed, hcb]

/-- Behind a leading byte the second byte decides, unless the two open the indexed bit group. -/
theorem decidedAt_second {lead : Int} {t : List Char} (h0 : pick code 0 = .ok lead)
    (hlead : isLead lead = true) (hfits : Fits 0 2 t)
    (hopen : ∀ j : Int, j < 2 → templateOf code j = .ok none)
    (hdecided : ∀ j : Int, ¬ j < 2 → templateOf code j = .ok (some t))
    (hlength : opcodeLength code = .ok 2) : DecidedAt code 2 t 2 2 where
  pos := by decide
  le_four := by decide
  open_before j _ hlt := hopen j (by omega)
  decided j hj := hdecided j (by omega)
  starts := hfits.1
  operandOffset_eq := by simp [operandOffset, h0, hlead]
  offset_pos := by decide
  offset_le := by decide
  opcodeLength_eq := hlength
  covered := by omega
  bounded := by
    have := hfits.2.2
    omega

theorem decidedAt_extended (h0 : pick code 0 = .ok 0xED) (h1 : pick code 1 = .ok (second.toNat : Int)) :
    DecidedAt code 2 (extendedTemplate (second.toNat : Int)) 2 2 := by
  refine decidedAt_second h0 rfl (extendedTemplate_fits second) ?_ ?_ ?_
  · intro j hlt
    simp [templateOf, isIndexLead, h0, hlt]
  · intro j hge
    simp [templateOf, isIndexLead, h0, h1, hge]
  · simp [opcodeLength, isIndexLead, isLead, h0]

theorem decidedAt_bit (h0 : pick code 0 = .ok 0xCB) (h1 : pick code 1 = .ok (second.toNat : Int)) :
    DecidedAt code 2 (bitTemplate (UInt8.ofInt second.toNat) none) 2 2 := by
  refine decidedAt_second h0 rfl (bitTemplate_fits (UInt8.ofInt second.toNat)) ?_ ?_ ?_
  · intro j hlt
    simp [templateOf, isIndexLead, h0, hlt]
  · intro j hge
    simp [templateOf, isIndexLead, h0, h1, hge]
  · simp [opcodeLength, isIndexLead, isLead, h0]

theorem decidedAt_indexed (h0 : pick code 0 = .ok (opcode.toNat : Int))
    (h1 : pick code 1 = .ok (second.toNat : Int)) (hindex : isIndexLead (opcode.toNat : Int) = true)
    (hbit : (second.toNat : Int) ≠ 0xCB) : ∃ t, DecidedAt code 2 t 2 2 := by
  obtain ⟨t, ht, hfits⟩ := exists_indexedTemplate second hindex
  refine ⟨t, decidedAt_second h0 (by simp [isLead, hindex]) hfits ?_ ?_ ?_⟩
  · intro j hlt
    simp [templateOf, h0, hindex, hlt]
  · intro j hge
    simp [templateOf, h0, h1, hindex, hge, hbit, ht]
  · simp [opcodeLength, h0, h1, hindex, hbit]

theorem decidedAt_indexed_bit (h0 : pick code 0 = .ok (opcode.toNat : Int)) (h1 : pick code 1 = .ok 0xCB)
    (h3 : pick code 3 = .ok (fourth.toNat : Int)) (hindex : isIndexLead (opcode.toNat : Int) = true) :
    ∃ t, DecidedAt code 4 t 2 3 := by
  obtain ⟨hstarts, hleast, hmost⟩ := indexed_bitTemplate_fits (UInt8.ofInt fourth.toNat) hindex
  refine ⟨bitTemplate (UInt8.ofInt fourth.toNat) (some opcode.toNat), by decide, by decide, ?_, ?_, hstarts,
    ?_, by decide, by decide, ?_, by omega, by omega⟩
  · intro j _ hlt
    have hlt' : (j : Int) < 4 := by omega
    simp [templateOf, h0, h1, hindex, hlt']
  · intro j hj
    have hge2 : ¬ (j : Int) < 2 := by omega
    have hge4 : ¬ (j : Int) < 4 := by omega
    simp [templateOf, h0, h1, h3, hindex, hge2, hge4]
  · simp [operandOffset, h0, isLead, hindex]
  · simp [opcodeLength, h0, h1, hindex]

/-- The bytes of a code of four or more decide a template. -/
theorem exists_decidedAt (h0 : pick code 0 = .ok (opcode.toNat : Int))
    (h1 : pick code 1 = .ok (second.toNat : Int)) (h3 : pick code 3 = .ok (fourth.toNat : Int)) :
    ∃ k t offset length, DecidedAt code k t offset length := by
  by_cases hindex : isIndexLead (opcode.toNat : Int) = true
  · by_cases hbit : (second.toNat : Int) = 0xCB
    · rw [hbit] at h1
      obtain ⟨t, h⟩ := decidedAt_indexed_bit h0 h1 h3 hindex
      exact ⟨4, t, 2, 3, h⟩
    · obtain ⟨t, h⟩ := decidedAt_indexed h0 h1 hindex hbit
      exact ⟨2, t, 2, 2, h⟩
  · by_cases hed : (opcode.toNat : Int) = 0xED
    · rw [hed] at h0
      exact ⟨2, _, 2, 2, decidedAt_extended h0 h1⟩
    · by_cases hcb : (opcode.toNat : Int) = 0xCB
      · rw [hcb] at h0
        exact ⟨2, _, 2, 2, decidedAt_bit h0 h1⟩
      · have hlead : isLead (opcode.toNat : Int) = false := by simp [isLead, hindex, hed, hcb]
        obtain ⟨t, h⟩ := decidedAt_plain h0 hlead
        exact ⟨1, t, 1, 1, h⟩

end

/-! ## Bytes that the template depends on -/

section

variable {c d : List Int} {n i : Int}

/-- The template that `n` bytes decide is a matter of these bytes. -/
theorem templateOf_congr (h : AgreeBelow n c d) (hn : 0 < n) : templateOf c n = templateOf d n := by
  have h0 : pick c 0 = pick d 0 := h.first hn
  by_cases h2 : n < 2
  · simp only [templateOf, h0, if_pos h2]
  · have h1 : pick c 1 = pick d 1 := h.second (by omega)
    by_cases h4 : n < 4
    · simp only [templateOf, h0, h1, if_pos h4]
    · simp only [templateOf, h0, h1, h 3 (by decide) (by omega)]

theorem operandOffset_congr (h : AgreeBelow n c d) (hn : 0 < n) : operandOffset c = operandOffset d := by
  simp only [operandOffset, h.first hn]

/-- The layout that `n` bytes decide is a matter of these bytes: the second one is looked at again only
where a template was found behind an index lead. -/
theorem layout_congr (h : AgreeBelow n c d) (hn : 0 < n) : layout c n = layout d n := by
  have h0 : pick c 0 = pick d 0 := h.first hn
  have htemplate := templateOf_congr h hn
  by_cases h2 : n < 2
  · cases hpick : pick d 0 with
    | error e => simp [layout, templateOf, h0, hpick]
    | ok opcode =>
        by_cases hindex : isIndexLead opcode = true
        · simp [layout, templateOf, h0, hpick, hindex, h2]
        · simp only [layout, htemplate, opcodeLength, h0, hpick, ok_bind, if_neg hindex]
  · have h1 : pick c 1 = pick d 1 := h.second (by omega)
    simp only [layout, htemplate, opcodeLength, h0, h1]

end

/-! ## Operands -/

theorem size_of_mem {p : Placeholder Char} (h : p ∈ placeholders) :
    1 ≤ p.size ∧ (p.kind = .u16 → p.size = 2) := by
  simp only [placeholders, List.mem_cons, List.not_mem_nil, or_false] at h
  rcases h with rfl | rfl | rfl | rfl <;> decide

theorem exists_operand (r : Record Mode) {i : Int} (p : Placeholder Char) (h0 : 0 ≤ i) (h : i < 7) :
    ∃ shown, operand r i p = .ok shown := by
  obtain ⟨low, hlow⟩ := r.buffer.exists_pick_code (i := i) h0 (by omega)
  obtain ⟨high, hhigh⟩ := r.buffer.exists_pick_code (i := i + 1) (by omega) (by omega)
  unfold operand
  split <;>
    simp only [readU16le, readS8, hlow, hhigh, ok_bind, pure_eq_ok, Except.ok.injEq, exists_eq']

/-- An operand is read within the size of its placeholder, and is the same further on if the bytes there are the
same. -/
theorem operand_shifted {r q : Record Mode} {m first i n : Int} {p : Placeholder Char} (hp : p ∈ placeholders)
    (hagree : AgreeShifted m first n r.buffer.code q.buffer.code) (hfirst : first ≤ i) (hend : i + p.size ≤ n)
    (haddress : r.address = q.address) : operand r i p = operand q (i + m) p := by
  obtain ⟨hpos, hword⟩ := size_of_mem hp
  unfold operand
  split
  · rename_i hkind
    have := hword hkind
    rw [hagree.readU16le hfirst (by omega)]
  · rw [hagree i hfirst (by omega)]
  · rw [hagree.readS8 hfirst (by omega)]
  · rw [hagree.readS8 hfirst (by omega), haddress]

/-! ## The laws -/

theorem exists_decision (b : Buffer) : ∃ k t offset length, DecidedAt b.code k t offset length := by
  obtain ⟨opcode, second, -, fourth, h0, h1, -, h3⟩ := b.exists_front
  exact exists_decidedAt h0 h1 h3

section

variable {code : List Int} {k j : Nat} {t : List Char} {offset length : Int}

theorem layout_of_decidedAt (h : DecidedAt code k t offset length) (hj : k ≤ j) :
    layout code j = .ok (some (Mode.ofOperands (Template.operands (Template.parse placeholders t)),
      length + Template.size (Template.parse placeholders t))) := by
  simp [layout, h.decided j hj, h.opcodeLength_eq, Template.size]

theorem layout_of_open (h : templateOf code j = .ok none) : layout code j = .ok none := by
  simp [layout, h]

end

/-- The operands of a decided template lie within the first four cells. -/
theorem DecidedAt.placed_bounds {j : Int} {p : Placeholder Char} {code : List Int} {k : Nat} {t : List Char}
    {offset length : Int} (h : DecidedAt code k t offset length)
    (hp : (j, p) ∈ Template.placed offset (Template.operands (Template.parse placeholders t))) :
    0 ≤ j ∧ j + p.size ≤ 4 := by
  obtain ⟨-, hle, hend⟩ := Template.mem_placed hp
  have hpos := h.offset_pos
  have hoffset := h.offset_le
  have hbound := h.bounded
  unfold Template.size at hbound
  omega

/-- A settled record has the length of its opcode and the operands of its template. -/
theorem settled_template {r : Record Mode} (h : instructionSet.Settled r) :
    ∃ k t offset length, DecidedAt r.buffer.code k t offset length ∧ k ≤ r.count ∧
      r.required = length + Template.size (Template.parse placeholders t) := by
  obtain ⟨k, mode, required, hdecides, hk, -, hrequired⟩ := h
  obtain ⟨j, t, offset, length, hdecided⟩ := exists_decision r.buffer
  have hlayout : layout r.buffer.code k = .ok (some (mode, required)) := hdecides.layout_eq
  have hjk : j ≤ k :=
    hdecides.le_of_open fun i hpos hlt => layout_of_open (hdecided.open_before i hpos hlt)
  rw [layout_of_decidedAt hdecided hjk] at hlayout
  cases hlayout
  exact ⟨j, t, offset, length, hdecided, by omega, hrequired⟩

/-- The instruction of a record with a decided template. -/
theorem render_eq {r : Record Mode} {t : List Char} {offset : Int}
    (ht : templateOf r.buffer.code r.count = .ok (some t)) (hoffset : operandOffset r.buffer.code = .ok offset) :
    render r = Template.render (operand r) offset (Template.parse placeholders t) := by
  simp [render, ht, hoffset]

theorem lawful : instructionSet.Lawful 4 3 where
  opening_lt := by decide
  longest_le := by decide
  decides b := by
    obtain ⟨k, t, offset, length, h⟩ := exists_decision b
    refine ⟨k, _, _, ⟨h.pos, ?_, layout_of_decidedAt h (Nat.le_refl k)⟩, h.le_four, h.covered, h.bounded⟩
    exact fun j hpos hlt => layout_of_open (h.open_before j hpos hlt)
  layout_congr b c k hpos hagree := layout_congr hagree (by omega)
  render_ok r hsettled hcount := by
    obtain ⟨k, t, offset, length, h, hk, hrequired⟩ := settled_template hsettled
    change ∃ shown, render r = .ok shown ∧ shown.text ≠ []
    rw [render_eq (h.decided r.count hk) h.operandOffset_eq]
    apply Template.exists_render h.starts
    intro j p hp
    obtain ⟨hfirst, hend⟩ := h.placed_bounds hp
    exact exists_operand r p hfirst (by omega)
  render_congr r q hsettled hcount haddress hmode hrequired hfetched := by
    obtain ⟨k, t, offset, length, h, hk, hlength⟩ := settled_template hsettled
    have hagree : AgreeBelow r.count r.buffer.code q.buffer.code :=
      Buffer.agreeBelow_of_fetched_eq hfetched
    have hpos : (0 : Int) < r.count := by
      have := h.pos
      omega
    have hcount' : r.count = q.count := by simp [Record.count, Buffer.count, hfetched]
    have htemplate : templateOf q.buffer.code q.count = .ok (some t) := by
      rw [← hcount', ← templateOf_congr hagree hpos]
      exact h.decided r.count hk
    have hposition : operandOffset q.buffer.code = .ok offset := by
      rw [← operandOffset_congr hagree hpos, h.operandOffset_eq]
    change render r = render q
    rw [render_eq (h.decided r.count hk) h.operandOffset_eq, render_eq htemplate hposition]
    apply Template.render_congr
    intro j p hp
    obtain ⟨hmem, hle, hend⟩ := Template.mem_placed hp
    have hoffset := h.offset_le
    have hfirst := h.offset_pos
    have hlast : j + p.size ≤ r.count := by
      rw [hcount, hlength, Template.size]
      omega
    have hsame := operand_shifted (Template.mem_of_mem_operands_parse hmem) hagree.shifted (i := j) (by omega) hlast
      haddress
    rwa [Int.add_zero] at hsame

end EightBit.Z80
