import EightBit.Proofs.Listing
import EightBit.Proofs.Shown
set_option autoImplicit false

/-!
# Rows of data and rows of instructions

A byte listed as data has the text `DB $XX`.  No instruction of any architecture has a text that begins
like that, so the text of a row tells whether it is data (`isData_dataRows`, `not_isData_freshRow`).

The beginning of an instruction's text is its mnemonic.  In a template the symbols in front of the first
placeholder are kept, so it is enough that each template differs from `DB $` at one of them.
-/

namespace EightBit

/-- The beginning of the text of a byte that is listed as data. -/
def dataLead : List Char :=
  "DB $".toList

/-- The row lists a byte as data. -/
def ListingRow.IsData (row : ListingRow) : Prop :=
  Text.ofChars dataLead <+: row.text

instance : DecidablePred ListingRow.IsData := fun row =>
  inferInstanceAs (Decidable (Text.ofChars dataLead <+: row.text))

/-! ## Texts that differ -/

/-- Neither text begins with the other. -/
def Diverges (s t : List Char) : Prop :=
  ¬ s <+: t ∧ ¬ t <+: s

instance (s t : List Char) : Decidable (Diverges s t) :=
  inferInstanceAs (Decidable (_ ∧ _))

namespace Diverges

variable {s t : List Char} {c d : Char}

theorem append (h : Diverges s t) (u : List Char) : Diverges s (t ++ u) := by
  constructor
  · intro hprefix
    rcases List.prefix_or_prefix_of_prefix hprefix (List.prefix_append t u) with hst | hts
    · exact h.1 hst
    · exact h.2 hts
  · intro hprefix
    exact h.2 ((List.prefix_append t u).trans hprefix)

theorem cons_of_ne (h : c ≠ d) (s t : List Char) : Diverges (c :: s) (d :: t) := by
  constructor
  · intro hprefix
    exact h (List.cons_prefix_cons.mp hprefix).1
  · intro hprefix
    exact h (List.cons_prefix_cons.mp hprefix).1.symm

theorem cons (h : Diverges s t) (c : Char) : Diverges (c :: s) (c :: t) := by
  constructor
  · intro hprefix
    exact h.1 (List.cons_prefix_cons.mp hprefix).2
  · intro hprefix
    exact h.2 (List.cons_prefix_cons.mp hprefix).2

end Diverges

theorem diverges_statement {s mnemonic : List Char} (h : Diverges s mnemonic) (operands : List (List Char)) :
    Diverges s (statement mnemonic operands) := by
  unfold statement
  split
  · exact h
  · exact h.append _

namespace Template

/-- The template differs from the text in front of its first placeholder. -/
def avoids (placeholders : List (Placeholder Char)) : (text template : List Char) → Bool
  | s :: text, t :: template =>
      (placeholders.all fun p => Diverges p.text (t :: template)) &&
        (s != t || avoids placeholders text template)
  | _, _ => false

variable {placeholders : List (Placeholder Char)}

theorem parse_cons_of_diverges {c : Char} {rest : List Char}
    (h : ∀ p ∈ placeholders, Diverges p.text (c :: rest)) :
    parse placeholders (c :: rest) = consSymbol c (parse placeholders rest) := by
  apply parse_cons
  intro p hp hstands
  simp only [Placeholder.standsAt, Bool.and_eq_true] at hstands
  exact (h p hp).1 (List.isPrefixOf_iff_prefix.mp hstands.2)

theorem fill_consSymbol (c : Char) (segments : List (Segment Char)) (values : List (List Char)) :
    fill (consSymbol c segments) values = (fill segments values).map fun text => c :: text := by
  cases segments with
  | nil => rfl
  | cons segment rest =>
      cases segment with
      | literal text =>
          simp only [consSymbol, fill]
          cases fill rest values <;> rfl
      | operand p =>
          simp only [consSymbol, fill.eq_2]
          cases fill (.operand p :: rest) values <;> rfl

/-- What a template differs from, every filling of it differs from. -/
theorem diverges_of_fill {s template : List Char} (h : avoids placeholders s template = true)
    {values : List (List Char)} {text : List Char}
    (hfill : fill (parse placeholders template) values = .ok text) : Diverges s text := by
  induction s generalizing template text with
  | nil => simp [avoids] at h
  | cons c s ih =>
      cases template with
      | nil => simp [avoids] at h
      | cons d template =>
          simp only [avoids, Bool.and_eq_true, Bool.or_eq_true, bne_iff_ne, ne_eq, List.all_eq_true,
            decide_eq_true_eq] at h
          obtain ⟨hkept, hdiffers⟩ := h
          rw [parse_cons_of_diverges hkept, fill_consSymbol] at hfill
          cases hrest : fill (parse placeholders template) values with
          | error e => simp [hrest, Except.map] at hfill
          | ok rest =>
              simp only [hrest, Except.map, Except.ok.injEq] at hfill
              subst hfill
              by_cases heq : c = d
              · subst heq
                exact (ih (hdiffers.resolve_left (not_not_intro rfl)) hrest).cons c
              · exact .cons_of_ne heq s rest

theorem avoids_append {s template : List Char} (h : avoids placeholders s template = true) (u : List Char) :
    avoids placeholders s (template ++ u) = true := by
  induction s generalizing template with
  | nil => simp [avoids] at h
  | cons c s ih =>
      cases template with
      | nil => simp [avoids] at h
      | cons d template =>
          simp only [avoids, List.cons_append, Bool.and_eq_true, Bool.or_eq_true, List.all_eq_true,
            decide_eq_true_eq] at h ⊢
          obtain ⟨hkept, hdiffers⟩ := h
          exact ⟨fun p hmem => (hkept p hmem).append u, hdiffers.imp_right ih⟩

theorem diverges_of_render {s template : List Char} (h : avoids placeholders s template = true)
    {operand : Int → Placeholder Char → Except Fault Rendering} {i : Int} {shown : Rendering}
    (hrender : render operand i (parse placeholders template) = .ok shown) : Diverges s shown.text := by
  unfold render at hrender
  cases hvalues : (placed i (operands (parse placeholders template))).mapM fun p => operand p.1 p.2 with
  | error e => simp [hvalues] at hrender
  | ok values =>
      cases hfill : fill (parse placeholders template) (values.map Rendering.text) with
      | error e => simp [hvalues, hfill] at hrender
      | ok text =>
          simp only [hvalues, hfill, ok_bind, pure_eq_ok, Except.ok.injEq] at hrender
          subst hrender
          exact diverges_of_fill h hfill

end Template

/-! ## The 6502 and the 65C02 -/

namespace Mos6502

theorem opcodes6502_avoid : ∀ t ∈ opcodes6502, Template.avoids placeholders dataLead t.toList = true := by
  apply Spelled.forall_mem (P := fun t => Template.avoids placeholders dataLead t = true)
  · unfold opcodes6502
    repeat' constructor
  · decide +kernel

theorem opcodes65c02_avoid : ∀ t ∈ opcodes65c02, Template.avoids placeholders dataLead t.toList = true := by
  apply Spelled.forall_mem (P := fun t => Template.avoids placeholders dataLead t = true)
  · unfold opcodes65c02
    repeat' constructor
  · decide +kernel

theorem opcodes_avoid (v : Variant) : ∀ t ∈ v.opcodes, Template.avoids placeholders dataLead t.toList = true :=
  match v with
  | .mos6502 => opcodes6502_avoid
  | .mos65c02 => opcodes65c02_avoid

theorem render_diverges {v : Variant} {r : Record Mode} {shown : Rendering}
    (hsettled : (instructionSet v).Settled r) (hrender : render v r = .ok shown) :
    Diverges dataLead shown.text := by
  obtain ⟨byte, t, hmem, hbyte, ht, -⟩ := settled_template hsettled
  simp only [render, hbyte, ht, ok_bind] at hrender
  exact Template.diverges_of_render (opcodes_avoid v t hmem) hrender

end Mos6502

theorem unknownMode_diverges : Diverges dataLead unknownMode.text := by
  decide

/-! ## The 6800 -/

namespace Mc6800

theorem opcodes_diverge : ∀ t ∈ opcodes, Diverges dataLead t.toList := by
  apply Spelled.forall_mem (P := Diverges dataLead)
  · unfold opcodes
    repeat' constructor
  · decide +kernel

theorem render_diverges {r : Record Mode} {shown : Rendering} (hsettled : instructionSet.Settled r)
    (hrender : render r = .ok shown) : Diverges dataLead shown.text := by
  obtain ⟨mode, hmode, -⟩ := settled_mode hsettled
  obtain ⟨byte, -, -, -, hbyte, -, -, -⟩ := r.buffer.exists_front
  obtain ⟨t, hmem, ht⟩ := exists_mnemonic byte
  obtain ⟨operands, hoperands⟩ := exists_operands mode r.buffer
  by_cases hinvalid : mode = .invalid
  · rw [render, hmode, hinvalid] at hrender
    cases hrender
    exact unknownMode_diverges
  · simp only [render, hmode, hbyte, ht, hoperands, ok_bind, pure_eq_ok, Except.ok.injEq] at hrender
    subst hrender
    exact diverges_statement (opcodes_diverge t hmem) operands.1

end Mc6800

/-! ## The 6809 -/

namespace Mc6809

theorem opcodes_diverge : ∀ t ∈ opcodes, Diverges dataLead t.toList := by
  apply Spelled.forall_mem (P := Diverges dataLead)
  · unfold opcodes
    repeat' constructor
  · decide +kernel

theorem mnemonic_diverges {b : Buffer} {name : String} (h : mnemonic b.code = .ok name) :
    Diverges dataLead name.toList :=
  forall_mnemonic (P := fun t => Diverges dataLead t.toList) opcodes_diverge (by decide) h

theorem render_diverges {r : Record Mode} {shown : Rendering} (hsettled : instructionSet.Settled r)
    (hrender : render r = .ok shown) : Diverges dataLead shown.text := by
  rcases settled_mode hsettled with hmode | ⟨opcode, mode, n, h0, hmode, hvalid, -, -⟩
  · rw [render, hmode] at hrender
    cases hrender
    exact unknownMode_diverges
  · have hopcode := opcodeBytes_bounds opcode
    obtain ⟨name, hname, -⟩ := exists_mnemonic r.buffer
    obtain ⟨operands, hoperands⟩ := exists_operands mode r.buffer (i := Mode.opcodeBytes opcode)
      (by omega) (by omega)
    rw [render_eq hmode hvalid h0, hname, ok_bind, hoperands, ok_bind] at hrender
    cases hrender
    exact diverges_statement (mnemonic_diverges hname) operands.1

end Mc6809

/-! ## The Z80 -/

namespace Z80

/-- The property holds of every template that the tables lead to. -/
structure OfTables (P : List Char → Prop) : Prop where
  plain : ∀ t ∈ opcodes, P t.toList
  indexed : ∀ t ∈ opcodes, ∀ lead ∈ [0xDD, 0xFD], ∀ transfer, P (indexed lead transfer t.toList)
  addition : ∀ word ∈ wordRegisters, ∀ lead ∈ [0xDD, 0xFD], ∀ transfer,
    P (Z80.indexed lead transfer ("ADD ".toList ++ indexRegister lead ++ ',' :: word.toList))
  extended : ∀ byte : UInt8, P (extendedTemplate (byte.toNat : Int))
  bit : ∀ operation ∈ bitGroup, ∀ register ∈ byteRegisters, P (operation.toList ++ register.toList)
  cell : ∀ operation ∈ bitGroup, ∀ lead ∈ [0xDD, 0xFD],
    P (Z80.indexed lead false (operation.toList ++ "(HL)".toList))
  copy : ∀ operation ∈ bitGroup, ∀ lead ∈ [0xDD, 0xFD], ∀ register ∈ byteRegisters,
    P (Z80.indexed lead false (operation.toList ++ "(HL)".toList) ++ ',' :: register.toList)

namespace OfTables

variable {P : List Char → Prop}

theorem bitTemplate (h : OfTables P) (byte : UInt8) : P (bitTemplate byte none) := by
  obtain ⟨operation, hoperation, heq⟩ := exists_operation byte
  obtain ⟨register, hregister, heq'⟩ := exists_register byte
  simp only [Z80.bitTemplate, heq, heq']
  exact h.bit operation hoperation register hregister

theorem indexed_bitTemplate (h : OfTables P) (byte : UInt8) {lead : Int} (hlead : isIndexLead lead = true) :
    P (Z80.bitTemplate byte (some lead)) := by
  obtain ⟨operation, hoperation, heq⟩ := exists_operation byte
  obtain ⟨register, hregister, heq'⟩ := exists_register byte
  have hmemory : entry byteRegisters 6 = "(HL)".toList := rfl
  simp only [Z80.bitTemplate, heq, heq', hmemory]
  split
  · exact h.copy operation hoperation lead (mem_leads hlead) register hregister
  · exact h.cell operation hoperation lead (mem_leads hlead)

theorem indexedTemplate (h : OfTables P) (byte : UInt8) {lead : Int} (hlead : isIndexLead lead = true)
    {t : List Char} (ht : indexedTemplate lead (byte.toNat : Int) = .ok t) : P t := by
  obtain ⟨word, hword, heq⟩ := exists_word (UInt8.ofInt byte.toNat >>> 4)
  obtain ⟨name, hname, hpick⟩ := exists_opcode byte
  simp only [Z80.indexedTemplate, hpick, heq] at ht
  split at ht
  · cases ht
    exact h.addition word hword lead (mem_leads hlead) _
  · cases ht
    exact h.indexed name hname lead (mem_leads hlead) _

/-- What holds of the tables holds of every template that bytes decide. -/
theorem templateOf (h : OfTables P) {b : Buffer} {n : Int} {t : List Char}
    (ht : templateOf b.code n = .ok (some t)) : P t := by
  obtain ⟨opcode, second, -, fourth, h0, h1, -, h3⟩ := b.exists_front
  obtain ⟨name, hname, hpick⟩ := exists_opcode opcode
  simp only [Z80.templateOf, h0, h1, h3, hpick, ok_bind, pure_eq_ok] at ht
  split at ht
  · rename_i hlead
    split at ht
    · cases ht
    · split at ht
      · split at ht
        · cases ht
        · cases ht
          exact h.indexed_bitTemplate _ hlead
      · cases hindexed : Z80.indexedTemplate (opcode.toNat : Int) (second.toNat : Int) with
        | error e => simp [hindexed] at ht
        | ok template =>
            rw [hindexed] at ht
            cases ht
            exact h.indexedTemplate second hlead hindexed
  · split at ht
    · split at ht
      · cases ht
      · cases ht
        exact h.extended second
    · split at ht
      · split at ht
        · cases ht
        · cases ht
          exact h.bitTemplate _
      · cases ht
        exact h.plain name hname

end OfTables

theorem cells_avoid : ∀ operation ∈ bitGroup, ∀ lead ∈ [0xDD, 0xFD], Template.avoids placeholders dataLead
    (indexed lead false (operation.toList ++ "(HL)".toList)) = true := by
  decide

theorem opcodes_avoid : ∀ t ∈ opcodes, Template.avoids placeholders dataLead t.toList = true := by
  apply Spelled.forall_mem (P := fun t => Template.avoids placeholders dataLead t = true)
  · unfold opcodes
    repeat' constructor
  · decide +kernel

theorem avoids_ofTables : OfTables fun t => Template.avoids placeholders dataLead t = true where
  plain := opcodes_avoid
  indexed := by
    apply forall_indexed (P := fun t => Template.avoids placeholders dataLead t = true) opcodes_avoid
    apply Spelled.forall_mem (P := fun t => 'H' ∈ t → ∀ lead ∈ [0xDD, 0xFD], ∀ transfer,
      Template.avoids placeholders dataLead (indexed lead transfer t) = true)
    · unfold opcodes
      repeat' constructor
    · decide +kernel
  addition := by decide +kernel
  extended byte := by
    apply forall_extended (P := fun t => Template.avoids placeholders dataLead t = true)
    all_goals decide +kernel
  bit operation hoperation register _ := by
    have htable : ∀ operation ∈ bitGroup, Template.avoids placeholders dataLead operation.toList = true := by
      decide +kernel
    exact Template.avoids_append (htable operation hoperation) register.toList
  cell := cells_avoid
  copy operation hoperation lead hlead _ _ := by
    exact Template.avoids_append (cells_avoid operation hoperation lead hlead) _

theorem render_diverges {r : Record Mode} {shown : Rendering} (hsettled : instructionSet.Settled r)
    (hrender : render r = .ok shown) : Diverges dataLead shown.text := by
  obtain ⟨k, t, offset, length, h, hk, -⟩ := settled_template hsettled
  have ht := h.decided r.count hk
  rw [render_eq ht h.operandOffset_eq] at hrender
  exact Template.diverges_of_render (avoids_ofTables.templateOf ht) hrender

end Z80

/-! ## The rows of a listing -/

theorem prefix_of_prefix_ofChars {s t : List Char} (h : Text.ofChars s <+: Text.ofChars t) : s <+: t := by
  have hchars := h.map CodePoint.toChar
  change (Text.ofChars s).chars <+: (Text.ofChars t).chars at hchars
  rwa [Text.chars_ofChars, Text.chars_ofChars] at hchars

theorem prefix_of_bounded (text : Text) : (bounded text).1 <+: text := by
  unfold bounded
  split
  · exact List.take_prefix maxText text
  · exact List.prefix_refl text

/-- The whole text of a rendering begins as the rendering does. -/
theorem exists_display (shown : Rendering) : ∃ suffix, shown.display = .ofChars (shown.text ++ suffix) := by
  unfold Rendering.display
  split
  · exact ⟨_, rfl⟩
  · exact ⟨[], by rw [List.append_nil]⟩

theorem ListingRow.isData_of_text {row : ListingRow} {byte : UInt8}
    (h : row.text = .ofChars ("DB $".toList ++ hexPadded 2 byte.toNat)) : row.IsData := by
  rw [IsData, h, Text.ofChars_append]
  exact List.prefix_append _ _

theorem isData_dataRows (address : Int) (bytes : List UInt8) :
    ∀ row ∈ dataRows address bytes, row.IsData := by
  intro row hmem
  obtain ⟨byte, -, htext⟩ := InstructionSet.dataRows_byte address bytes row hmem
  exact ListingRow.isData_of_text htext

namespace Architecture

theorem render_diverges (a : Architecture) {r : Record a.Mode} {shown : Rendering}
    (hsettled : a.instructionSet.Settled r) (hrender : a.instructionSet.render r = .ok shown) :
    Diverges dataLead shown.text := by
  cases a with
  | mos6502 => exact Mos6502.render_diverges hsettled hrender
  | mos65c02 => exact Mos6502.render_diverges hsettled hrender
  | mc6800 => exact Mc6800.render_diverges hsettled hrender
  | mc6809 => exact Mc6809.render_diverges hsettled hrender
  | mc6809e => exact Mc6809.render_diverges hsettled hrender
  | z80 => exact Z80.render_diverges hsettled hrender

/-- The row of an instruction does not look like data. -/
theorem not_isData_freshRow (a : Architecture) {address : Int} {bytes : List UInt8} {n : Nat}
    (h : a.instructionSet.CompletesAfter {} (wrap16 address) bytes n) :
    ¬ (a.instructionSet.freshRow address (bytes.take n)).IsData := by
  obtain ⟨shown, hshown⟩ :=
    a.lawful.exists_shown InstructionSet.phase_initial (inRange_wrap16 address) h
  obtain ⟨suffix, hdisplay⟩ := exists_display shown
  intro hdata
  have htext : Text.ofChars dataLead <+: (bounded shown.display).1 := by
    rw [← hshown.text_eq]
    simpa [ListingRow.IsData, InstructionSet.freshRow, Record.completeText, h.complete] using hdata
  have hwhole := htext.trans (prefix_of_bounded shown.display)
  rw [hdisplay] at hwhole
  have hdiverges := a.render_diverges hshown.settled hshown.render_eq
  exact (hdiverges.append suffix).1 (prefix_of_prefix_ofChars hwhole)

end Architecture

end EightBit
