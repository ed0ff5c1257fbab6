import EightBit.Proofs.BitGroup
set_option autoImplicit false

/-!
# Entries of bytes that are no opcodes

The tables of opcodes have entries for the bytes that lead to an opcode behind them, and these entries are not meant
to be shown.  The 6809 shows none of its two.  The Z80 looks the byte behind an index lead up like any other opcode:
if that is an index lead again or `0xED`, the entry of that byte is the text of the instruction, and this is
the only way in which one of the four is shown (`run_leadEntry_iff`).
-/

namespace EightBit

open InstructionSet

/-- In every session a complete record holds the instruction of its bytes. -/
theorem Architecture.run_holds (a : Architecture) (calls : List Call)
    (hcomplete : (a.instructionSet.run calls).phase = .complete) :
    ∃ mode shown, a.instructionSet.Holds (a.instructionSet.run calls) (a.instructionSet.run calls).address
      (a.instructionSet.run calls).buffer.fetched mode shown := by
  obtain ⟨shown, hshown⟩ := a.lawful.run_shown calls hcomplete
  obtain ⟨k, mode, length, -, -, hmode, -⟩ := hshown.settled
  refine ⟨mode, shown, hshown, rfl, rfl, hmode, hshown.count_eq.symm, ?_⟩
  rw [Record.completeText, if_pos hcomplete,
    hshown.text_eq_display (a.render_fits hshown.settled hshown.render_eq)]

/-- The symbols of the address behind an instruction. -/
def targetSymbols : List Char :=
  [' ', '<', '>'] ++ numeralSymbols

theorem mem_targetSuffix {address : Int} {c : Char} (h : c ∈ targetSuffix address) : c ∈ targetSymbols := by
  simp only [targetSuffix, List.mem_append, List.mem_singleton] at h
  rcases h with (hfront | hdigit) | rfl
  · exact List.mem_append_left _ ((by decide : " <".toList ⊆ [' ', '<', '>']) hfront)
  · exact List.mem_append_right _ (mem_hexPadded hdigit)
  · decide

/-- A symbol that addresses do not have is shown by the instruction itself. -/
theorem mem_of_infix_display {shown : Rendering} {word : List Char} {c : Char}
    (h : Text.ofChars word <:+: shown.display) (hword : c ∈ word) (hc : c ∉ targetSymbols) : c ∈ shown.text := by
  cases hrefers : shown.target with
  | none =>
      rw [Rendering.display_of_none hrefers, Text.infix_ofChars] at h
      exact h.subset hword
  | some target =>
      rw [Rendering.display_of_some hrefers, ← Text.ofChars_append, Text.infix_ofChars] at h
      rcases List.mem_append.mp (h.subset hword) with htext | hsuffix
      · exact htext
      · exact absurd (mem_targetSuffix hsuffix) hc

theorem not_infix_completeText {μ : Type} {r : Record μ} {word : String} (hword : word ≠ "")
    (hphase : r.phase ≠ .complete) : ¬ Text.ofString word <:+: r.completeText := by
  rw [Record.completeText, if_neg hphase, List.infix_nil, Text.ofString]
  intro hnil
  exact hword (String.toList_eq_nil_iff.mp (List.map_eq_nil_iff.mp hnil))

/-! ## The 6809 -/

/-- No instruction of the 6809 is shown with a bracket of the page entries. -/
theorem Mc6809.not_mem_text {r : Record Mode} {address : Int} {bytes : List UInt8} {mode : Mode} {shown : Rendering}
    (h : instructionSet.Holds r address bytes mode shown) : '(' ∉ shown.text := by
  have hrender : render r = .ok shown := h.render_eq
  by_cases hvalid : mode = .invalid
  · subst hvalid
    rw [render, h.mode_eq] at hrender
    cases hrender
    decide
  · obtain ⟨opcode, -, -, -, h0, -, -, -⟩ := r.buffer.exists_front
    have hbounds := opcodeBytes_bounds opcode.toNat
    obtain ⟨name, x, hname, hx, rfl⟩ := exists_statement h.mode_eq hvalid h0 hrender
    intro hmem
    exact absurd (statement_symbols hname (by omega) (by omega) hx hmem) (by decide)

theorem Mc6809.not_infix_run (calls : List Call) {word : String} (hword : '(' ∈ word.toList) :
    ¬ Text.ofString word <:+: (instructionSet.run calls).completeText := by
  by_cases hcomplete : (instructionSet.run calls).phase = .complete
  · obtain ⟨mode, shown, hholds⟩ : ∃ mode shown, instructionSet.Holds (instructionSet.run calls) _ _ mode shown :=
      Architecture.run_holds .mc6809 calls hcomplete
    rw [hholds.displayed]
    intro hinside
    exact not_mem_text hholds (mem_of_infix_display hinside hword (by decide))
  · apply not_infix_completeText _ hcomplete
    rintro rfl
    cases hword

/-! ## The Z80 -/

namespace Z80

/-- The leading bytes with their entries in the table of opcodes. -/
def leadEntries : List (UInt8 × String) :=
  [(0xCB, "extCB"), (0xDD, "extDD"), (0xED, "extED"), (0xFD, "extFD")]

/-- The text is one that is shown as it is, also behind an index lead. -/
structure Fixed (opcode : UInt8) (t : List Char) : Prop where
  parse_eq : Template.parse placeholders t = [.literal t]
  unindexed : 'H' ∉ t
  no_addition : opcode &&& 0xCF ≠ 0x09

instance (opcode : UInt8) (t : List Char) : Decidable (Fixed opcode t) :=
  decidable_of_iff (Template.parse placeholders t = [.literal t] ∧ 'H' ∉ t ∧ opcode &&& 0xCF ≠ 0x09)
    ⟨fun h => ⟨h.1, h.2.1, h.2.2⟩, fun h => ⟨h.parse_eq, h.unindexed, h.no_addition⟩⟩

theorem plainTemplate_leadEntry : ∀ lead ∈ leadEntries, plainTemplate lead.1 = lead.2.toList ∧
    Fixed lead.1 lead.2.toList ∧ 'x' ∈ lead.2.toList ∧ isLead (lead.1.toNat : Int) = true := by
  decide

theorem leadEntry_ne_empty {opcode : UInt8} {name : String} (h : (opcode, name) ∈ leadEntries) : name ≠ "" := by
  rintro rfl
  obtain ⟨-, -, hmem, -⟩ := plainTemplate_leadEntry (opcode, "") h
  cases hmem

/-- No entry is part of another. -/
theorem leadEntry_unique {opcode other : UInt8} {name name' : String} (h : (opcode, name) ∈ leadEntries)
    (h' : (other, name') ∈ leadEntries) (hinside : Text.ofString name <:+: Text.ofString name') :
    other = opcode ∧ name' = name := by
  have htable : ∀ lead ∈ leadEntries, ∀ lead' ∈ leadEntries,
      occurs lead.2.toList lead'.2.toList = true → lead' = lead := by decide
  have hfound : occurs name.toList name'.toList = true := occurs_iff.mpr (Text.infix_ofChars.mp hinside)
  exact Prod.mk.inj (htable (opcode, name) h (other, name') h' hfound)

theorem rare_entry : Rare 'x' :=
  .of_not_mem (by decide)

/-- Only the entries of leading bytes have the symbol. -/
theorem exists_leadEntry (opcode : UInt8) : 'x' ∈ plainTemplate opcode → ∃ name, (opcode, name) ∈ leadEntries := by
  have htable : 'x' ∈ plainTemplate opcode → opcode ∈ leadEntries.map Prod.fst := by
    apply Spelled.forall_entry (P := fun opcode t => 'x' ∈ t → opcode ∈ leadEntries.map Prod.fst)
    · unfold opcodes
      repeat' constructor
    · exact length_opcodes
    · decide +kernel
  intro hmem
  obtain ⟨lead, hlead, rfl⟩ := List.mem_map.mp (htable hmem)
  exact ⟨lead.2, hlead⟩

section

variable {r : Record Mode} {address : Int} {bytes : List UInt8} {mode : Mode} {shown : Rendering}
  {lead second : UInt8} {name : String}

/-- Two leads of which the second has an entry are shown as that entry. -/
theorem display_leads (h : instructionSet.Holds r address [lead, second] mode shown)
    (hindex : isIndexLead (lead.toNat : Int) = true) (hentry : (second, name) ∈ leadEntries)
    (hbit : second ≠ 0xCB) : shown.display = .ofString name := by
  obtain ⟨hplain, hfixed, -, -⟩ := plainTemplate_leadEntry (second, name) hentry
  have h0 : pick r.buffer.code 0 = .ok (lead.toNat : Int) := h.byte_eq (i := 0) rfl
  have h1 : pick r.buffer.code 1 = .ok (second.toNat : Int) := h.byte_eq (i := 1) rfl
  have hform := Form.indexed h0 h1 hindex hbit (indexedTemplate_eq lead second)
  rw [hplain, leadTemplate_eq_self hfixed.unindexed hfixed.no_addition] at hform
  obtain ⟨-, -, hrender⟩ := hform.of_holds h
  rw [hfixed.parse_eq, Template.render_literal] at hrender
  cases hrender
  rfl

/-- A symbol that operands do not have comes from the template. -/
theorem mem_template {t : List Char} {offset length : Int} {c : Char} (hform : Form r.buffer.code t offset length)
    (h : instructionSet.Holds r address bytes mode shown) (hc : c ∉ Template.operandSymbols)
    (hmem : c ∈ shown.text) : c ∈ t := by
  obtain ⟨k, hdecided⟩ := hform.exists_decidedAt
  obtain ⟨-, -, hrender⟩ := hform.of_holds h
  obtain ⟨values, hvalues, hfill, -⟩ := Template.exists_of_render hrender
  rcases Template.mem_fill hfill hmem with hliteral | ⟨text, htext, hsymbol⟩
  · exact Template.mem_of_mem_literals hliteral
  · obtain ⟨value, hvalue, rfl⟩ := List.mem_map.mp htext
    obtain ⟨j, p, hp, heq⟩ := Template.exists_placed hvalues hvalue
    obtain ⟨hfirst, hend⟩ := hdecided.placed_bounds hp
    exact absurd ((isOperand_operand hfirst (by omega) heq).symbols c hsymbol) hc

/-- The symbol is shown only for an index lead and a byte behind it that has an entry. -/
theorem leads_of_mem (h : instructionSet.Holds r address bytes mode shown) (hmem : 'x' ∈ shown.text) :
    ∃ lead second name, isIndexLead (lead.toNat : Int) = true ∧ (second, name) ∈ leadEntries ∧ second ≠ 0xCB ∧
      bytes = [lead, second] := by
  obtain ⟨t, offset, length, hform⟩ := exists_form r.buffer
  obtain ⟨-, hlength, -⟩ := hform.of_holds h
  have htemplate := mem_template hform h (by decide) hmem
  cases hform with
  | @plain opcode h0 hlead =>
      -- A leading byte has no template of its own.
      obtain ⟨name, hentry⟩ := exists_leadEntry opcode htemplate
      obtain ⟨-, -, -, hlead'⟩ := plainTemplate_leadEntry (opcode, name) hentry
      rw [hlead] at hlead'
      cases hlead'
  | @extended second h0 h1 => exact absurd htemplate (rare_entry.extended second)
  | @bit second h0 h1 => exact absurd htemplate (rare_entry.not_mem_bitTemplate second none)
  | @indexedBit lead fourth h0 h1 h3 hindex => exact absurd htemplate (rare_entry.not_mem_bitTemplate fourth _)
  | @indexed lead second t h0 h1 hindex hbit ht =>
      obtain ⟨rfl, hplain⟩ := rare_entry.indexedTemplate_of_mem ht htemplate
      obtain ⟨name, hentry⟩ := exists_leadEntry second hplain
      obtain ⟨heq, hfixed, -, -⟩ := plainTemplate_leadEntry (second, name) hentry
      rw [heq, indexed_eq_self hfixed.unindexed, hfixed.parse_eq] at hlength
      obtain ⟨first, last, rfl⟩ := List.length_eq_two.mp (Int.ofNat_inj.mp hlength)
      rw [h.byte_unique (i := 0) rfl h0, h.byte_unique (i := 1) rfl h1]
      exact ⟨lead, second, name, hindex, hentry, hbit, rfl⟩

/-- An entry is shown for an index lead with the byte of the entry behind it, unless that opens the bit group, and
then it is all that is shown. -/
theorem infix_leadEntry_iff (h : instructionSet.Holds r address bytes mode shown)
    (hentry : (second, name) ∈ leadEntries) :
    (Text.ofString name <:+: shown.display ↔
      second ≠ 0xCB ∧ ∃ lead : UInt8, (lead = 0xDD ∨ lead = 0xFD) ∧ bytes = [lead, second]) ∧
    (Text.ofString name <:+: shown.display → shown.display = .ofString name) := by
  have hshown : Text.ofString name <:+: shown.display →
      (second ≠ 0xCB ∧ ∃ lead : UInt8, (lead = 0xDD ∨ lead = 0xFD) ∧ bytes = [lead, second]) ∧
        shown.display = .ofString name := by
    intro hinside
    obtain ⟨-, -, hx, -⟩ := plainTemplate_leadEntry (second, name) hentry
    have hmem := mem_of_infix_display hinside hx (by decide)
    obtain ⟨lead, second', name', hindex, hentry', hbit, rfl⟩ := leads_of_mem h hmem
    have hdisplay := display_leads h hindex hentry' hbit
    rw [hdisplay] at hinside
    obtain ⟨rfl, rfl⟩ := leadEntry_unique hentry hentry' hinside
    exact ⟨⟨hbit, lead, isIndexLead_toNat.mp hindex, rfl⟩, hdisplay⟩
  refine ⟨⟨fun hinside => (hshown hinside).1, ?_⟩, fun hinside => (hshown hinside).2⟩
  rintro ⟨hbit, lead, hlead, rfl⟩
  rewrite [display_leads h (isIndexLead_toNat.mpr hlead) hentry hbit]
  exact List.infix_refl _

theorem infix_run_iff (calls : List Call) (hentry : (second, name) ∈ leadEntries) :
    let r := instructionSet.run calls
    (Text.ofString name <:+: r.completeText ↔ r.phase = .complete ∧ second ≠ 0xCB ∧
      ∃ lead : UInt8, (lead = 0xDD ∨ lead = 0xFD) ∧ r.buffer.fetched = [lead, second]) ∧
    (Text.ofString name <:+: r.completeText → r.completeText = .ofString name) := by
  intro r
  by_cases hcomplete : r.phase = .complete
  · obtain ⟨mode, shown, hholds⟩ : ∃ mode shown, instructionSet.Holds r r.address r.buffer.fetched mode shown :=
      Architecture.run_holds .z80 calls hcomplete
    rw [hholds.displayed, and_iff_right hcomplete]
    exact infix_leadEntry_iff hholds hentry
  · have hnone : ¬ Text.ofString name <:+: r.completeText :=
      not_infix_completeText (leadEntry_ne_empty hentry) hcomplete
    exact ⟨iff_of_false hnone fun h => hcomplete h.1, fun hinside => absurd hinside hnone⟩

end

end Z80

/-- In any session of a Z80 decoder the entry of a leading byte is shown exactly for `0xDD` or `0xFD` with that byte
behind it, never that of `0xCB`, and then it is the whole text.  A decoder of the 6809 shows no entry of a page byte. -/
theorem run_leadEntry_iff (calls : List Call) :
    (∀ second name, (second, name) ∈ Z80.leadEntries →
      let r := Architecture.z80.instructionSet.run calls
      (Text.ofString name <:+: r.completeText ↔ r.phase = .complete ∧ second ≠ 0xCB ∧
        ∃ lead : UInt8, (lead = 0xDD ∨ lead = 0xFD) ∧ r.buffer.fetched = [lead, second]) ∧
      (Text.ofString name <:+: r.completeText → r.completeText = .ofString name)) ∧
    ∀ a, a = Architecture.mc6809 ∨ a = Architecture.mc6809e →
      ¬ Text.ofString "(pg2)" <:+: (a.instructionSet.run calls).completeText ∧
      ¬ Text.ofString "(pg3)" <:+: (a.instructionSet.run calls).completeText := by
  refine ⟨fun second name hentry => Z80.infix_run_iff calls hentry, ?_⟩
  rintro a (rfl | rfl)
  · exact ⟨Mc6809.not_infix_run calls (by decide), Mc6809.not_infix_run calls (by decide)⟩
  · exact ⟨Mc6809.not_infix_run calls (by decide), Mc6809.not_infix_run calls (by decide)⟩

/-- Calls that are rejected or ignored in the middle make no difference. -/
theorem run_leadEntry_iff_extended :
    let calls : List Call := [.start 0x100 0xFD, .start 0 0, .next 0x100, .next 0xED, .next 0x4B]
    let r := Architecture.z80.instructionSet.run calls
    ((0xED, "extED") ∈ Z80.leadEntries ∧ r.phase = .complete ∧ r.buffer.fetched = [0xFD, 0xED]) ∧
    r.completeText = .ofString "extED" ∧ ¬ Text.ofString "extFD" <:+: r.completeText := by
  intro calls r
  have hentry : (0xED, "extED") ∈ Z80.leadEntries := by decide
  have hother : (0xFD, "extFD") ∈ Z80.leadEntries := by decide
  have hcomplete : r.phase = .complete := by decide
  have hfetched : r.buffer.fetched = [0xFD, 0xED] := by decide
  obtain ⟨hiff, hwhole⟩ := (run_leadEntry_iff calls).1 0xED "extED" hentry
  obtain ⟨hiff', -⟩ := (run_leadEntry_iff calls).1 0xFD "extFD" hother
  refine ⟨⟨hentry, hcomplete, hfetched⟩, ?_, ?_⟩
  · exact hwhole (hiff.mpr ⟨hcomplete, by decide, 0xFD, .inr rfl, hfetched⟩)
  · intro hinside
    obtain ⟨-, -, lead, -, hbytes⟩ := hiff'.mp hinside
    rw [hfetched] at hbytes
    cases hbytes

/-- The entry of a leading byte is shown where one index lead stands behind another. -/
theorem run_leadEntry_shown :
    let r := Architecture.z80.instructionSet.run [.start 0x100 0xDD, .next 0xDD]
    r.phase = .complete ∧ r.completeText = .ofString "extDD" := by
  decide

end EightBit
