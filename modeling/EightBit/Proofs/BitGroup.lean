import EightBit.Proofs.IndexRegisters
set_option autoImplicit false

/-!
# The bit group behind an index lead

Behind `0xDD 0xCB` and `0xFD 0xCB` the displacement comes first and the opcode of the bit group last.  Nothing is
decided before the opcode is there.  Then the operation is the one that the opcode has behind `0xCB` alone, applied
to the indexed memory cell, and a register that the opcode names besides gets a copy of the result
(`Z80.feed_indexed_bit`).
-/

namespace EightBit

namespace Template

theorem foldr_consSymbol_literal {α : Type} (s text : List α) (rest : List (Segment α)) :
    s.foldr consSymbol (.literal text :: rest) = .literal (s ++ text) :: rest := by
  induction s with
  | nil => rfl
  | cons c s ih =>
      rw [List.foldr_cons, ih]
      rfl

variable {f : Int → Placeholder Char → Except Fault Rendering} {i : Int}

theorem render_literal (text : List Char) : render f i [.literal text] = .ok { text := text } := by
  simp [render, operands, placed, fill]

/-- An operand between two literals is shown between them. -/
theorem render_enclosed {p : Placeholder Char} {value : Rendering} (front back : List Char)
    (hvalue : f i p = .ok value) : render f i [.literal front, .operand p, .literal back] =
      .ok { text := front ++ (value.text ++ back), target := value.target } := by
  simp [render, operands, placed, fill, hvalue]

end Template

namespace Z80

open InstructionSet

/-! ## Templates of the bit group -/

/-- The register that gets a copy of what is done to an indexed memory cell, behind a comma.  There is none if the
opcode names the cell itself, or if a bit is only tested. -/
def copyTail (opcode : UInt8) : List Char :=
  if opcode &&& 7 = 6 ∨ 0x40 ≤ opcode ∧ opcode ≤ 0x7F then [] else ',' :: entry byteRegisters (opcode &&& 7)

theorem parse_bitTemplate (opcode : UInt8) : Template.parse placeholders (bitTemplate opcode none) =
    [.literal (entry bitGroup (opcode >>> 3) ++ entry byteRegisters (opcode &&& 7))] := by
  have hregisters : ∀ register ∈ byteRegisters,
      Template.parse placeholders register.toList = [.literal register.toList] := by decide
  obtain ⟨operation, hoperation, heq⟩ := exists_operation opcode
  obtain ⟨register, hregister, heq'⟩ := exists_register opcode
  obtain ⟨-, -, hplain⟩ := bitGroup_plain operation hoperation
  simp only [bitTemplate, heq, heq']
  rw [Template.parse_append hplain, hregisters register hregister, Template.foldr_consSymbol_literal]

/-- Tests of a bit are one quarter of the opcodes. -/
theorem isTest_iff : ∀ opcode : UInt8, opcode &&& 0xC0 = 0x40 ↔ 0x40 ≤ opcode ∧ opcode ≤ 0x7F :=
  forall_byte (by decide +kernel)

theorem parse_indexed_bitTemplate {lead : UInt8} {register : String} (hlead : (lead, register) ∈ indexLeads)
    (opcode : UInt8) : Template.parse placeholders (bitTemplate opcode (some lead.toNat)) =
      [.literal (entry bitGroup (opcode >>> 3) ++ '(' :: register.toList), .operand displacement,
        .literal (')' :: copyTail opcode)] := by
  have hcells : ∀ pair ∈ indexLeads,
      Template.parse placeholders (indexed pair.1.toNat false "(HL)".toList) =
        [.literal ('(' :: pair.2.toList), .operand displacement, .literal [')']] ∧
      ∀ name ∈ byteRegisters,
        Template.parse placeholders (indexed pair.1.toNat false "(HL)".toList ++ ',' :: name.toList) =
          [.literal ('(' :: pair.2.toList), .operand displacement, .literal (')' :: ',' :: name.toList)] := by
    decide
  obtain ⟨hcell, hcopy⟩ := hcells (lead, register) hlead
  obtain ⟨operation, hoperation, heq⟩ := exists_operation opcode
  obtain ⟨name, hname, heq'⟩ := exists_register opcode
  obtain ⟨-, -, hplain⟩ := bitGroup_plain operation hoperation
  have hmemory : entry byteRegisters 6 = "(HL)".toList := rfl
  simp only [bitTemplate, copyTail, heq, heq', hmemory, indexed_operation hoperation, ← isTest_iff]
  by_cases htail : opcode &&& 7 = 6 ∨ opcode &&& 0xC0 = 0x40
  · rw [if_pos htail, if_neg (by rwa [← not_or, Classical.not_not]), Template.parse_append hplain, hcell,
      Template.foldr_consSymbol_literal]
  · rw [if_neg htail, if_pos (not_or.mp htail), List.append_assoc, Template.parse_append hplain, hcopy name hname,
      Template.foldr_consSymbol_literal]

/-! ## Bytes in front of the opcode -/

section

variable {r q : Record Mode} {address other : Int} {lead : UInt8} {register : String}

/-- The leads and the displacement leave the template open. -/
theorem templateOf_leads {code : List Int} {k : Nat} (h0 : pick code 0 = .ok (lead.toNat : Int))
    (hindex : isIndexLead (lead.toNat : Int) = true) (h1 : 2 ≤ k → pick code 1 = .ok 0xCB) (hk : k < 4) :
    templateOf code k = .ok none := by
  have hlt : (k : Int) < 4 := by omega
  rcases Nat.lt_or_ge k 2 with hone | htwo
  · have hlt' : (k : Int) < 2 := by omega
    simp [templateOf, h0, hindex, hlt']
  · simp [templateOf, h0, h1 htwo, hindex, hlt]

/-- As long as the opcode is missing, the length is not known. -/
theorem required_of_leads (hunderway : instructionSet.Underway q)
    (h0 : pick q.buffer.code 0 = .ok (lead.toNat : Int)) (hindex : isIndexLead (lead.toNat : Int) = true)
    (h1 : 2 ≤ q.count → pick q.buffer.code 1 = .ok 0xCB) (hcount : q.count < 4) : q.required = 0 := by
  rcases hunderway.progress with hopen | ⟨⟨k, mode, length, hdecides, hk, -, -⟩, -⟩
  · exact hopen.required_eq
  · have hnone : instructionSet.layout q.buffer.code k = .ok none :=
      layout_of_open (templateOf_leads h0 hindex (fun htwo => h1 (Nat.le_trans htwo hk)) (by omega))
    rw [hdecides.layout_eq] at hnone
    cases hnone

theorem feed_leads (hlead : (lead, register) ∈ indexLeads) (d opcode : UInt8) (hr : r.phase ≠ .fetching)
    (haddress : InRange address) (h : instructionSet.CompletesAfter r address [lead, 0xCB, d, opcode] 4) {k : Nat}
    (hpos : 0 < k) (hk : k < 4) :
    let taken := (instructionSet.feed r address ([lead, 0xCB, d, opcode].take k)).record
    taken.phase = .fetching ∧ taken.required = 0 := by
  intro taken
  have hphase : taken.phase = .fetching := h.fetching k hk hpos
  have hle : k ≤ [lead, 0xCB, d, opcode].length := Nat.le_of_lt hk
  have haccepted := lawful.feed_accepted hr haddress hpos hle (h.fetching.mono hle)
  have hcount : taken.count = k := by
    rw [haccepted.count_eq, List.length_take_of_le hle]
  have hfirst : taken.buffer.fetched[0]? = some lead := by
    rw [haccepted.fetched_eq, List.getElem?_take_of_lt hpos]
    rfl
  have hsecond : 2 ≤ taken.count → taken.buffer.fetched[1]? = some 0xCB := by
    intro htwo
    rw [haccepted.fetched_eq, List.getElem?_take_of_lt (by omega)]
    rfl
  refine ⟨hphase, required_of_leads (haccepted.underway hphase) ?_ (isIndexLead_of_mem hlead) ?_ (by omega)⟩
  · exact Buffer.pick_of_fetched hfirst
  · exact fun htwo => Buffer.pick_of_fetched (hsecond htwo)

/-! ## Whole instructions -/

theorem form_bit {b : Buffer} {opcode : UInt8} (hfetched : b.fetched = [0xCB, opcode]) :
    Form b.code (bitTemplate opcode none) 2 2 := by
  have h0 : b.fetched[0]? = some 0xCB := by rw [hfetched]; rfl
  have h1 : b.fetched[1]? = some opcode := by rw [hfetched]; rfl
  exact .bit (Buffer.pick_of_fetched h0) (Buffer.pick_of_fetched h1)

theorem form_indexedBit {b : Buffer} {d opcode : UInt8} (hlead : (lead, register) ∈ indexLeads)
    (hfetched : b.fetched = [lead, 0xCB, d, opcode]) : Form b.code (bitTemplate opcode (some lead.toNat)) 2 3 := by
  have h0 : b.fetched[0]? = some lead := by rw [hfetched]; rfl
  have h1 : b.fetched[1]? = some 0xCB := by rw [hfetched]; rfl
  have h3 : b.fetched[3]? = some opcode := by rw [hfetched]; rfl
  exact .indexedBit (Buffer.pick_of_fetched h0) (Buffer.pick_of_fetched h1) (Buffer.pick_of_fetched h3)
    (isIndexLead_of_mem hlead)

theorem measures_bit (opcode : UInt8) : instructionSet.Measures [0xCB, opcode] .implied := by
  have hform : Form (Buffer.ofBytes [0xCB, opcode] (by simp)).code _ 2 2 := form_bit rfl
  have hmeasures := hform.measures rfl
  rw [parse_bitTemplate] at hmeasures
  exact hmeasures rfl

theorem measures_indexedBit (hlead : (lead, register) ∈ indexLeads) (d opcode : UInt8) :
    instructionSet.Measures [lead, 0xCB, d, opcode] .disp8 := by
  have hform : Form (Buffer.ofBytes [lead, 0xCB, d, opcode] (by simp)).code _ 2 3 := form_indexedBit hlead rfl
  have hmeasures := hform.measures rfl
  rw [parse_indexed_bitTemplate hlead] at hmeasures
  exact hmeasures rfl

/-- Behind `0xCB` alone two bytes are shown as the operation and what it works on. -/
theorem feed_bit (opcode : UInt8) (hq : q.phase ≠ .fetching) (hother : InRange other) :
    instructionSet.CompletesAfter q other [0xCB, opcode] 2 ∧
    (instructionSet.feed q other [0xCB, opcode]).record.completeText =
      .ofChars (entry bitGroup (opcode >>> 3) ++ entry byteRegisters (opcode &&& 7)) := by
  obtain ⟨hcompletes, shown, hholds⟩ := holds_of_measures hq hother (measures_bit opcode)
  obtain ⟨-, -, hrender⟩ := (form_bit hholds.fetched_eq).of_holds hholds
  rw [parse_bitTemplate, Template.render_literal] at hrender
  cases hrender
  exact ⟨hcompletes, completeText_of_mode hholds rfl⟩

/-- Behind an index lead and `0xCB` four bytes are shown as the operation, the cell and the copy. -/
theorem feed_indexedBit (hlead : (lead, register) ∈ indexLeads) (d opcode : UInt8) (hr : r.phase ≠ .fetching)
    (haddress : InRange address) :
    let taken := (instructionSet.feed r address [lead, 0xCB, d, opcode]).record
    instructionSet.CompletesAfter r address [lead, 0xCB, d, opcode] 4 ∧ taken.mode = some .disp8 ∧
    taken.completeText = .ofChars (entry bitGroup (opcode >>> 3) ++ '(' :: register.toList ++
      (signedDecimal (signExtend 8 d.toNat) ++ ')' :: copyTail opcode)) := by
  intro taken
  obtain ⟨hcompletes, shown, hholds⟩ := holds_of_measures hr haddress (measures_indexedBit hlead d opcode)
  have hbyte : pick taken.buffer.code 2 = .ok (d.toNat : Int) := hholds.byte_eq (i := 2) rfl
  have hvalue : operand taken 2 displacement = .ok { text := signedDecimal (signExtend 8 d.toNat) } := by
    simp only [operand, displacement, readS8, hbyte, ok_bind, pure_eq_ok]
  generalize signedDecimal (signExtend 8 d.toNat) = number at hvalue ⊢
  obtain ⟨-, -, hrender⟩ := (form_indexedBit hlead hholds.fetched_eq).of_holds hholds
  rw [parse_indexed_bitTemplate hlead, Template.render_enclosed _ _ hvalue] at hrender
  cases hrender
  exact ⟨hcompletes, hholds.mode_eq, completeText_of_mode hholds rfl⟩

/-- The opcode that does the same to the memory cell. -/
theorem cellOpcode : ∀ opcode : UInt8,
    ((opcode &&& 0xF8) ||| 6) >>> 3 = opcode >>> 3 ∧ ((opcode &&& 0xF8) ||| 6) &&& 7 = 6 :=
  forall_byte (by decide +kernel)

theorem register_ne_cell : ∀ opcode : UInt8, opcode &&& 7 ≠ 6 →
    entry byteRegisters (opcode &&& 7) ≠ "(HL)".toList :=
  forall_byte (by decide +kernel)

/-- Behind an index lead an instruction of the bit group is open up to its opcode, which comes last.  Its text is
that of the same operation on the memory cell, with the index register and the displacement in the cell, and
behind it the register whose text the opcode has without the lead; nothing stands there if that is the cell, or if
the opcode tests a bit. -/
theorem feed_indexed_bit (hlead : (lead, register) ∈ indexLeads) (d opcode : UInt8) (hr : r.phase ≠ .fetching)
    (haddress : InRange address) (hq : q.phase ≠ .fetching) (hother : InRange other) :
    let bytes := [lead, 0xCB, d, opcode]
    let taken := (instructionSet.feed r address bytes).record
    let cell := (instructionSet.feed q other [0xCB, (opcode &&& 0xF8) ||| 6]).record
    let plain := (instructionSet.feed q other [0xCB, opcode]).record
    (∀ k, 0 < k → k < 4 → (instructionSet.feed r address (bytes.take k)).record.phase = .fetching ∧
      (instructionSet.feed r address (bytes.take k)).record.required = 0) ∧
    instructionSet.CompletesAfter r address bytes 4 ∧ taken.mode = some .disp8 ∧
    instructionSet.CompletesAfter q other [0xCB, (opcode &&& 0xF8) ||| 6] 2 ∧
    instructionSet.CompletesAfter q other [0xCB, opcode] 2 ∧
    ∃ front tail : Text, cell.completeText = front ++ .ofString "(HL)" ∧
      taken.completeText = front ++ .ofString "(" ++ .ofString register ++
        .ofChars (signedDecimal (signExtend 8 d.toNat)) ++ .ofString ")" ++ tail ∧
      if opcode &&& 7 = 6 ∨ 0x40 ≤ opcode ∧ opcode ≤ 0x7F then tail = []
      else ∃ name ∈ byteRegisters, name ≠ "(HL)" ∧ tail = .ofString "," ++ .ofString name ∧
        plain.completeText = front ++ .ofString name := by
  intro bytes taken cell plain
  obtain ⟨hcompletes, hmode, htext⟩ := feed_indexedBit hlead d opcode hr haddress
  obtain ⟨hcell, hcellText⟩ := feed_bit ((opcode &&& 0xF8) ||| 6) hq hother
  obtain ⟨hplain, hplainText⟩ := feed_bit opcode hq hother
  rw [(cellOpcode opcode).1, (cellOpcode opcode).2] at hcellText
  refine ⟨fun k hpos hk => feed_leads hlead d opcode hr haddress hcompletes hpos hk, hcompletes, hmode, hcell, hplain,
    .ofChars (entry bitGroup (opcode >>> 3)), .ofChars (copyTail opcode), ?_, ?_, ?_⟩
  · rw [hcellText, Text.ofChars_append]
    rfl
  · rw [htext]
    simp [Text.ofString]
  · unfold copyTail
    split
    · rfl
    · rename_i htail
      obtain ⟨name, hname, heq⟩ := exists_register opcode
      refine ⟨name, hname, ?_, ?_, ?_⟩
      · rintro rfl
        exact register_ne_cell opcode (not_or.mp htail).1 heq
      · rw [heq]
        rfl
      · rw [hplainText, heq, Text.ofChars_append]
        rfl

end

/-- A set bit with a copy of the result, and the decoder has a past. -/
theorem feed_indexed_bit_copy :
    let r := (instructionSet.feed {} 0x2000 [0xED, 0x4B, 0x34, 0x12]).record
    let q : Record Mode := {}
    let taken := (instructionSet.feed r 0xFFFE [0xFD, 0xCB, 0x80, 0xC1]).record
    let cell := (instructionSet.feed q 0 [0xCB, 0xC6]).record
    let plain := (instructionSet.feed q 0 [0xCB, 0xC1]).record
    ((0xFD, "IY") ∈ indexLeads ∧ r.phase ≠ .fetching ∧ InRange 0xFFFE ∧ q.phase ≠ .fetching ∧ InRange 0) ∧
    instructionSet.CompletesAfter r 0xFFFE [0xFD, 0xCB, 0x80, 0xC1] 4 ∧ taken.mode = some .disp8 ∧
    ∃ (front : Text) (name : String), cell.completeText = front ++ .ofString "(HL)" ∧
      plain.completeText = front ++ .ofString name ∧
      taken.completeText = front ++ .ofString "(" ++ .ofString "IY" ++
        .ofChars (signedDecimal (signExtend 8 0x80)) ++ .ofString ")" ++ (.ofString "," ++ .ofString name) := by
  intro r q taken cell plain
  have hlead : (0xFD, "IY") ∈ indexLeads := by decide
  have hr : r.phase ≠ .fetching := by decide
  have haddress : InRange 0xFFFE := ⟨by decide, by decide⟩
  have hq : q.phase ≠ .fetching := by decide
  obtain ⟨-, hcompletes, hmode, -, -, front, tail, hcell, htaken, htail⟩ :=
    feed_indexed_bit hlead 0x80 0xC1 hr haddress hq inRange_zero
  rw [if_neg (by decide)] at htail
  obtain ⟨name, -, -, rfl, hplain⟩ := htail
  exact ⟨⟨hlead, hr, haddress, hq, inRange_zero⟩, hcompletes, hmode, front, name, hcell, hplain, htaken⟩

end Z80

end EightBit
