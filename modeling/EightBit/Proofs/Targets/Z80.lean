import EightBit.Proofs.Forms
import EightBit.Proofs.Targets.Basic
set_option autoImplicit false

/-!
# Targets of the Z80

The relative mode is that of the jumps, which may stand behind an index lead (`jump_of_form`).  A jump adds two to
its distance, and that is the length of a jump without a lead.  One behind `0xDD` or `0xFD` is longer by one, and
the address that it shows is one short of what lies that far behind its end (`feed_jump`).
-/

namespace EightBit

namespace Z80

/-- The number of bytes of the distance in a relative mode. -/
def Mode.distanceBytes? : Mode → Option Nat
  | .pcrel8 => some 1
  | _ => none

/-- The opcodes of the relative jumps. -/
def jumps : List UInt8 :=
  [0x10, 0x18, 0x20, 0x28, 0x30, 0x38]

variable {r : Record Mode} {address : Int} {bytes : List UInt8} {mode : Mode} {shown : Rendering}

/-- Only jumps have the symbol of a distance, and none has that of a target. -/
theorem plainTemplate_symbols (opcode : UInt8) :
    '>' ∉ plainTemplate opcode ∧ ('r' ∈ plainTemplate opcode → opcode ∈ jumps) := by
  apply Spelled.forall_entry (P := fun opcode t => '>' ∉ t ∧ ('r' ∈ t → opcode ∈ jumps))
  · unfold opcodes
    repeat' constructor
  · exact length_opcodes
  · decide +kernel

theorem isJump_of_mem {opcode : UInt8} (h : opcode ∈ jumps) :
    'H' ∉ plainTemplate opcode ∧ Template.isJump (Template.parse placeholders (plainTemplate opcode)) = true := by
  have htable : (jumps.all fun opcode => 'H' ∉ plainTemplate opcode ∧
      Template.isJump (Template.parse placeholders (plainTemplate opcode)) = true) = true := by decide
  simpa using List.all_eq_true.mp htable opcode h

/-- A jump is no lead and no addition. -/
theorem isLead_of_jump {opcode : UInt8} (h : opcode ∈ jumps) :
    isLead (opcode.toNat : Int) = false ∧ opcode &&& 0xCF ≠ 0x09 := by
  simp only [jumps, List.mem_cons, List.not_mem_nil, or_false] at h
  rcases h with rfl | rfl | rfl | rfl | rfl | rfl <;> decide

theorem not_mem_of_form {code : List Int} {t : List Char} {offset length : Int} (h : Form code t offset length) :
    '>' ∉ t := by
  intro hmem
  obtain ⟨opcode, hopcode, -⟩ := h.opcode_of_mem (.of_not_mem (by decide)) hmem
  exact (plainTemplate_symbols opcode).1 hopcode

/-- The code is that of a jump, which may stand behind an index lead, with its distance at `offset`. -/
inductive JumpAt (code : List Int) (opcode : UInt8) : (offset : Int) → Prop
  | plain (h0 : pick code 0 = .ok (opcode.toNat : Int)) : JumpAt code opcode 1
  | indexed {lead : UInt8} (hlead : isIndexLead (lead.toNat : Int) = true)
      (h0 : pick code 0 = .ok (lead.toNat : Int)) (h1 : pick code 1 = .ok (opcode.toNat : Int)) :
      JumpAt code opcode 2

theorem JumpAt.offset_nonneg {code : List Int} {opcode : UInt8} {offset : Int} (h : JumpAt code opcode offset) :
    0 ≤ offset := by
  cases h <;> decide

theorem JumpAt.form {code : List Int} {opcode : UInt8} {offset : Int} (h : JumpAt code opcode offset)
    (hjump : opcode ∈ jumps) : Form code (plainTemplate opcode) offset offset := by
  obtain ⟨hlead, hadd⟩ := isLead_of_jump hjump
  cases h with
  | plain h0 => exact .plain h0 hlead
  | @indexed lead hindex h0 h1 =>
      have hbit : opcode ≠ 0xCB := by
        rintro rfl
        cases hlead
      have htemplate := indexedTemplate_eq lead opcode
      rw [leadTemplate_eq_self (isJump_of_mem hjump).1 hadd] at htemplate
      exact .indexed h0 h1 hindex hbit htemplate

/-- A template with a distance is that of a jump. -/
theorem jump_of_form {code : List Int} {t : List Char} {offset length : Int} (h : Form code t offset length)
    (hmem : 'r' ∈ t) :
    ∃ opcode ∈ jumps, t = plainTemplate opcode ∧ length = offset ∧ JumpAt code opcode offset := by
  obtain ⟨opcode, hopcode, hform⟩ := h.opcode_of_mem (.of_not_mem (by decide)) hmem
  have hjump := (plainTemplate_symbols opcode).2 hopcode
  refine ⟨opcode, hjump, ?_⟩
  rcases hform with ⟨h0, ht, rfl, rfl⟩ | ⟨lead, hlead, h0, h1, ht, rfl, rfl⟩
  · exact ⟨ht, rfl, .plain h0⟩
  · rw [indexed_eq_self (isJump_of_mem hjump).1] at ht
    exact ⟨ht, rfl, .indexed hlead h0 h1⟩

/-- A distance is written with an `r`. -/
theorem kind_of_plain {t : List Char} (hplain : 'r' ∉ t) {p : Placeholder Char}
    (hp : p ∈ Template.operands (Template.parse placeholders t)) :
    p.kind = .u16 ∨ p.kind = .u8 ∨ p.kind = .disp8 := by
  have hmem := Template.mem_of_mem_operands_parse hp
  simp only [placeholders, List.mem_cons, List.not_mem_nil, or_false] at hmem
  rcases hmem with rfl | rfl | rfl | rfl
  · exact .inl rfl
  · exact .inr (.inl rfl)
  · exact .inr (.inr rfl)
  · exact absurd (Template.mem_of_mem_operand hp (c := 'r') (by decide)) hplain

theorem target_of_kind {i : Int} {p : Placeholder Char} {value : Rendering}
    (hkind : p.kind = .u16 ∨ p.kind = .u8 ∨ p.kind = .disp8) (h0 : 0 ≤ i) (h7 : i < 7)
    (h : operand r i p = .ok value) : value.target = none := by
  obtain ⟨low, hlow⟩ := r.buffer.exists_pick_code (i := i) h0 (by omega)
  obtain ⟨high, hhigh⟩ := r.buffer.exists_pick_code (i := i + 1) (by omega) (by omega)
  rcases hkind with hkind | hkind | hkind <;>
    simp only [operand, hkind, readU16le, readS8, hlow, hhigh, ok_bind, pure_eq_ok, Except.ok.injEq] at h <;>
    rw [← h]

theorem distanceBytes?_of_plain {t : List Char} (hplain : 'r' ∉ t) :
    (Mode.ofOperands (Template.operands (Template.parse placeholders t))).distanceBytes? = none := by
  cases hoperands : Template.operands (Template.parse placeholders t) with
  | nil => rfl
  | cons p rest =>
      have hp : p ∈ Template.operands (Template.parse placeholders t) := by
        rw [hoperands]
        exact List.mem_cons_self
      rcases kind_of_plain hplain hp with hkind | hkind | hkind <;>
        simp [Mode.ofOperands, hkind, Mode.distanceBytes?]

/-- The template of a jump has the placeholder of a distance. -/
theorem segments_of_jump {t : List Char} (hjump : Template.isJump (Template.parse placeholders t) = true) :
    ∃ text, Template.parse placeholders t = [.literal text, .operand ⟨"rrrr".toList, .pcrel8, 1⟩] ∧ Bare text := by
  obtain ⟨text, p, hsegments, hbare, hkind⟩ := Template.exists_of_isJump hjump
  have hp : p ∈ placeholders := by
    have hmem : p ∈ Template.operands (Template.parse placeholders t) := by
      rw [hsegments]
      exact List.mem_cons_self
    exact Template.mem_of_mem_operands_parse hmem
  simp only [placeholders, List.mem_cons, List.not_mem_nil, or_false] at hp
  rcases hp with rfl | rfl | rfl | rfl
  · cases hkind
  · cases hkind
  · cases hkind
  · exact ⟨text, hsegments, hbare⟩

/-- What follows from the template of a jump. -/
theorem refers_jump {t : List Char} {offset : Int} (h : instructionSet.Holds r address bytes mode shown)
    (hjump : Template.isJump (Template.parse placeholders t) = true)
    (hmode : mode = Mode.ofOperands (Template.operands (Template.parse placeholders t))) (h0 : 0 ≤ offset)
    (hlength : (bytes.length : Int) = offset + Template.size (Template.parse placeholders t))
    (hrender : Template.render (operand r) offset (Template.parse placeholders t) = .ok shown) :
    mode = .pcrel8 ∧ (bytes.length : Int) = offset + 1 ∧
      shown.Refers address 0 (some (signedTail 1 bytes + 2)) := by
  obtain ⟨text, hsegments, hbare⟩ := segments_of_jump hjump
  rw [hsegments] at hmode hlength hrender
  have hlength' : (bytes.length : Int) = offset + 1 := hlength
  obtain ⟨k, rfl⟩ := Int.eq_ofNat_of_zero_le h0
  have hread : readS8 r.buffer.code k = .ok (signedTail 1 bytes) := h.readS8_last (Int.ofNat_inj.mp hlength')
  generalize signedTail 1 bytes = distance at hread ⊢
  have hvalue : operand r k ⟨"rrrr".toList, .pcrel8, 1⟩ =
      .ok { text := decimal (distance + 2), target := some (targetOf address (distance + 2)) } := by
    simp only [operand, hread, h.address_eq, ok_bind, pure_eq_ok]
  obtain ⟨htext, htarget⟩ := Template.render_jump hvalue hrender
  refine ⟨hmode, hlength', .relative hbare (by decide : Bare []) ?_ ?_⟩
  · rw [htext, List.append_nil]
  · rw [htarget, Int.zero_add]

theorem refers (h : instructionSet.Holds r address bytes mode shown) :
    shown.Refers address 0 (mode.distanceBytes?.map fun n => signedTail n bytes + 2) := by
  obtain ⟨t, offset, length, hform⟩ := exists_form r.buffer
  obtain ⟨hmode, hlength, hrender⟩ := hform.of_holds h
  by_cases hmem : 'r' ∈ t
  · obtain ⟨opcode, hjump, rfl, rfl, hplace⟩ := jump_of_form hform hmem
    obtain ⟨rfl, -, hrefers⟩ := refers_jump h (isJump_of_mem hjump).2 hmode hplace.offset_nonneg hlength hrender
    exact hrefers
  · obtain ⟨k, hdecided⟩ := hform.exists_decidedAt
    obtain ⟨htarget, htext⟩ := Template.render_plain hrender (not_mem_of_form hform) fun j p value hp hvalue => by
      obtain ⟨hfirst, hend⟩ := hdecided.placed_bounds hp
      have hkind := kind_of_plain hmem (Template.mem_placed hp).1
      exact ⟨target_of_kind hkind hfirst (by omega) hvalue, isOperand_operand hfirst (by omega) hvalue⟩
    rw [hmode, distanceBytes?_of_plain hmem]
    exact .plain htarget (.inl htext)

/-- A relative jump: an index lead or none, an opcode and a distance. -/
structure Jump (bytes leads : List UInt8) (opcode distance : UInt8) : Prop where
  bytes_eq : bytes = leads ++ [opcode, distance]
  leads_mem : leads ∈ [[], [0xDD], [0xFD]]
  opcode_mem : opcode ∈ jumps

/-- What is complete in the relative mode is a jump. -/
theorem exists_jump (h : instructionSet.Holds r address bytes .pcrel8 shown) :
    ∃ leads opcode distance, Jump bytes leads opcode distance := by
  obtain ⟨t, offset, length, hform⟩ := exists_form r.buffer
  obtain ⟨hofOperands, hlength, hrender⟩ := hform.of_holds h
  have hmem : 'r' ∈ t := by
    apply Classical.byContradiction
    intro hplain
    have hnone := distanceBytes?_of_plain hplain
    rw [← hofOperands] at hnone
    cases hnone
  obtain ⟨opcode, hjump, rfl, rfl, hplace⟩ := jump_of_form hform hmem
  obtain ⟨-, hlength', -⟩ := refers_jump h (isJump_of_mem hjump).2 hofOperands hplace.offset_nonneg hlength hrender
  cases hplace with
  | plain h0 =>
      obtain ⟨first, distance, rfl⟩ := List.length_eq_two.mp (Int.ofNat_inj.mp hlength')
      obtain rfl : first = opcode := h.byte_unique rfl h0
      exact ⟨[], first, distance, rfl, by decide, hjump⟩
  | @indexed lead hlead h0 h1 =>
      obtain ⟨first, second, distance, rfl⟩ := List.length_eq_three.mp (Int.ofNat_inj.mp hlength')
      obtain rfl : first = lead := h.byte_unique rfl h0
      obtain rfl : second = opcode := h.byte_unique rfl h1
      refine ⟨[first], second, distance, rfl, ?_, hjump⟩
      rw [isIndexLead_toNat] at hlead
      rcases hlead with rfl | rfl <;> decide

namespace Jump

variable {leads : List UInt8} {opcode distance : UInt8}

theorem length_eq (h : Jump bytes leads opcode distance) : bytes.length = leads.length + 1 + 1 := by
  rw [h.bytes_eq, List.length_append]
  rfl

theorem signedTail_eq (h : Jump bytes leads opcode distance) :
    signedTail 1 bytes = signExtend 8 distance.toNat := by
  apply signedTail_byte h.length_eq
  rw [h.bytes_eq, List.drop_length_add_append]
  rfl

theorem jumpAt {b : Buffer} (h : Jump bytes leads opcode distance) (hfetched : b.fetched = bytes) :
    JumpAt b.code opcode (leads.length + 1) := by
  have hleads := h.leads_mem
  simp only [List.mem_cons, List.not_mem_nil, or_false] at hleads
  rw [h.bytes_eq] at hfetched
  have hpick : ∀ {i : Nat} {byte : UInt8}, (leads ++ [opcode, distance])[i]? = some byte →
      pick b.code i = .ok (byte.toNat : Int) := by
    intro i byte hbyte
    exact Buffer.pick_of_fetched (hfetched ▸ hbyte)
  rcases hleads with rfl | rfl | rfl
  · exact .plain (hpick rfl)
  · exact .indexed (isIndexLead_toNat.mpr (.inl rfl)) (hpick rfl) (hpick rfl)
  · exact .indexed (isIndexLead_toNat.mpr (.inr rfl)) (hpick rfl) (hpick rfl)

/-- A jump is complete in the relative mode. -/
theorem measures (h : Jump bytes leads opcode distance) : instructionSet.Measures bytes .pcrel8 := by
  obtain ⟨text, hsegments, -⟩ := segments_of_jump (isJump_of_mem h.opcode_mem).2
  have hle : bytes.length ≤ 8 := by
    have hleads : leads.length ≤ 1 := by
      have hmem := h.leads_mem
      simp only [List.mem_cons, List.not_mem_nil, or_false] at hmem
      rcases hmem with rfl | rfl | rfl <;> decide
    rw [h.length_eq]
    omega
  have hform := (h.jumpAt (b := .ofBytes bytes hle) rfl).form h.opcode_mem
  have hlength : (bytes.length : Int) =
      leads.length + 1 + Template.size (Template.parse placeholders (plainTemplate opcode)) := by
    rw [hsegments, h.length_eq]
    rfl
  have hmeasures := hform.measures rfl hlength
  rw [hsegments] at hmeasures
  exact hmeasures

/-- A jump shows the address that lies its distance and two behind it. -/
theorem refers (h : Jump bytes leads opcode distance)
    (hholds : instructionSet.Holds r address bytes .pcrel8 shown) :
    shown.Refers address 0 (some (2 + signExtend 8 distance.toNat)) := by
  have hrefers : shown.Refers address 0 (some (signedTail 1 bytes + 2)) := Z80.refers hholds
  rwa [h.signedTail_eq, Int.add_comm] at hrefers

end Jump

end Z80

/-- The jumps are all that is complete in the relative mode.  A jump leads to the address that lies its distance and
two behind it, and that is its distance behind its end only if there is no lead. -/
theorem Z80.feed_jump {r : Record Z80.Mode} {address : Int} (bytes : List UInt8) (hr : r.phase ≠ .fetching)
    (haddress : InRange address) :
    let taken := (Z80.instructionSet.feed r address bytes).record
    (Z80.instructionSet.CompletesAfter r address bytes bytes.length ∧ taken.mode = some .pcrel8 ↔
      ∃ leads opcode distance, Jump bytes leads opcode distance) ∧
    ∀ leads opcode distance, Jump bytes leads opcode distance →
      taken.target = some ((address + 2 + signExtend 8 distance.toNat) % 0x10000) ∧
      (taken.target = some ((address + taken.required + signExtend 8 distance.toNat) % 0x10000) ↔ leads = []) := by
  intro taken
  have hcomplete : ∀ {leads opcode distance}, Jump bytes leads opcode distance →
      Z80.instructionSet.CompletesAfter r address bytes bytes.length ∧
        ∃ shown, Z80.instructionSet.Holds taken address bytes .pcrel8 shown :=
    fun hjump => Architecture.holds_of_measures .z80 hr haddress hjump.measures
  refine ⟨⟨?_, ?_⟩, ?_⟩
  · rintro ⟨h, hmode⟩
    obtain ⟨mode, shown, hholds⟩ : ∃ mode shown, Z80.instructionSet.Holds taken address bytes mode shown :=
      Architecture.feed_holds .z80 hr haddress h
    obtain rfl : mode = .pcrel8 := Option.some.inj (hholds.mode_eq.symm.trans hmode)
    exact exists_jump hholds
  · rintro ⟨leads, opcode, distance, hjump⟩
    obtain ⟨h, shown, hholds⟩ := hcomplete hjump
    exact ⟨h, hholds.mode_eq⟩
  · intro leads opcode distance hjump
    obtain ⟨-, shown, hholds⟩ := hcomplete hjump
    have htarget : taken.target = some ((address + 2 + signExtend 8 distance.toNat) % 0x10000) := by
      rw [hholds.target_eq, (hjump.refers hholds).display_some.1, Int.add_zero, Int.add_assoc]
    refine ⟨htarget, ?_⟩
    -- A lead sets the two addresses one apart, which is a difference also where they wrap.
    rw [htarget, hholds.required_eq, hjump.length_eq, Option.some.injEq]
    have hleads := hjump.leads_mem
    simp only [List.mem_cons, List.not_mem_nil, or_false] at hleads
    rcases hleads with rfl | rfl | rfl
    · simp
    · simp
      omega
    · simp
      omega

/-- The loop with the longest distance, at the last address and behind a lead. -/
theorem Z80.feed_jump_wrapped :
    let bytes : List UInt8 := [0xFD, 0x10, 0x7F]
    let taken := (Z80.instructionSet.feed {} 0xFFFF bytes).record
    (({} : Record Z80.Mode).phase ≠ .fetching ∧ InRange 0xFFFF ∧ Jump bytes [0xFD] 0x10 0x7F) ∧
    (Z80.instructionSet.CompletesAfter {} 0xFFFF bytes bytes.length ∧ taken.mode = some .pcrel8) ∧
    taken.target = some 0x0080 ∧ taken.target ≠ some ((0xFFFF + taken.required + 0x7F) % 0x10000) := by
  intro bytes taken
  have hr : ({} : Record Z80.Mode).phase ≠ .fetching := by decide
  have haddress : InRange 0xFFFF := ⟨by decide, by decide⟩
  have hjump : Jump bytes [0xFD] 0x10 0x7F := ⟨rfl, by decide, by decide⟩
  obtain ⟨hcomplete, htarget⟩ := Z80.feed_jump bytes hr haddress
  have hdistance : signExtend 8 (0x7F : UInt8).toNat = 0x7F := by decide
  obtain ⟨hplace, hbehind⟩ := htarget [0xFD] 0x10 0x7F hjump
  rw [hdistance] at hplace hbehind
  refine ⟨⟨hr, haddress, hjump⟩, hcomplete.mpr ⟨_, _, _, hjump⟩, hplace, ?_⟩
  intro heq
  exact List.cons_ne_nil _ _ (hbehind.mp heq)

/-- A jump over no byte, behind a lead: the address that it shows is that of its own last byte. -/
theorem Z80.feed_jump_into_itself :
    let bytes : List UInt8 := [0xDD, 0x18, 0x00]
    let taken := (Z80.instructionSet.feed {} 0x0100 bytes).record
    Z80.instructionSet.CompletesAfter {} 0x0100 bytes bytes.length ∧ taken.mode = some .pcrel8 ∧
    taken.target = some 0x0102 ∧
    taken.target ≠ some ((0x0100 + taken.required + signExtend 8 (0x00 : UInt8).toNat) % 0x10000) := by
  decide +kernel

end EightBit
