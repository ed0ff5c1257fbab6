import EightBit.Proofs.Pages
import EightBit.Proofs.Targets.Basic
set_option autoImplicit false

/-!
# Targets of the 6809

Names and operands are written in few symbols (`statement_symbols`), so a text shows an angle bracket only where
an address is added.  A relative mode shows the distance in its last byte or its last two bytes, and no other
mode shows one (`refers`).
-/

namespace EightBit

namespace Mc6809

/-- The number of bytes of the distance in a relative mode. -/
def Mode.distanceBytes? : Mode → Option Nat
  | .rel8 | .pcrel8 | .pcrel8Ind => some 1
  | .rel16 | .pcrel16 | .pcrel16Ind => some 2
  | _ => none

variable {r : Record Mode} {address : Int} {bytes : List UInt8} {mode : Mode} {shown : Rendering} {b : Buffer}
  {i : Int} {x : List (List Char) × Option Int}

/-! ## Names -/

/-- The two software interrupts of the pages have a digit in their names. -/
theorem pagedMnemonic_bare {opcode : Int} (h : opcode ≠ 0x103F) (h' : opcode ≠ 0x113F) :
    Bare (pagedMnemonic opcode).toList := by
  have hnames : ∀ t ∈ pagedNames, Bare t.toList := by decide
  exact hnames _ (pagedMnemonic_mem h h')

/-- The entries of the page bytes are no names. -/
theorem opcodes_bare (opcode : UInt8) (h : Mode.opensPage opcode.toNat = false) :
    Bare (opcodes.getD opcode.toNat "?").toList := by
  revert h
  apply Spelled.forall_entry (P := fun opcode t => Mode.opensPage opcode.toNat = false → Bare t)
  · unfold opcodes
    repeat' constructor
  · exact length_opcodes
  · decide +kernel

/-- The symbols that names of instructions are made of. -/
def nameSymbols : List Char :=
  ['?', '0', '1', '2', '3', '4', '5', '6', '7', '8', '9', 'A', 'B', 'C', 'D', 'E', 'F', 'G', 'H', 'I', 'J', 'K', 'L',
   'M', 'N', 'O', 'P', 'Q', 'R', 'S', 'T', 'U', 'V', 'W', 'X', 'Y', 'Z']

theorem pagedMnemonic_symbols (opcode : Int) : (pagedMnemonic opcode).toList ⊆ nameSymbols := by
  have hnames : ∀ t ∈ interruptNames ++ pagedNames, t.toList ⊆ nameSymbols := by decide
  exact hnames _ (pagedMnemonic_mem_append opcode)

theorem opcodes_symbols (opcode : UInt8) (h : Mode.opensPage opcode.toNat = false) :
    (opcodes.getD opcode.toNat "?").toList ⊆ nameSymbols := by
  revert h
  apply Spelled.forall_entry (P := fun opcode t => Mode.opensPage opcode.toNat = false → t ⊆ nameSymbols)
  · unfold opcodes
    repeat' constructor
  · exact length_opcodes
  · decide +kernel

/-- The name that is shown is one of an instruction, not the entry of a page byte. -/
theorem mnemonic_symbols {name : String} (h : mnemonic b.code = .ok name) : name.toList ⊆ nameSymbols := by
  obtain ⟨opcode, second, -, -, h0, h1, -, -⟩ := b.exists_front
  cases hpage : Mode.opensPage opcode.toNat with
  | false =>
      rw [mnemonic_plain h0 hpage] at h
      cases h
      exact opcodes_symbols opcode hpage
  | true =>
      rw [mnemonic_paged h0 h1 hpage] at h
      cases h
      exact pagedMnemonic_symbols _

/-- The name of an instruction with operands is bare. -/
theorem mnemonic_bare {name : String} {k : Nat} (h : mnemonic b.code = .ok name) (hk : 0 < k)
    (hcode : Mode.ofCode b.code k = .ok (some mode)) (hmode : mode ≠ .inherent) : Bare name.toList := by
  obtain ⟨opcode, second, -, -, h0, h1, -, -⟩ := b.exists_front
  cases hpage : Mode.opensPage opcode.toNat with
  | false =>
      rw [mnemonic_plain h0 hpage] at h
      cases h
      exact opcodes_bare opcode hpage
  | true =>
      rw [mnemonic_paged h0 h1 hpage] at h
      cases h
      have hinherent : Mode.ofPagedOpcode? (joinBytes opcode.toNat second.toNat) ≠ some .inherent := by
        intro hpaged
        rw [Mode.ofCode_of_page h0 hpage hk] at hcode
        rcases Nat.lt_or_ge k 2 with hlt | hge
        · rw [Mode.ofPaged, if_pos (by omega)] at hcode
          cases hcode
        · rw [Mode.ofPaged_of_some h0 h1 hpaged hge] at hcode
          cases hcode
          exact hmode rfl
      apply pagedMnemonic_bare
      · intro heq
        rw [heq] at hinherent
        exact hinherent rfl
      · intro heq
        rw [heq] at hinherent
        exact hinherent rfl

/-! ## Operands -/

/-- The symbols that operands are made of. -/
def statementSymbols : List Char :=
  [' ', '#', '$', '+', ',', '-', '<', '[', ']'] ++ nameSymbols

theorem numeral_symbols {text : List Char} (h : ∀ c ∈ text, c ∈ numeralSymbols) : text ⊆ statementSymbols := by
  have hsubset : numeralSymbols ⊆ statementSymbols := by decide
  exact fun c hc => hsubset (h c hc)

theorem hex8_symbols (value : Int) : hex8 value ⊆ statementSymbols :=
  numeral_symbols fun _ => mem_hexPadded

theorem hex16_symbols (value : Int) : hex16 value ⊆ statementSymbols :=
  numeral_symbols fun _ => mem_hexPadded

theorem decimal_symbols (value : Int) : decimal value ⊆ statementSymbols :=
  numeral_symbols fun _ => mem_decimal

theorem indexRegister_symbols (number : Nat) : (indexRegisters.getD number "").toList ⊆ statementSymbols :=
  forall_getD (P := fun t : String => t.toList ⊆ statementSymbols) (by decide) (by decide) number

theorem accumulator_symbols (postbyte : UInt8) : accumulator postbyte ∈ statementSymbols := by
  unfold accumulator
  split <;> decide

theorem stackedRegisters_symbols (opcode : Int) (mask : UInt8) :
    joined ((stackedRegisters opcode mask).map String.toList) ⊆ statementSymbols := by
  have hall : ∀ t ∈ stackedRegisters opcode 0xFF, t.toList ⊆ statementSymbols := by
    unfold stackedRegisters
    split <;> decide
  intro c hc
  rcases mem_joined hc with rfl | ⟨text, htext, hsymbol⟩
  · decide
  · obtain ⟨t, ht, rfl⟩ := List.mem_map.mp htext
    exact hall t ((stackedRegisters_sublist opcode mask).subset ht) hsymbol

theorem through_symbols {text : List Char} (h : text ⊆ statementSymbols) (mode : Mode) :
    (if mode.isIndirect then '[' :: text ++ [']'] else text) ⊆ statementSymbols := by
  split
  · exact List.append_subset.mpr ⟨List.cons_subset.mpr ⟨by decide, h⟩, by decide⟩
  · exact h

theorem operands_symbols (h0 : 0 ≤ i) (h6 : i < 6) (h : operands mode b.code i = .ok x) :
    joined x.1 ⊆ statementSymbols := by
  obtain ⟨opcode, -, -, -, hopcode, -, -, -⟩ := b.exists_front
  obtain ⟨first, hfirst⟩ := b.exists_pick_code (i := i) h0 (by omega)
  obtain ⟨second, hsecond⟩ := b.exists_pick_code (i := i + 1) (by omega) (by omega)
  obtain ⟨third, hthird⟩ := b.exists_pick_code (i := i + 1 + 1) (by omega) (by omega)
  obtain ⟨source, hmem, hsource⟩ := exists_source first
  obtain ⟨target, hmem', htarget⟩ := exists_target first
  have hregister := indexRegister_symbols ((UInt8.ofInt first.toNat >>> 5) &&& 3).toNat
  have hcomma := List.cons_subset.mpr ⟨(by decide : ',' ∈ statementSymbols), hregister⟩
  cases mode <;>
    simp only [operands, readS8, readU16be, readS16be, hfirst, hsecond, hthird, hopcode, hsource, htarget, ok_bind,
      pure_eq_ok, Except.ok.injEq] at h <;>
    subst h
  case exgTfr =>
    have htable : ∀ t ∈ transferRegisters, t.toList ⊆ statementSymbols := by decide
    rw [joined_pair]
    exact List.append_subset.mpr ⟨htable source hmem, List.cons_subset.mpr ⟨by decide, htable target hmem'⟩⟩
  case pshPul => exact stackedRegisters_symbols opcode.toNat _
  case inherent | invalid => exact List.nil_subset _
  all_goals rw [joined_singleton]
  case direct => exact List.append_subset.mpr ⟨by decide, hex8_symbols _⟩
  case extended => exact List.cons_subset.mpr ⟨by decide, hex16_symbols _⟩
  case extendedInd => exact through_symbols (List.cons_subset.mpr ⟨by decide, hex16_symbols _⟩) _
  case imm8 => exact List.append_subset.mpr ⟨(by decide : ['#', '$'] ⊆ statementSymbols), hex8_symbols _⟩
  case imm16 => exact List.append_subset.mpr ⟨(by decide : ['#', '$'] ⊆ statementSymbols), hex16_symbols _⟩
  case rel8 | rel16 => exact decimal_symbols _
  case zeroOff | zeroOffInd => exact through_symbols hcomma _
  case constOff5 => exact List.append_subset.mpr ⟨decimal_symbols _, hcomma⟩
  case constOff8 | constOff8Ind | constOff16 | constOff16Ind =>
    exact through_symbols (List.append_subset.mpr ⟨decimal_symbols _, hcomma⟩) _
  case accOff | accOffInd => exact through_symbols (List.cons_subset.mpr ⟨accumulator_symbols _, hcomma⟩) _
  case postInc1 => exact List.append_subset.mpr ⟨hcomma, by decide⟩
  case postInc2 | postInc2Ind => exact through_symbols (List.append_subset.mpr ⟨hcomma, by decide⟩) _
  case preDec1 => exact List.append_subset.mpr ⟨(by decide : [',', '-'] ⊆ statementSymbols), hregister⟩
  case preDec2 | preDec2Ind =>
    exact through_symbols (List.append_subset.mpr ⟨(by decide : [',', '-', '-'] ⊆ statementSymbols), hregister⟩) _
  case pcrel8 | pcrel8Ind | pcrel16 | pcrel16Ind =>
    exact through_symbols (List.append_subset.mpr ⟨decimal_symbols _, by decide⟩) _

theorem statement_symbols {name : String} (hname : mnemonic b.code = .ok name) (h0 : 0 ≤ i) (h6 : i < 6)
    (h : operands mode b.code i = .ok x) : statement name.toList x.1 ⊆ statementSymbols := by
  have hfront : name.toList ⊆ statementSymbols :=
    List.Subset.trans (mnemonic_symbols hname) (List.subset_append_right _ _)
  by_cases hempty : x.1 = []
  · rw [hempty]
    exact hfront
  · rw [statement_eq hempty]
    exact List.append_subset.mpr ⟨hfront, List.cons_subset.mpr ⟨by decide, operands_symbols h0 h6 h⟩⟩

/-- Modes without a distance refer to no address. -/
theorem operands_plain (h0 : 0 ≤ i) (h6 : i < 6) (hmode : mode.distanceBytes? = none)
    (h : operands mode b.code i = .ok x) : x.2 = none := by
  obtain ⟨opcode, -, -, -, hopcode, -, -, -⟩ := b.exists_front
  obtain ⟨first, hfirst⟩ := b.exists_pick_code (i := i) h0 (by omega)
  obtain ⟨second, hsecond⟩ := b.exists_pick_code (i := i + 1) (by omega) (by omega)
  obtain ⟨third, hthird⟩ := b.exists_pick_code (i := i + 1 + 1) (by omega) (by omega)
  obtain ⟨source, -, hsource⟩ := exists_source first
  obtain ⟨target, -, htarget⟩ := exists_target first
  cases mode <;> cases hmode <;>
    simp only [operands, readS8, readU16be, readS16be, hfirst, hsecond, hthird, hopcode, hsource, htarget, ok_bind,
      pure_eq_ok, Except.ok.injEq] at h <;>
    subst h <;>
    rfl

/-- Brackets around a distance are bare. -/
theorem through_distance (mode : Mode) (distance : Int) : ∃ front back, Bare front ∧ Bare back ∧
    (if mode.isIndirect then '[' :: (decimal distance ++ ",PCR".toList) ++ [']']
      else decimal distance ++ ",PCR".toList) = front ++ decimal distance ++ back := by
  split
  · exact ⟨['['], ",PCR]".toList, by decide, by decide, by simp⟩
  · exact ⟨[], ",PCR".toList, by decide, by decide, rfl⟩

/-- In a relative mode the operand is the distance in the last bytes among bare symbols. -/
theorem operands_relative (h : instructionSet.Holds r address bytes mode shown) {n : Nat} {m : Int}
    (hn : mode.distanceBytes? = some n) (hm : mode.operandBytes? = some m) (h0 : 0 ≤ i)
    (hlength : (bytes.length : Int) = i + m) :
    ∃ front back, Bare front ∧ Bare back ∧ operands mode r.buffer.code i =
      .ok ([front ++ decimal (signedTail n bytes) ++ back], some (signedTail n bytes)) := by
  obtain ⟨k, rfl⟩ := Int.eq_ofNat_of_zero_le h0
  have hk : k < bytes.length := by
    have hpos : 1 ≤ m := by cases mode <;> cases hn <;> cases hm <;> decide
    omega
  have hfirst : pick r.buffer.code k = .ok (bytes[k].toNat : Int) := h.byte_eq (List.getElem?_eq_getElem hk)
  have hbyte : ∀ j : Nat, n = 1 → bytes.length = j + 1 → readS8 r.buffer.code j = .ok (signedTail n bytes) := by
    rintro j rfl hj
    exact h.readS8_last hj
  have hword : ∀ j : Nat, n = 2 → bytes.length = j + 2 → readS16be r.buffer.code j = .ok (signedTail n bytes) := by
    rintro j rfl hj
    exact h.readS16be_last hj
  generalize signedTail n bytes = distance at hbyte hword ⊢
  cases mode <;> cases hn <;> cases hm
  case rel8 =>
    have hread := hbyte k rfl (by omega)
    rw [readS8, hfirst, ok_bind] at hread
    have hvalue : signExtend 8 (bytes[k].toNat : Int) = distance := Except.ok.inj hread
    exact ⟨[], [], by decide, by decide, by simp [operands, hfirst, hvalue]⟩
  case rel16 =>
    have hread := hword k rfl (by omega)
    exact ⟨[], [], by decide, by decide, by simp [operands, hfirst, hread]⟩
  case pcrel8 | pcrel8Ind =>
    have hread := hbyte (k + 1) rfl (by omega)
    rw [Int.natCast_succ] at hread
    simp only [operands, hfirst, hread, ok_bind, pure_eq_ok]
    obtain ⟨front, back, hfront, hback, htext⟩ := through_distance _ distance
    exact ⟨front, back, hfront, hback, by rw [htext]⟩
  case pcrel16 | pcrel16Ind =>
    have hread := hword (k + 1) rfl (by omega)
    rw [Int.natCast_succ] at hread
    simp only [operands, hfirst, hread, ok_bind, pure_eq_ok]
    obtain ⟨front, back, hfront, hback, htext⟩ := through_distance _ distance
    exact ⟨front, back, hfront, hback, by rw [htext]⟩

theorem refers (h : instructionSet.Holds r address bytes mode shown) :
    shown.Refers address 0 (mode.distanceBytes?.map fun n => signedTail n bytes) := by
  have hrender : render r = .ok shown := h.render_eq
  by_cases hvalid : mode = .invalid
  · subst hvalid
    rw [render, h.mode_eq] at hrender
    cases hrender
    exact refers_unknownMode address 0
  · obtain ⟨opcode, -, -, -, hopcode, -, -, -⟩ := r.buffer.exists_front
    have hbounds := opcodeBytes_bounds opcode.toNat
    obtain ⟨name, x, hname, hx, rfl⟩ := exists_statement h.mode_eq hvalid hopcode hrender
    cases hdistance : mode.distanceBytes? with
    | none =>
        have hnone := operands_plain (by omega) (by omega) hdistance hx
        have hmark : '>' ∉ statement name.toList x.1 :=
          fun hmem => absurd (statement_symbols hname (by omega) (by omega) hx hmem) (by decide)
        exact .plain (by rw [hnone]; rfl) (.inl hmark)
    | some n =>
        obtain ⟨k, hdecides, -⟩ := h.exists_decidesAt
        obtain ⟨hcode, hlength⟩ := layout_eq_some hopcode hdecides.layout_eq
        obtain ⟨m, hm, -, hlength⟩ := hlength.resolve_left fun hinvalid => hvalid hinvalid.1
        have hinherent : mode ≠ .inherent := by
          rintro rfl
          cases hdistance
        have hbare := mnemonic_bare hname hdecides.pos hcode hinherent
        obtain ⟨front, back, hfront, hback, hoperands⟩ := operands_relative h hdistance hm (by omega) hlength
        rw [hoperands] at hx
        cases hx
        have hrefers := refers_statement hbare hfront hback address 0 (signedTail n bytes)
        rw [Int.zero_add] at hrefers
        rw [h.address_eq]
        exact hrefers

end Mc6809

end EightBit
