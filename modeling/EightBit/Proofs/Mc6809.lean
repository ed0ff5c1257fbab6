import EightBit.Mc6809.InstructionSet
import EightBit.Proofs.Lawful
import EightBit.Proofs.Rendering
set_option autoImplicit false

/-!
# The laws of the 6809

The mode is decided by the opcode, by the page opcode behind it, or by the postbyte behind either, so
after one, two or three bytes; the postbyte is one of the bytes that the length of its mode counts.  The
byte behind the opcode is read for every instruction, also where the instruction has ended before it,
but then nothing is made of it.
-/

namespace EightBit.Mc6809

open InstructionSet

namespace Mode

variable {code c d : List Int} {count i n : Int}

/-! ## What a postbyte decides -/

theorem ofPostbyteAt_of_le (h : count ≤ i) : ofPostbyteAt code count i = .ok none := by
  simp [ofPostbyteAt, h]

theorem ofPostbyteAt_of_lt {byte : Int} (hbyte : pick code i = .ok byte) (h : i < count) :
    ofPostbyteAt code count i = .ok (some (ofPostbyte (UInt8.ofInt byte))) := by
  have hlt : ¬ count ≤ i := by omega
  simp [ofPostbyteAt, hlt, hbyte]

/-- The mode counts a postbyte among its operand bytes, or it is invalid. -/
def TakesPostbyte (mode : Mode) : Prop :=
  mode = .invalid ∨ ∃ n, mode.operandBytes? = some n ∧ 1 ≤ n

theorem takesPostbyte_ofIndexDigit {digit : UInt8} {mode : Mode} (h : ofIndexDigit? digit = some mode) :
    mode.TakesPostbyte ∧ (mode.indirect?.getD .invalid).TakesPostbyte := by
  unfold ofIndexDigit? at h
  split at h <;> cases h <;> simp [TakesPostbyte, indirect?, operandBytes?]

theorem takesPostbyte_ofPostbyte (postbyte : UInt8) : (ofPostbyte postbyte).TakesPostbyte := by
  unfold ofPostbyte
  split
  · exact .inr ⟨3, rfl, by decide⟩
  · split
    · exact .inr ⟨1, rfl, by decide⟩
    · split
      · exact .inl rfl
      · rename_i hdigit
        obtain ⟨hdirect, hindirect⟩ := takesPostbyte_ofIndexDigit hdigit
        split
        · exact hdirect
        · exact hindirect

/-! ## When the mode is decided -/

/-- Only the invalid mode has no length. -/
theorem operandBytes?_eq_none_iff {mode : Mode} : mode.operandBytes? = none ↔ mode = .invalid := by
  cases mode <;> simp [operandBytes?]

theorem operandBytes?_bounds {mode : Mode} (h : mode.operandBytes? = some n) : 0 ≤ n ∧ n ≤ 3 := by
  cases mode <;> cases h <;> decide

/-- The number of bytes of opcode and page byte. -/
def opcodeBytes (opcode : Int) : Int :=
  if opensPage opcode then 2 else 1

theorem instructionLength_eq {opcode : Int} {mode : Mode} (h : mode.operandBytes? = some n) :
    instructionLength opcode mode = .ok (opcodeBytes opcode + n) := by
  simp only [instructionLength, h, opcodeBytes]
  split <;> congr 1 <;> omega

/-- The mode is open below a number of bytes and the same from there on, and that number is covered by
opcode and operands. -/
structure DecidedAt (code : List Int) (opcode : Int) (k : Nat) (mode : Mode) : Prop where
  pos : 0 < k
  le_three : k ≤ 3
  open_before : ∀ j : Nat, 0 < j → j < k → ofCode code j = .ok none
  decided : ∀ j : Nat, k ≤ j → ofCode code j = .ok (some mode)
  covered : ∀ n, mode.operandBytes? = some n → (k : Int) ≤ opcodeBytes opcode + n

section

variable {opcode second third : Int} {mode : Mode} {j : Nat}

theorem ofCode_of_some (h0 : pick code 0 = .ok opcode) (hpage : opensPage opcode = false)
    (hmode : ofOpcode? opcode = some mode) (hj : 0 < j) : ofCode code j = .ok (some mode) := by
  have hne : j ≠ 0 := by omega
  simp [ofCode, hne, h0, hpage, hmode]

theorem ofCode_of_none (h0 : pick code 0 = .ok opcode) (hpage : opensPage opcode = false)
    (hmode : ofOpcode? opcode = none) (hj : 0 < j) : ofCode code j = ofPostbyteAt code j 1 := by
  have hne : j ≠ 0 := by omega
  simp [ofCode, hne, h0, hpage, hmode]

theorem ofCode_of_page (h0 : pick code 0 = .ok opcode) (hpage : opensPage opcode = true) (hj : 0 < j) :
    ofCode code j = ofPaged code j := by
  have hne : j ≠ 0 := by omega
  simp [ofCode, hne, h0, hpage]

theorem ofPaged_of_some (h0 : pick code 0 = .ok opcode) (h1 : pick code 1 = .ok second)
    (hmode : ofPagedOpcode? (joinBytes opcode second) = some mode) (hj : 2 ≤ j) :
    ofPaged code j = .ok (some mode) := by
  have hle : ¬ (j : Int) < 2 := by omega
  simp [ofPaged, hle, h0, h1, hmode]

theorem ofPaged_of_none (h0 : pick code 0 = .ok opcode) (h1 : pick code 1 = .ok second)
    (hmode : ofPagedOpcode? (joinBytes opcode second) = none) (hj : 2 ≤ j) :
    ofPaged code j = ofPostbyteAt code j 2 := by
  have hle : ¬ (j : Int) < 2 := by omega
  simp [ofPaged, hle, h0, h1, hmode]

/-- The bytes of a code of three or more decide a mode. -/
theorem exists_decidedAt (h0 : pick code 0 = .ok opcode) (h1 : pick code 1 = .ok second)
    (h2 : pick code 2 = .ok third) : ∃ k mode, DecidedAt code opcode k mode := by
  cases hpage : opensPage opcode with
  | false =>
      have hbytes : opcodeBytes opcode = 1 := by simp [opcodeBytes, hpage]
      cases hmode : ofOpcode? opcode with
      | some mode =>
          refine ⟨1, mode, by decide, by decide, ?_, ?_, ?_⟩
          · intro j hpos hlt
            omega
          · intro j hj
            exact ofCode_of_some h0 hpage hmode hj
          · intro n hn
            have := operandBytes?_bounds hn
            omega
      | none =>
          refine ⟨2, ofPostbyte (UInt8.ofInt second), by decide, by decide, ?_, ?_, ?_⟩
          · intro j hpos hlt
            rw [ofCode_of_none h0 hpage hmode hpos, ofPostbyteAt_of_le (by omega)]
          · intro j hj
            rw [ofCode_of_none h0 hpage hmode (by omega), ofPostbyteAt_of_lt h1 (by omega)]
          · intro n hn
            rcases takesPostbyte_ofPostbyte (UInt8.ofInt second) with hinvalid | ⟨m, hm, hpos⟩
            · simp [hinvalid, operandBytes?] at hn
            · have : m = n := by simpa [hm] using hn
              omega
  | true =>
      have hbytes : opcodeBytes opcode = 2 := by simp [opcodeBytes, hpage]
      have hfirst : ∀ j : Nat, 0 < j → j < 2 → ofCode code j = .ok none := by
        intro j hpos hlt
        have hlt' : (j : Int) < 2 := by omega
        rw [ofCode_of_page h0 hpage hpos, ofPaged, if_pos hlt']
      cases hmode : ofPagedOpcode? (joinBytes opcode second) with
      | some mode =>
          refine ⟨2, mode, by decide, by decide, hfirst, ?_, ?_⟩
          · intro j hj
            rw [ofCode_of_page h0 hpage (by omega), ofPaged_of_some h0 h1 hmode hj]
          · intro n hn
            have := operandBytes?_bounds hn
            omega
      | none =>
          refine ⟨3, ofPostbyte (UInt8.ofInt third), by decide, by decide, ?_, ?_, ?_⟩
          · intro j hpos hlt
            rcases Nat.lt_or_ge j 2 with hlt2 | hge2
            · exact hfirst j hpos hlt2
            · rw [ofCode_of_page h0 hpage hpos, ofPaged_of_none h0 h1 hmode hge2,
                ofPostbyteAt_of_le (by omega)]
          · intro j hj
            rw [ofCode_of_page h0 hpage (by omega), ofPaged_of_none h0 h1 hmode (by omega),
              ofPostbyteAt_of_lt h2 (by omega)]
          · intro n hn
            rcases takesPostbyte_ofPostbyte (UInt8.ofInt third) with hinvalid | ⟨m, hm, hpos⟩
            · simp [hinvalid, operandBytes?] at hn
            · have : m = n := by simpa [hm] using hn
              omega

end

/-! ## Bytes that the mode depends on -/

theorem ofPostbyteAt_congr (h : AgreeBelow n c d) (h0 : 0 ≤ i) :
    ofPostbyteAt c n i = ofPostbyteAt d n i := by
  unfold ofPostbyteAt
  split
  · rfl
  · rw [h i h0 (by omega)]

theorem ofPaged_congr (h : AgreeBelow n c d) : ofPaged c n = ofPaged d n := by
  unfold ofPaged
  split
  · rfl
  · rw [h.first (by omega), h.second (by omega), ofPostbyteAt_congr h (by decide)]

/-- The mode that `n` bytes decide is a matter of these bytes. -/
theorem ofCode_congr (h : AgreeBelow n c d) (hn : 0 < n) : ofCode c n = ofCode d n := by
  unfold ofCode
  rw [h.first hn, ofPaged_congr h, ofPostbyteAt_congr h (by decide)]

end Mode

/-! ## Mnemonics -/

theorem opcodes_ne_empty : ∀ t ∈ opcodes, t ≠ "" := by
  decide +kernel

/-- The names of the software interrupts on the second and third page. -/
def interruptNames : List String :=
  ["SWI2", "SWI3"]

/-- The names of all other instructions on these pages. -/
def pagedNames : List String :=
  ["?", "CMPD", "CMPY", "LDY", "STY", "LDS", "STS", "CMPU", "CMPS"] ++ longBranches

theorem pagedMnemonic_mem {opcode : Int} (h : opcode ≠ 0x103F) (h' : opcode ≠ 0x113F) :
    pagedMnemonic opcode ∈ pagedNames := by
  have hbranch : ∀ digit, longBranches.getD digit "?" ∈ pagedNames :=
    forall_getD (P := (· ∈ pagedNames)) (fun t ht => List.mem_append_right _ ht) List.mem_cons_self
  simp only [pagedMnemonic, if_neg h, if_neg h']
  split
  · exact hbranch _
  · repeat' split
    all_goals decide

theorem pagedMnemonic_mem_append (opcode : Int) : pagedMnemonic opcode ∈ interruptNames ++ pagedNames := by
  by_cases h : opcode = 0x103F
  · rw [h]
    decide
  by_cases h' : opcode = 0x113F
  · rw [h']
    decide
  · exact List.mem_append_right _ (pagedMnemonic_mem h h')

/-- The name of an instruction stands in the table of the opcodes or is one of the pages. -/
theorem exists_mnemonic_mem (b : Buffer) :
    ∃ t ∈ opcodes ++ (interruptNames ++ pagedNames), mnemonic b.code = .ok t := by
  obtain ⟨opcode, second, -, -, hopcode, hsecond, -, -⟩ := b.exists_front
  cases hpage : Mode.opensPage opcode.toNat with
  | false =>
      have hbyte : opcode.toNat < 256 := opcode.toNat_lt
      have hpick : ∃ t ∈ opcodes, pick opcodes (opcode.toNat : Int) = .ok t :=
        exists_pick (by omega) (by rw [length_opcodes]; omega)
      obtain ⟨t, hmem, ht⟩ := hpick
      exact ⟨t, List.mem_append_left _ hmem, by simp [mnemonic, hopcode, hpage, ht]⟩
  | true =>
      have hpaged : mnemonic b.code = .ok (pagedMnemonic (joinBytes opcode.toNat second.toNat)) := by
        simp [mnemonic, hopcode, hpage, hsecond]
      exact ⟨_, List.mem_append_right _ (pagedMnemonic_mem_append _), hpaged⟩

/-- What holds of the table of the opcodes and of the names of the pages holds of the name of an instruction. -/
theorem forall_mnemonic {P : String → Prop} (hopcodes : ∀ t ∈ opcodes, P t)
    (hpages : ∀ t ∈ interruptNames ++ pagedNames, P t) {b : Buffer} {name : String}
    (h : mnemonic b.code = .ok name) : P name := by
  obtain ⟨t, hmem, ht⟩ := exists_mnemonic_mem b
  obtain rfl : t = name := Except.ok.inj (ht.symm.trans h)
  rcases List.mem_append.mp hmem with hmem | hmem
  · exact hopcodes t hmem
  · exact hpages t hmem

theorem exists_mnemonic (b : Buffer) : ∃ t, mnemonic b.code = .ok t ∧ t ≠ "" := by
  obtain ⟨t, -, ht⟩ := exists_mnemonic_mem b
  exact ⟨t, ht, forall_mnemonic (P := (· ≠ "")) opcodes_ne_empty (by decide) ht⟩

theorem mnemonic_congr {c d : List Int} {opcode : Int} (h0 : pick c 0 = .ok opcode)
    (h : AgreeBelow (Mode.opcodeBytes opcode) c d) : mnemonic c = mnemonic d := by
  cases hpage : Mode.opensPage opcode with
  | false =>
      have hbytes : Mode.opcodeBytes opcode = 1 := by simp [Mode.opcodeBytes, hpage]
      have h0' : pick d 0 = .ok opcode := by rw [← h.first (by omega), h0]
      simp [mnemonic, h0, h0', hpage]
  | true =>
      have hbytes : Mode.opcodeBytes opcode = 2 := by simp [Mode.opcodeBytes, hpage]
      have h0' : pick d 0 = .ok opcode := by rw [← h.first (by omega), h0]
      simp [mnemonic, h0, h0', hpage, h.second (by omega)]

/-! ## Operands -/

theorem length_transferRegisters : transferRegisters.length = 16 := rfl

theorem exists_source (byte : UInt8) :
    ∃ t ∈ transferRegisters, pick transferRegisters ((byte.toNat : Int) / 0x10) = .ok t := by
  have hbyte : byte.toNat < 256 := byte.toNat_lt
  exact exists_pick (by omega) (by rw [length_transferRegisters]; omega)

theorem exists_target (byte : UInt8) :
    ∃ t ∈ transferRegisters, pick transferRegisters ((byte.toNat : Int) % 0x10) = .ok t :=
  exists_pick (by omega) (by rw [length_transferRegisters]; omega)

theorem exists_operands (mode : Mode) (b : Buffer) {i : Int} (h0 : 0 ≤ i) (h : i < 6) :
    ∃ shown, operands mode b.code i = .ok shown := by
  obtain ⟨opcode, -, -, -, hopcode, -, -, -⟩ := b.exists_front
  obtain ⟨first, hfirst⟩ := b.exists_pick_code (i := i) h0 (by omega)
  obtain ⟨second, hsecond⟩ := b.exists_pick_code (i := i + 1) (by omega) (by omega)
  obtain ⟨third, hthird⟩ := b.exists_pick_code (i := i + 1 + 1) (by omega) (by omega)
  obtain ⟨source, -, hsource⟩ := exists_source first
  obtain ⟨target, -, htarget⟩ := exists_target first
  cases mode <;>
    simp only [operands, readS8, readU16be, readS16be, hfirst, hsecond, hthird, hopcode, hsource,
      htarget, ok_bind, pure_eq_ok, Except.ok.injEq, exists_eq']

/-- The operands are read from the bytes that the mode counts, and are the same further on if the bytes there are
the same.  A push or pull is shown by its opcode, too. -/
theorem operands_shifted {mode : Mode} {c d : List Int} {i m n : Int} (hinherent : mode ≠ .inherent)
    (hpshPul : mode ≠ .pshPul) (hn : mode.operandBytes? = some n) (h : AgreeShifted m i (i + n) c d) :
    operands mode c i = operands mode d (i + m) := by
  have hsecond : i + 1 + m = i + m + 1 := Int.add_right_comm i 1 m
  cases mode <;> cases hn
  case inherent => exact absurd rfl hinherent
  case pshPul => exact absurd rfl hpshPul
  all_goals have hbyte : pick c i = pick d (i + m) := h i (Int.le_refl i) (by omega)
  case extended | imm16 => simp only [operands, hbyte, h.readU16be (j := i) (by omega) (by omega)]
  case rel16 => simp only [operands, hbyte, h.readS16be (j := i) (by omega) (by omega)]
  case extendedInd =>
    simp only [operands, hbyte, h.readU16be (j := i + 1) (by omega) (by omega), hsecond]
  case constOff8 | constOff8Ind | pcrel8 | pcrel8Ind =>
    simp only [operands, hbyte, h.readS8 (j := i + 1) (by omega) (by omega), hsecond]
  case constOff16 | constOff16Ind | pcrel16 | pcrel16Ind =>
    simp only [operands, hbyte, h.readS16be (j := i + 1) (by omega) (by omega), hsecond]
  all_goals simp only [operands, hbyte]

/-- The operands are a matter of the bytes that the mode counts, although the byte at `i` is looked at in every
mode. -/
theorem operands_congr {mode : Mode} {c d : List Int} {i n x y : Int} (hn : mode.operandBytes? = some n)
    (hi : 0 < i) (h : AgreeBelow (i + n) c d) (hx : pick c i = .ok x) (hy : pick d i = .ok y) :
    operands mode c i = operands mode d i := by
  by_cases hinherent : mode = .inherent
  · subst hinherent
    simp only [operands, hx, hy, ok_bind]
  by_cases hpshPul : mode = .pshPul
  · subst hpshPul
    cases hn
    simp only [operands, h i (by omega) (by omega), h 0 (by omega) (by omega)]
  have hagree : AgreeShifted 0 i (i + n) c d := fun j hj hend => h.shifted j (by omega) hend
  have hsame := operands_shifted hinherent hpshPul hn hagree
  rwa [Int.add_zero] at hsame

/-! ## The laws -/

theorem layout_of_decidedAt {b : Buffer} {opcode : Int} {k j : Nat} {mode : Mode}
    (h0 : pick b.code 0 = .ok opcode) (h : Mode.DecidedAt b.code opcode k mode) (hj : k ≤ j) :
    (mode = .invalid ∧ layout b.code j = .ok (some (.invalid, j))) ∨
    ∃ n, mode.operandBytes? = some n ∧
      layout b.code j = .ok (some (mode, Mode.opcodeBytes opcode + n)) := by
  have hcode := h.decided j hj
  cases hn : mode.operandBytes? with
  | none =>
      have hinvalid : mode = .invalid := Mode.operandBytes?_eq_none_iff.mp hn
      subst hinvalid
      exact .inl ⟨rfl, by simp [layout, hcode]⟩
  | some n =>
      have hvalid : mode ≠ .invalid := by
        rintro rfl
        cases hn
      refine .inr ⟨n, rfl, ?_⟩
      simp [layout, hcode, h0, Mode.instructionLength_eq hn]

theorem layout_of_open {b : Buffer} {j : Nat} (h : Mode.ofCode b.code j = .ok none) :
    layout b.code j = .ok none := by
  simp [layout, h]

theorem exists_decision (b : Buffer) :
    ∃ (opcode : Int) (k : Nat) (mode : Mode), pick b.code 0 = .ok opcode ∧
      Mode.DecidedAt b.code opcode k mode := by
  obtain ⟨opcode, second, third, -, h0, h1, h2, -⟩ := b.exists_front
  obtain ⟨k, mode, h⟩ := Mode.exists_decidedAt h0 h1 h2
  exact ⟨opcode.toNat, k, mode, h0, h⟩

theorem opcodeBytes_bounds (opcode : Int) : 1 ≤ Mode.opcodeBytes opcode ∧ Mode.opcodeBytes opcode ≤ 2 := by
  unfold Mode.opcodeBytes
  split <;> decide

/-- A settled record has the invalid mode, or the length of its opcode and its operands. -/
theorem settled_mode {r : Record Mode} (h : instructionSet.Settled r) :
    r.mode = some .invalid ∨
    ∃ opcode mode n, pick r.buffer.code 0 = .ok opcode ∧ r.mode = some mode ∧ mode ≠ .invalid ∧
      mode.operandBytes? = some n ∧ r.required = Mode.opcodeBytes opcode + n := by
  obtain ⟨k, mode, length, hdecides, -, hmode, hrequired⟩ := h
  obtain ⟨opcode, j, mode', h0, hdecided⟩ := exists_decision r.buffer
  have hlayout : layout r.buffer.code k = .ok (some (mode, length)) := hdecides.layout_eq
  have hjk : j ≤ k :=
    hdecides.le_of_open fun i hpos hlt => layout_of_open (hdecided.open_before i hpos hlt)
  rcases layout_of_decidedAt h0 hdecided hjk with ⟨-, heq⟩ | ⟨n, hn, heq⟩
  · rw [heq] at hlayout
    cases hlayout
    exact .inl hmode
  · have hvalid : mode' ≠ .invalid := by
      rintro rfl
      cases hn
    rw [heq] at hlayout
    cases hlayout
    exact .inr ⟨opcode, mode, n, h0, hmode, hvalid, hn, hrequired⟩

/-- The instruction of a record with a valid mode. -/
theorem render_eq {r : Record Mode} {mode : Mode} {opcode : Int} (hmode : r.mode = some mode)
    (hvalid : mode ≠ .invalid) (h0 : pick r.buffer.code 0 = .ok opcode) :
    render r = do
      let name ← mnemonic r.buffer.code
      let shown ← operands mode r.buffer.code (Mode.opcodeBytes opcode)
      return { text := statement name.toList shown.1, target := shown.2.map (targetOf r.address) } := by
  simp only [render, hmode, h0, ok_bind, Mode.opcodeBytes]

theorem lawful : instructionSet.Lawful 5 2 where
  opening_lt := by decide
  longest_le := by decide
  decides b := by
    obtain ⟨opcode, k, mode, h0, hdecided⟩ := exists_decision b
    have hk := hdecided.le_three
    have hopen : ∀ j : Nat, 0 < j → j < k → instructionSet.layout b.code j = .ok none :=
      fun j hpos hlt => layout_of_open (hdecided.open_before j hpos hlt)
    rcases layout_of_decidedAt h0 hdecided (Nat.le_refl k) with ⟨-, heq⟩ | ⟨n, hn, heq⟩
    · exact ⟨k, _, _, ⟨hdecided.pos, hopen, heq⟩, hk, Int.le_refl _, by omega⟩
    · have hcovered := hdecided.covered n hn
      have hopcode := opcodeBytes_bounds opcode
      have hbytes := Mode.operandBytes?_bounds hn
      exact ⟨k, _, _, ⟨hdecided.pos, hopen, heq⟩, hk, hcovered, by omega⟩
  layout_congr b c k hpos hagree := by
    change layout b.code k = layout c.code k
    simp only [layout, Mode.ofCode_congr hagree (by omega), hagree.first (by omega)]
  render_ok r hsettled hcount := by
    change ∃ shown, render r = .ok shown ∧ shown.text ≠ []
    rcases settled_mode hsettled with hmode | ⟨opcode, mode, n, h0, hmode, hvalid, -, -⟩
    · exact ⟨unknownMode, by simp [render, hmode], by decide⟩
    · have hopcode := opcodeBytes_bounds opcode
      obtain ⟨name, hname, hne⟩ := exists_mnemonic r.buffer
      obtain ⟨shown, hshown⟩ := exists_operands mode r.buffer (i := Mode.opcodeBytes opcode)
        (by omega) (by omega)
      rw [render_eq hmode hvalid h0, hname, ok_bind, hshown, ok_bind]
      exact ⟨_, rfl, statement_ne_nil hne shown.1⟩
  render_congr r q hsettled hcount haddress hmode hrequired hfetched := by
    change render r = render q
    rcases settled_mode hsettled with hr | ⟨opcode, mode, n, h0, hr, hvalid, hn, hlength⟩
    · have hq : q.mode = some .invalid := by rw [← hmode, hr]
      rw [render, render, hr, hq]
    · have hq : q.mode = some mode := by rw [← hmode, hr]
      have hopcode := opcodeBytes_bounds opcode
      have hbytes := Mode.operandBytes?_bounds hn
      have hagree : AgreeBelow r.count r.buffer.code q.buffer.code :=
        Buffer.agreeBelow_of_fetched_eq hfetched
      rw [hcount, hlength] at hagree
      have h0' : pick q.buffer.code 0 = .ok opcode := by rw [← hagree.first (by omega), h0]
      obtain ⟨x, hx⟩ := r.buffer.exists_pick_code (i := Mode.opcodeBytes opcode) (by omega) (by omega)
      obtain ⟨y, hy⟩ := q.buffer.exists_pick_code (i := Mode.opcodeBytes opcode) (by omega) (by omega)
      rw [render_eq hr hvalid h0, render_eq hq hvalid h0', haddress,
        mnemonic_congr h0 (hagree.mono (by omega)), operands_congr hn (by omega) hagree hx hy]

end EightBit.Mc6809
