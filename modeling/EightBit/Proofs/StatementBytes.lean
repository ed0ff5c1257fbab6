import EightBit.Proofs.OperandBytes
import EightBit.Proofs.Widths
set_option autoImplicit false

/-!
# Bytes behind a statement

Two statements of the same mnemonic with the same text have the same operands, and in each mode these show
all bytes that the mode reads: as a number, as a list of registers, or as a number beside a register that
the postbyte selects.  Only the registers of exchange and transfer do not always have names of their own.
-/

namespace EightBit

/-- Equal statements of a mnemonic have equal operands. -/
theorem joined_of_statement {mnemonic : List Char} {operands operands' : List (List Char)}
    (h : statement mnemonic operands = statement mnemonic operands') :
    joined operands = joined operands' ∧ (operands = [] ↔ operands' = []) := by
  by_cases hempty : operands = [] <;> by_cases hempty' : operands' = []
  · subst hempty hempty'
    exact ⟨rfl, Iff.rfl⟩
  · rw [hempty, statement_eq hempty'] at h
    have hlength := congrArg List.length h
    simp [statement] at hlength
  · rw [hempty', statement_eq hempty] at h
    have hlength := congrArg List.length h
    simp [statement] at hlength
  · rw [statement_eq hempty, statement_eq hempty'] at h
    have hjoined := List.append_cancel_left h
    exact ⟨(List.cons.inj hjoined).2, iff_of_false hempty hempty'⟩

/-! ## The 6800 -/

namespace Mc6800

variable {r q : Record Mode} {mode : Mode} {b c : Buffer} {x y : List (List Char) × Option Int}

theorem operands_isSome (hx : operands mode b.code = .ok x) (hy : operands mode c.code = .ok y) :
    x.2.isSome = y.2.isSome := by
  obtain ⟨-, first, second, -, -, hfirst, hsecond, -⟩ := b.exists_front
  obtain ⟨-, first', second', -, -, hfirst', hsecond', -⟩ := c.exists_front
  cases mode <;>
    simp only [operands, readS8, readU16be, hfirst, hfirst', Int.reduceAdd, hsecond, hsecond', ok_bind,
      pure_eq_ok, Except.ok.injEq] at hx hy <;>
    subst hx hy <;>
    simp only [Option.isSome]

/-- Equal operands of a mode are read from cells that agree. -/
theorem operands_injective {length : Int} (hlength : mode.length? = some length)
    (hx : operands mode b.code = .ok x) (hy : operands mode c.code = .ok y) (h : joined x.1 = joined y.1) :
    AgreeWithin 1 length b.code c.code := by
  obtain ⟨-, first, second, -, -, hfirst, hsecond, -⟩ := b.exists_front
  obtain ⟨-, first', second', -, -, hfirst', hsecond', -⟩ := c.exists_front
  have hbyte : first = first' → AgreeWithin 1 2 b.code c.code := by
    rintro rfl
    exact .byte (hfirst.trans hfirst'.symm)
  have hword : first = first' ∧ second = second' → AgreeWithin 1 3 b.code c.code := by
    rintro ⟨rfl, rfl⟩
    exact .word (hfirst.trans hfirst'.symm) (hsecond.trans hsecond'.symm)
  cases mode <;> cases hlength <;>
    simp only [operands, readS8, readU16be, hfirst, hfirst', Int.reduceAdd, hsecond, hsecond', ok_bind,
      pure_eq_ok, Except.ok.injEq] at hx hy <;>
    subst hx hy <;>
    simp only [joined_singleton, joined_pair, List.cons.injEq, true_and] at h
  case inherent => exact .none 1
  case relative => exact hbyte (byte_of_signExtend (decimal_injective h))
  case indexed => exact hbyte (toNat_injective (decimal_injective (List.append_cancel_right h)))
  case imm8 => exact hbyte (byte_of_hex8 h)
  case imm16 => exact hword (bytes_of_hex16 h)
  case direct => exact hbyte (byte_of_hex8 h)
  case extended => exact hword (bytes_of_hex16 h)

/-- A settled record has the mode and the length of its opcode. -/
theorem settled_eq {byte : UInt8} (h : instructionSet.Settled r)
    (hbyte : pick r.buffer.code 0 = .ok (byte.toNat : Int)) :
    r.mode = some (Mode.ofOpcode byte.toNat) ∧ r.required = (Mode.ofOpcode byte.toNat).length?.getD 1 := by
  obtain ⟨k, mode, length, hdecides, -, hmode, hrequired⟩ := h
  have hk : k = 1 := by
    have hpos := hdecides.pos
    obtain ⟨hle, -, -⟩ := lawful.bounds hdecides
    omega
  subst hk
  have heq := (layout_eq hbyte 1).symm.trans hdecides.layout_eq
  simp only [Except.ok.injEq, Option.some.injEq, Prod.mk.injEq] at heq
  exact ⟨hmode.trans (congrArg some heq.1.symm), hrequired.trans heq.2.symm⟩

theorem comparable {shown shown' : Rendering} (hr : instructionSet.Settled r) (hq : instructionSet.Settled q)
    (hopcode : pick r.buffer.code 0 = pick q.buffer.code 0) (h : render r = .ok shown)
    (h' : render q = .ok shown') : Comparable False r q shown shown' := by
  obtain ⟨byte, -, -, -, hbyte, -, -, -⟩ := r.buffer.exists_front
  have hbyte' := hopcode.symm.trans hbyte
  obtain ⟨hmode, hlength⟩ := settled_eq hr hbyte
  obtain ⟨hmode', hlength'⟩ := settled_eq hq hbyte'
  obtain ⟨t, -, ht⟩ := exists_mnemonic byte
  obtain ⟨x, hx⟩ := exists_operands (Mode.ofOpcode byte.toNat) r.buffer
  obtain ⟨y, hy⟩ := exists_operands (Mode.ofOpcode byte.toNat) q.buffer
  have hfirst : AgreeWithin 0 1 r.buffer.code q.buffer.code := .byte hopcode
  have hrequired := hlength.trans hlength'.symm
  generalize Mode.ofOpcode byte.toNat = mode at hmode hmode' hlength hx hy
  by_cases hinvalid : mode = .invalid
  · subst hinvalid
    rw [render, hmode] at h
    rw [render, hmode'] at h'
    cases h
    cases h'
    have hone : r.required = 1 := hlength
    rw [← hone] at hfirst
    exact ⟨hrequired, rfl, fun _ => .inl hfirst, False.elim⟩
  · obtain ⟨length, hsome⟩ : ∃ length, mode.length? = some length := by
      cases mode <;> simp [Mode.length?] at hinvalid ⊢
    rw [hsome] at hlength
    simp only [render, hmode, hbyte, ht, hx, ok_bind, pure_eq_ok, Except.ok.injEq] at h
    simp only [render, hmode', hbyte', ht, hy, ok_bind, pure_eq_ok, Except.ok.injEq] at h'
    subst h h'
    exact {
      required_eq := hrequired
      isSome_eq := by
        simp only [Option.isSome_map]
        exact operands_isSome hx hy
      agree := by
        intro htext
        rw [hlength]
        have hwithin := operands_injective hsome hx hy (joined_of_statement htext).1
        exact .inl (hfirst.append hwithin)
      shown_eq := False.elim }

end Mc6800

/-! ## The 6809 -/

/-- Operands without commas can be read off their list. -/
theorem joined_injective {operands operands' : List (List Char)} (hne : operands ≠ []) (hne' : operands' ≠ [])
    (hcomma : ∀ text ∈ operands, ',' ∉ text) (hcomma' : ∀ text ∈ operands', ',' ∉ text)
    (h : joined operands = joined operands') : operands = operands' := by
  calc operands = List.splitOn ',' (joined operands) := (List.splitOn_intercalate ',' hcomma hne).symm
    _ = List.splitOn ',' (joined operands') := by rw [h]
    _ = operands' := List.splitOn_intercalate ',' hcomma' hne'

namespace Mc6809

/-- The numbers of exchange and transfer registers that have no name. -/
def unnamedRegisters : List Nat :=
  [6, 7, 12, 13, 14, 15]

/-- The two numbers stand for the same register, or both have no name. -/
def SameRegister (m n : Nat) : Prop :=
  m = n ∨ (m ∈ unnamedRegisters ∧ n ∈ unnamedRegisters)

instance (m n : Nat) : Decidable (SameRegister m n) :=
  inferInstanceAs (Decidable (_ ∨ _))

/-- The bytes are two exchanges or two transfers of the same registers. -/
def SameTransfer (x y : List UInt8) : Prop :=
  ∃ opcode ∈ [0x1E, 0x1F], ∃ registers registers' : UInt8,
    x = [opcode, registers] ∧ y = [opcode, registers'] ∧
    SameRegister (registers.toNat / 0x10) (registers'.toNat / 0x10) ∧
    SameRegister (registers.toNat % 0x10) (registers'.toNat % 0x10)

/-- The mask of a push or pull, read off its registers. -/
def maskOf (registers : List String) : UInt8 :=
  registers.foldl (fun mask name => mask + ([("CCR", 0x01), ("A", 0x02), ("B", 0x04), ("DPR", 0x08), ("X", 0x10),
    ("Y", 0x20), ("U", 0x40), ("S", 0x40), ("PC", 0x80)].lookup name).getD 0) 0

theorem maskOf_stackedRegisters (opcode : Int) (mask : UInt8) : maskOf (stackedRegisters opcode mask) = mask := by
  have hsystem : ∀ mask, maskOf (stackedRegisters 0x34 mask) = mask := forall_byte (by decide +kernel)
  have huser : ∀ mask, maskOf (stackedRegisters 0x36 mask) = mask := forall_byte (by decide +kernel)
  by_cases hstack : opcode = 0x34 ∨ opcode = 0x35
  · have heq : stackedRegisters opcode mask = stackedRegisters 0x34 mask := by
      simp only [stackedRegisters, if_pos hstack]
      rfl
    rw [heq, hsystem]
  · have heq : stackedRegisters opcode mask = stackedRegisters 0x36 mask := by
      simp only [stackedRegisters, if_neg hstack]
      rfl
    rw [heq, huser]

theorem stackedRegisters_comma (opcode : Int) (mask : UInt8) :
    ∀ t ∈ stackedRegisters opcode mask, ',' ∉ t.toList := by
  have hall : ∀ t ∈ stackedRegisters opcode 0xFF, ',' ∉ t.toList := by
    unfold stackedRegisters
    split <;> decide
  intro t hmem
  exact hall t ((stackedRegisters_sublist opcode mask).subset hmem)

/-- Equal lists of registers come from the same mask. -/
theorem mask_eq_of_joined {opcode : Int} {mask mask' : UInt8}
    (hempty : (stackedRegisters opcode mask).map String.toList = [] ↔
      (stackedRegisters opcode mask').map String.toList = [])
    (h : joined ((stackedRegisters opcode mask).map String.toList) =
      joined ((stackedRegisters opcode mask').map String.toList)) : mask = mask' := by
  have hcomma : ∀ m : UInt8, ∀ text ∈ (stackedRegisters opcode m).map String.toList, ',' ∉ text := by
    intro m text htext
    obtain ⟨t, hmem, rfl⟩ := List.mem_map.mp htext
    exact stackedRegisters_comma opcode m t hmem
  have hnames : (stackedRegisters opcode mask).map String.toList =
      (stackedRegisters opcode mask').map String.toList := by
    by_cases hnone : (stackedRegisters opcode mask).map String.toList = []
    · rw [hnone, hempty.mp hnone]
    · exact joined_injective hnone (mt hempty.mpr hnone) (hcomma mask) (hcomma mask') h
  have hregisters : stackedRegisters opcode mask = stackedRegisters opcode mask' :=
    (List.map_inj_right fun _ _ => String.toList_inj.mp).mp hnames
  rw [← maskOf_stackedRegisters opcode mask, hregisters, maskOf_stackedRegisters]

/-! ### How a mode is decided -/

/-- The mode is one that a postbyte selects. -/
def Mode.isIndexed : Mode → Bool
  | .zeroOff | .zeroOffInd | .constOff5 | .constOff8 | .constOff8Ind | .constOff16 | .constOff16Ind | .accOff
  | .accOffInd | .postInc1 | .postInc2 | .postInc2Ind | .preDec1 | .preDec2 | .preDec2Ind | .pcrel8
  | .pcrel8Ind | .pcrel16 | .pcrel16Ind | .extendedInd => true
  | _ => false

namespace Mode

theorem ofMixedRow_cases (opcode : Int) : (ofMixedRow opcode).isIndexed = false ∧
    (ofMixedRow opcode = .exgTfr → opcode ∈ [0x1E, 0x1F]) := by
  unfold ofMixedRow
  repeat' split
  all_goals simp_all [isIndexed]

theorem ofOpcode?_cases {opcode : Int} {mode : Mode} (h : ofOpcode? opcode = some mode) :
    mode.isIndexed = false ∧ (mode = .exgTfr → opcode ∈ [0x1E, 0x1F]) := by
  simp only [ofOpcode?] at h
  split at h
  · cases h
    exact ⟨rfl, fun heq => by cases heq⟩
  · split at h
    · cases h
      exact ofMixedRow_cases opcode
    · repeat' split at h
      all_goals cases h
      all_goals exact ⟨rfl, fun heq => by cases heq⟩

theorem ofPagedOpcode?_cases {opcode : Int} {mode : Mode} (h : ofPagedOpcode? opcode = some mode) :
    mode.isIndexed = false ∧ mode ≠ .exgTfr := by
  simp only [ofPagedOpcode?] at h
  repeat' split at h
  all_goals cases h
  all_goals exact ⟨rfl, fun heq => by cases heq⟩

theorem ofIndexDigit?_cases {digit : UInt8} {mode : Mode} (h : ofIndexDigit? digit = some mode) :
    mode ≠ .exgTfr ∧ mode.indirect?.getD .invalid ≠ .exgTfr := by
  unfold ofIndexDigit? at h
  split at h <;> cases h <;> decide

theorem ofPostbyte_ne_exgTfr (postbyte : UInt8) : ofPostbyte postbyte ≠ .exgTfr := by
  unfold ofPostbyte
  repeat' split
  · decide
  · decide
  · decide
  · rename_i hdigit _
    exact (ofIndexDigit?_cases hdigit).1
  · rename_i hdigit _
    exact (ofIndexDigit?_cases hdigit).2

/-- How `k` bytes decide a mode: by the opcode, or by the postbyte behind it. -/
inductive Origin (opcode : Int) (k : Nat) (mode : Mode) : Prop
  | opcode (hk : opcodeBytes opcode ≤ k) (hindexed : mode.isIndexed = false)
      (htransfer : mode = .exgTfr → opcode ∈ [0x1E, 0x1F])
  | postbyte (hk : opcodeBytes opcode < k) (htransfer : mode ≠ .exgTfr)

theorem origin_of_postbyte {code : List Int} {opcode i : Int} {k : Nat} {mode : Mode}
    (hi : i = opcodeBytes opcode) (h : ofPostbyteAt code k i = .ok (some mode)) : Origin opcode k mode := by
  unfold ofPostbyteAt at h
  split at h
  · cases h
  · cases hpick : pick code i with
    | error e => simp [hpick] at h
    | ok byte =>
        simp only [hpick, ok_bind, pure_eq_ok, Except.ok.injEq, Option.some.injEq] at h
        subst h
        exact .postbyte (by omega) (ofPostbyte_ne_exgTfr _)

theorem origin_of_ofCode {code : List Int} {opcode second : Int} {k : Nat} {mode : Mode}
    (h0 : pick code 0 = .ok opcode) (h1 : pick code 1 = .ok second) (hk : 0 < k)
    (h : ofCode code k = .ok (some mode)) : Origin opcode k mode := by
  cases hpage : opensPage opcode with
  | false =>
      have hbytes : opcodeBytes opcode = 1 := by simp [opcodeBytes, hpage]
      cases hmode : ofOpcode? opcode with
      | some mode' =>
          rw [ofCode_of_some h0 hpage hmode hk] at h
          cases h
          obtain ⟨hindexed, htransfer⟩ := ofOpcode?_cases hmode
          exact .opcode (by omega) hindexed htransfer
      | none =>
          rw [ofCode_of_none h0 hpage hmode hk] at h
          exact origin_of_postbyte hbytes.symm h
  | true =>
      have hbytes : opcodeBytes opcode = 2 := by simp [opcodeBytes, hpage]
      rw [ofCode_of_page h0 hpage hk] at h
      rcases Nat.lt_or_ge k 2 with hlt | hge
      · have hlt' : (k : Int) < 2 := by omega
        rw [ofPaged, if_pos hlt'] at h
        cases h
      · cases hmode : ofPagedOpcode? (joinBytes opcode second) with
        | some mode' =>
            rw [ofPaged_of_some h0 h1 hmode hge] at h
            cases h
            obtain ⟨hindexed, htransfer⟩ := ofPagedOpcode?_cases hmode
            exact .opcode (by omega) hindexed fun heq => absurd heq htransfer
        | none =>
            rw [ofPaged_of_none h0 h1 hmode hge] at h
            exact origin_of_postbyte hbytes.symm h

end Mode

/-! ### Operands -/

variable {r q : Record Mode} {mode : Mode} {b c : Buffer} {i n : Int} {x y : List (List Char) × Option Int}

theorem through_injective {s t : List Char}
    (h : (if mode.isIndirect then '[' :: s ++ [']'] else s) = if mode.isIndirect then '[' :: t ++ [']'] else t) :
    s = t := by
  split at h
  · exact List.append_cancel_right (List.cons.inj h).2
  · exact h

theorem operands_isSome (h0 : 0 ≤ i) (h6 : i < 6) (hx : operands mode b.code i = .ok x)
    (hy : operands mode c.code i = .ok y) : x.2.isSome = y.2.isSome := by
  obtain ⟨opcode, -, -, -, hopcode, -, -, -⟩ := b.exists_front
  obtain ⟨opcode', -, -, -, hopcode', -, -, -⟩ := c.exists_front
  obtain ⟨first, hfirst⟩ := b.exists_pick_code (i := i) h0 (by omega)
  obtain ⟨second, hsecond⟩ := b.exists_pick_code (i := i + 1) (by omega) (by omega)
  obtain ⟨third, hthird⟩ := b.exists_pick_code (i := i + 1 + 1) (by omega) (by omega)
  obtain ⟨first', hfirst'⟩ := c.exists_pick_code (i := i) h0 (by omega)
  obtain ⟨second', hsecond'⟩ := c.exists_pick_code (i := i + 1) (by omega) (by omega)
  obtain ⟨third', hthird'⟩ := c.exists_pick_code (i := i + 1 + 1) (by omega) (by omega)
  obtain ⟨source, -, hsource⟩ := exists_source first
  obtain ⟨target, -, htarget⟩ := exists_target first
  obtain ⟨source', -, hsource'⟩ := exists_source first'
  obtain ⟨target', -, htarget'⟩ := exists_target first'
  cases mode <;>
    simp only [operands, readS8, readU16be, readS16be, hfirst, hfirst', hsecond, hsecond', hthird, hthird',
      hopcode, hopcode', hsource, hsource', htarget, htarget', ok_bind, pure_eq_ok, Except.ok.injEq] at hx hy <;>
    subst hx hy <;>
    simp only [Option.isSome]

/-- Equal operands of a mode other than exchange and transfer are read from cells that agree, if opcode and
postbyte do. -/
theorem operands_injective (h0 : 0 ≤ i) (h6 : i < 6) (hn : mode.operandBytes? = some n)
    (hmode : mode ≠ .exgTfr) (hopcode : pick b.code 0 = pick c.code 0)
    (hpost : mode.isIndexed = true → pick b.code i = pick c.code i)
    (hx : operands mode b.code i = .ok x) (hy : operands mode c.code i = .ok y)
    (h : joined x.1 = joined y.1 ∧ (x.1 = [] ↔ y.1 = [])) : AgreeWithin i (i + n) b.code c.code := by
  obtain ⟨opcode, -, -, -, hcell, -, -, -⟩ := b.exists_front
  have hcell' := hopcode.symm.trans hcell
  obtain ⟨first, hfirst⟩ := b.exists_pick_code (i := i) h0 (by omega)
  obtain ⟨second, hsecond⟩ := b.exists_pick_code (i := i + 1) (by omega) (by omega)
  obtain ⟨third, hthird⟩ := b.exists_pick_code (i := i + 1 + 1) (by omega) (by omega)
  obtain ⟨first', hfirst'⟩ := c.exists_pick_code (i := i) h0 (by omega)
  obtain ⟨second', hsecond'⟩ := c.exists_pick_code (i := i + 1) (by omega) (by omega)
  obtain ⟨third', hthird'⟩ := c.exists_pick_code (i := i + 1 + 1) (by omega) (by omega)
  have hbyte : first = first' → AgreeWithin i (i + 1) b.code c.code := by
    rintro rfl
    exact .byte (hfirst.trans hfirst'.symm)
  have hword : first = first' ∧ second = second' → AgreeWithin i (i + 2) b.code c.code := by
    rintro ⟨rfl, rfl⟩
    exact .word (hfirst.trans hfirst'.symm) (hsecond.trans hsecond'.symm)
  have hlong : first = first' ∧ second = second' ∧ third = third' → AgreeWithin i (i + 3) b.code c.code := by
    rintro ⟨rfl, rfl, rfl⟩
    have happend := (AgreeWithin.byte (hfirst.trans hfirst'.symm)).append
      (.word (hsecond.trans hsecond'.symm) (hthird.trans hthird'.symm))
    rwa [Int.add_assoc] at happend
  obtain ⟨hjoined, hempty⟩ := h
  cases mode <;> cases hn <;>
    simp only [operands, readS8, readU16be, readS16be, hfirst, hfirst', hsecond, hsecond', hthird, hthird',
      hcell, hcell', ok_bind, pure_eq_ok, Except.ok.injEq] at hx hy
  case exgTfr => exact absurd rfl hmode
  all_goals subst hx hy
  case inherent => exact .none i
  case pshPul =>
    have hmask := mask_eq_of_joined hempty hjoined
    rw [ofInt_toNat, ofInt_toNat] at hmask
    exact hbyte hmask
  all_goals simp only [joined_singleton] at hjoined
  case direct => exact hbyte (byte_of_hex8 (List.append_cancel_left hjoined))
  case extended => exact hword (bytes_of_hex16 (List.cons.inj hjoined).2)
  case imm8 => exact hbyte (byte_of_hex8 (List.cons.inj (List.cons.inj hjoined).2).2)
  case imm16 => exact hword (bytes_of_hex16 (List.cons.inj (List.cons.inj hjoined).2).2)
  case rel8 => exact hbyte (byte_of_signExtend (decimal_injective hjoined))
  case rel16 => exact hword (bytes_of_signExtend (decimal_injective hjoined))
  -- The other modes have a postbyte, which is the same in both.
  all_goals
    have hsame : first = first' := by
      have hcells := hpost rfl
      rw [hfirst, hfirst'] at hcells
      exact toNat_injective (Except.ok.inj hcells)
    subst hsame
  case constOff8 | constOff8Ind | pcrel8 | pcrel8Ind =>
    have htext := List.append_cancel_right (through_injective hjoined)
    exact hword ⟨rfl, byte_of_signExtend (decimal_injective htext)⟩
  case constOff16 | constOff16Ind | pcrel16 | pcrel16Ind =>
    have htext := List.append_cancel_right (through_injective hjoined)
    exact hlong ⟨rfl, bytes_of_signExtend (decimal_injective htext)⟩
  case extendedInd =>
    have htext := (List.cons.inj (through_injective hjoined)).2
    exact hlong ⟨rfl, bytes_of_hex16 htext⟩
  all_goals exact hbyte rfl

/-! ### Exchange and transfer -/

/-- The name of a register of exchange and transfer. -/
def transferName (number : Nat) : String :=
  if number ∈ unnamedRegisters then "?" else transferRegisters.getD number ""

/-- The names of the two registers that the byte behind an exchange or a transfer stands for. -/
def transferNames (registers : UInt8) : List (List Char) :=
  [(transferName (registers.toNat / 0x10)).toList, (transferName (registers.toNat % 0x10)).toList]

/-- The text of an exchange or a transfer. -/
def transferText (opcode registers : UInt8) : List Char :=
  statement (if opcode = 0x1E then "EXG" else "TFR").toList (transferNames registers)

theorem transferName_eq_iff : ∀ m < 16, ∀ n < 16, transferName m = transferName n ↔ SameRegister m n := by
  decide +kernel

theorem transferName_comma : ∀ n < 16, ',' ∉ (transferName n).toList := by
  decide

theorem pick_transferRegisters (n : Nat) (hn : n < 16) : pick transferRegisters (n : Int) = .ok (transferName n) := by
  have htable : ∀ n < 16, transferRegisters[n]? = some (transferName n) := by decide
  apply pick_eq_ok (Int.natCast_nonneg n)
  rw [Int.toNat_natCast, htable n hn]

theorem transferNames_eq_iff (m n : UInt8) : transferNames m = transferNames n ↔
    SameRegister (m.toNat / 0x10) (n.toNat / 0x10) ∧ SameRegister (m.toNat % 0x10) (n.toNat % 0x10) := by
  have hm : m.toNat < 256 := m.toNat_lt
  have hn : n.toNat < 256 := n.toNat_lt
  rw [← transferName_eq_iff _ (by omega) _ (by omega), ← transferName_eq_iff _ (by omega) _ (by omega)]
  simp only [transferNames, List.cons.injEq, String.toList_inj, and_true]

theorem transferNames_comma (m : UInt8) : ∀ text ∈ transferNames m, ',' ∉ text := by
  have hm : m.toNat < 256 := m.toNat_lt
  simp only [transferNames, List.forall_mem_cons, List.not_mem_nil, false_imp_iff, implies_true, and_true]
  exact ⟨transferName_comma _ (by omega), transferName_comma _ (by omega)⟩

theorem operands_exgTfr {byte : UInt8} (h : pick b.code i = .ok (byte.toNat : Int)) :
    operands .exgTfr b.code i = .ok (transferNames byte, none) := by
  have hbyte : byte.toNat < 256 := byte.toNat_lt
  have hsource : pick transferRegisters ((byte.toNat : Int) / 0x10) = .ok (transferName (byte.toNat / 0x10)) :=
    pick_transferRegisters (byte.toNat / 0x10) (by omega)
  have htarget : pick transferRegisters ((byte.toNat : Int) % 0x10) = .ok (transferName (byte.toNat % 0x10)) :=
    pick_transferRegisters (byte.toNat % 0x10) (by omega)
  simp only [operands, h, hsource, htarget, ok_bind, pure_eq_ok, transferNames]

theorem transfer_of_mode {opcode : UInt8} (h : (opcode.toNat : Int) ∈ [0x1E, 0x1F]) : opcode ∈ [0x1E, 0x1F] := by
  simp only [List.mem_cons, List.not_mem_nil, or_false] at h ⊢
  exact h.imp toNat_injective toNat_injective

theorem opcodeBytes_of_transfer {opcode : UInt8} (h : opcode ∈ [0x1E, 0x1F]) :
    Mode.opcodeBytes opcode.toNat = 1 := by
  simp only [List.mem_cons, List.not_mem_nil, or_false] at h
  rcases h with rfl | rfl <;> rfl

/-! ### Records of the same opcode -/

theorem layout_eq_some {code : List Int} {opcode : Int} {k : Nat} {length : Int}
    (h0 : pick code 0 = .ok opcode) (h : layout code k = .ok (some (mode, length))) :
    Mode.ofCode code k = .ok (some mode) ∧
      ((mode = .invalid ∧ length = k) ∨
        ∃ n, mode.operandBytes? = some n ∧ mode ≠ .invalid ∧ length = Mode.opcodeBytes opcode + n) := by
  unfold layout at h
  cases hcode : Mode.ofCode code k with
  | error e => simp [hcode] at h
  | ok decided =>
      rw [hcode, ok_bind] at h
      split at h
      · cases h
      · cases h
        exact ⟨rfl, .inl ⟨rfl, rfl⟩⟩
      · rename_i mode' hvalid
        cases hn : mode'.operandBytes? with
        | none => simp [h0, Mode.instructionLength, hn] at h
        | some n =>
            simp only [h0, Mode.instructionLength_eq hn, ok_bind, pure_eq_ok, Except.ok.injEq, Option.some.injEq,
              Prod.mk.injEq] at h
            obtain ⟨rfl, rfl⟩ := h
            exact ⟨rfl, .inr ⟨n, hn, hvalid, rfl⟩⟩

/-- The text of a valid mode is the statement of its mnemonic and its operands. -/
theorem exists_statement {shown : Rendering} {opcode : Int} (hmode : r.mode = some mode)
    (hvalid : mode ≠ .invalid) (h0 : pick r.buffer.code 0 = .ok opcode) (h : render r = .ok shown) :
    ∃ name x, mnemonic r.buffer.code = .ok name ∧
      operands mode r.buffer.code (Mode.opcodeBytes opcode) = .ok x ∧
      shown = { text := statement name.toList x.1, target := x.2.map (targetOf r.address) } := by
  have hopcode := opcodeBytes_bounds opcode
  obtain ⟨name, hname, -⟩ := exists_mnemonic r.buffer
  obtain ⟨x, hx⟩ := exists_operands mode r.buffer (i := Mode.opcodeBytes opcode) (by omega) (by omega)
  rw [render_eq hmode hvalid h0, hname, ok_bind, hx, ok_bind] at h
  exact ⟨name, x, hname, hx, (Except.ok.inj h).symm⟩

/-- The bytes `0x1E` and `0x1F` are exchange and transfer. -/
theorem mode_of_transfer {code : List Int} {opcode : UInt8} {k : Nat} (hopcode : opcode ∈ [0x1E, 0x1F])
    (h0 : pick code 0 = .ok (opcode.toNat : Int)) (hk : 0 < k) (h : Mode.ofCode code k = .ok (some mode)) :
    mode = .exgTfr := by
  have hmode : Mode.opensPage opcode.toNat = false ∧ Mode.ofOpcode? opcode.toNat = some .exgTfr := by
    simp only [List.mem_cons, List.not_mem_nil, or_false] at hopcode
    rcases hopcode with rfl | rfl <;> decide
  rw [Mode.ofCode_of_some h0 hmode.1 hmode.2 hk] at h
  cases h
  rfl

theorem mnemonic_of_transfer {code : List Int} {opcode : UInt8} (hopcode : opcode ∈ [0x1E, 0x1F])
    (h0 : pick code 0 = .ok (opcode.toNat : Int)) :
    mnemonic code = .ok (if opcode = 0x1E then "EXG" else "TFR") := by
  simp only [List.mem_cons, List.not_mem_nil, or_false] at hopcode
  rcases hopcode with rfl | rfl <;> rw [mnemonic, h0] <;> rfl

/-- An exchange or a transfer is shown by the names of its registers. -/
theorem render_transfer {opcode registers : UInt8} (hopcode : opcode ∈ [0x1E, 0x1F])
    (hsettled : instructionSet.Settled r) (hfetched : r.buffer.fetched = [opcode, registers]) :
    render r = .ok { text := transferText opcode registers } := by
  have h0 : pick r.buffer.code 0 = .ok (opcode.toNat : Int) :=
    Buffer.pick_of_fetched (i := 0) (by rw [hfetched]; rfl)
  have h1 : pick r.buffer.code 1 = .ok (registers.toNat : Int) :=
    Buffer.pick_of_fetched (i := 1) (by rw [hfetched]; rfl)
  obtain ⟨k, mode, length, hdecides, -, hmode, -⟩ := hsettled
  obtain ⟨hcode, -⟩ := layout_eq_some h0 hdecides.layout_eq
  obtain rfl := mode_of_transfer hopcode h0 hdecides.pos hcode
  rw [render_eq hmode (by decide) h0, opcodeBytes_of_transfer hopcode, mnemonic_of_transfer hopcode h0, ok_bind,
    operands_exgTfr h1]
  rfl

theorem shown_eq_of_sameTransfer {shown shown' : Rendering} (hr : instructionSet.Settled r)
    (hq : instructionSet.Settled q) (h : render r = .ok shown) (h' : render q = .ok shown')
    (hsame : SameTransfer r.buffer.fetched q.buffer.fetched) : shown = shown' := by
  obtain ⟨opcode, hopcode, m, n, hm, hn, hregisters⟩ := hsame
  rw [render_transfer hopcode hr hm] at h
  rw [render_transfer hopcode hq hn] at h'
  rw [← Except.ok.inj h, ← Except.ok.inj h', transferText, (transferNames_eq_iff m n).mpr hregisters, transferText]

/-- Two exchanges or two transfers with equal operands have the same registers, or registers without names,
in the same places. -/
theorem sameTransfer_of_joined {opcode : UInt8} (hopcode : opcode ∈ [0x1E, 0x1F]) (hb : b.count = 2)
    (hc : c.count = 2) (h0 : pick b.code 0 = .ok (opcode.toNat : Int))
    (h0' : pick c.code 0 = .ok (opcode.toNat : Int)) (hx : operands .exgTfr b.code 1 = .ok x)
    (hy : operands .exgTfr c.code 1 = .ok y) (h : joined x.1 = joined y.1) :
    SameTransfer b.fetched c.fetched := by
  obtain ⟨-, m, -, -, -, h1, -, -⟩ := b.exists_front
  obtain ⟨-, n, -, -, -, h1', -, -⟩ := c.exists_front
  rw [operands_exgTfr h1] at hx
  rw [operands_exgTfr h1'] at hy
  cases hx
  cases hy
  have hnames := joined_injective (List.cons_ne_nil _ _) (List.cons_ne_nil _ _) (transferNames_comma m)
    (transferNames_comma n) h
  exact ⟨opcode, hopcode, m, n, Buffer.fetched_eq_pair hb h0 h1, Buffer.fetched_eq_pair hc h0' h1',
    (transferNames_eq_iff m n).mp hnames⟩

theorem comparable {shown shown' : Rendering} (hr : instructionSet.Settled r) (hq : instructionSet.Settled q)
    (hcount : (r.count : Int) = r.required) (hcount' : (q.count : Int) = q.required)
    (hopcode : ∀ k mode length, instructionSet.DecidesAt r.buffer k mode length → k ≤ r.count →
      AgreeBelow k r.buffer.code q.buffer.code)
    (h : render r = .ok shown) (h' : render q = .ok shown') :
    Comparable (SameTransfer r.buffer.fetched q.buffer.fetched) r q shown shown' := by
  have hexception := shown_eq_of_sameTransfer hr hq h h'
  obtain ⟨k, mode, length, hdecides, hk, hmode, hrequired⟩ := hr
  have hpos := hdecides.pos
  have hagree := hopcode k mode length hdecides hk
  obtain ⟨hmodes, hlengths⟩ := lawful.settled_congr hdecides hmode hrequired hq hagree
  have hmode' : q.mode = some mode := hmodes.symm.trans hmode
  obtain ⟨opcode, second, -, -, h0, h1, -, -⟩ := r.buffer.exists_front
  have h0' : pick q.buffer.code 0 = .ok (opcode.toNat : Int) := (hagree.first (by omega)).symm.trans h0
  obtain ⟨hcode, hcases⟩ := layout_eq_some h0 hdecides.layout_eq
  rcases hcases with ⟨rfl, hlength⟩ | ⟨n, hn, hvalid, hlength⟩
  · rw [render, hmode] at h
    rw [render, hmode'] at h'
    cases h
    cases h'
    rw [← hlength, ← hrequired] at hagree
    exact ⟨hlengths, rfl, fun _ => .inl hagree, hexception⟩
  · have hbounds := opcodeBytes_bounds opcode.toNat
    have horigin := Mode.origin_of_ofCode h0 h1 hpos hcode
    have hopcodes : Mode.opcodeBytes opcode.toNat ≤ k := by
      cases horigin with
      | opcode hk => exact hk
      | postbyte hk => exact Int.le_of_lt hk
    obtain ⟨name, x, hname, hx, rfl⟩ := exists_statement hmode hvalid h0 h
    obtain ⟨name', y, hname', hy, rfl⟩ := exists_statement hmode' hvalid h0' h'
    obtain rfl : name = name' := by
      rw [mnemonic_congr h0 (hagree.mono hopcodes), hname'] at hname
      exact (Except.ok.inj hname).symm
    refine ⟨hlengths, ?_, ?_, hexception⟩
    · simp only [Option.isSome_map]
      exact operands_isSome (by omega) (by omega) hx hy
    · intro htext
      have hoperands := joined_of_statement htext
      by_cases hexg : mode = .exgTfr
      · subst hexg
        have htransfer : opcode ∈ [0x1E, 0x1F] := by
          cases horigin with
          | opcode _ _ hmember => exact transfer_of_mode (hmember rfl)
          | postbyte _ hne => exact absurd rfl hne
        rw [opcodeBytes_of_transfer htransfer] at hx hy hlength
        cases hn
        have htwo : r.count = 2 := by omega
        have htwo' : q.count = 2 := by omega
        exact .inr (sameTransfer_of_joined htransfer htwo htwo' h0 h0' hx hy hoperands.1)
      · have hpost : mode.isIndexed = true → pick r.buffer.code (Mode.opcodeBytes opcode.toNat) =
            pick q.buffer.code (Mode.opcodeBytes opcode.toNat) := by
          intro hindexed
          cases horigin with
          | opcode _ hnot => rw [hnot] at hindexed; cases hindexed
          | postbyte hk => exact hagree _ (by omega) hk
        have hfront : AgreeWithin 0 (Mode.opcodeBytes opcode.toNat) r.buffer.code q.buffer.code :=
          hagree.mono hopcodes
        have hwithin := operands_injective (by omega) (by omega) hn hexg (h0.trans h0'.symm) hpost hx hy hoperands
        rw [hrequired, hlength]
        exact .inl (hfront.append hwithin)

end Mc6809

end EightBit
