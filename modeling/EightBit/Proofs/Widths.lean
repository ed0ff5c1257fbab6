import EightBit.Proofs.ClearTemplates
import EightBit.Proofs.TakenCalls
import Mathlib.Data.List.Flatten
set_option autoImplicit false

/-!
# The width of texts

The text of an instruction is cut to 32 symbols, with a notice if that changes it.  No text is ever
changed: what an instruction set shows is printable and has at most 32 symbols, and at most 25 if an
address comes behind it (`render_fits`).  So no session leaves a notice of a cut, and the address that an
instruction refers to is the end of its text (`run_legible`).
-/

namespace EightBit

/-- The text is legible at the longest width, or at one that leaves room for the address behind it. -/
structure Rendering.Fits (shown : Rendering) : Prop where
  legible : Legible maxText shown.text
  room : shown.target ≠ none → Legible bodyWidth shown.text

theorem Rendering.Fits.of_legible {shown : Rendering} (h : Legible bodyWidth shown.text) : shown.Fits where
  legible := h.mono
  room _ := h

theorem unknownMode_fits : unknownMode.Fits := by
  apply Rendering.Fits.of_legible
  decide

/-! ## Templates -/

namespace Template

variable {operand : Int → Placeholder Char → Except Fault Rendering} {i : Int} {segments : List (Segment Char)}

theorem isOperand_of_values {values : List Rendering}
    (hoperand : ∀ j p value, (j, p) ∈ placed i (operands segments) → operand j p = .ok value →
      IsOperand value.text)
    (h : (placed i (operands segments)).map (fun p => operand p.1 p.2) = values.map .ok) :
    ∀ text ∈ values.map Rendering.text, IsOperand text := by
  intro text htext
  obtain ⟨value, hvalue, rfl⟩ := List.mem_map.mp htext
  obtain ⟨j, p, hp, heq⟩ := exists_placed h hvalue
  exact hoperand j p value hp heq

/-- A clear template whose operands are shown by numbers is legible. -/
theorem Clear.legible_render {shown : Rendering} (hclear : Clear bodyWidth segments)
    (hoperand : ∀ j p value, (j, p) ∈ placed i (operands segments) → operand j p = .ok value →
      IsOperand value.text)
    (h : render operand i segments = .ok shown) : Legible bodyWidth shown.text := by
  obtain ⟨values, hvalues, hfill, -⟩ := exists_of_render h
  exact hclear.legible_fill hfill (isOperand_of_values hoperand hvalues)

end Template

/-! ## The 6502 and the 65C02 -/

namespace Mos6502

theorem isOperand_operand {r : Record Mode} {p : Placeholder Char} {value : Rendering}
    (h : operand r p = .ok value) : Template.IsOperand value.text := by
  obtain ⟨-, low, high, -, -, hlow, hhigh, -⟩ := r.buffer.exists_front
  simp only [operand, readU16le, readS8, hlow, Int.reduceAdd, hhigh, ok_bind, pure_eq_ok] at h
  split at h <;> rw [← Except.ok.inj h] <;> dsimp only
  · exact .hex16 _
  · exact .hex8 _
  · have hrange := natAbs_signExtend_eight low.toNat
    exact .decimal (by omega)

theorem render_fits {v : Variant} {r : Record Mode} {shown : Rendering}
    (hsettled : (instructionSet v).Settled r) (hrender : render v r = .ok shown) : shown.Fits := by
  obtain ⟨byte, t, hmem, hbyte, ht, -⟩ := settled_template hsettled
  simp only [render, hbyte, ht, ok_bind] at hrender
  apply Rendering.Fits.of_legible
  apply (opcodes_clear v t hmem).legible_render _ hrender
  intro _ p value _ hvalue
  exact isOperand_operand hvalue

end Mos6502

/-! ## The 6800 -/

namespace Mc6800

theorem opcodes_legible : ∀ t ∈ opcodes, Legible 5 t.toList := by
  apply Spelled.forall_mem (P := Legible 5)
  · unfold opcodes
    repeat' constructor
  · decide +kernel

theorem operands_legible {mode : Mode} {b : Buffer} {shown : List (List Char) × Option Int}
    (h : operands mode b.code = .ok shown) : Legible 6 (joined shown.1) := by
  obtain ⟨-, first, second, -, -, hfirst, hsecond, -⟩ := b.exists_front
  simp only [operands, readS8, readU16be, hfirst, Int.reduceAdd, hsecond, ok_bind, pure_eq_ok] at h
  cases mode <;> cases h <;> dsimp only
  case relative =>
    rw [joined_singleton]
    exact (legible_signed_byte _).mono
  case indexed =>
    rw [joined_pair]
    have hbyte : (first.toNat : Int).natAbs < 1000 := by
      have := first.toNat_lt
      omega
    have hdecimal : Legible 4 (decimal (first.toNat : Int)) := legible_decimal (by decide) hbyte
    exact hdecimal.append (Legible.literal [',', 'X'])
  case extended =>
    rw [joined_singleton]
    exact ((legible_hex16 _).cons rfl).mono
  case direct =>
    rw [joined_singleton]
    exact ((legible_hex8 _).cons rfl).mono
  case imm8 =>
    rw [joined_singleton]
    exact (((legible_hex8 _).cons rfl).cons rfl).mono
  case imm16 =>
    rw [joined_singleton]
    exact ((legible_hex16 _).cons rfl).cons rfl
  all_goals exact .nil

theorem render_fits {r : Record Mode} {shown : Rendering} (hsettled : instructionSet.Settled r)
    (hrender : render r = .ok shown) : shown.Fits := by
  obtain ⟨mode, hmode, -⟩ := settled_mode hsettled
  obtain ⟨byte, -, -, -, hbyte, -, -, -⟩ := r.buffer.exists_front
  obtain ⟨t, hmem, ht⟩ := exists_mnemonic byte
  obtain ⟨operands, hoperands⟩ := exists_operands mode r.buffer
  by_cases hinvalid : mode = .invalid
  · rw [render, hmode, hinvalid] at hrender
    cases hrender
    exact unknownMode_fits
  · simp only [render, hmode, hbyte, ht, hoperands, ok_bind, pure_eq_ok, Except.ok.injEq] at hrender
    subst hrender
    have htext := legible_statement (opcodes_legible t hmem) (operands_legible hoperands)
    exact .of_legible (htext.mono)

end Mc6800

/-! ## The 6809 -/

namespace Mc6809

theorem opcodes_legible : ∀ t ∈ opcodes, Legible 5 t.toList := by
  apply Spelled.forall_mem (P := Legible 5)
  · unfold opcodes
    repeat' constructor
  · decide +kernel

theorem mnemonic_legible {b : Buffer} {name : String} (h : mnemonic b.code = .ok name) :
    Legible 5 name.toList :=
  forall_mnemonic (P := fun t => Legible 5 t.toList) opcodes_legible (by decide) h

theorem indexRegister_legible (number : Nat) : Legible 1 (indexRegisters.getD number "").toList :=
  forall_getD (P := fun t : String => Legible 1 t.toList) (by decide) (by decide) number

theorem transferRegisters_legible : ∀ t ∈ transferRegisters, Legible 3 t.toList := by
  decide

/-- The registers of a push or pull are some of all eight. -/
theorem stackedRegisters_sublist (opcode : Int) (mask : UInt8) :
    (stackedRegisters opcode mask).Sublist (stackedRegisters opcode 0xFF) := by
  unfold stackedRegisters
  split <;> exact List.filter_sublist.map _

theorem stackedRegisters_legible (opcode : Int) (mask : UInt8) :
    Legible 20 (joined ((stackedRegisters opcode mask).map String.toList)) := by
  have hall : Legible 21 ((stackedRegisters opcode 0xFF).map String.toList |>.flatMap fun t => ',' :: t) := by
    unfold stackedRegisters
    split <;> decide
  have hsub := stackedRegisters_sublist opcode mask
  by_cases hempty : (stackedRegisters opcode mask).map String.toList = []
  · rw [hempty]
    exact .nil
  · have hcommas := hall.sublist ((hsub.map String.toList).flatMap fun t => ',' :: t)
    rw [← comma_joined hempty] at hcommas
    exact hcommas.of_cons

theorem stacked_legible {b : Buffer} {i : Int} (h0 : 0 ≤ i) (h6 : i < 6)
    {shown : List (List Char) × Option Int} (h : operands .pshPul b.code i = .ok shown) :
    Legible 20 (joined shown.1) ∧ shown.2 = none := by
  obtain ⟨opcode, -, -, -, hopcode, -, -, -⟩ := b.exists_front
  obtain ⟨mask, hmask⟩ := b.exists_pick_code (i := i) h0 (by omega)
  simp only [operands, hopcode, hmask, ok_bind, pure_eq_ok, Except.ok.injEq] at h
  subst h
  exact ⟨stackedRegisters_legible _ _, rfl⟩

/-- Brackets take two symbols. -/
theorem legible_through {n : Nat} {text : List Char} (h : Legible n text) (mode : Mode) :
    Legible (n + 2) (if mode.isIndirect then '[' :: text ++ [']'] else text) := by
  split
  · exact (h.cons rfl).append (by decide : Legible 1 [']'])
  · exact h.mono (by omega)

theorem accumulator_ascii (postbyte : UInt8) : isAscii (accumulator postbyte) = true := by
  unfold accumulator
  split <;> rfl

theorem legible_signed_five (value : Int) : Legible 3 (decimal (signExtend 5 value)) := by
  have hrange : -16 ≤ signExtend 5 value ∧ signExtend 5 value < 16 := signExtend_range (by decide) value
  apply legible_decimal (by decide)
  change _ < 100
  omega

/-- Operands other than stacked registers have at most twelve symbols. -/
theorem operands_legible {mode : Mode} {b : Buffer} {i : Int} (h0 : 0 ≤ i) (h6 : i < 6)
    {shown : List (List Char) × Option Int} (h : operands mode b.code i = .ok shown)
    (hmode : mode ≠ .pshPul) : Legible 12 (joined shown.1) := by
  obtain ⟨first, hfirst⟩ := b.exists_pick_code (i := i) h0 (by omega)
  obtain ⟨second, hsecond⟩ := b.exists_pick_code (i := i + 1) (by omega) (by omega)
  obtain ⟨third, hthird⟩ := b.exists_pick_code (i := i + 1 + 1) (by omega) (by omega)
  obtain ⟨source, hmem, hsource⟩ := exists_source first
  obtain ⟨target, hmem', htarget⟩ := exists_target first
  have hregister := indexRegister_legible ((UInt8.ofInt first.toNat >>> 5) &&& 3).toNat
  cases mode <;>
    simp only [operands, readS8, readU16be, readS16be, hfirst, hsecond, hthird, hsource, htarget, ok_bind,
      pure_eq_ok, Except.ok.injEq] at h
  case pshPul => exact absurd rfl hmode
  all_goals subst h
  case inherent | invalid => exact .nil
  case exgTfr =>
    rw [joined_pair]
    have hnames := (transferRegisters_legible source hmem).append
      ((transferRegisters_legible target hmem').cons (c := ',') rfl)
    exact hnames.mono
  all_goals rw [joined_singleton]
  case direct => exact ((Legible.literal ['<', ' ', '$']).append (legible_hex8 _)).mono
  case extended => exact ((legible_hex16 _).cons rfl).mono
  case imm8 => exact (((legible_hex8 _).cons rfl).cons rfl).mono
  case imm16 => exact (((legible_hex16 _).cons rfl).cons rfl).mono
  case rel8 => exact (legible_signed_byte _).mono
  case rel16 => exact (legible_signed_word _).mono
  case extendedInd => exact (legible_through ((legible_hex16 _).cons rfl) .extendedInd).mono
  case zeroOff | zeroOffInd => exact (legible_through (hregister.cons rfl) _).mono
  case constOff5 => exact ((legible_signed_five _).append (hregister.cons rfl)).mono
  case constOff8 | constOff8Ind =>
    exact (legible_through ((legible_signed_byte _).append (hregister.cons rfl)) _).mono
  case constOff16 | constOff16Ind =>
    exact (legible_through ((legible_signed_word _).append (hregister.cons rfl)) _).mono
  case accOff | accOffInd =>
    have htext := (hregister.cons (c := ',') rfl).cons (accumulator_ascii (UInt8.ofInt first.toNat))
    exact (legible_through htext _).mono
  case postInc1 =>
    have htext := (hregister.cons (c := ',') rfl).append (Legible.literal ['+'])
    exact htext.mono
  case postInc2 | postInc2Ind =>
    have htext := (hregister.cons (c := ',') rfl).append (Legible.literal ['+', '+'])
    exact (legible_through htext _).mono
  case preDec1 => exact ((hregister.cons rfl).cons rfl).mono
  case preDec2 | preDec2Ind =>
    exact (legible_through (((hregister.cons rfl).cons rfl).cons rfl) _).mono
  case pcrel8 | pcrel8Ind =>
    have htext := (legible_signed_byte second.toNat).append (Legible.literal ",PCR".toList)
    exact (legible_through htext _).mono
  case pcrel16 | pcrel16Ind =>
    have htext := (legible_signed_word (joinBytes second.toNat third.toNat)).append
      (Legible.literal ",PCR".toList)
    exact (legible_through htext _).mono

theorem render_fits {r : Record Mode} {shown : Rendering} (hsettled : instructionSet.Settled r)
    (hrender : render r = .ok shown) : shown.Fits := by
  rcases settled_mode hsettled with hmode | ⟨opcode, mode, n, h0, hmode, hvalid, -, -⟩
  · rw [render, hmode] at hrender
    cases hrender
    exact unknownMode_fits
  · have hopcode := opcodeBytes_bounds opcode
    obtain ⟨name, hname, -⟩ := exists_mnemonic r.buffer
    obtain ⟨operands, hoperands⟩ := exists_operands mode r.buffer (i := Mode.opcodeBytes opcode)
      (by omega) (by omega)
    rw [render_eq hmode hvalid h0, hname, ok_bind, hoperands, ok_bind] at hrender
    cases hrender
    by_cases hstack : mode = .pshPul
    · subst hstack
      obtain ⟨hlegible, hnone⟩ := stacked_legible (by omega) (by omega) hoperands
      refine ⟨(legible_statement (mnemonic_legible hname) hlegible).mono, ?_⟩
      intro htarget
      simp [hnone] at htarget
    · have hlegible := operands_legible (by omega) (by omega) hoperands hstack
      have htext := legible_statement (mnemonic_legible hname) hlegible
      exact .of_legible (htext.mono)

end Mc6809

/-! ## The Z80 -/

namespace Z80

theorem isOperand_operand {r : Record Mode} {i : Int} {p : Placeholder Char} {value : Rendering}
    (h0 : 0 ≤ i) (h7 : i < 7) (h : operand r i p = .ok value) : Template.IsOperand value.text := by
  obtain ⟨low, hlow⟩ := r.buffer.exists_pick_code (i := i) h0 (by omega)
  obtain ⟨high, hhigh⟩ := r.buffer.exists_pick_code (i := i + 1) (by omega) (by omega)
  have hrange := natAbs_signExtend_eight low.toNat
  simp only [operand, readU16le, readS8, hlow, hhigh, ok_bind, pure_eq_ok] at h
  split at h <;> rw [← Except.ok.inj h] <;> dsimp only
  · apply Template.IsOperand.append_h
    · rw [length_hex16]
      decide
    · exact fun c => mem_hexPadded
  · apply Template.IsOperand.append_h
    · rw [length_hex8]
      decide
    · exact fun c => mem_hexPadded
  · exact .signedDecimal (by omega)
  · exact .decimal (by omega)

theorem render_fits {r : Record Mode} {shown : Rendering} (hsettled : instructionSet.Settled r)
    (hrender : render r = .ok shown) : shown.Fits := by
  obtain ⟨k, t, offset, length, h, hk, -⟩ := settled_template hsettled
  have ht := h.decided r.count hk
  rw [render_eq ht h.operandOffset_eq] at hrender
  apply Rendering.Fits.of_legible
  apply (clear_ofTables.templateOf ht).legible_render _ hrender
  intro j p value hp hvalue
  obtain ⟨hfirst, hend⟩ := h.placed_bounds hp
  exact isOperand_operand hfirst (by omega) hvalue

end Z80

/-! ## Texts that are not cut -/

theorem length_targetSuffix (address : Int) : (targetSuffix address).length = 7 := by
  simp [targetSuffix]

theorem legible_targetSuffix (address : Int) : Legible 7 (targetSuffix address) := by
  have hhex := (Legible.literal " <".toList).append (legible_hex16 address)
  exact hhex.append (Legible.literal ['>'])

namespace Rendering

variable {shown : Rendering}

theorem Fits.exists_legible (h : shown.Fits) :
    ∃ whole, shown.display = .ofChars whole ∧ Legible maxText whole := by
  unfold display
  cases htarget : shown.target with
  | none => exact ⟨shown.text, rfl, h.legible⟩
  | some target =>
      have hbody : Legible bodyWidth shown.text := h.room (by simp [htarget])
      exact ⟨_, rfl, hbody.append (legible_targetSuffix (wrap16 target))⟩

theorem Fits.bounded_eq (h : shown.Fits) : bounded shown.display = (shown.display, []) := by
  obtain ⟨whole, hdisplay, hlegible⟩ := h.exists_legible
  have hlength : ¬ maxText < shown.display.length := by
    rw [hdisplay, Text.length_ofChars]
    exact Nat.not_lt_of_le hlegible.length_le
  rw [bounded, if_neg hlength]

theorem display_ne_nil (h : shown.text ≠ []) : shown.display ≠ [] := by
  obtain ⟨suffix, hdisplay⟩ := exists_display shown
  rw [hdisplay]
  simpa [Text.ofChars] using fun hnil => absurd hnil h

end Rendering

/-! ## Sessions -/

namespace InstructionSet

variable {μ : Type}

/-- The notices that calls leave when they are made one after the other. -/
def noticesOf (s : InstructionSet μ) : Record μ → List Call → List Notice
  | _, [] => []
  | r, call :: calls => (s.respond r call).notices ++ s.noticesOf (s.call r call) calls

/-- The text of the record is printable, and what the instruction set shows for the record is not cut. -/
structure Uncut (s : InstructionSet μ) (r : Record μ) (shown : Rendering) : Prop where
  render_eq : s.render r = .ok shown
  length_pos : 1 ≤ shown.display.length
  length_le : shown.display.length ≤ 32
  printable : ∀ c ∈ shown.display, 0x20 ≤ c.toNat ∧ c.toNat ≤ 0x7E
  bounded_eq : bounded shown.display = (shown.display, [])
  text_eq : r.text = shown.display
  /-- The address that the instruction refers to is at the end. -/
  suffix_eq : ∀ target, r.target = some target →
    r.text.drop (r.text.length - 7) = Text.ofChars (targetSuffix target)

variable {s : InstructionSet μ} {longest opening : Nat} {r : Record μ} {shown : Rendering}

theorem Shown.text_eq_display (h : s.Shown r shown) (hfits : shown.Fits) : r.text = shown.display := by
  rw [h.text_eq, hfits.bounded_eq]

/-- The address at the end of a text takes seven symbols. -/
theorem Shown.drop_text (h : s.Shown r shown) (hfits : shown.Fits) {target : Int}
    (htarget : r.target = some target) :
    r.text.drop (r.text.length - 7) = Text.ofChars (targetSuffix target) := by
  obtain ⟨refers, hrefers, rfl⟩ := Option.map_eq_some_iff.mp (h.target_eq.symm.trans htarget)
  have htext : r.text = Text.ofChars shown.text ++ Text.ofChars (targetSuffix (wrap16 refers)) := by
    rw [h.text_eq_display hfits, Rendering.display_of_some hrefers]
  have hlength : r.text.length - 7 = (Text.ofChars shown.text).length := by
    rw [htext, List.length_append, Text.length_ofChars (targetSuffix _), length_targetSuffix]
    omega
  rw [hlength, htext, List.drop_left]

theorem Shown.uncut (law : s.Lawful longest opening) (h : s.Shown r shown) (hfits : shown.Fits) :
    s.Uncut r shown := by
  obtain ⟨whole, hdisplay, hlegible⟩ := hfits.exists_legible
  obtain ⟨shown', hrender, htext⟩ := law.render_ok r h.settled h.count_eq
  rw [h.render_eq] at hrender
  cases hrender
  exact {
    render_eq := h.render_eq
    length_pos := List.length_pos_iff.mpr (Rendering.display_ne_nil htext)
    length_le := by
      rw [hdisplay, Text.length_ofChars]
      exact hlegible.length_le
    printable := by
      intro c hc
      rw [hdisplay] at hc
      obtain ⟨symbol, hsymbol, rfl⟩ := List.mem_map.mp hc
      have hascii := hlegible.ascii symbol hsymbol
      simp only [isAscii, Bool.and_eq_true, decide_eq_true_eq] at hascii
      exact hascii
    bounded_eq := hfits.bounded_eq
    text_eq := h.text_eq_display hfits
    suffix_eq := fun target htarget => h.drop_text hfits htarget }

namespace Lawful

/-- A call leaves the record as it is, or it is a step behind a byte that it has fetched. -/
theorem respond_cases (law : s.Lawful longest opening) (h : s.Sound r) (call : Call) :
    ((s.respond r call).record = r ∧ ∀ text, Notice.truncated text ∉ (s.respond r call).notices) ∨
    ∃ q, s.Ready q ∧ s.respond r call = (s.step q).map .taken := by
  cases call with
  | start address byte =>
      rcases s.start_cases r address byte with ⟨-, heq⟩ | ⟨-, -, heq⟩ | ⟨-, -, -, heq⟩ |
        ⟨haddress, hbyte, hphase⟩
      · exact .inl (by simp [respond, Response.map, heq])
      · exact .inl (by simp [respond, Response.map, heq])
      · exact .inl (by simp [respond, Response.map, heq])
      · obtain ⟨c, hfetched, hstart⟩ := s.start_eq_step hphase haddress hbyte
        exact .inr ⟨_, ready_clear hfetched, by rw [respond, hstart]⟩
  | next byte =>
      rcases s.next_cases r byte with ⟨-, heq⟩ | ⟨-, -, heq⟩ | ⟨hbyte, hphase⟩
      · exact .inl (by simp [respond, Response.map, heq])
      · exact .inl (by simp [respond, Response.map, heq])
      · have hunderway := h.underway hphase
        obtain ⟨c, hpush, hnext⟩ := s.next_eq_step hphase (law.room hunderway) hbyte
        exact .inr ⟨_, law.ready_push hunderway hpush, by rw [respond, hnext]⟩
  | complete => exact .inl (by simp [respond])

/-- A call keeps it true that complete instructions are shown. -/
theorem call_shown (law : s.Lawful longest opening) (h : s.Sound r)
    (hshown : r.phase = .complete → ∃ shown, s.Shown r shown) (call : Call)
    (hcomplete : (s.call r call).phase = .complete) : ∃ shown, s.Shown (s.call r call) shown := by
  rw [← respond_record] at hcomplete ⊢
  rcases law.respond_cases h call with ⟨hrecord, -⟩ | ⟨q, hready, hrespond⟩
  · rw [hrecord] at hcomplete ⊢
    exact hshown hcomplete
  · rw [hrespond] at hcomplete ⊢
    exact law.step_shown hready hcomplete

theorem foldl_shown (law : s.Lawful longest opening) (h : s.Sound r)
    (hshown : r.phase = .complete → ∃ shown, s.Shown r shown) (calls : List Call)
    (hcomplete : (calls.foldl s.call r).phase = .complete) : ∃ shown, s.Shown (calls.foldl s.call r) shown := by
  induction calls generalizing r with
  | nil => exact hshown hcomplete
  | cons call calls ih => exact ih (law.call_sound h call) (law.call_shown h hshown call) hcomplete

theorem run_shown (law : s.Lawful longest opening) (calls : List Call)
    (hcomplete : (s.run calls).phase = .complete) : ∃ shown, s.Shown (s.run calls) shown := by
  refine law.foldl_shown (.initial s) ?_ calls hcomplete
  intro hphase
  cases hphase

/-- Where all texts fit, no call leaves a notice of a cut. -/
theorem respond_notices (law : s.Lawful longest opening)
    (hfits : ∀ r shown, s.Settled r → s.render r = .ok shown → shown.Fits) (h : s.Sound r) (call : Call)
    (text : Text) : Notice.truncated text ∉ (s.respond r call).notices := by
  rcases law.respond_cases h call with ⟨-, hnotices⟩ | ⟨q, hready, hrespond⟩
  · exact hnotices text
  · have hstep : (s.step q).notices = [] := by
      rcases law.step_cases hready with ⟨-, hnone⟩ | ⟨shown, hshown, hcut⟩
      · exact hnone
      · rw [hcut, (hfits _ shown hshown.settled hshown.render_eq).bounded_eq]
    rw [hrespond, Response.map, hstep]
    exact List.not_mem_nil

theorem noticesOf_uncut (law : s.Lawful longest opening)
    (hfits : ∀ r shown, s.Settled r → s.render r = .ok shown → shown.Fits) (h : s.Sound r)
    (calls : List Call) (text : Text) : Notice.truncated text ∉ s.noticesOf r calls := by
  induction calls generalizing r with
  | nil => exact List.not_mem_nil
  | cons call calls ih =>
      intro hmem
      rcases List.mem_append.mp hmem with hfirst | hrest
      · exact law.respond_notices hfits h call text hfirst
      · exact ih (law.call_sound h call) hrest

end Lawful

end InstructionSet

namespace Architecture

theorem render_fits (a : Architecture) {r : Record a.Mode} {shown : Rendering}
    (hsettled : a.instructionSet.Settled r) (hrender : a.instructionSet.render r = .ok shown) :
    shown.Fits := by
  cases a with
  | mos6502 => exact Mos6502.render_fits hsettled hrender
  | mos65c02 => exact Mos6502.render_fits hsettled hrender
  | mc6800 => exact Mc6800.render_fits hsettled hrender
  | mc6809 => exact Mc6809.render_fits hsettled hrender
  | mc6809e => exact Mc6809.render_fits hsettled hrender
  | z80 => exact Z80.render_fits hsettled hrender

/-- No session leaves a notice of a cut, and wherever an instruction is complete, its text is printable,
fits, and is shown whole. -/
theorem run_legible (a : Architecture) (calls : List Call) :
    let s := a.instructionSet
    (∀ text, Notice.truncated text ∉ s.noticesOf {} calls) ∧
    ((s.run calls).phase = .complete → ∃ shown, s.Uncut (s.run calls) shown) := by
  intro s
  constructor
  · exact a.lawful.noticesOf_uncut (fun _ _ => a.render_fits) (.initial s) calls
  · intro hcomplete
    obtain ⟨shown, hshown⟩ := a.lawful.run_shown calls hcomplete
    exact ⟨shown, hshown.uncut a.lawful (a.render_fits hshown.settled hshown.render_eq)⟩

/-- A load through memory, with a rejected and an ignored call in its middle. -/
theorem run_legible_indirect :
    let s := mc6809.instructionSet
    let calls : List Call :=
      [.start 0xFFF0 0x30, .next 0x9D, .start 0 0, .next 0x80, .next 0x100, .next 0x00]
    (s.run calls).phase = .complete ∧ (∀ text, Notice.truncated text ∉ s.noticesOf {} calls) ∧
    ∃ shown, s.Uncut (s.run calls) shown := by
  intro s calls
  have hcomplete : (s.run calls).phase = .complete := by decide +kernel
  obtain ⟨hnotices, huncut⟩ := run_legible mc6809 calls
  exact ⟨hcomplete, hnotices, huncut hcomplete⟩

end Architecture

end EightBit
