import EightBit.Proofs.Shown
set_option autoImplicit false

/-!
# Asking once and asking after every byte

A decoder asks its instruction set after every byte, so mode and length are often decided by fewer bytes than
there are when the instruction is shown.  Collecting the bytes first and asking once comes to the same
(`feed_agrees_collect`).  What makes it so is that a decision stands for every longer beginning of the
instruction that it measures (`Stable`).  An invalid mode has the length of the bytes that were asked about;
its instruction is complete with the byte that decides, so no longer beginning of it is asked about.
-/

namespace EightBit

variable {μ : Type}

/-- The record opened for an instruction and given further bytes, none of them asked about. -/
def Record.collect (r : Record μ) (address : Int) : List UInt8 → Except Fault (Record μ)
  | [] => .ok r
  | first :: rest => do
      (r.reset address first.toNat).result
      rest.foldlM (fun r byte => r.append byte.toNat) (r.reset address first.toNat).record

namespace Record

theorem foldlM_append {r : Record μ} {bytes : List UInt8} (h : r.count + bytes.length ≤ 8) :
    ∃ c : Buffer, c.fetched = r.buffer.fetched ++ bytes ∧
      bytes.foldlM (fun r byte => r.append byte.toNat) r = .ok { r with buffer := c } := by
  induction bytes generalizing r with
  | nil => exact ⟨r.buffer, (List.append_nil _).symm, rfl⟩
  | cons byte rest ih =>
      rw [List.length_cons] at h
      obtain ⟨c, hpush, happend⟩ :=
        InstructionSet.append_eq_ok (r := r) (by omega) (isByte_toNat byte)
      have hcount : c.count = r.count + 1 := Buffer.count_of_push? hpush
      have hroom : ({ r with buffer := c } : Record μ).count + rest.length ≤ 8 := by
        change c.count + rest.length ≤ 8
        omega
      obtain ⟨d, hfetched, hrest⟩ := ih hroom
      refine ⟨d, ?_, ?_⟩
      · rw [hfetched, Buffer.fetched_of_push? hpush, ofInt_toNat, List.append_assoc]
        rfl
      · rw [List.foldlM_cons, happend, ok_bind, hrest]

/-- Up to eight bytes are collected whatever the record held before. -/
theorem exists_collect (r : Record μ) (address : Int) {bytes : List UInt8} (hne : bytes ≠ [])
    (hlength : bytes.length ≤ 8) :
    ∃ c : Buffer, c.fetched = bytes ∧
      r.collect address bytes = .ok { r.clear address with buffer := c } := by
  obtain ⟨first, rest, rfl⟩ := List.exists_cons_of_ne_nil hne
  have hroom : (r.clear address).count < 8 := by simp [clear, count]
  obtain ⟨c, hpush, happend⟩ := InstructionSet.append_eq_ok hroom (isByte_toNat first)
  have hfetched : c.fetched = [first] := by
    rw [Buffer.fetched_of_push? hpush, ofInt_toNat]
    rfl
  have hrest : ({ r.clear address with buffer := c } : Record μ).count + rest.length ≤ 8 := by
    change c.fetched.length + rest.length ≤ 8
    rw [hfetched, Nat.add_comm]
    exact hlength
  obtain ⟨d, hall, hcollect⟩ := foldlM_append hrest
  refine ⟨d, ?_, ?_⟩
  · rw [hall, hfetched]
    rfl
  · simp only [collect, reset, happend, ok_bind, hcollect]

end Record

namespace InstructionSet

/-- A decision stands for every longer beginning of the instruction that it measures. -/
def Stable (s : InstructionSet μ) : Prop :=
  ∀ (b : Buffer) (j k : Nat) (mode : μ) (length : Int), s.DecidesAt b j mode length → j ≤ k →
    (k : Int) ≤ length → s.layout b.code k = .ok (some (mode, length))

variable {s : InstructionSet μ} {longest opening : Nat} {r q : Record μ} {address : Int}
  {bytes : List UInt8} {k : Nat} {mode : μ} {length : Int}

namespace Lawful

/-- A step that decides mode and length first goes on as the one from the record that has them. -/
theorem step_of_layout (law : s.Lawful longest opening) (hphase : r.phase = .fetching) (hpos : 0 < r.count)
    (hopen : r.required = 0) (hlayout : s.layout r.buffer.code r.count = .ok (some (mode, length)))
    (hready : s.Ready { r with mode := some mode, required := length }) (hlength : length ≠ 0) :
    s.step r = s.step { r with mode := some mode, required := length } := by
  have hmeasure := measure_eq_some_iff.mpr (.inl ⟨hopen, mode, length, hlayout, rfl⟩)
  have hagain : s.measure { r with mode := some mode, required := length } =
      .ok (some { r with mode := some mode, required := length }) :=
    measure_eq_some_iff.mpr (.inr ⟨hlength, rfl⟩)
  have hadvance : s.advance r = s.advance { r with mode := some mode, required := length } := by
    rw [advance_of_measured hphase hpos hmeasure, advance_of_measured hready.phase_eq hready.count_pos hagain]
  cases hadvanced : s.advance { r with mode := some mode, required := length } with
  | error e =>
      have hresult := (law.step_accepted hready).result_eq
      rw [step, hadvanced] at hresult
      cases hresult
  | ok advanced => simp only [step, hadvance, hadvanced]

/-- A record that has been asked about all along goes on like one that is asked about for the first time. -/
theorem step_agrees_fresh (law : s.Lawful longest opening) (hstable : s.Stable) (hready : s.Ready r)
    {c : Buffer} (hfetched : c.fetched = r.buffer.fetched) :
    (s.step r).Agrees (s.step { q.clear r.address with buffer := c }) := by
  have hcount : r.count = c.count := by simp only [Record.count, Buffer.count, hfetched]
  rcases hready.progress with ⟨hrequired, hmode, -⟩ | ⟨⟨j, mode, length, hdecides, hj, hmode, hrequired⟩, hle⟩
  · exact law.step_agrees hready
      ⟨hready.phase_eq, rfl, hready.target_eq, hrequired, hmode, hfetched.symm, hready.text_eq⟩
  · -- The bytes that decided are still in front, and there are no more than the length they decided.
    have hagree : AgreeBelow j r.buffer.code c.code :=
      (Buffer.agreeBelow_of_fetched_eq hfetched.symm).mono (Int.ofNat_le.mpr hj)
    have hdecides' := law.decidesAt_congr hagree hdecides
    have hlength : (c.count : Int) ≤ length := by
      rw [← hcount, ← hrequired]
      exact hle
    have hj' : j ≤ c.count := hcount ▸ hj
    have hlayout := hstable c j c.count mode length hdecides' hj' hlength
    have hpos : 0 < c.count := hcount ▸ hready.count_pos
    have hsettled : s.Ready { q.clear r.address with buffer := c, mode := some mode, required := length } :=
      ⟨rfl, hpos, rfl, rfl, .inr ⟨⟨j, mode, length, hdecides', hj', rfl, rfl⟩, hlength⟩⟩
    rw [law.step_of_layout (r := { q.clear r.address with buffer := c }) rfl hpos rfl hlayout hsettled (by omega)]
    exact law.step_agrees hready
      ⟨hready.phase_eq, rfl, hready.target_eq, hrequired, hmode, hfetched.symm, hready.text_eq⟩

/-- Bytes that are collected first and asked about once leave what asking after each of them leaves. -/
theorem feed_agrees_step (law : s.Lawful longest opening) (hstable : s.Stable) (hq : q.phase ≠ .fetching)
    (haddress : InRange address) (hpos : 0 < k) (hk : k ≤ bytes.length)
    (hbelow : s.FetchingBelow q address bytes k) (r : Record μ) :
    ∃ collected, r.collect address (bytes.take k) = .ok collected ∧
      (s.feed q address (bytes.take k)).Agrees (s.step collected) := by
  have haccepted := law.feed_accepted hq haddress hpos hk hbelow
  obtain ⟨p, hready, hfeed⟩ := law.feed_eq_step hq haddress hpos hk hbelow
  have hstep := law.step_accepted hready
  rw [← hfeed] at hstep
  have hplace : p.address = address := hstep.address_eq.symm.trans haccepted.address_eq
  have hbytes : p.buffer.fetched = bytes.take k := hstep.fetched_eq.symm.trans haccepted.fetched_eq
  have hne : bytes.take k ≠ [] := by
    rw [← hbytes]
    exact List.ne_nil_of_length_pos hready.count_pos
  have hlength : (bytes.take k).length ≤ 8 := by
    rw [← hbytes]
    exact p.buffer.count_le
  obtain ⟨c, hfetched, hcollect⟩ := r.exists_collect address hne hlength
  refine ⟨_, hcollect, ?_⟩
  rw [hfeed, ← hplace]
  exact law.step_agrees_fresh hstable hready (hfetched.trans hbytes.symm)

end Lawful

end InstructionSet

/-! ## Decisions that stand -/

theorem Mos6502.stable (v : Variant) : (instructionSet v).Stable := by
  intro b j k mode length hdecides _ _
  obtain ⟨-, t, -, -, -, hlayout⟩ := exists_layout v b
  change layout v b.code k = _
  rw [hlayout k, ← hlayout j]
  exact hdecides.layout_eq

/-- An invalid mode ends with the byte that decides it, the others have a length of their own. -/
theorem Mc6800.stable : instructionSet.Stable := by
  intro b j k mode length hdecides hjk hk
  obtain ⟨byte, -, -, -, hbyte, -, -, -⟩ := b.exists_front
  have hlayout : layout b.code j = .ok (some (mode, length)) := hdecides.layout_eq
  change layout b.code k = _
  rw [layout_eq hbyte] at hlayout ⊢
  cases hmode : (Mode.ofOpcode byte.toNat).length? with
  | none =>
      rw [hmode] at hlayout
      cases hlayout
      have hsame : k = j := Nat.le_antisymm (Int.ofNat_le.mp hk) hjk
      rw [hsame]
  | some own =>
      rw [hmode] at hlayout
      exact hlayout

/-- An invalid mode ends here too with the byte that decides it. -/
theorem Mc6809.stable : instructionSet.Stable := by
  intro b j k mode length hdecides hjk hk
  obtain ⟨opcode, i, mode', h0, hdecided⟩ := exists_decision b
  have hlayout : layout b.code j = .ok (some (mode, length)) := hdecides.layout_eq
  have hij : i ≤ j :=
    hdecides.le_of_open fun i' hpos hlt => layout_of_open (hdecided.open_before i' hpos hlt)
  rcases layout_of_decidedAt h0 hdecided hij with ⟨-, heq⟩ | ⟨n, hn, heq⟩
  · rw [heq] at hlayout
    cases hlayout
    have hsame : k = j := Nat.le_antisymm (Int.ofNat_le.mp hk) hjk
    rw [hsame]
    exact heq
  · rcases layout_of_decidedAt h0 hdecided (Nat.le_trans hij hjk) with ⟨rfl, -⟩ | ⟨n', hn', heq'⟩
    · cases hn
    · rw [hn] at hn'
      cases hn'
      rw [← hlayout, heq]
      exact heq'

theorem Z80.stable : instructionSet.Stable := by
  intro b j k mode length hdecides hjk _
  obtain ⟨i, t, offset, size, hdecided⟩ := exists_decision b
  have hlayout : layout b.code j = .ok (some (mode, length)) := hdecides.layout_eq
  have hij : i ≤ j :=
    hdecides.le_of_open fun i' hpos hlt => layout_of_open (hdecided.open_before i' hpos hlt)
  rw [← hlayout, layout_of_decidedAt hdecided hij]
  exact layout_of_decidedAt hdecided (Nat.le_trans hij hjk)

namespace Architecture

theorem stable : (a : Architecture) → a.instructionSet.Stable
  | .mos6502 => Mos6502.stable .mos6502
  | .mos65c02 => Mos6502.stable .mos65c02
  | .mc6800 => Mc6800.stable
  | .mc6809 | .mc6809e => Mc6809.stable
  | .z80 => Z80.stable

/-- The first bytes of an instruction, collected in any record and asked about once, leave the record and the
answer that a decoder has after asking about each of them. -/
theorem feed_agrees_collect (a : Architecture) {q : Record a.Mode} {address : Int} {bytes : List UInt8}
    {n k : Nat} (hq : q.phase ≠ .fetching) (haddress : InRange address)
    (h : a.instructionSet.CompletesAfter q address bytes n) (hpos : 0 < k) (hk : k ≤ n) (r : Record a.Mode) :
    ∃ collected, r.collect address (bytes.take k) = .ok collected ∧
      (a.instructionSet.feed q address (bytes.take k)).Agrees (a.instructionSet.step collected) :=
  a.lawful.feed_agrees_step a.stable hq haddress hpos (Nat.le_trans hk h.le_length) (h.fetching.mono hk) r

/-- The length is decided by the postbyte, a byte before the last one that is collected, and the record in which
they are collected is in the middle of another instruction. -/
theorem feed_agrees_collect_postbyte :
    let r := (instructionSet .mc6809).feed {} 0x1000 [0x11, 0x83] |>.record
    let q := (instructionSet .mc6809).feed {} 0x2000 [0x86, 0x5A] |>.record
    let bytes : List UInt8 := [0x10, 0xAE, 0x9F, 0x12, 0x34]
    (q.phase ≠ .fetching ∧ InRange 0xFFFE ∧ (instructionSet .mc6809).CompletesAfter q 0xFFFE bytes 5) ∧
    ∃ collected, r.collect 0xFFFE (bytes.take 4) = .ok collected ∧
      ((instructionSet .mc6809).feed q 0xFFFE (bytes.take 4)).Agrees
        ((instructionSet .mc6809).step collected) := by
  intro r q bytes
  have hq : q.phase ≠ .fetching := by decide +kernel
  have haddress : InRange 0xFFFE := ⟨by decide, by decide⟩
  have h : (instructionSet .mc6809).CompletesAfter q 0xFFFE bytes 5 := by decide +kernel
  exact ⟨⟨hq, haddress, h⟩, feed_agrees_collect .mc6809 hq haddress h (by decide) (by decide) r⟩

end Architecture

end EightBit
