import EightBit.Proofs.Feeding
set_option autoImplicit false

/-!
# Instructions that outgrow the buffer

A record in the middle of an instruction need not be one that decoding leads to: its length, mode and target may
be anything, and the instruction set may fault on it.  Even so each further byte is fetched into a cell or finds
none left, and a byte that finds none left completes the instruction (`exists_complete`).  A record whose length
will not be met fetches bytes and does nothing else until then (`proceed_unmet`).
-/

namespace EightBit

variable {μ : Type}

theorem Buffer.stale_of_push? {b c : Buffer} {byte : UInt8} (h : b.push? byte = some c) :
    c.stale = b.stale.drop 1 := by
  unfold push? at h
  split at h
  · cases h
  · rename_i hstale
    cases h
    exact (congrArg (List.drop 1) hstale).symm

/-- `q` is `r` with the bytes fetched behind its own ones, and is the same in all else. -/
structure Record.Extended (r : Record μ) (bytes : List UInt8) (q : Record μ) : Prop where
  fetched_eq : q.buffer.fetched = r.buffer.fetched ++ bytes
  stale_eq : q.buffer.stale = r.buffer.stale.drop bytes.length
  rest_eq : q = { r with buffer := q.buffer }

namespace Record.Extended

variable {r q : Record μ} {bytes : List UInt8} {byte : UInt8} {buffer : Buffer}

theorem refl (r : Record μ) : r.Extended [] r :=
  ⟨(List.append_nil _).symm, rfl, rfl⟩

theorem count_eq (h : r.Extended bytes q) : q.count = r.count + bytes.length := by
  rw [Record.count, Buffer.count, h.fetched_eq, List.length_append]
  rfl

theorem push (h : r.Extended bytes q) (hpush : q.buffer.push? byte = some buffer) :
    r.Extended (bytes ++ [byte]) { q with buffer := buffer } where
  fetched_eq := by
    rw [← List.append_assoc, ← h.fetched_eq]
    exact Buffer.fetched_of_push? hpush
  stale_eq := by
    have hstale : buffer.stale = q.buffer.stale.drop 1 := Buffer.stale_of_push? hpush
    rw [hstale, h.stale_eq, List.drop_drop, List.length_append]
    rfl
  rest_eq := by
    rw [h.rest_eq]

end Record.Extended

namespace InstructionSet

/-- The response to the last of some further bytes, where each is given whatever the one before it led to. -/
def proceed (s : InstructionSet μ) (r : Record μ) (bytes : List UInt8) : Response μ Bool :=
  bytes.foldl (fun response byte => s.next response.record byte.toNat) { record := r, result := .ok true }

variable {s : InstructionSet μ} {r q : Record μ} {bytes : List UInt8} {byte : UInt8}

theorem proceed_append (s : InstructionSet μ) (r : Record μ) (bytes : List UInt8) (byte : UInt8) :
    s.proceed r (bytes ++ [byte]) = s.next (s.proceed r bytes).record byte.toNat := by
  simp [proceed]

theorem record_proceed_cons (s : InstructionSet μ) (r : Record μ) (byte : UInt8) (rest : List UInt8) :
    (s.proceed r (byte :: rest)).record = (s.proceed (s.next r byte.toNat).record rest).record := by
  cases rest <;> rfl

/-! ## What any call does to a record in the middle of an instruction -/

theorem complete_keeps (h : s.complete r = .ok q) : q.buffer = r.buffer ∧ q.phase = .complete := by
  unfold complete at h
  cases hshown : s.render r with
  | error fault =>
      rw [hshown] at h
      cases h
  | ok shown =>
      rw [hshown] at h
      cases h
      cases shown.target <;> exact ⟨rfl, rfl⟩

theorem advance_keeps (hphase : r.phase = .fetching) (h : s.advance r = .ok q) :
    q.buffer = r.buffer ∧ (q.phase = .fetching ∨ q.phase = .complete) := by
  rcases Nat.eq_zero_or_pos r.count with hzero | hpos
  · have hidle : ¬ (r.phase = .fetching ∧ r.count ≠ 0) := fun hactive => hactive.2 hzero
    rw [advance, if_neg hidle] at h
    cases h
    exact ⟨rfl, .inl hphase⟩
  · cases hmeasure : s.measure r with
    | error fault =>
        have hactive : r.phase = .fetching ∧ r.count ≠ 0 := ⟨hphase, Nat.ne_of_gt hpos⟩
        rw [advance, if_pos hactive, hmeasure] at h
        cases h
    | ok measured =>
        cases measured with
        | none =>
            rw [Lawful.advance_of_open hphase hpos hmeasure] at h
            cases h
            exact ⟨rfl, .inl hphase⟩
        | some measured =>
            rw [Lawful.advance_of_measured hphase hpos hmeasure] at h
            have hkept : measured.buffer = r.buffer ∧ measured.phase = r.phase := by
              rcases measure_eq_some_iff.mp hmeasure with ⟨-, mode, length, -, rfl⟩ | ⟨-, rfl⟩
              · exact ⟨rfl, rfl⟩
              · exact ⟨rfl, rfl⟩
            split at h
            · obtain ⟨hbuffer, hcomplete⟩ := complete_keeps h
              exact ⟨hbuffer.trans hkept.1, .inr hcomplete⟩
            · cases h
              exact ⟨hkept.1, .inl (hkept.2.trans hphase)⟩

/-- A step touches no cell, whether it faults or not, and does not abandon the instruction. -/
theorem step_keeps (s : InstructionSet μ) (hphase : r.phase = .fetching) :
    (s.step r).record.buffer = r.buffer ∧
      ((s.step r).record.phase = .fetching ∨ (s.step r).record.phase = .complete) := by
  cases hadvance : s.advance r with
  | error fault =>
      have hstep : s.step r = { record := r, result := .error fault } := by simp [step, hadvance]
      rw [hstep]
      exact ⟨rfl, .inl hphase⟩
  | ok q =>
      obtain ⟨hbuffer, hfetching | hcomplete⟩ := advance_keeps hphase hadvance
      · rw [Lawful.step_of_fetching hphase hadvance hfetching]
        exact ⟨hbuffer, .inl hfetching⟩
      · rw [Lawful.step_of_complete hphase hadvance hcomplete]
        exact ⟨hbuffer, .inr hcomplete⟩

/-- A byte that finds no cell left completes the instruction. -/
theorem next_of_full (s : InstructionSet μ) (hphase : r.phase = .fetching) (hfull : r.count = 8) (byte : UInt8) :
    s.next r byte.toNat =
      { record := r.finish (.ofString "<decode overflow>"), result := .ok false,
        notices := [.overflow r.address r.buffer.fetched] } := by
  have hbyte := isByte_toNat byte
  have hvalue : ¬ ((byte.toNat : Int) < 0 ∨ 0xFF < (byte.toNat : Int)) := by unfold IsByte at hbyte; omega
  have hisFull : r.buffer.isFull = true := by simpa [Buffer.isFull, Record.count] using Nat.le_of_eq hfull.symm
  rw [next, if_neg hvalue, if_neg (not_not_intro hphase), if_pos hisFull]

/-- A call leaves the first eight of all bytes in the cells.  It completes the instruction unless there was a cell
left for its byte. -/
theorem next_keeps (s : InstructionSet μ) (hphase : r.phase = .fetching) (byte : UInt8) :
    (s.next r byte.toNat).record.buffer.fetched = (r.buffer.fetched ++ [byte]).take 8 ∧
      ((s.next r byte.toNat).record.phase = .fetching ∧ r.count < 8 ∨
        (s.next r byte.toNat).record.phase = .complete) := by
  by_cases hroom : r.count < 8
  · obtain ⟨buffer, hpush, hnext⟩ := s.next_eq_step hphase hroom (isByte_toNat byte)
    rw [ofInt_toNat] at hpush
    obtain ⟨hbuffer, hprogress⟩ := s.step_keeps (r := { r with buffer := buffer }) hphase
    have hlength : (r.buffer.fetched ++ [byte]).length ≤ 8 := by
      rw [List.length_append]
      exact hroom
    rw [hnext, hbuffer, List.take_of_length_le hlength]
    exact ⟨Buffer.fetched_of_push? hpush, hprogress.imp_left fun hfetching => ⟨hfetching, hroom⟩⟩
  · have hfull : r.count = 8 := Nat.le_antisymm r.buffer.count_le (Nat.le_of_not_lt hroom)
    rw [s.next_of_full hphase hfull byte, List.take_append_of_le_length (Nat.le_of_eq hfull.symm),
      List.take_of_length_le (Nat.le_of_eq hfull)]
    exact ⟨rfl, .inr rfl⟩

/-- As many bytes as there are cells left and one more complete the instruction, or fewer of them do.  Up to then
the cells hold the first eight of all bytes. -/
theorem exists_complete (s : InstructionSet μ) (hphase : r.phase = .fetching)
    (hlength : r.count + bytes.length = 9) :
    ∃ n, 0 < n ∧ n ≤ bytes.length ∧
      (∀ k < n, (s.proceed r (bytes.take k)).record.phase = .fetching) ∧
      (s.proceed r (bytes.take n)).record.phase = .complete ∧
      ∀ k ≤ n, (s.proceed r (bytes.take k)).record.buffer.fetched =
        (r.buffer.fetched ++ bytes.take k).take 8 := by
  induction bytes generalizing r with
  | nil =>
      have hcount : r.count ≤ 8 := r.buffer.count_le
      simp only [List.length_nil] at hlength
      omega
  | cons byte rest ih =>
      have hnone : r.buffer.fetched = (r.buffer.fetched ++ []).take 8 := by
        rw [List.append_nil, List.take_of_length_le r.buffer.count_le]
      obtain ⟨hfetched, ⟨hfetching, hroom⟩ | hcomplete⟩ := s.next_keeps hphase byte
      · have hshort : (r.buffer.fetched ++ [byte]).length ≤ 8 := by
          rw [List.length_append]
          exact hroom
        rw [List.take_of_length_le hshort] at hfetched
        have hcount : (s.next r byte.toNat).record.count = r.count + 1 := by
          rw [Record.count, Buffer.count, hfetched, List.length_append]
          rfl
        rw [List.length_cons] at hlength
        obtain ⟨n, -, hle, hbelow, hcomplete, hcells⟩ := ih hfetching (by omega)
        refine ⟨n + 1, Nat.succ_pos n, Nat.succ_le_succ hle, ?_, ?_, ?_⟩
        · intro k hk
          cases k with
          | zero => exact hphase
          | succ k =>
              rw [List.take_succ_cons, record_proceed_cons]
              exact hbelow k (Nat.lt_of_succ_lt_succ hk)
        · rw [List.take_succ_cons, record_proceed_cons]
          exact hcomplete
        · intro k hk
          cases k with
          | zero => exact hnone
          | succ k =>
              rw [List.take_succ_cons, record_proceed_cons, hcells k (Nat.le_of_succ_le_succ hk), hfetched,
                List.append_assoc]
              rfl
      · refine ⟨1, Nat.one_pos, Nat.succ_pos _, ?_, hcomplete, ?_⟩
        · intro k hk
          cases Nat.lt_one_iff.mp hk
          exact hphase
        · intro k hk
          rcases Nat.le_one_iff_eq_zero_or_eq_one.mp hk with rfl | rfl
          · exact hnone
          · exact hfetched

/-! ## A length that will not be met -/

/-- A step on a record with a length other than the number of its bytes does nothing. -/
theorem step_of_unmet (s : InstructionSet μ) (hphase : r.phase = .fetching) (hpos : 0 < r.count)
    (hrequired : r.required ≠ 0) (hunmet : (r.count : Int) ≠ r.required) :
    s.step r = { record := r, result := .ok true } := by
  have hmeasure : s.measure r = .ok (some r) := measure_eq_some_iff.mpr (.inr ⟨hrequired, rfl⟩)
  have hadvance := Lawful.advance_of_measured hphase hpos hmeasure
  rw [if_neg hunmet] at hadvance
  exact Lawful.step_of_fetching hphase hadvance hphase

/-- A length that no number of bytes to come makes up is never met: each byte is fetched, and nothing else
happens. -/
theorem proceed_unmet (s : InstructionSet μ) (hphase : r.phase = .fetching) (hrequired : r.required ≠ 0)
    (hunmet : ¬ ((r.count : Int) < r.required ∧ r.required ≤ 8)) {k : Nat} (hk : k ≤ bytes.length)
    (hroom : r.count + k ≤ 8) :
    (s.proceed r (bytes.take k)).result = .ok true ∧
      r.Extended (bytes.take k) (s.proceed r (bytes.take k)).record := by
  induction k with
  | zero => exact ⟨rfl, .refl r⟩
  | succ k ih =>
      obtain ⟨-, hextended⟩ := ih (by omega) (by omega)
      rw [List.take_succ_eq_append_getElem hk, proceed_append]
      generalize (s.proceed r (bytes.take k)).record = q at hextended ⊢
      have hqphase : q.phase = .fetching := by rw [hextended.rest_eq]; exact hphase
      have hqrequired : q.required = r.required := by rw [hextended.rest_eq]
      have hqcount : q.count = r.count + k := by
        rw [hextended.count_eq, List.length_take_of_le (by omega)]
      obtain ⟨buffer, hpush, hnext⟩ := s.next_eq_step hqphase (by omega) (isByte_toNat bytes[k])
      rw [ofInt_toNat] at hpush
      have hcount : buffer.count = r.count + k + 1 := by rw [Buffer.count_of_push? hpush, ← hqcount]; rfl
      have hstep := s.step_of_unmet (r := { q with buffer := buffer }) hqphase
        (by change 0 < buffer.count; omega) (by rw [hqrequired]; exact hrequired)
        (by change (buffer.count : Int) ≠ q.required; omega)
      rw [hnext, hstep]
      exact ⟨rfl, hextended.push hpush⟩

end InstructionSet

namespace Architecture

/-- Whatever a record in the middle of an instruction holds, it is complete after as many further bytes as there
are cells left and one more, if not earlier.  If its length is decided and cannot be met, then the bytes up to the
last are only fetched, and the last changes nothing but the phase and the text. -/
theorem proceed_overflow (a : Architecture) {r : Record a.Mode} {bytes : List UInt8}
    (hphase : r.phase = .fetching) (hlength : r.count + bytes.length = 9) :
    (∃ n, 0 < n ∧ n ≤ bytes.length ∧
      (∀ k < n, (a.instructionSet.proceed r (bytes.take k)).record.phase = .fetching) ∧
      (a.instructionSet.proceed r (bytes.take n)).record.phase = .complete ∧
      ∀ k ≤ n, (a.instructionSet.proceed r (bytes.take k)).record.buffer.fetched =
        (r.buffer.fetched ++ bytes.take k).take 8) ∧
    (r.required ≠ 0 → ¬ ((r.count : Int) < r.required ∧ r.required ≤ 8) →
      (∀ k < bytes.length, (a.instructionSet.proceed r (bytes.take k)).result = .ok true ∧
        r.Extended (bytes.take k) (a.instructionSet.proceed r (bytes.take k)).record) ∧
      (a.instructionSet.proceed r bytes).result = .ok false ∧
      (a.instructionSet.proceed r bytes).record =
        { (a.instructionSet.proceed r bytes.dropLast).record with
          phase := .complete, text := .ofString "<decode overflow>" } ∧
      (a.instructionSet.proceed r bytes).record.completeText = .ofString "<decode overflow>") := by
  refine ⟨a.instructionSet.exists_complete hphase hlength, ?_⟩
  intro hrequired hunmet
  have hfetched : ∀ k < bytes.length, (a.instructionSet.proceed r (bytes.take k)).result = .ok true ∧
      r.Extended (bytes.take k) (a.instructionSet.proceed r (bytes.take k)).record := by
    intro k hk
    exact a.instructionSet.proceed_unmet hphase hrequired hunmet (Nat.le_of_lt hk) (by omega)
  have hpos : 0 < bytes.length := by
    have hcount : r.count ≤ 8 := r.buffer.count_le
    omega
  have hne : bytes ≠ [] := List.ne_nil_of_length_pos hpos
  -- The last byte finds all cells in use.
  obtain ⟨-, hextended⟩ := hfetched (bytes.length - 1) (by omega)
  rw [← List.dropLast_eq_take] at hextended
  have hlast : a.instructionSet.proceed r bytes =
      a.instructionSet.next (a.instructionSet.proceed r bytes.dropLast).record (bytes.getLast hne).toNat := by
    rw [← InstructionSet.proceed_append, List.dropLast_concat_getLast hne]
  generalize (a.instructionSet.proceed r bytes.dropLast).record = full at hextended hlast ⊢
  have hfull : full.phase = .fetching := by rw [hextended.rest_eq]; exact hphase
  have hcount : full.count = 8 := by
    rw [hextended.count_eq, List.length_dropLast]
    omega
  rw [hlast, a.instructionSet.next_of_full hfull hcount]
  exact ⟨hfetched, rfl, rfl, rfl⟩

/-- A length that is too small and a target that is set; and a length at which the instruction set faults, since
the bytes at that length do not decide the instruction. -/
theorem proceed_overflow_unmet :
    let front : Buffer := { fetched := [0xDD], stale := [1, 2, 3, 4, 5, 6, 7], size_eq := rfl }
    let r : Record Z80.Mode := { phase := .fetching, target := some 0x1234, required := -5, buffer := front }
    let q : Record Z80.Mode := { phase := .fetching, required := 2, buffer := front }
    let bytes : List UInt8 := [0xCB, 0x12, 0x46, 0x00, 0x00, 0x00, 0x00, 0x00]
    (r.phase = .fetching ∧ q.phase = .fetching ∧ r.count + bytes.length = 9 ∧ q.count + bytes.length = 9) ∧
    ((instructionSet .z80).proceed r bytes).record.completeText = .ofString "<decode overflow>" ∧
    ((instructionSet .z80).next q 0xCB).result.toOption = none ∧
    ∃ n, 0 < n ∧ n ≤ 8 ∧ ((instructionSet .z80).proceed q (bytes.take n)).record.phase = .complete := by
  intro front r q bytes
  have hr : r.count + bytes.length = 9 := rfl
  have hq : q.count + bytes.length = 9 := rfl
  obtain ⟨-, hunmet⟩ := proceed_overflow .z80 rfl hr
  obtain ⟨⟨n, hpos, hle, -, hcomplete, -⟩, -⟩ := proceed_overflow .z80 rfl hq
  exact ⟨⟨rfl, rfl, hr, hq⟩, (hunmet (by decide) (by decide)).2.2.2, by decide, n, hpos, hle, hcomplete⟩

end Architecture

end EightBit
