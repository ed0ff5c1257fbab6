import EightBit.Proofs.Lawful
set_option autoImplicit false

/-!
# The progress of an instruction

A record that is in use is `Underway`, with mode and length open or settled and bytes missing, or it is
`Finished`, with the bytes of its length fetched and a text.  Under the laws of the instruction set each
byte that is taken leads from one such record to another: `start_accepted` for the first byte of an
instruction and `next_accepted` for each further one.  Neither can fault, since both only ask what the
laws answer.
-/

namespace EightBit

/-- The address is one of sixteen bits. -/
def InRange (address : Int) : Prop :=
  0 ≤ address ∧ address ≤ 0xFFFF

theorem inRange_zero : InRange 0 := by
  unfold InRange
  decide

/-- The value is one of a byte. -/
def IsByte (value : Int) : Prop :=
  0 ≤ value ∧ value ≤ 0xFF

namespace InstructionSet

variable {μ : Type}

/-! ## States of a record -/

/-- Mode and length are open, and any smaller number of the bytes leaves them open too. -/
structure Undecided (s : InstructionSet μ) (r : Record μ) : Prop where
  required_eq : r.required = 0
  mode_eq : r.mode = none
  layout_eq : ∀ j : Nat, 0 < j → j ≤ r.count → s.layout r.buffer.code j = .ok none

/-- The record is in the middle of an instruction. -/
structure Underway (s : InstructionSet μ) (r : Record μ) : Prop where
  phase_eq : r.phase = .fetching
  count_pos : 0 < r.count
  text_eq : r.text = []
  target_eq : r.target = none
  progress : s.Undecided r ∨ (s.Settled r ∧ (r.count : Int) < r.required)

/-- The record holds a complete instruction. -/
structure Finished (s : InstructionSet μ) (r : Record μ) : Prop where
  phase_eq : r.phase = .complete
  settled : s.Settled r
  count_eq : (r.count : Int) = r.required
  text_ne : r.text ≠ []

/-- A byte has been fetched that the instruction set has not been asked about. -/
structure Ready (s : InstructionSet μ) (r : Record μ) : Prop where
  phase_eq : r.phase = .fetching
  count_pos : 0 < r.count
  text_eq : r.text = []
  target_eq : r.target = none
  progress : (r.required = 0 ∧ r.mode = none ∧
      ∀ j : Nat, 0 < j → j < r.count → s.layout r.buffer.code j = .ok none) ∨
    (s.Settled r ∧ (r.count : Int) ≤ r.required)

/-- A call has taken a byte: the record is at `address`, holds `bytes`, and has gone on. -/
structure Accepted (s : InstructionSet μ) (address : Int) (bytes : List UInt8)
    (response : Response μ Bool) : Prop where
  result_eq : response.result = .ok true
  progress : s.Underway response.record ∨ s.Finished response.record
  address_eq : response.record.address = address
  fetched_eq : response.record.buffer.fetched = bytes
  target_range : ∀ target, response.record.target = some target → InRange target
  notices_eq : ∀ notice ∈ response.notices, ∃ text, notice = .truncated text

/-- `q` is `r` up to mode and length. -/
structure Remeasured (r q : Record μ) : Prop where
  phase_eq : q.phase = r.phase
  address_eq : q.address = r.address
  target_eq : q.target = r.target
  buffer_eq : q.buffer = r.buffer
  text_eq : q.text = r.text

variable {s : InstructionSet μ} {longest opening : Nat} {r q : Record μ} {address byte : Int}

/-! ## How far an instruction can get -/

namespace Lawful

theorem settled_bounds (law : s.Lawful longest opening) (h : s.Settled r) :
    0 < r.required ∧ r.required ≤ longest ∧ r.mode ≠ none := by
  obtain ⟨k, mode, length, hdecides, -, hmode, hrequired⟩ := h
  have hpos := hdecides.pos
  obtain ⟨-, hle, hlongest⟩ := law.bounds hdecides
  refine ⟨by omega, by omega, ?_⟩
  rw [hmode]
  exact Option.some_ne_none mode

theorem undecided_count (law : s.Lawful longest opening) (hpos : 0 < r.count) (h : s.Undecided r) :
    r.count ≤ opening := by
  have hopen := h.layout_eq r.count hpos (Nat.le_refl _)
  rcases law.open_or_decidesAt hpos fun j h0 hj => h.layout_eq j h0 (by omega) with
    ⟨-, hle⟩ | ⟨mode, length, hdecides⟩
  · exact hle
  · rw [hdecides.layout_eq] at hopen
    cases hopen

/-- An instruction that is underway has fewer bytes than the longest one. -/
theorem underway_count (law : s.Lawful longest opening) (h : s.Underway r) : r.count < longest := by
  rcases h.progress with hopen | ⟨hsettled, hlt⟩
  · have := law.undecided_count h.count_pos hopen
    have := law.opening_lt
    omega
  · have := (law.settled_bounds hsettled).2.1
    omega

theorem finished_count (law : s.Lawful longest opening) (h : s.Finished r) :
    0 < r.count ∧ r.count ≤ longest := by
  have hcount := h.count_eq
  obtain ⟨hpos, hle, -⟩ := law.settled_bounds h.settled
  omega

end Lawful

/-! ## Measuring -/

theorem measure_eq_none_iff :
    s.measure r = .ok none ↔ r.required = 0 ∧ s.layout r.buffer.code r.count = .ok none := by
  unfold measure
  by_cases hrequired : r.required = 0
  · rw [if_pos hrequired]
    cases hlayout : s.layout r.buffer.code r.count with
    | error e => simp
    | ok decision => cases decision <;> simp [hrequired]
  · simp [hrequired]

theorem measure_eq_some_iff :
    s.measure r = .ok (some q) ↔
      (r.required = 0 ∧ ∃ mode length, s.layout r.buffer.code r.count = .ok (some (mode, length)) ∧
        q = { r with mode := some mode, required := length }) ∨
      (r.required ≠ 0 ∧ q = r) := by
  unfold measure
  by_cases hrequired : r.required = 0
  · rw [if_pos hrequired]
    cases hlayout : s.layout r.buffer.code r.count with
    | error e => simp [hrequired]
    | ok decision =>
        cases decision with
        | none => simp [hrequired]
        | some decided =>
            constructor
            · intro h
              cases h
              exact .inl ⟨hrequired, decided.1, decided.2, rfl, rfl⟩
            · rintro (⟨-, mode, length, hdecided, rfl⟩ | ⟨hne, -⟩)
              · cases hdecided
                rfl
              · exact absurd hrequired hne
  · simp [hrequired, eq_comm]

/-! ## One step -/

theorem bounded_ne_nil {text : Text} (h : text ≠ []) : (bounded text).1 ≠ [] := by
  unfold bounded
  split
  · rw [ne_eq, List.take_eq_nil_iff]
    exact fun hnil => hnil.elim (by decide) h
  · exact h

theorem bounded_notices (text : Text) : ∀ notice ∈ (bounded text).2, ∃ t, notice = .truncated t := by
  unfold bounded
  split
  · intro notice hmem
    exact ⟨text, List.mem_singleton.mp hmem⟩
  · intro notice hmem
    cases hmem

theorem fullText_ne_nil (h : r.text ≠ []) : r.fullText ≠ [] := by
  unfold Record.fullText
  split
  · exact fun hnil => h (List.append_eq_nil_iff.mp hnil).1
  · exact h

namespace Lawful

/-- Measuring leaves the record open or settles it, with no more bytes than its length. -/
theorem measure_cases (law : s.Lawful longest opening) (h : s.Ready r) :
    (s.measure r = .ok none ∧ s.Undecided r) ∨
    ∃ q, s.measure r = .ok (some q) ∧ Remeasured r q ∧ s.Settled q ∧ (q.count : Int) ≤ q.required := by
  have hpos := h.count_pos
  rcases h.progress with ⟨hrequired, hmode, hopen⟩ | ⟨hsettled, hle⟩
  · rcases law.open_or_decidesAt hpos hopen with ⟨hnone, -⟩ | ⟨mode, length, hdecides⟩
    · refine .inl ⟨measure_eq_none_iff.mpr ⟨hrequired, hnone⟩, hrequired, hmode, ?_⟩
      intro j h0 hj
      rcases Nat.lt_or_eq_of_le hj with hlt | rfl
      · exact hopen j h0 hlt
      · exact hnone
    · refine .inr ⟨{ r with mode := some mode, required := length }, ?_, ⟨rfl, rfl, rfl, rfl, rfl⟩, ?_,
        (law.bounds hdecides).2.1⟩
      · exact measure_eq_some_iff.mpr (.inl ⟨hrequired, mode, length, hdecides.layout_eq, rfl⟩)
      · exact ⟨r.count, mode, length, hdecides, Nat.le_refl _, rfl, rfl⟩
  · -- A settled record is not asked about again.
    have hne : r.required ≠ 0 := by omega
    exact .inr ⟨r, measure_eq_some_iff.mpr (.inr ⟨hne, rfl⟩), ⟨rfl, rfl, rfl, rfl, rfl⟩, hsettled, hle⟩

/-- A record with all bytes of its length is completed with the text of its instruction. -/
theorem complete_eq (law : s.Lawful longest opening) (h : s.Settled r)
    (hcount : (r.count : Int) = r.required) :
    ∃ text target, text ≠ [] ∧ (∀ t, target = some t → InRange t ∨ r.target = some t) ∧
      s.complete r = .ok { r with phase := .complete, text := .ofChars text, target := target } := by
  obtain ⟨shown, hshown, htext⟩ := law.render_ok r h hcount
  refine ⟨shown.text, shown.target.elim r.target fun t => some (wrap16 t), htext, ?_, ?_⟩
  · intro t ht
    cases htarget : shown.target with
    | none => exact .inr (by simpa [htarget] using ht)
    | some u =>
        have hwrap : wrap16 u = t := by simpa [htarget] using ht
        have h0 := wrap16_nonneg u
        have h1 := wrap16_lt u
        exact .inl ⟨by omega, by omega⟩
  · cases htarget : shown.target with
    | none => simp [complete, hshown, htarget, Record.finish]
    | some u => simp [complete, hshown, htarget, Record.finish, Record.resolve]

theorem advance_of_open (hphase : r.phase = .fetching) (hpos : 0 < r.count)
    (hmeasure : s.measure r = .ok none) : s.advance r = .ok r := by
  have hactive : r.phase = .fetching ∧ r.count ≠ 0 := ⟨hphase, by omega⟩
  rw [advance, if_pos hactive, hmeasure]
  rfl

theorem advance_of_measured (hphase : r.phase = .fetching) (hpos : 0 < r.count)
    (hmeasure : s.measure r = .ok (some q)) :
    s.advance r = if (q.count : Int) = q.required then s.complete q else .ok q := by
  have hactive : r.phase = .fetching ∧ r.count ≠ 0 := ⟨hphase, by omega⟩
  rw [advance, if_pos hactive, hmeasure]
  rfl

/-- A completed record has its text finished. -/
theorem step_of_complete (hphase : r.phase = .fetching) (hadvance : s.advance r = .ok q)
    (hcomplete : q.phase = .complete) :
    s.step r = { record := { q with text := (bounded q.fullText).1 }, result := .ok true,
                 notices := (bounded q.fullText).2 } := by
  simp [step, hadvance, hphase, hcomplete]

theorem step_of_fetching (hphase : r.phase = .fetching) (hadvance : s.advance r = .ok q)
    (hfetching : q.phase = .fetching) : s.step r = { record := q, result := .ok true } := by
  simp [step, hadvance, hphase, hfetching]

/-- Asking the instruction set about a fetched byte never faults and moves the record on. -/
theorem step_accepted (law : s.Lawful longest opening) (h : s.Ready r) :
    s.Accepted r.address r.buffer.fetched (s.step r) := by
  have hpos := h.count_pos
  have hphase := h.phase_eq
  rcases law.measure_cases h with ⟨hmeasure, hopen⟩ | ⟨q, hmeasure, hq, hsettled, hle⟩
  · rw [step_of_fetching hphase (advance_of_open hphase hpos hmeasure) hphase]
    exact {
      result_eq := rfl
      progress := .inl ⟨hphase, hpos, h.text_eq, h.target_eq, .inl hopen⟩
      address_eq := rfl
      fetched_eq := rfl
      target_range := by simp [h.target_eq]
      notices_eq := by simp }
  · have hadvance := advance_of_measured hphase hpos hmeasure
    have hqtarget : q.target = none := hq.target_eq.trans h.target_eq
    by_cases hcount : (q.count : Int) = q.required
    · obtain ⟨text, target, htext, htarget, hcomplete⟩ := law.complete_eq hsettled hcount
      rw [if_pos hcount, hcomplete] at hadvance
      rw [step_of_complete hphase hadvance rfl]
      exact {
        result_eq := rfl
        progress := .inr {
          phase_eq := rfl
          settled := hsettled
          count_eq := hcount
          text_ne := bounded_ne_nil (fullText_ne_nil (by simpa [Text.ofChars] using htext)) }
        address_eq := hq.address_eq
        fetched_eq := congrArg Buffer.fetched hq.buffer_eq
        target_range := fun t ht => (htarget t ht).resolve_right (by simp [hqtarget])
        notices_eq := bounded_notices _ }
    · rw [if_neg hcount] at hadvance
      have hqphase : q.phase = .fetching := hq.phase_eq.trans hphase
      have hqpos : 0 < q.count := by simpa [Record.count, hq.buffer_eq] using hpos
      have hlt : (q.count : Int) < q.required := by omega
      rw [step_of_fetching hphase hadvance hqphase]
      exact {
        result_eq := rfl
        progress := .inl ⟨hqphase, hqpos, hq.text_eq.trans h.text_eq, hqtarget, .inr ⟨hsettled, hlt⟩⟩
        address_eq := hq.address_eq
        fetched_eq := congrArg Buffer.fetched hq.buffer_eq
        target_range := by simp [hqtarget]
        notices_eq := by simp }

end Lawful

/-! ## The calls that take a byte -/

/-- A byte that fits is fetched as long as the buffer has room. -/
theorem append_eq_ok (hroom : r.count < 8) (hbyte : IsByte byte) :
    ∃ c, r.buffer.push? (UInt8.ofInt byte) = some c ∧ r.append byte = .ok { r with buffer := c } := by
  obtain ⟨c, hpush⟩ := Buffer.exists_push? hroom (UInt8.ofInt byte)
  have hrange : ¬ (byte < 0 ∨ 0xFF < byte) := by unfold IsByte at hbyte; omega
  exact ⟨c, hpush, by simp [Record.append, hrange, hpush]⟩

/-- Opening an instruction fetches its first byte into a cleared record and asks about it. -/
theorem start_eq_step (s : InstructionSet μ) (hphase : r.phase ≠ .fetching) (haddress : InRange address)
    (hbyte : IsByte byte) :
    ∃ c : Buffer, c.fetched = [UInt8.ofInt byte] ∧
      s.start r address byte = s.step { r.clear address with buffer := c } := by
  have hroom : (r.clear address).count < 8 := by simp [Record.clear, Record.count]
  obtain ⟨c, hpush, happend⟩ := append_eq_ok hroom hbyte
  have haddr : ¬ (address < 0 ∨ 0xFFFF < address) := by unfold InRange at haddress; omega
  have hvalue : ¬ (byte < 0 ∨ 0xFF < byte) := by unfold IsByte at hbyte; omega
  refine ⟨c, Buffer.fetched_of_push? hpush, ?_⟩
  simp only [start, if_neg haddr, if_neg hvalue, if_neg hphase, happend]

/-- A further byte is fetched and asked about. -/
theorem next_eq_step (s : InstructionSet μ) (hphase : r.phase = .fetching) (hroom : r.count < 8)
    (hbyte : IsByte byte) :
    ∃ c : Buffer, r.buffer.push? (UInt8.ofInt byte) = some c ∧
      s.next r byte = s.step { r with buffer := c } := by
  obtain ⟨c, hpush, happend⟩ := append_eq_ok hroom hbyte
  have hvalue : ¬ (byte < 0 ∨ 0xFF < byte) := by unfold IsByte at hbyte; omega
  have hfull : ¬ r.buffer.isFull = true := by simpa [Buffer.isFull, Record.count] using hroom
  refine ⟨c, hpush, ?_⟩
  simp only [next, if_neg hvalue, if_neg (not_not_intro hphase), if_neg hfull, happend]

theorem ready_clear {c : Buffer} {first : UInt8} (hfetched : c.fetched = [first]) :
    s.Ready { r.clear address with buffer := c } where
  phase_eq := rfl
  count_pos := by simp [Record.count, Buffer.count, hfetched]
  text_eq := rfl
  target_eq := rfl
  progress := by
    refine .inl ⟨rfl, rfl, ?_⟩
    intro j hpos hlt
    simp only [Record.count, Buffer.count, hfetched, List.length_singleton] at hlt
    omega

namespace Lawful

theorem room (law : s.Lawful longest opening) (h : s.Underway r) : r.count < 8 := by
  have := law.underway_count h
  have := law.longest_le
  omega

theorem ready_push (law : s.Lawful longest opening) (h : s.Underway r) {c : Buffer} {next : UInt8}
    (hpush : r.buffer.push? next = some c) : s.Ready { r with buffer := c } := by
  have hcount : c.count = r.count + 1 := Buffer.count_of_push? hpush
  -- The bytes in front of the new one are where they were, so what they decide stands.
  have hagree : ∀ k ≤ r.count, AgreeBelow k r.buffer.code c.code := by
    intro k hk
    exact Buffer.agreeBelow_of_take_eq (Buffer.take_of_push? hpush hk).symm
  refine ⟨h.phase_eq, ?_, h.text_eq, h.target_eq, ?_⟩
  · change 0 < c.count
    omega
  · rcases h.progress with hopen | ⟨⟨k, mode, length, hdecides, hk, hmode, hrequired⟩, hlt⟩
    · refine .inl ⟨hopen.required_eq, hopen.mode_eq, ?_⟩
      intro j hpos hj
      have hj : j ≤ r.count := by change j < c.count at hj; omega
      rw [← law.layout_congr r.buffer c j hpos (hagree j hj)]
      exact hopen.layout_eq j hpos hj
    · refine .inr ⟨⟨k, mode, length, law.decidesAt_congr (hagree k hk) hdecides, ?_, hmode, hrequired⟩, ?_⟩
      · change k ≤ c.count
        omega
      · change (c.count : Int) ≤ r.required
        omega

/-- The first byte of an instruction is taken whatever the record held before. -/
theorem start_accepted (law : s.Lawful longest opening) (hphase : r.phase ≠ .fetching)
    (haddress : InRange address) (hbyte : IsByte byte) :
    s.Accepted address [UInt8.ofInt byte] (s.start r address byte) := by
  obtain ⟨c, hfetched, hstart⟩ := s.start_eq_step hphase haddress hbyte
  rw [hstart, ← hfetched]
  exact law.step_accepted (ready_clear hfetched)

/-- A further byte of an instruction is taken; the buffer has room for it. -/
theorem next_accepted (law : s.Lawful longest opening) (h : s.Underway r) (hbyte : IsByte byte) :
    s.Accepted r.address (r.buffer.fetched ++ [UInt8.ofInt byte]) (s.next r byte) := by
  obtain ⟨c, hpush, hnext⟩ := s.next_eq_step h.phase_eq (law.room h) hbyte
  rw [hnext, ← Buffer.fetched_of_push? hpush]
  exact law.step_accepted (law.ready_push h hpush)

end Lawful

namespace Accepted

variable {bytes : List UInt8} {response : Response μ Bool}

theorem underway (h : s.Accepted address bytes response) (hphase : response.record.phase = .fetching) :
    s.Underway response.record := by
  rcases h.progress with hunderway | hfinished
  · exact hunderway
  · rw [hfinished.phase_eq] at hphase
    cases hphase

theorem finished (h : s.Accepted address bytes response) (hphase : response.record.phase = .complete) :
    s.Finished response.record := by
  rcases h.progress with hunderway | hfinished
  · rw [hunderway.phase_eq] at hphase
    cases hphase
  · exact hfinished

theorem count_eq (h : s.Accepted address bytes response) : response.record.count = bytes.length := by
  rw [Record.count, Buffer.count, h.fetched_eq]

end Accepted

end InstructionSet

end EightBit
