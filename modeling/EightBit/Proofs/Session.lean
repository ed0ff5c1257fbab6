import EightBit.Proofs.Processor
import EightBit.Proofs.Progress
set_option autoImplicit false

/-!
# Sessions with a decoder

The owner of a stream calls the decoder in any order and with any integers.  A call is rejected, ignored
or taken, and only a taken call changes the record (`start_cases`, `next_cases`).  So a record is always
the initial one, or it is in the middle of an instruction, or it holds a complete one, and `run_coherent`
says what this means for its fields.
-/

namespace EightBit

/-- A call to a decoder. -/
inductive Call where
  /-- Opens an instruction at an address with its first byte. -/
  | start (address byte : Int)
  /-- Gives the instruction in progress its next byte. -/
  | next (byte : Int)
  /-- Asks for the text of the instruction. -/
  | complete
  deriving DecidableEq, Repr

namespace InstructionSet

variable {μ : Type}

/-- The record after a call, whatever the call answers. -/
def call (s : InstructionSet μ) (r : Record μ) : Call → Record μ
  | .start address byte => (s.start r address byte).record
  | .next byte => (s.next r byte).record
  | .complete => r

/-- The record of a new decoder after some calls. -/
def run (s : InstructionSet μ) (calls : List Call) : Record μ :=
  calls.foldl s.call {}

/-! ## What a call can do -/

variable {s : InstructionSet μ} {longest opening : Nat} {r : Record μ} {address byte : Int}

/-- Opening an instruction is rejected for its address, rejected for its byte, ignored, or possible. -/
theorem start_cases (s : InstructionSet μ) (r : Record μ) (address byte : Int) :
    (¬ InRange address ∧
      s.start r address byte = { record := r, result := .error (.addressRange address) }) ∨
    (InRange address ∧ ¬ IsByte byte ∧
      s.start r address byte = { record := r, result := .error (.byteRange byte) }) ∨
    (InRange address ∧ IsByte byte ∧ r.phase = .fetching ∧ s.start r address byte =
      { record := r, result := .ok false, notices := [.startIgnored address byte] }) ∨
    (InRange address ∧ IsByte byte ∧ r.phase ≠ .fetching) := by
  unfold InRange IsByte start
  by_cases haddress : address < 0 ∨ 0xFFFF < address
  · exact .inl ⟨by omega, if_pos haddress⟩
  · rw [if_neg haddress]
    by_cases hbyte : byte < 0 ∨ 0xFF < byte
    · exact .inr (.inl ⟨by omega, by omega, if_pos hbyte⟩)
    · rw [if_neg hbyte]
      by_cases hphase : r.phase = .fetching
      · exact .inr (.inr (.inl ⟨by omega, by omega, hphase, if_pos hphase⟩))
      · exact .inr (.inr (.inr ⟨by omega, by omega, hphase⟩))

/-- A further byte is rejected, ignored, or possible. -/
theorem next_cases (s : InstructionSet μ) (r : Record μ) (byte : Int) :
    (¬ IsByte byte ∧ s.next r byte = { record := r, result := .error (.byteRange byte) }) ∨
    (IsByte byte ∧ r.phase ≠ .fetching ∧ s.next r byte =
      { record := r, result := .ok false, notices := [.nextIgnored byte r.phase] }) ∨
    (IsByte byte ∧ r.phase = .fetching) := by
  unfold IsByte next
  by_cases hbyte : byte < 0 ∨ 0xFF < byte
  · exact .inl ⟨by omega, if_pos hbyte⟩
  · rw [if_neg hbyte]
    by_cases hphase : r.phase = .fetching
    · exact .inr (.inr ⟨by omega, hphase⟩)
    · exact .inr (.inl ⟨by omega, hphase, if_pos hphase⟩)

/-! ## The invariant of a session -/

/-- The record is one that calls lead to. -/
structure Sound (s : InstructionSet μ) (r : Record μ) : Prop where
  address_range : InRange r.address
  target_range : ∀ target, r.target = some target → InRange target
  progress : r = {} ∨ s.Underway r ∨ s.Finished r

namespace Sound

theorem initial (s : InstructionSet μ) : s.Sound {} where
  address_range := inRange_zero
  target_range target h := by cases h
  progress := .inl rfl

theorem underway (h : s.Sound r) (hphase : r.phase = .fetching) : s.Underway r := by
  rcases h.progress with rfl | hunderway | hfinished
  · cases hphase
  · exact hunderway
  · rw [hfinished.phase_eq] at hphase
    cases hphase

theorem finished (h : s.Sound r) (hphase : r.phase = .complete) : s.Finished r := by
  rcases h.progress with rfl | hunderway | hfinished
  · cases hphase
  · rw [hunderway.phase_eq] at hphase
    cases hphase
  · exact hfinished

theorem eq_initial (h : s.Sound r) (hphase : r.phase = .idle) : r = {} := by
  rcases h.progress with rfl | hunderway | hfinished
  · rfl
  · rw [hunderway.phase_eq] at hphase
    cases hphase
  · rw [hfinished.phase_eq] at hphase
    cases hphase

theorem of_accepted {bytes : List UInt8} {response : Response μ Bool} (haddress : InRange address)
    (h : s.Accepted address bytes response) : s.Sound response.record where
  address_range := by
    rw [h.address_eq]
    exact haddress
  target_range := h.target_range
  progress := .inr h.progress

end Sound

/-- No call leads out of the invariant. -/
theorem Lawful.call_sound (law : s.Lawful longest opening) (h : s.Sound r) (call : Call) :
    s.Sound (s.call r call) := by
  cases call with
  | start address byte =>
      rw [InstructionSet.call]
      rcases s.start_cases r address byte with ⟨-, heq⟩ | ⟨-, -, heq⟩ | ⟨-, -, -, heq⟩ |
        ⟨haddress, hbyte, hphase⟩
      · rw [heq]
        exact h
      · rw [heq]
        exact h
      · rw [heq]
        exact h
      · exact .of_accepted haddress (law.start_accepted hphase haddress hbyte)
  | next byte =>
      rw [InstructionSet.call]
      rcases s.next_cases r byte with ⟨-, heq⟩ | ⟨-, -, heq⟩ | ⟨hbyte, hphase⟩
      · rw [heq]
        exact h
      · rw [heq]
        exact h
      · exact .of_accepted h.address_range (law.next_accepted (h.underway hphase) hbyte)
  | complete => exact h

theorem Lawful.run_sound (law : s.Lawful longest opening) (calls : List Call) : s.Sound (s.run calls) := by
  have hfold : ∀ r : Record μ, s.Sound r → s.Sound (calls.foldl s.call r) := by
    induction calls with
    | nil => exact fun r h => h
    | cons call calls ih => exact fun r h => ih (s.call r call) (law.call_sound h call)
  exact hfold {} (.initial s)

end InstructionSet

namespace Architecture

/-! ## The fields of a record -/

/-- Only the 6809 and the Z80 leave an instruction open, for two and for three bytes. -/
theorem family_of_le_opening {a : Architecture} {count : Nat} (hpos : 0 < count) (h : count ≤ a.opening) :
    (a.family = .mc6809 ∧ count ≤ 2) ∨ (a.family = .z80 ∧ count ≤ 3) := by
  cases a <;> simp_all [opening, family]

/-- The fields of a record fit together. -/
structure Coherent (a : Architecture) (r : Record a.Mode) : Prop where
  /-- Only the initial record is idle. -/
  idle : r.phase = .idle → r = {}
  address_range : InRange r.address
  /-- The address referred to, which is zero while none is known. -/
  target_range : InRange (r.target.getD 0)
  count_le : r.count ≤ 5
  /-- In the middle of an instruction there is neither text nor target, the mode is open exactly as long
  as the length is, and bytes are missing. -/
  fetching : r.phase = .fetching →
    1 ≤ r.count ∧ r.text = [] ∧ r.target = none ∧ (r.mode = none ↔ r.required = 0) ∧
    ((r.required = 0 ∧ ((a.family = .mc6809 ∧ r.count ≤ 2) ∨ (a.family = .z80 ∧ r.count ≤ 3))) ∨
      (r.count : Int) < r.required)
  /-- A complete instruction has all its bytes, a mode and a text. -/
  complete : r.phase = .complete →
    (r.count : Int) = r.required ∧ 1 ≤ r.required ∧ r.mode ≠ none ∧ r.text ≠ []

section

variable {a : Architecture} {r : Record a.Mode}

theorem fetching_of_underway (h : a.instructionSet.Underway r) :
    1 ≤ r.count ∧ r.text = [] ∧ r.target = none ∧ (r.mode = none ↔ r.required = 0) ∧
    ((r.required = 0 ∧ ((a.family = .mc6809 ∧ r.count ≤ 2) ∨ (a.family = .z80 ∧ r.count ≤ 3))) ∨
      (r.count : Int) < r.required) := by
  refine ⟨h.count_pos, h.text_eq, h.target_eq, ?_, ?_⟩
  · rcases h.progress with hopen | ⟨hsettled, -⟩
    · simp [hopen.mode_eq, hopen.required_eq]
    · obtain ⟨hpos, -, hmode⟩ := a.lawful.settled_bounds hsettled
      have hne : r.required ≠ 0 := by omega
      simp [hmode, hne]
  · rcases h.progress with hopen | ⟨-, hlt⟩
    · have hcount := a.lawful.undecided_count h.count_pos hopen
      exact .inl ⟨hopen.required_eq, family_of_le_opening h.count_pos hcount⟩
    · exact .inr hlt

theorem complete_of_finished (h : a.instructionSet.Finished r) :
    (r.count : Int) = r.required ∧ 1 ≤ r.required ∧ r.mode ≠ none ∧ r.text ≠ [] := by
  obtain ⟨hpos, -, hmode⟩ := a.lawful.settled_bounds h.settled
  exact ⟨h.count_eq, by omega, hmode, h.text_ne⟩

theorem count_le_of_sound (h : a.instructionSet.Sound r) : r.count ≤ 5 := by
  have hlongest := a.longest_le_five
  rcases h.progress with rfl | hunderway | hfinished
  · exact Nat.zero_le 5
  · have := a.lawful.underway_count hunderway
    omega
  · have := (a.lawful.finished_count hfinished).2
    omega

theorem target_range_of_sound (h : a.instructionSet.Sound r) : InRange (r.target.getD 0) := by
  cases htarget : r.target with
  | none => exact inRange_zero
  | some target => exact h.target_range target htarget

end

/-- After any calls with any integers the fields of the record fit together. -/
theorem run_coherent (a : Architecture) (calls : List Call) :
    a.Coherent (a.instructionSet.run calls) := by
  have hsound := a.lawful.run_sound calls
  exact {
    idle := hsound.eq_initial
    address_range := hsound.address_range
    target_range := target_range_of_sound hsound
    count_le := count_le_of_sound hsound
    fetching := fun hphase => fetching_of_underway (hsound.underway hphase)
    complete := fun hphase => complete_of_finished (hsound.finished hphase) }

end Architecture

end EightBit
