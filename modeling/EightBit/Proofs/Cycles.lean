import EightBit.Proofs.Listing
import EightBit.Proofs.Session
import EightBit.Trace
set_option autoImplicit false

/-!
# What a bus cycle does to a replay

A cycle continues the instruction in progress, opens one, or stands aside.  In the first two cases the
decoder is called and the rows of the further cycles are those behind that call (`replayAfter`).  A call
is rejected for its values alone, whatever the record holds, and the rows behind an accepted call do not
show what the record held before (`replayFrom_eq_fresh`).
-/

namespace EightBit

/-- The row of a cycle without a text. -/
def TraceRow.plain (sample : BusSample) : TraceRow where
  sample := sample

theorem exists_of_map_eq_ok {ε α β : Type} {f : α → β} {x : Except ε α} {b : β} (h : x.map f = .ok b) :
    ∃ a, x = .ok a ∧ f a = b := by
  cases x with
  | error e => cases h
  | ok a => exact ⟨a, rfl, Except.ok.inj h⟩

theorem replay_eq_ok_iff {a : Architecture} {samples : List BusSample} {rows : List TraceRow} :
    replay a samples = .ok rows ↔ ∃ owed, a.instructionSet.replayFrom {} samples = .ok (owed, rows) := by
  unfold replay
  cases a.instructionSet.replayFrom {} samples with
  | error e => simp
  | ok out => simp [Prod.ext_iff]

namespace InstructionSet

variable {μ : Type}

/-- The text of the instruction that a call belongs to, and the rows of the cycles behind it. -/
def replayAfter (s : InstructionSet μ) (response : Response μ Bool) (samples : List BusSample) :
    Except Fault (Text × List TraceRow) :=
  match response.result with
  | .error e => .error e
  | .ok _ => (s.replayFrom response.record samples).map fun out =>
      (if response.record.phase = .complete then response.record.completeText else out.1, out.2)

variable {s : InstructionSet μ} {longest opening : Nat} {r q : Record μ} {address byte : Int}
  {sample : BusSample} {samples rest : List BusSample} {response : Response μ Bool}
  {out : Text × List TraceRow}

/-! ## The three kinds of cycles -/

theorem replayFrom_continuation (h : r.phase = .fetching) (sample : BusSample) (rest : List BusSample) :
    s.replayFrom r (sample :: rest) =
      (s.replayAfter (s.next r sample.data) rest).map fun out => (out.1, .plain sample :: out.2) := by
  rw [replayFrom, if_pos h]
  simp only [replayAfter]
  cases (s.next r sample.data).result with
  | error e => rfl
  | ok taken => cases s.replayFrom (s.next r sample.data).record rest <;> rfl

theorem replayFrom_opening (h : r.phase ≠ .fetching) (hfetch : sample.fetch = true)
    (rest : List BusSample) :
    s.replayFrom r (sample :: rest) =
      (s.replayAfter (s.start r sample.address sample.data) rest).map fun out =>
        ([], { sample := sample, text := out.1 } :: out.2) := by
  rw [replayFrom, if_neg h, if_pos hfetch]
  simp only [replayAfter]
  cases (s.start r sample.address sample.data).result with
  | error e => rfl
  | ok taken => cases s.replayFrom (s.start r sample.address sample.data).record rest <;> rfl

theorem replayFrom_aside (h : r.phase ≠ .fetching) (hfetch : sample.fetch = false)
    (rest : List BusSample) :
    s.replayFrom r (sample :: rest) =
      (s.replayFrom r rest).map fun out => ([], .plain sample :: out.2) := by
  have hunmarked : ¬ sample.fetch = true := by
    rw [hfetch]
    exact Bool.false_ne_true
  rw [replayFrom, if_neg h, if_neg hunmarked]
  cases s.replayFrom r rest <;> rfl

/-- Behind a call that leaves the instruction in progress, the replay goes on from its record. -/
theorem replayAfter_of_fetching {taken : Bool} (hresult : response.result = .ok taken)
    (hphase : response.record.phase = .fetching) :
    s.replayAfter response samples = s.replayFrom response.record samples := by
  have hopen : ¬ response.record.phase = .complete := by
    rw [hphase]
    intro h
    cases h
  simp only [replayAfter, hresult, if_neg hopen]
  cases s.replayFrom response.record samples <;> rfl

theorem replayAfter_of_complete {taken : Bool} (hresult : response.result = .ok taken)
    (hphase : response.record.phase = .complete) :
    s.replayAfter response samples =
      (s.replayFrom response.record samples).map fun out => (response.record.completeText, out.2) := by
  simp only [replayAfter, hresult, if_pos hphase]

/-- No text is owed where no instruction is in progress. -/
theorem replayFrom_owes_nothing (h : r.phase ≠ .fetching) (samples : List BusSample) :
    ((s.replayFrom r samples).map fun out => (([], out.2) : Text × List TraceRow)) =
      s.replayFrom r samples := by
  cases samples with
  | nil => rfl
  | cons sample rest =>
      cases hfetch : sample.fetch with
      | false =>
          rw [replayFrom_aside h hfetch]
          cases s.replayFrom r rest <;> rfl
      | true =>
          rw [replayFrom_opening h hfetch]
          cases s.replayAfter (s.start r sample.address sample.data) rest <;> rfl

/-! ## Rejected cycles -/

theorem start_rejected (s : InstructionSet μ) (h : ¬ (InRange address ∧ IsByte byte)) :
    ∃ e, ∀ r, s.start r address byte = { record := r, result := .error e } := by
  by_cases haddress : InRange address
  · refine ⟨.byteRange byte, ?_⟩
    intro r
    rcases s.start_cases r address byte with ⟨hout, -⟩ | ⟨-, -, heq⟩ | ⟨-, hbyte, -⟩ | ⟨-, hbyte, -⟩
    · exact absurd haddress hout
    · exact heq
    · exact absurd ⟨haddress, hbyte⟩ h
    · exact absurd ⟨haddress, hbyte⟩ h
  · refine ⟨.addressRange address, ?_⟩
    intro r
    rcases s.start_cases r address byte with ⟨-, heq⟩ | ⟨hin, -⟩ | ⟨hin, -⟩ | ⟨hin, -⟩
    · exact heq
    · exact absurd hin haddress
    · exact absurd hin haddress
    · exact absurd hin haddress

theorem next_rejected (s : InstructionSet μ) (h : ¬ IsByte byte) (r : Record μ) :
    s.next r byte = { record := r, result := .error (.byteRange byte) } := by
  rcases s.next_cases r byte with ⟨-, heq⟩ | ⟨hbyte, -⟩ | ⟨hbyte, -⟩
  · exact heq
  · exact absurd hbyte h
  · exact absurd hbyte h

/-! ## The record before a cycle -/

/-- Both records are between instructions, or both are at the same place of the same instruction. -/
def Interchangeable (s : InstructionSet μ) (r q : Record μ) : Prop :=
  (r.phase ≠ .fetching ∧ q.phase ≠ .fetching) ∨ (s.Underway r ∧ r.Agrees q)

theorem Finished.phase_ne (h : s.Finished r) : r.phase ≠ .fetching := by
  rw [h.phase_eq]
  intro hphase
  cases hphase

theorem Accepted.interchangeable {bytes : List UInt8} {x y : Response μ Bool}
    (hx : s.Accepted address bytes x) (h : x.Agrees y) : s.Interchangeable x.record y.record := by
  rcases hx.progress with hunderway | hfinished
  · exact .inr ⟨hunderway, h.record⟩
  · exact .inl ⟨hfinished.phase_ne, h.record.phase_eq ▸ hfinished.phase_ne⟩

/-- Calls that answer alike are followed by the same rows if their records are. -/
theorem replayAfter_congr {x y : Response μ Bool} (h : x.Agrees y)
    (hrows : s.replayFrom x.record samples = s.replayFrom y.record samples) :
    s.replayAfter x samples = s.replayAfter y samples := by
  simp only [replayAfter, Record.completeText, h.result_eq, hrows, h.record.phase_eq, h.record.text_eq]

namespace Lawful

/-- Interchangeable records are followed by the same rows. -/
theorem replayFrom_congr (law : s.Lawful longest opening) (h : s.Interchangeable r q)
    (samples : List BusSample) : s.replayFrom r samples = s.replayFrom q samples := by
  induction samples generalizing r q with
  | nil => rfl
  | cons sample rest ih =>
      rcases h with ⟨hr, hq⟩ | ⟨hunderway, hagrees⟩
      · cases hfetch : sample.fetch with
        | false => rw [replayFrom_aside hr hfetch, replayFrom_aside hq hfetch, ih (.inl ⟨hr, hq⟩)]
        | true =>
            rw [replayFrom_opening hr hfetch, replayFrom_opening hq hfetch]
            by_cases hvalues : InRange sample.address ∧ IsByte sample.data
            · have haccepted := law.start_accepted hr hvalues.1 hvalues.2
              have hstart := law.start_agrees hr hq hvalues.1 hvalues.2
              rw [replayAfter_congr hstart (ih (haccepted.interchangeable hstart))]
            · obtain ⟨e, hrejected⟩ := s.start_rejected hvalues
              rw [hrejected r, hrejected q]
              rfl
      · have hr := hunderway.phase_eq
        have hq : q.phase = .fetching := hagrees.phase_eq ▸ hr
        rw [replayFrom_continuation hr, replayFrom_continuation hq]
        by_cases hbyte : IsByte sample.data
        · have haccepted := law.next_accepted hunderway hbyte
          have hnext := law.next_agrees hunderway hagrees hbyte
          rw [replayAfter_congr hnext (ih (haccepted.interchangeable hnext))]
        · rw [s.next_rejected hbyte r, s.next_rejected hbyte q]
          rfl

/-- Between instructions a replay goes on as with a new decoder. -/
theorem replayFrom_eq_fresh (law : s.Lawful longest opening) (hr : r.phase ≠ .fetching)
    (samples : List BusSample) : s.replayFrom r samples = s.replayFrom {} samples := by
  apply law.replayFrom_congr
  exact .inl ⟨hr, phase_initial⟩

end Lawful

end InstructionSet

end EightBit
