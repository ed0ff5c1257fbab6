import EightBit.Proofs.Session
set_option autoImplicit false

/-!
# Calls that leave no trace

A call is rejected for its values, ignored in the wrong phase, or it takes a byte.  Only a call that takes
a byte changes the record, so a session ends where the session of these calls alone ends
(`run_eq_run_takenCalls`).

That a call which takes no byte has no effect is not a matter of the calls alone: a full buffer would be
given up with an answer that looks like an ignored call, and a fault of the instruction set would come
after the byte was fetched.  The invariant of a session excludes both.
-/

namespace EightBit

/-- What a call answers. -/
inductive Answer where
  /-- Whether a byte was taken. -/
  | taken (flag : Bool)
  /-- The text of the instruction. -/
  | text (text : Text)
  deriving DecidableEq, Repr

instance : DecidablePred InRange := fun address =>
  inferInstanceAs (Decidable (0 ≤ address ∧ address ≤ 0xFFFF))

instance : DecidablePred IsByte := fun value =>
  inferInstanceAs (Decidable (0 ≤ value ∧ value ≤ 0xFF))

/-- The fault for which a call is rejected.  The address is looked at before the byte. -/
def Call.fault? : Call → Option Fault
  | .start address byte =>
      if ¬ InRange address then some (.addressRange address)
      else if ¬ IsByte byte then some (.byteRange byte)
      else none
  | .next byte => if ¬ IsByte byte then some (.byteRange byte) else none
  | .complete => none

/-- The response with another reading of its result. -/
def Response.map {μ α β : Type} (f : α → β) (response : Response μ α) : Response μ β where
  record := response.record
  result := response.result.map f
  notices := response.notices

namespace InstructionSet

variable {μ : Type}

/-- The response to a call. -/
def respond (s : InstructionSet μ) (r : Record μ) : Call → Response μ Answer
  | .start address byte => (s.start r address byte).map .taken
  | .next byte => (s.next r byte).map .taken
  | .complete => { record := r, result := .ok (.text r.completeText) }

/-- The call answers that it took a byte. -/
def takes (s : InstructionSet μ) (r : Record μ) (call : Call) : Bool :=
  match (s.respond r call).result with
  | .ok (.taken flag) => flag
  | _ => false

/-- The calls that take a byte when all calls are made one after the other. -/
def takenCalls (s : InstructionSet μ) : Record μ → List Call → List Call
  | _, [] => []
  | r, call :: calls =>
      if s.takes r call then call :: s.takenCalls (s.call r call) calls
      else s.takenCalls (s.call r call) calls

variable {s : InstructionSet μ} {longest opening : Nat} {r : Record μ} {call : Call} {fault : Fault}

/-! ## One call -/

/-- The call is rejected exactly for its fault, and it has an effect only if it takes a byte. -/
structure Answers (s : InstructionSet μ) (r : Record μ) (call : Call) : Prop where
  error_iff : ∀ fault, (s.respond r call).result = .error fault ↔ call.fault? = some fault
  record_eq : s.takes r call = false → (s.respond r call).record = r

namespace Answers

theorem rejected (h : s.respond r call = { record := r, result := .error fault })
    (hfault : call.fault? = some fault) : s.Answers r call where
  error_iff other := by rw [h, hfault, Except.error.injEq, Option.some.injEq]
  record_eq _ := by rw [h]

theorem ignored {notices : List Notice}
    (h : s.respond r call = { record := r, result := .ok (.taken false), notices := notices })
    (hfault : call.fault? = none) : s.Answers r call where
  error_iff fault := by simp [h, hfault]
  record_eq _ := by rw [h]

theorem accepted (h : (s.respond r call).result = .ok (.taken true)) (hfault : call.fault? = none) :
    s.Answers r call where
  error_iff fault := by simp [h, hfault]
  record_eq htakes := by
    rw [takes, h] at htakes
    cases htakes

end Answers

namespace Lawful

theorem start_answers (law : s.Lawful longest opening) (r : Record μ) (address byte : Int) :
    s.Answers r (.start address byte) := by
  rcases s.start_cases r address byte with ⟨hrange, heq⟩ | ⟨hrange, hbyte, heq⟩ |
    ⟨hrange, hbyte, hphase, heq⟩ | ⟨hrange, hbyte, hphase⟩
  · apply Answers.rejected
    · rw [respond, heq]
      rfl
    · simp [Call.fault?, hrange]
  · apply Answers.rejected
    · rw [respond, heq]
      rfl
    · simp [Call.fault?, hrange, hbyte]
  · apply Answers.ignored
    · rw [respond, heq]
      rfl
    · simp [Call.fault?, hrange, hbyte]
  · have haccepted := law.start_accepted hphase hrange hbyte
    apply Answers.accepted
    · rw [respond, Response.map, haccepted.result_eq]
      rfl
    · simp [Call.fault?, hrange, hbyte]

theorem next_answers (law : s.Lawful longest opening) (h : s.Sound r) (byte : Int) :
    s.Answers r (.next byte) := by
  rcases s.next_cases r byte with ⟨hbyte, heq⟩ | ⟨hbyte, hphase, heq⟩ | ⟨hbyte, hphase⟩
  · apply Answers.rejected
    · rw [respond, heq]
      rfl
    · simp [Call.fault?, hbyte]
  · apply Answers.ignored
    · rw [respond, heq]
      rfl
    · simp [Call.fault?, hbyte]
  · -- The instruction is underway, so its buffer has room and the byte is taken.
    have haccepted := law.next_accepted (h.underway hphase) hbyte
    apply Answers.accepted
    · rw [respond, Response.map, haccepted.result_eq]
      rfl
    · simp [Call.fault?, hbyte]

/-- Every call to a decoder in use is answered as its values say. -/
theorem answers (law : s.Lawful longest opening) (h : s.Sound r) (call : Call) : s.Answers r call := by
  cases call with
  | start address byte => exact law.start_answers r address byte
  | next byte => exact law.next_answers h byte
  | complete =>
      constructor
      · intro fault
        simp [respond, Call.fault?]
      · intro _
        rfl

/-! ## All calls of a session -/

theorem respond_record (s : InstructionSet μ) (r : Record μ) (call : Call) :
    (s.respond r call).record = s.call r call := by
  cases call <;> rfl

/-- The record after some calls is the record after those of them that take a byte. -/
theorem foldl_takenCalls (law : s.Lawful longest opening) (h : s.Sound r) (calls : List Call) :
    (s.takenCalls r calls).foldl s.call r = calls.foldl s.call r := by
  induction calls generalizing r with
  | nil => rfl
  | cons call calls ih =>
      have hrest := ih (law.call_sound h call)
      rw [List.foldl_cons, takenCalls, ← hrest]
      cases htakes : s.takes r call with
      | true => rfl
      | false =>
          have hrecord := (law.answers h call).record_eq htakes
          rw [respond_record] at hrecord
          simp only [hrecord, Bool.false_eq_true, if_false]

end Lawful

end InstructionSet

namespace Architecture

/-- Rejected and ignored calls leave no trace: the record and the text of a session are those of the calls
that took a byte, and each further call is rejected for its values alone. -/
theorem run_eq_run_takenCalls (a : Architecture) (calls : List Call) :
    let s := a.instructionSet
    s.run calls = s.run (s.takenCalls {} calls) ∧
    (s.respond (s.run calls) .complete).result =
      (s.respond (s.run (s.takenCalls {} calls)) .complete).result ∧
    ∀ call fault, (s.respond (s.run calls) call).result = .error fault ↔ call.fault? = some fault := by
  intro s
  have hsound := InstructionSet.Sound.initial s
  have hrun : s.run calls = s.run (s.takenCalls {} calls) :=
    (a.lawful.foldl_takenCalls hsound calls).symm
  refine ⟨hrun, ?_, ?_⟩
  · rw [← hrun]
  · intro call fault
    exact (a.lawful.answers (a.lawful.run_sound calls) call).error_iff fault

end Architecture

end EightBit
