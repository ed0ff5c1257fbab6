import EightBit.Proofs.Cycles
set_option autoImplicit false

/-!
# Noise on the bus

The decoder is called with the data of the cycles of an instruction and with the address of the first of
them.  Other values on the bus are not read: the address and the mark of a cycle inside an instruction,
and all of an unmarked cycle between instructions.  A trace is edited by giving such values anew and by
putting in or leaving out unmarked cycles between instructions.  The edited trace is accepted if the
trace was, and its rows show the same texts (`replay_noise`).

The rows of the two traces do not line up, so the statement goes along the list of edits: it has the
cycles of both traces in order.
-/

namespace EightBit

/-- A place of a trace and what an edit makes of it. -/
inductive Edit where
  /-- A cycle that stays. -/
  | keep (sample : BusSample)
  /-- A cycle that gets another address and another mark. -/
  | relabel (sample : BusSample) (address : Int) (fetch : Bool)
  /-- Cycles that are replaced by others: with no old ones they are put in, with no new ones left out. -/
  | exchange (old new : List BusSample)
  deriving DecidableEq, Repr

namespace Edit

/-- The cycles before the edit. -/
def before : Edit → List BusSample
  | .keep sample => [sample]
  | .relabel sample _ _ => [sample]
  | .exchange old _ => old

/-- The cycles after the edit. -/
def after : Edit → List BusSample
  | .keep sample => [sample]
  | .relabel sample address fetch => [{ sample with address := address, fetch := fetch }]
  | .exchange _ new => new

/-- The edit touches only what a decoder in the given phase does not read. -/
def HarmlessAt (phase : Phase) : Edit → Prop
  | .keep _ => True
  | .relabel _ _ _ => phase = .fetching
  | .exchange old new => phase ≠ .fetching ∧ ∀ sample ∈ old ++ new, sample.fetch = false

instance (phase : Phase) : DecidablePred (HarmlessAt phase)
  | .keep _ => inferInstanceAs (Decidable True)
  | .relabel _ _ _ => inferInstanceAs (Decidable (phase = .fetching))
  | .exchange old new =>
      inferInstanceAs (Decidable (phase ≠ .fetching ∧ ∀ sample ∈ old ++ new, sample.fetch = false))

end Edit

/-- The rows of a trace and of the edited trace, with the same texts beside the cycles that they share
and no texts beside the others. -/
inductive SameTexts : List Edit → List TraceRow → List TraceRow → Prop
  | nil : SameTexts [] [] []
  | keep {edits : List Edit} {rows rows' : List TraceRow} (sample : BusSample) (text : Text)
      (rest : SameTexts edits rows rows') :
      SameTexts (.keep sample :: edits) ({ sample := sample, text := text } :: rows)
        ({ sample := sample, text := text } :: rows')
  | relabel {edits : List Edit} {rows rows' : List TraceRow} (sample : BusSample) (address : Int)
      (fetch : Bool) (rest : SameTexts edits rows rows') :
      SameTexts (.relabel sample address fetch :: edits) (.plain sample :: rows)
        (.plain { sample with address := address, fetch := fetch } :: rows')
  | exchange {edits : List Edit} {rows rows' : List TraceRow} (old new : List BusSample)
      (rest : SameTexts edits rows rows') :
      SameTexts (.exchange old new :: edits) (old.map .plain ++ rows) (new.map .plain ++ rows')

namespace InstructionSet

variable {μ : Type}

/-- The record of the decoder behind a bus cycle. -/
def observe (s : InstructionSet μ) (r : Record μ) (sample : BusSample) : Record μ :=
  if r.phase = .fetching then (s.next r sample.data).record
  else if sample.fetch then (s.start r sample.address sample.data).record
  else r

/-- Each edit is harmless in the phase in which the cycles before it leave the decoder. -/
def Harmless (s : InstructionSet μ) (r : Record μ) : List Edit → Prop
  | [] => True
  | edit :: edits => edit.HarmlessAt r.phase ∧ s.Harmless (edit.before.foldl s.observe r) edits

instance decidableHarmless (s : InstructionSet μ) :
    (r : Record μ) → (edits : List Edit) → Decidable (s.Harmless r edits)
  | _, [] => inferInstanceAs (Decidable True)
  | r, edit :: edits =>
      have := s.decidableHarmless (edit.before.foldl s.observe r) edits
      inferInstanceAs (Decidable (edit.HarmlessAt r.phase ∧ s.Harmless _ edits))

/-- If the trace is accepted from a record on, so is the edited trace, with the same texts; that of the
instruction that the record is in is among them. -/
def Withstands (s : InstructionSet μ) (r : Record μ) (edits : List Edit) : Prop :=
  ∀ owed rows, s.replayFrom r (edits.flatMap Edit.before) = .ok (owed, rows) →
    ∃ rows', s.replayFrom r (edits.flatMap Edit.after) = .ok (owed, rows') ∧ SameTexts edits rows rows'

variable {s : InstructionSet μ} {r : Record μ} {sample : BusSample} {asides rest : List BusSample}
  {edits : List Edit} {response : Response μ Bool} {owed : Text} {rows : List TraceRow}
  {out : Text × List TraceRow}

/-! ## The record behind a cycle -/

theorem observe_continuation (h : r.phase = .fetching) (sample : BusSample) :
    s.observe r sample = (s.next r sample.data).record := by
  rw [observe, if_pos h]

theorem observe_opening (h : r.phase ≠ .fetching) (hfetch : sample.fetch = true) :
    s.observe r sample = (s.start r sample.address sample.data).record := by
  rw [observe, if_neg h, if_pos hfetch]

theorem observe_aside (h : r.phase ≠ .fetching) (hfetch : sample.fetch = false) :
    s.observe r sample = r := by
  rw [observe, if_neg h, hfetch, if_neg Bool.false_ne_true]

theorem foldl_observe_asides (h : r.phase ≠ .fetching) (hasides : ∀ sample ∈ asides, sample.fetch = false) :
    asides.foldl s.observe r = r := by
  induction asides with
  | nil => rfl
  | cons sample asides ih =>
      obtain ⟨hsample, hothers⟩ := List.forall_mem_cons.mp hasides
      rw [List.foldl_cons, observe_aside h hsample, ih hothers]

/-! ## The rows behind a cycle -/

/-- Behind an accepted call the further cycles can be replaced by any that owe the same text. -/
theorem replayAfter_behind (h : s.replayAfter response rest = .ok out) :
    ∃ owed, s.replayFrom response.record rest = .ok (owed, out.2) ∧
      ∀ rest' rows', s.replayFrom response.record rest' = .ok (owed, rows') →
        s.replayAfter response rest' = .ok (out.1, rows') := by
  unfold replayAfter at h ⊢
  cases hresult : response.result with
  | error e =>
      rw [hresult] at h
      cases h
  | ok taken =>
      rw [hresult] at h
      obtain ⟨⟨owed, rows⟩, hreplay, rfl⟩ := exists_of_map_eq_ok h
      refine ⟨owed, hreplay, ?_⟩
      intro rest' rows' hrest'
      simp only [hrest']
      rfl

/-- A cycle inside an instruction can be replaced by any that brings the same data. -/
theorem replayFrom_behind_continuation (h : r.phase = .fetching)
    (hreplay : s.replayFrom r (sample :: rest) = .ok (owed, rows)) :
    ∃ owed' behind, rows = .plain sample :: behind ∧
      s.replayFrom (s.observe r sample) rest = .ok (owed', behind) ∧
      ∀ other : BusSample, other.data = sample.data → ∀ rest' rows',
        s.replayFrom (s.observe r sample) rest' = .ok (owed', rows') →
          s.replayFrom r (other :: rest') = .ok (owed, .plain other :: rows') := by
  rw [replayFrom_continuation h] at hreplay
  obtain ⟨out, hafter, hout⟩ := exists_of_map_eq_ok hreplay
  obtain ⟨rfl, rfl⟩ := Prod.mk.inj hout
  obtain ⟨owed', hbehind, hswap⟩ := replayAfter_behind hafter
  rw [observe_continuation h]
  refine ⟨owed', out.2, rfl, hbehind, ?_⟩
  intro other hdata rest' rows' hrest'
  rw [replayFrom_continuation h, hdata, hswap rest' rows' hrest']
  rfl

theorem replayFrom_behind_opening (h : r.phase ≠ .fetching) (hfetch : sample.fetch = true)
    (hreplay : s.replayFrom r (sample :: rest) = .ok (owed, rows)) :
    ∃ text owed' behind, rows = { sample := sample, text := text } :: behind ∧
      s.replayFrom (s.observe r sample) rest = .ok (owed', behind) ∧
      ∀ rest' rows', s.replayFrom (s.observe r sample) rest' = .ok (owed', rows') →
        s.replayFrom r (sample :: rest') = .ok (owed, { sample := sample, text := text } :: rows') := by
  rw [replayFrom_opening h hfetch] at hreplay
  obtain ⟨out, hafter, hout⟩ := exists_of_map_eq_ok hreplay
  obtain ⟨rfl, rfl⟩ := Prod.mk.inj hout
  obtain ⟨owed', hbehind, hswap⟩ := replayAfter_behind hafter
  rw [observe_opening h hfetch]
  refine ⟨out.1, owed', out.2, rfl, hbehind, ?_⟩
  intro rest' rows' hrest'
  rw [replayFrom_opening h hfetch, hswap rest' rows' hrest']
  rfl

/-- Unmarked cycles between instructions give plain rows, and nothing else. -/
theorem replayFrom_asides (h : r.phase ≠ .fetching) (hasides : ∀ sample ∈ asides, sample.fetch = false)
    (rest : List BusSample) :
    s.replayFrom r (asides ++ rest) =
      (s.replayFrom r rest).map fun out => ([], asides.map .plain ++ out.2) := by
  induction asides with
  | nil => exact (replayFrom_owes_nothing h rest).symm
  | cons sample asides ih =>
      obtain ⟨hsample, hothers⟩ := List.forall_mem_cons.mp hasides
      rw [List.cons_append, replayFrom_aside h hsample, ih hothers]
      cases s.replayFrom r rest <;> rfl

/-! ## One lemma for each kind of edit -/

namespace Withstands

theorem relabel (hrest : s.Withstands (s.observe r sample) edits) (h : r.phase = .fetching)
    (address : Int) (fetch : Bool) : s.Withstands r (.relabel sample address fetch :: edits) := by
  intro owed rows hreplay
  obtain ⟨owed', behind, rfl, hbehind, hswap⟩ := replayFrom_behind_continuation h hreplay
  obtain ⟨rows', hrows', hsame⟩ := hrest owed' behind hbehind
  exact ⟨_, hswap { sample with address := address, fetch := fetch } rfl _ rows' hrows',
    hsame.relabel sample address fetch⟩

theorem exchange {old new : List BusSample} (hrest : s.Withstands r edits) (h : r.phase ≠ .fetching)
    (hasides : ∀ sample ∈ old ++ new, sample.fetch = false) :
    s.Withstands r (.exchange old new :: edits) := by
  intro owed rows hreplay
  obtain ⟨hold, hnew⟩ := List.forall_mem_append.mp hasides
  rw [List.flatMap_cons, Edit.before, replayFrom_asides h hold] at hreplay
  obtain ⟨⟨owed', behind⟩, hbehind, hout⟩ := exists_of_map_eq_ok hreplay
  obtain ⟨rfl, rfl⟩ := Prod.mk.inj hout
  obtain ⟨rows', hrows', hsame⟩ := hrest owed' behind hbehind
  refine ⟨new.map .plain ++ rows', ?_, hsame.exchange old new⟩
  rw [List.flatMap_cons, Edit.after, replayFrom_asides h hnew, hrows']
  rfl

theorem keep (hrest : s.Withstands (s.observe r sample) edits) :
    s.Withstands r (.keep sample :: edits) := by
  intro owed rows hreplay
  by_cases hphase : r.phase = .fetching
  · obtain ⟨owed', behind, rfl, hbehind, hswap⟩ := replayFrom_behind_continuation hphase hreplay
    obtain ⟨rows', hrows', hsame⟩ := hrest owed' behind hbehind
    exact ⟨_, hswap sample rfl _ rows' hrows', hsame.keep sample []⟩
  · cases hfetch : sample.fetch with
    | true =>
        obtain ⟨text, owed', behind, rfl, hbehind, hswap⟩ :=
          replayFrom_behind_opening hphase hfetch hreplay
        obtain ⟨rows', hrows', hsame⟩ := hrest owed' behind hbehind
        exact ⟨_, hswap _ rows' hrows', hsame.keep sample text⟩
    | false =>
        -- A cycle aside that stays is one that is exchanged for itself.
        have hself : ∀ other ∈ [sample], other.fetch = false := List.forall_mem_singleton.mpr hfetch
        have hasides := List.forall_mem_append.mpr ⟨hself, hself⟩
        rw [observe_aside hphase hfetch] at hrest
        obtain ⟨rows', hrows', hsame⟩ := hrest.exchange hphase hasides owed rows hreplay
        cases hsame with
        | exchange _ _ hsame => exact ⟨_, hrows', hsame.keep sample []⟩

end Withstands

/-- Harmless edits are withstood. -/
theorem Harmless.withstands (h : s.Harmless r edits) : s.Withstands r edits := by
  induction edits generalizing r with
  | nil =>
      intro owed rows hreplay
      cases hreplay
      exact ⟨[], rfl, .nil⟩
  | cons edit edits ih =>
      obtain ⟨hedit, hrest⟩ := h
      cases edit with
      | keep sample => exact (ih hrest).keep
      | relabel sample address fetch => exact (ih hrest).relabel hedit address fetch
      | exchange old new =>
          obtain ⟨hphase, hasides⟩ := hedit
          obtain ⟨hold, -⟩ := List.forall_mem_append.mp hasides
          rw [Edit.before, foldl_observe_asides hphase hold] at hrest
          exact (ih hrest).exchange hphase hasides

end InstructionSet

/-- Noise that a decoder does not read changes no text and brings no error, wherever it is in the trace
and however much of it there is. -/
theorem replay_noise (a : Architecture) {edits : List Edit} {rows : List TraceRow}
    (h : replay a (edits.flatMap Edit.before) = .ok rows)
    (hharmless : a.instructionSet.Harmless {} edits) :
    ∃ rows', replay a (edits.flatMap Edit.after) = .ok rows' ∧ SameTexts edits rows rows' := by
  obtain ⟨owed, hreplay⟩ := replay_eq_ok_iff.mp h
  obtain ⟨rows', hreplay', hsame⟩ := hharmless.withstands owed rows hreplay
  exact ⟨rows', replay_eq_ok_iff.mpr ⟨owed, hreplay'⟩, hsame⟩

/-- Cycles with values out of range before an instruction, a false label inside it, a dummy cycle that is
left out, and another false label in an instruction that the trace breaks off. -/
theorem replay_noise_out_of_range :
    let edits : List Edit :=
      [.exchange [] [⟨-1, 0x1FF, false⟩, ⟨0x12345, -7, false⟩], .keep ⟨0x1000, 0x86, true⟩,
        .relabel ⟨0x1001, 0x5A, false⟩ 0x12345 true, .keep ⟨0x1002, 0x12, true⟩,
        .exchange [⟨0xFFFF, 0x00, false⟩] [], .keep ⟨0x1003, 0x8E, true⟩,
        .relabel ⟨0x1004, 0x12, false⟩ (-1) true]
    let rows : List TraceRow :=
      [⟨⟨0x1000, 0x86, true⟩, .ofString "LDA #$5A"⟩, ⟨⟨0x1001, 0x5A, false⟩, []⟩,
        ⟨⟨0x1002, 0x12, true⟩, .ofString "NOP"⟩, ⟨⟨0xFFFF, 0x00, false⟩, []⟩,
        ⟨⟨0x1003, 0x8E, true⟩, []⟩, ⟨⟨0x1004, 0x12, false⟩, []⟩]
    (replay .mc6809 (edits.flatMap Edit.before) = .ok rows ∧
      (Architecture.instructionSet .mc6809).Harmless {} edits) ∧
    ∃ rows', replay .mc6809 (edits.flatMap Edit.after) = .ok rows' ∧ SameTexts edits rows rows' := by
  intro edits rows
  have hreplay : replay .mc6809 (edits.flatMap Edit.before) = .ok rows := by
    apply eq_ok_of_toOption
    decide +kernel
  have hharmless : (Architecture.instructionSet .mc6809).Harmless {} edits := by decide +kernel
  exact ⟨⟨hreplay, hharmless⟩, replay_noise .mc6809 hreplay hharmless⟩

end EightBit
