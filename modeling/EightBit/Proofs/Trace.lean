import EightBit.Proofs.Cycles
set_option autoImplicit false

/-!
# Traces cut into instructions

A trace is read from its beginning: cycles that are not marked stand aside, a marked one opens an
instruction, and the cycles behind it belong to that instruction until it is complete.  `Cut` holds such
a reading, each instruction with the proof that a new decoder completes it with its last byte, and the
instruction that the trace breaks off, if there is one.  A trace is accepted if and only if it has a cut,
and its rows are those of the cut (`replayFrom_cut`, `exists_cut`).

`replay_greedy` spells out what this means for the rows, and for the rows of a trace with one more cycle.
-/

namespace EightBit

/-! ## Instructions on the bus -/

/-- The cycles of an instruction: a marked one that brings the first byte, and others that bring the
bytes behind it. -/
structure InstructionCycles where
  first : BusSample
  others : List BusSample
  bytes : List UInt8
  marked : first.fetch = true
  address_range : InRange first.address
  data_eq : (first :: others).map BusSample.data = imageOf bytes

namespace InstructionCycles

/-- All cycles of an instruction. -/
def samples (c : InstructionCycles) : List BusSample :=
  c.first :: c.others

/-- The cycle that opens an instruction. -/
def single (first : BusSample) (marked : first.fetch = true) (address_range : InRange first.address)
    (data_range : IsByte first.data) : InstructionCycles where
  first := first
  others := []
  bytes := [UInt8.ofInt first.data]
  marked := marked
  address_range := address_range
  data_eq := by simp [imageOf, toNat_ofInt data_range]

/-- An instruction with a further cycle. -/
def extend (c : InstructionCycles) (next : BusSample) (data_range : IsByte next.data) :
    InstructionCycles where
  first := c.first
  others := c.others ++ [next]
  bytes := c.bytes ++ [UInt8.ofInt next.data]
  marked := c.marked
  address_range := c.address_range
  data_eq := by
    have hdata := c.data_eq
    simp only [imageOf, List.map_cons, List.map_append, ← List.cons_append] at hdata ⊢
    rw [hdata]
    simp [toNat_ofInt data_range]

@[simp] theorem samples_extend (c : InstructionCycles) (next : BusSample) (h : IsByte next.data) :
    (c.extend next h).samples = c.samples ++ [next] := rfl

theorem length_bytes (c : InstructionCycles) : c.bytes.length = c.others.length + 1 := by
  have hlength := congrArg List.length c.data_eq
  simpa [imageOf] using hlength.symm

theorem bytes_pos (c : InstructionCycles) : 0 < c.bytes.length := by
  rw [c.length_bytes]
  exact Nat.succ_pos _

end InstructionCycles

namespace InstructionSet

variable {μ : Type}

/-- A new decoder completes the instruction with the last of its cycles. -/
def Completes (s : InstructionSet μ) (c : InstructionCycles) : Prop :=
  s.CompletesAfter {} c.first.address c.bytes c.bytes.length

/-- A new decoder is still in the instruction after all its cycles. -/
def LeavesOpen (s : InstructionSet μ) (c : InstructionCycles) : Prop :=
  s.FetchingBelow {} c.first.address c.bytes (c.bytes.length + 1)

/-- The text that a new decoder gives the instruction. -/
def textOf (s : InstructionSet μ) (c : InstructionCycles) : Text :=
  (s.feed {} c.first.address c.bytes).record.completeText

variable {s : InstructionSet μ} {longest opening : Nat} {r : Record μ} {address : Int}
  {c : InstructionCycles}

theorem Completes.phase_eq (h : s.Completes c) :
    (s.feed {} c.first.address c.bytes).record.phase = .complete := by
  have hcomplete := h.complete
  rwa [List.take_length] at hcomplete

theorem LeavesOpen.phase_eq (h : s.LeavesOpen c) :
    (s.feed {} c.first.address c.bytes).record.phase = .fetching := by
  have hphase := h c.bytes.length (Nat.lt_succ_self _) c.bytes_pos
  rwa [List.take_length] at hphase

theorem LeavesOpen.textOf_eq (h : s.LeavesOpen c) : s.textOf c = [] := by
  rw [textOf, Record.completeText, if_neg]
  rw [h.phase_eq]
  intro hphase
  cases hphase

namespace Lawful

theorem cycles_accepted (law : s.Lawful longest opening)
    (h : s.FetchingBelow {} c.first.address c.bytes c.bytes.length) :
    s.Accepted c.first.address c.bytes (s.feed {} c.first.address c.bytes) := by
  have haccepted := law.feed_accepted phase_initial c.address_range c.bytes_pos (Nat.le_refl _) h
  rwa [List.take_length] at haccepted

/-- An instruction that is in progress before its last cycle is complete or in progress after it. -/
theorem completes_or_leavesOpen (law : s.Lawful longest opening)
    (h : s.FetchingBelow {} c.first.address c.bytes c.bytes.length) : s.Completes c ∨ s.LeavesOpen c := by
  have haccepted := law.cycles_accepted h
  rcases haccepted.progress with hunderway | hfinished
  · right
    apply h.succ
    rw [List.take_length]
    exact hunderway.phase_eq
  · left
    refine ⟨c.bytes_pos, Nat.le_refl _, h, ?_⟩
    rw [List.take_length]
    exact hfinished.phase_eq

theorem single_completes_or_leavesOpen (law : s.Lawful longest opening) {first : BusSample}
    (marked : first.fetch = true) (haddress : InRange first.address) (hbyte : IsByte first.data) :
    s.Completes (.single first marked haddress hbyte) ∨ s.LeavesOpen (.single first marked haddress hbyte) := by
  apply law.completes_or_leavesOpen
  intro k hlt hpos
  exact absurd hlt (Nat.not_lt_of_le hpos)

/-- A further cycle completes an open instruction or leaves it open. -/
theorem extend_completes_or_leavesOpen (law : s.Lawful longest opening) (h : s.LeavesOpen c)
    (next : BusSample) (hbyte : IsByte next.data) :
    s.Completes (c.extend next hbyte) ∨ s.LeavesOpen (c.extend next hbyte) := by
  apply law.completes_or_leavesOpen
  intro k hlt hpos
  have hlt : k < (c.bytes ++ [UInt8.ofInt next.data]).length := hlt
  rw [List.length_append, List.length_singleton] at hlt
  change (s.feed {} c.first.address ((c.bytes ++ [UInt8.ofInt next.data]).take k)).record.phase = .fetching
  rw [List.take_append_of_le_length (Nat.le_of_lt_succ hlt)]
  exact h k hlt hpos

/-- The text of a complete instruction is not empty. -/
theorem textOf_ne_nil (law : s.Lawful longest opening) (h : s.Completes c) : s.textOf c ≠ [] := by
  have haccepted := law.cycles_accepted h.fetching
  rw [textOf, Record.completeText, if_pos h.phase_eq]
  exact (haccepted.finished h.phase_eq).text_ne

end Lawful

/-! ## Replaying the cycles of an instruction -/

/-- The response to the last of some cycles that continue an instruction. -/
def nextCycles (s : InstructionSet μ) (response : Response μ Bool) (samples : List BusSample) :
    Response μ Bool :=
  samples.foldl (fun response sample => s.next response.record sample.data) response

@[simp] theorem nextCycles_nil (response : Response μ Bool) : s.nextCycles response [] = response := rfl

@[simp] theorem nextCycles_cons (response : Response μ Bool) (sample : BusSample)
    (samples : List BusSample) :
    s.nextCycles response (sample :: samples) =
      s.nextCycles (s.next response.record sample.data) samples := rfl

/-- Feeding the bytes of some cycles is continuing with these cycles. -/
theorem feed_eq_nextCycles {first : BusSample} {others : List BusSample} {bytes : List UInt8}
    (h : (first :: others).map BusSample.data = imageOf bytes) :
    s.feed r address bytes = s.nextCycles (s.start r address first.data) others := by
  cases bytes with
  | nil => cases h
  | cons byte bytes =>
      rw [List.map_cons, imageOf_cons, List.cons.injEq] at h
      have hfold : ∀ x : Response μ Bool,
          bytes.foldl (fun x byte => s.next x.record byte.toNat) x = s.nextCycles x others := by
        intro x
        calc bytes.foldl (fun x byte => s.next x.record byte.toNat) x
          _ = (imageOf bytes).foldl (fun x byte => s.next x.record byte) x := by
              rw [imageOf, List.foldl_map]
          _ = (others.map BusSample.data).foldl (fun x byte => s.next x.record byte) x := by rw [h.2]
          _ = s.nextCycles x others := by rw [List.foldl_map, nextCycles]
      rw [feed, hfold, h.1]

/-- Cycles that find an instruction in progress show no text of their own. -/
theorem replayAfter_nextCycles (others rest : List BusSample) (response : Response μ Bool)
    (h : ∀ front sample back, others = front ++ sample :: back →
      (s.nextCycles response front).result = .ok true ∧
        (s.nextCycles response front).record.phase = .fetching) :
    s.replayAfter response (others ++ rest) =
      (s.replayAfter (s.nextCycles response others) rest).map fun out =>
        (out.1, others.map .plain ++ out.2) := by
  induction others generalizing response with
  | nil =>
      change s.replayAfter response rest = (s.replayAfter response rest).map fun out => (out.1, out.2)
      cases s.replayAfter response rest <;> rfl
  | cons sample others ih =>
      obtain ⟨hresult, hphase⟩ := h [] sample others rfl
      rw [nextCycles_nil] at hresult hphase
      have hrest : ∀ front next back, others = front ++ next :: back →
          (s.nextCycles (s.next response.record sample.data) front).result = .ok true ∧
            (s.nextCycles (s.next response.record sample.data) front).record.phase = .fetching := by
        intro front next back heq
        apply h (sample :: front) next back
        rw [heq, List.cons_append]
      rw [List.cons_append, replayAfter_of_fetching hresult hphase, replayFrom_continuation hphase,
        ih _ hrest, nextCycles_cons]
      cases s.replayAfter (s.nextCycles (s.next response.record sample.data) others) rest <;> rfl

/-- The cycles in front of the last one have the bytes in front of the last one. -/
theorem front_data_eq {front back : List BusSample} {sample : BusSample}
    (h : c.others = front ++ sample :: back) :
    (c.first :: front).map BusSample.data = imageOf (c.bytes.take (front.length + 1)) := by
  have hdata := c.data_eq
  rw [h, ← List.cons_append, List.map_append] at hdata
  have htake := congrArg (List.take (front.length + 1)) hdata
  rw [List.take_append_of_le_length (by simp), List.take_of_length_le (by simp)] at htake
  rw [htake, imageOf, imageOf, List.map_take]

namespace Lawful

/-- The cycles of an instruction show one text, at the cycle that opens it: the text that is known after
the last of them. -/
theorem replayFrom_cycles (law : s.Lawful longest opening)
    (h : s.FetchingBelow {} c.first.address c.bytes c.bytes.length) (rest : List BusSample) :
    s.replayFrom {} (c.samples ++ rest) =
      (s.replayAfter (s.feed {} c.first.address c.bytes) rest).map fun out =>
        ([], { sample := c.first, text := out.1 } :: (c.others.map .plain ++ out.2)) := by
  have hprogress : ∀ front sample back, c.others = front ++ sample :: back →
      (s.nextCycles (s.start {} c.first.address c.first.data) front).result = .ok true ∧
        (s.nextCycles (s.start {} c.first.address c.first.data) front).record.phase = .fetching := by
    intro front sample back hothers
    have hlt : front.length + 1 < c.bytes.length := by
      rw [c.length_bytes, hothers]
      simp
    have hpos : 0 < front.length + 1 := Nat.succ_pos _
    rw [← feed_eq_nextCycles (front_data_eq hothers)]
    have haccepted := law.feed_accepted phase_initial c.address_range hpos (Nat.le_of_lt hlt)
      (h.mono (Nat.le_of_lt hlt))
    exact ⟨haccepted.result_eq, h _ hlt hpos⟩
  rw [InstructionCycles.samples, List.cons_append, replayFrom_opening phase_initial c.marked,
    replayAfter_nextCycles _ _ _ hprogress, ← feed_eq_nextCycles c.data_eq]
  cases s.replayAfter (s.feed {} c.first.address c.bytes) rest <;> rfl

/-- A complete instruction shows its text, and the replay goes on as with a new decoder. -/
theorem replayFrom_of_completes (law : s.Lawful longest opening) (h : s.Completes c)
    (rest : List BusSample) :
    s.replayFrom {} (c.samples ++ rest) = (s.replayFrom {} rest).map fun out =>
      ([], { sample := c.first, text := s.textOf c } :: (c.others.map .plain ++ out.2)) := by
  have haccepted := law.cycles_accepted h.fetching
  have hfinished := haccepted.finished h.phase_eq
  rw [law.replayFrom_cycles h.fetching, replayAfter_of_complete haccepted.result_eq h.phase_eq,
    law.replayFrom_eq_fresh hfinished.phase_ne]
  cases s.replayFrom {} rest <;> rfl

/-- An open instruction shows the text that the further cycles complete. -/
theorem replayFrom_of_leavesOpen (law : s.Lawful longest opening) (h : s.LeavesOpen c)
    (rest : List BusSample) :
    s.replayFrom {} (c.samples ++ rest) =
      (s.replayFrom (s.feed {} c.first.address c.bytes).record rest).map fun out =>
        ([], { sample := c.first, text := out.1 } :: (c.others.map .plain ++ out.2)) := by
  have hbelow := h.mono (Nat.le_succ _)
  have haccepted := law.cycles_accepted hbelow
  rw [law.replayFrom_cycles hbelow, replayAfter_of_fetching haccepted.result_eq h.phase_eq]

end Lawful

/-- The rows of one instruction, which has no text unless it is complete. -/
theorem Lawful.replayFrom_samples (law : s.Lawful longest opening) (h : s.Completes c ∨ s.LeavesOpen c) :
    s.replayFrom {} c.samples =
      .ok ([], { sample := c.first, text := s.textOf c } :: c.others.map .plain) := by
  rw [← List.append_nil c.samples]
  rcases h with hcompletes | hopen
  · rw [law.replayFrom_of_completes hcompletes, replayFrom]
    simp [Except.map]
  · rw [law.replayFrom_of_leavesOpen hopen, replayFrom, hopen.textOf_eq]
    simp [Except.map]

/-! ## Cuts -/

/-- A closed stretch of a trace. -/
inductive Stretch (s : InstructionSet μ) where
  /-- A cycle that belongs to no instruction. -/
  | aside (sample : BusSample) (unmarked : sample.fetch = false)
  /-- The cycles of a complete instruction. -/
  | instruction (cycles : InstructionCycles) (completes : s.Completes cycles)

namespace Stretch

/-- The cycles of a stretch. -/
def samples : s.Stretch → List BusSample
  | .aside sample _ => [sample]
  | .instruction cycles _ => cycles.samples

/-- The rows of a stretch: an instruction has its text in the first row. -/
def rows : s.Stretch → List TraceRow
  | .aside sample _ => [.plain sample]
  | .instruction cycles _ =>
      { sample := cycles.first, text := s.textOf cycles } :: cycles.others.map .plain

end Stretch

/-- A trace cut into closed stretches, and behind them the instruction that the trace breaks off. -/
structure Cut (s : InstructionSet μ) where
  stretches : List s.Stretch
  pending : Option { cycles : InstructionCycles // s.LeavesOpen cycles }

namespace Cut

/-- The cycles of the instruction that the trace breaks off. -/
def pendingSamples (cut : s.Cut) : List BusSample :=
  cut.pending.elim [] fun cycles => cycles.val.samples

/-- All cycles of a cut trace. -/
def samples (cut : s.Cut) : List BusSample :=
  cut.stretches.flatMap Stretch.samples ++ cut.pendingSamples

/-- The rows of a cut trace. -/
def rows (cut : s.Cut) : List TraceRow :=
  cut.stretches.flatMap Stretch.rows ++ cut.pendingSamples.map .plain

/-- A stretch in front of a cut trace. -/
def cons (stretch : s.Stretch) (cut : s.Cut) : s.Cut where
  stretches := stretch :: cut.stretches
  pending := cut.pending

@[simp] theorem samples_cons (stretch : s.Stretch) (cut : s.Cut) :
    (cons stretch cut).samples = stretch.samples ++ cut.samples := by
  rw [samples, samples, cons, List.flatMap_cons, List.append_assoc]
  rfl

@[simp] theorem rows_cons (stretch : s.Stretch) (cut : s.Cut) :
    (cons stretch cut).rows = stretch.rows ++ cut.rows := by
  rw [rows, rows, cons, List.flatMap_cons, List.append_assoc]
  rfl

end Cut

namespace Lawful

/-- Closed stretches show their rows, and the replay goes on as with a new decoder. -/
theorem replayFrom_stretches (law : s.Lawful longest opening) (stretches : List s.Stretch)
    (rest : List BusSample) :
    s.replayFrom {} (stretches.flatMap Stretch.samples ++ rest) =
      (s.replayFrom {} rest).map fun out => ([], stretches.flatMap Stretch.rows ++ out.2) := by
  induction stretches with
  | nil => exact (replayFrom_owes_nothing phase_initial rest).symm
  | cons stretch stretches ih =>
      rw [List.flatMap_cons, List.flatMap_cons, List.append_assoc]
      cases stretch with
      | aside sample unmarked =>
          rw [Stretch.samples, List.singleton_append, replayFrom_aside phase_initial unmarked, ih]
          cases s.replayFrom {} rest <;> rfl
      | instruction cycles completes =>
          rw [Stretch.samples, law.replayFrom_of_completes completes, ih]
          cases s.replayFrom {} rest with
          | error e => rfl
          | ok out => simp [Except.map, Stretch.rows]

theorem replayFrom_pending (law : s.Lawful longest opening) (cut : s.Cut) :
    s.replayFrom {} cut.pendingSamples = .ok ([], cut.pendingSamples.map .plain) := by
  unfold Cut.pendingSamples
  cases cut.pending with
  | none => rfl
  | some cycles =>
      rw [Option.elim_some, law.replayFrom_samples (.inr cycles.property), cycles.property.textOf_eq]
      rfl

/-- A cut trace is accepted and has the rows of the cut. -/
theorem replayFrom_cut (law : s.Lawful longest opening) (cut : s.Cut) :
    s.replayFrom {} cut.samples = .ok ([], cut.rows) := by
  rw [Cut.samples, law.replayFrom_stretches, law.replayFrom_pending cut]
  rfl

/-- A cycle that is accepted behind an open instruction brings a byte. -/
theorem isByte_of_leavesOpen (law : s.Lawful longest opening) (h : s.LeavesOpen c) {next : BusSample}
    {rest : List BusSample} {out : Text × List TraceRow}
    (hreplay : s.replayFrom {} (c.samples ++ next :: rest) = .ok out) : IsByte next.data := by
  by_cases hbyte : IsByte next.data
  · exact hbyte
  · rw [law.replayFrom_of_leavesOpen h, replayFrom_continuation h.phase_eq, s.next_rejected hbyte] at hreplay
    cases hreplay

/-- The cycles behind an open instruction complete it or leave it open to the end. -/
theorem exists_closing (law : s.Lawful longest opening) (h : s.LeavesOpen c) {rest : List BusSample}
    {out : Text × List TraceRow} (hreplay : s.replayFrom {} (c.samples ++ rest) = .ok out) :
    (∃ d, s.LeavesOpen d ∧ d.samples = c.samples ++ rest) ∨
      ∃ d tail, s.Completes d ∧ d.samples ++ tail = c.samples ++ rest := by
  induction rest generalizing c with
  | nil => exact .inl ⟨c, h, (List.append_nil _).symm⟩
  | cons next rest ih =>
      have hbyte := law.isByte_of_leavesOpen h hreplay
      have hsamples : c.samples ++ next :: rest = (c.extend next hbyte).samples ++ rest := by simp
      rw [hsamples] at hreplay ⊢
      rcases law.extend_completes_or_leavesOpen h next hbyte with hcompletes | hopen
      · exact .inr ⟨_, rest, hcompletes, rfl⟩
      · exact ih hopen hreplay

/-- A marked cycle of an accepted trace opens an instruction that is open to the end or complete. -/
theorem exists_opening (law : s.Lawful longest opening) {first : BusSample} (hfetch : first.fetch = true)
    {rest : List BusSample} {out : Text × List TraceRow}
    (hreplay : s.replayFrom {} (first :: rest) = .ok out) :
    (∃ d, s.LeavesOpen d ∧ d.samples = first :: rest) ∨
      ∃ d tail, s.Completes d ∧ d.samples ++ tail = first :: rest := by
  by_cases hvalues : InRange first.address ∧ IsByte first.data
  · rcases law.single_completes_or_leavesOpen hfetch hvalues.1 hvalues.2 with hcompletes | hopen
    · exact .inr ⟨_, rest, hcompletes, rfl⟩
    · exact law.exists_closing hopen hreplay
  · obtain ⟨e, hrejected⟩ := s.start_rejected hvalues
    rw [replayFrom_opening phase_initial hfetch, hrejected] at hreplay
    cases hreplay

/-- A trace that is accepted has a cut. -/
theorem exists_cut (law : s.Lawful longest opening) (samples : List BusSample)
    {out : Text × List TraceRow} (h : s.replayFrom {} samples = .ok out) :
    ∃ cut : s.Cut, cut.samples = samples := by
  -- The induction is on the length, since an instruction takes several cycles off the front.
  induction hlength : samples.length using Nat.strongRecOn generalizing samples out with
  | _ length ih =>
      cases samples with
      | nil => exact ⟨⟨[], none⟩, rfl⟩
      | cons first rest =>
          cases hfetch : first.fetch with
          | false =>
              rw [replayFrom_aside phase_initial hfetch] at h
              obtain ⟨out', hrest, -⟩ := exists_of_map_eq_ok h
              have hshorter : rest.length < length := by
                rw [← hlength]
                exact Nat.lt_succ_self _
              obtain ⟨cut, hcut⟩ := ih _ hshorter rest hrest rfl
              exact ⟨cut.cons (.aside first hfetch), by rw [Cut.samples_cons, hcut]; rfl⟩
          | true =>
              rcases law.exists_opening hfetch h with ⟨d, hopen, hd⟩ | ⟨d, tail, hcompletes, hd⟩
              · exact ⟨⟨[], some ⟨d, hopen⟩⟩, hd⟩
              · rw [← hd, law.replayFrom_of_completes hcompletes] at h
                obtain ⟨out', htail, -⟩ := exists_of_map_eq_ok h
                have hshorter : tail.length < length := by
                  rw [← hlength, ← hd, InstructionCycles.samples, List.length_append, List.length_cons]
                  omega
                obtain ⟨cut, hcut⟩ := ih _ hshorter tail htail rfl
                exact ⟨cut.cons (.instruction d hcompletes), by rw [Cut.samples_cons, hcut]; exact hd⟩

end Lawful

/-! ## The rows of a cut -/

namespace Stretch

theorem map_sample_plain (samples : List BusSample) :
    (samples.map TraceRow.plain).map TraceRow.sample = samples := by
  induction samples with
  | nil => rfl
  | cons sample samples ih => rw [List.map_cons, List.map_cons, ih, TraceRow.plain]

theorem text_of_mem_plain {samples : List BusSample} {row : TraceRow}
    (h : row ∈ samples.map TraceRow.plain) : row.text = [] := by
  obtain ⟨sample, -, rfl⟩ := List.mem_map.mp h
  rfl

theorem map_sample_rows (stretch : s.Stretch) : stretch.rows.map TraceRow.sample = stretch.samples := by
  cases stretch with
  | aside sample unmarked => rfl
  | instruction cycles completes => rw [rows, List.map_cons, map_sample_plain, samples,
      InstructionCycles.samples]

theorem length_rows (stretch : s.Stretch) : stretch.rows.length = stretch.samples.length := by
  rw [← stretch.map_sample_rows, List.length_map]

theorem length_flatMap_rows (stretches : List s.Stretch) :
    (stretches.flatMap rows).length = (stretches.flatMap samples).length := by
  induction stretches with
  | nil => rfl
  | cons stretch stretches ih =>
      rw [List.flatMap_cons, List.flatMap_cons, List.length_append, List.length_append, ih, length_rows]

end Stretch

namespace Cut

/-- The cycle at position `i` opens a complete instruction with the given cycles. -/
def InstructionAt (cut : s.Cut) (i : Nat) (cycles : InstructionCycles) : Prop :=
  ∃ front completes back, cut.stretches = front ++ .instruction cycles completes :: back ∧
    i = (front.flatMap Stretch.samples).length

theorem map_sample_rows (cut : s.Cut) : cut.rows.map TraceRow.sample = cut.samples := by
  rw [rows, samples, List.map_append, Stretch.map_sample_plain]
  congr 1
  induction cut.stretches with
  | nil => rfl
  | cons stretch stretches ih =>
      rw [List.flatMap_cons, List.flatMap_cons, List.map_append, ih, stretch.map_sample_rows]

/-- The row that opens an instruction has its text. -/
theorem rows_of_instructionAt {cut : s.Cut} {i : Nat} {cycles : InstructionCycles}
    (h : cut.InstructionAt i cycles) :
    cut.rows[i]? = some { sample := cycles.first, text := s.textOf cycles } := by
  obtain ⟨front, completes, back, hstretches, rfl⟩ := h
  rw [rows, hstretches, List.flatMap_append, List.flatMap_cons, List.append_assoc,
    ← Stretch.length_flatMap_rows, List.getElem?_append_right (Nat.le_refl _), Nat.sub_self]
  rfl

/-- A row with a text opens an instruction. -/
theorem exists_instructionAt {cut : s.Cut} {i : Nat} {row : TraceRow} (h : cut.rows[i]? = some row)
    (htext : row.text ≠ []) : ∃ cycles, cut.InstructionAt i cycles := by
  obtain ⟨stretches, pending⟩ := cut
  induction stretches generalizing i with
  | nil => exact absurd (Stretch.text_of_mem_plain (List.mem_of_getElem? h)) htext
  | cons stretch stretches ih =>
      rw [rows, List.flatMap_cons, List.append_assoc, List.getElem?_append] at h
      split at h
      · cases stretch with
        | aside sample unmarked =>
            have hplain : row ∈ [sample].map TraceRow.plain := List.mem_of_getElem? h
            exact absurd (Stretch.text_of_mem_plain hplain) htext
        | instruction cycles completes =>
            cases i with
            | zero => exact ⟨cycles, [], completes, stretches, rfl, rfl⟩
            | succ i =>
                have hplain : row ∈ cycles.others.map TraceRow.plain := List.mem_of_getElem? h
                exact absurd (Stretch.text_of_mem_plain hplain) htext
      · rename_i hge
        obtain ⟨cycles, front, completes, back, hstretches, hi⟩ := ih h
        refine ⟨cycles, stretch :: front, completes, back, ?_, ?_⟩
        · exact congrArg (List.cons stretch) hstretches
        · rw [List.flatMap_cons, List.length_append, ← hi, ← stretch.length_rows]
          omega

end Cut

/-- The rows show the trace as it is cut. -/
structure Reads (s : InstructionSet μ) (samples : List BusSample) (rows : List TraceRow) (cut : s.Cut) :
    Prop where
  cut_eq : cut.samples = samples
  /-- There is one row for each cycle, and it shows the cycle unchanged. -/
  sample_eq : rows.map TraceRow.sample = samples
  /-- A row has a text exactly if it opens an instruction that is completed within the trace. -/
  text_ne_iff : ∀ i row, rows[i]? = some row → (row.text ≠ [] ↔ ∃ cycles, cut.InstructionAt i cycles)
  /-- The text is the one that a new decoder gives the instruction. -/
  text_eq : ∀ i row cycles, rows[i]? = some row → cut.InstructionAt i cycles → row.text = s.textOf cycles

theorem Lawful.reads_rows (law : s.Lawful longest opening) (cut : s.Cut) :
    s.Reads cut.samples cut.rows cut where
  cut_eq := rfl
  sample_eq := cut.map_sample_rows
  text_ne_iff i row hrow := by
    constructor
    · exact cut.exists_instructionAt hrow
    · rintro ⟨cycles, hat⟩
      have hopens := Cut.rows_of_instructionAt hat
      obtain ⟨-, completes, -⟩ := hat
      rw [hrow, Option.some.injEq] at hopens
      rw [hopens]
      exact law.textOf_ne_nil completes
  text_eq i row cycles hrow hat := by
    have hopens := Cut.rows_of_instructionAt hat
    rw [hrow, Option.some.injEq] at hopens
    rw [hopens]

/-! ## One more cycle -/

/-- With one more cycle the rows stay as they are, but for the row that opened the instruction that the
trace broke off: if the cycle completes it, that row goes from no text to the text. -/
def Cut.Grows (cut : s.Cut) (next : BusSample) (rows rows' : List TraceRow) : Prop :=
  ∀ i row, rows[i]? = some row →
    rows'[i]? = some row ∨
      ∃ cycles ∈ cut.pending, ∃ hbyte : IsByte next.data,
        i = (cut.stretches.flatMap Stretch.samples).length ∧ row.text = [] ∧
        s.Completes (cycles.val.extend next hbyte) ∧
        rows'[i]? = some { row with text := s.textOf (cycles.val.extend next hbyte) }

/-- An entry of a list is the one at the place of `x`, or it is still there when `x` is replaced and more
entries follow. -/
theorem getElem?_replaced {α : Type} {front back : List α} {x entry : α} {i : Nat}
    (h : (front ++ x :: back)[i]? = some entry) :
    (i = front.length ∧ entry = x) ∨ ∀ y more, (front ++ y :: (back ++ more))[i]? = some entry := by
  rw [List.getElem?_append] at h
  split at h
  · rename_i hlt
    right
    intro y more
    rw [List.getElem?_append_left hlt]
    exact h
  · rename_i hge
    cases hi : i - front.length with
    | zero =>
        rw [hi, List.getElem?_cons_zero, Option.some.injEq] at h
        exact .inl ⟨by omega, h.symm⟩
    | succ j =>
        right
        intro y more
        rw [hi, List.getElem?_cons_succ] at h
        obtain ⟨hlt, -⟩ := List.getElem?_eq_some_iff.mp h
        rw [List.getElem?_append_right (by omega), hi, List.getElem?_cons_succ,
          List.getElem?_append_left hlt]
        exact h

namespace Lawful

/-- If no instruction is broken off, a further cycle leaves all rows as they are. -/
theorem rows_closed (law : s.Lawful longest opening) {cut : s.Cut} (hpending : cut.pending = none)
    {next : BusSample} {out : Text × List TraceRow}
    (h : s.replayFrom {} (cut.samples ++ [next]) = .ok out) : cut.rows <+: out.2 := by
  have hnone : cut.pendingSamples = [] := by rw [Cut.pendingSamples, hpending, Option.elim_none]
  rw [Cut.samples, hnone, List.append_nil, law.replayFrom_stretches] at h
  obtain ⟨last, -, rfl⟩ := exists_of_map_eq_ok h
  rw [Cut.rows, hnone, List.map_nil, List.append_nil]
  exact List.prefix_append _ _

/-- If an instruction is broken off, a further cycle continues it. -/
theorem rows_pending (law : s.Lawful longest opening) {cut : s.Cut} (hopen : s.LeavesOpen c)
    (hpending : cut.pending = some ⟨c, hopen⟩) {next : BusSample} {out : Text × List TraceRow}
    (h : s.replayFrom {} (cut.samples ++ [next]) = .ok out) :
    ∃ hbyte : IsByte next.data, out.2 = cut.stretches.flatMap Stretch.rows ++
      { sample := c.first, text := s.textOf (c.extend next hbyte) } ::
        (c.others.map .plain ++ [.plain next]) := by
  have hsome : cut.pendingSamples = c.samples := by rw [Cut.pendingSamples, hpending, Option.elim_some]
  rw [Cut.samples, hsome, List.append_assoc, law.replayFrom_stretches] at h
  obtain ⟨last, hlast, rfl⟩ := exists_of_map_eq_ok h
  have hbyte := law.isByte_of_leavesOpen hopen hlast
  refine ⟨hbyte, ?_⟩
  rw [← c.samples_extend next hbyte,
    law.replayFrom_samples (law.extend_completes_or_leavesOpen hopen next hbyte), Except.ok.injEq] at hlast
  rw [← hlast, InstructionCycles.extend, List.map_append, List.map_singleton]

/-- An accepted trace with one more cycle has the rows of the trace, grown by that cycle. -/
theorem grows (law : s.Lawful longest opening) {cut : s.Cut} {next : BusSample}
    {out : Text × List TraceRow} (h : s.replayFrom {} (cut.samples ++ [next]) = .ok out) :
    cut.Grows next cut.rows out.2 := by
  intro i row hrow
  cases hpending : cut.pending with
  | none =>
      obtain ⟨more, hmore⟩ := law.rows_closed hpending h
      obtain ⟨hlt, -⟩ := List.getElem?_eq_some_iff.mp hrow
      rw [← hmore, List.getElem?_append_left hlt]
      exact .inl hrow
  | some cycles =>
      obtain ⟨c, hopen⟩ := cycles
      obtain ⟨hbyte, hout⟩ := law.rows_pending hopen hpending h
      have hrows : cut.rows = cut.stretches.flatMap Stretch.rows ++
          .plain c.first :: c.others.map .plain := by
        rw [Cut.rows, Cut.pendingSamples, hpending, Option.elim_some]
        rfl
      rw [hrows] at hrow
      rcases getElem?_replaced hrow with ⟨hi, rfl⟩ | hsame
      · have hopens : out.2[i]? =
            some { sample := c.first, text := s.textOf (c.extend next hbyte) } := by
          rw [hout, hi, List.getElem?_append_right (Nat.le_refl _), Nat.sub_self, List.getElem?_cons_zero]
        rcases law.extend_completes_or_leavesOpen hopen next hbyte with hcompletes | hstill
        · rw [Stretch.length_flatMap_rows] at hi
          exact .inr ⟨_, rfl, hbyte, hi, rfl, hcompletes, hopens⟩
        · rw [hstill.textOf_eq] at hopens
          exact .inl hopens
      · rw [hout]
        exact .inl (hsame _ _)

end Lawful

end InstructionSet

/-- An accepted trace is cut, cycle after cycle, into instructions that begin at the first marked cycle
outside of the ones before and end where a new decoder completes them; the rows show this cut.  One more
accepted cycle changes no row, but for the text of the instruction that the trace broke off. -/
theorem replay_greedy (a : Architecture) {samples : List BusSample} {rows : List TraceRow}
    (h : replay a samples = .ok rows) :
    ∃ cut : a.instructionSet.Cut, a.instructionSet.Reads samples rows cut ∧
      ∀ next rows', replay a (samples ++ [next]) = .ok rows' → cut.Grows next rows rows' := by
  obtain ⟨owed, hreplay⟩ := replay_eq_ok_iff.mp h
  obtain ⟨cut, rfl⟩ := a.lawful.exists_cut samples hreplay
  rw [a.lawful.replayFrom_cut cut, Except.ok.injEq, Prod.mk.injEq] at hreplay
  obtain ⟨-, rfl⟩ := hreplay
  refine ⟨cut, a.lawful.reads_rows cut, ?_⟩
  intro next rows' hnext
  obtain ⟨owed', hreplay'⟩ := replay_eq_ok_iff.mp hnext
  exact a.lawful.grows hreplay'

/-- A cycle aside, an instruction with a mark inside it, and one that is broken off. -/
theorem replay_greedy_marked_inside :
    let samples : List BusSample :=
      [⟨0x0200, 0x55, false⟩, ⟨0x0000, 0xDD, true⟩, ⟨0x0001, 0x21, true⟩, ⟨0x0002, 0x67, false⟩,
        ⟨0x0003, 0x45, false⟩, ⟨0x0004, 0xCB, true⟩]
    let rows : List TraceRow :=
      [⟨⟨0x0200, 0x55, false⟩, []⟩, ⟨⟨0x0000, 0xDD, true⟩, .ofString "LD IX,4567h"⟩,
        ⟨⟨0x0001, 0x21, true⟩, []⟩, ⟨⟨0x0002, 0x67, false⟩, []⟩, ⟨⟨0x0003, 0x45, false⟩, []⟩,
        ⟨⟨0x0004, 0xCB, true⟩, []⟩]
    replay .z80 samples = .ok rows ∧
      ∃ cut : (Architecture.instructionSet .z80).Cut,
        (Architecture.instructionSet .z80).Reads samples rows cut ∧
        ∀ next rows', replay .z80 (samples ++ [next]) = .ok rows' → cut.Grows next rows rows' := by
  intro samples rows
  have h : replay .z80 samples = .ok rows := by
    apply eq_ok_of_toOption
    decide +kernel
  exact ⟨h, replay_greedy .z80 h⟩

end EightBit
