import EightBit.Fixture
import EightBit.Proofs.Cycles
set_option autoImplicit false

/-!
# Fixtures that load run

Loading looks at every number of a fixture, replaying a trace only at those of the cycles that it gives to
the decoder.  So the values that a loaded fixture holds are more than a replay asks for: each reader of
the loader yields values in range (`readAddress_eq_ok_iff`, `readByte_eq_ok_iff`), a trace of such values
is replayed to its end (`exists_replayFrom`), and a byte image is listed in any case.  `ofDocument_runs`
puts this together for all documents.
-/

namespace EightBit

theorem exists_of_bind_eq_ok {ε α β : Type} {x : Except ε α} {f : α → Except ε β} {b : β}
    (h : (x >>= f) = .ok b) : ∃ a, x = .ok a ∧ f a = .ok b := by
  cases x with
  | error e => cases h
  | ok a => exact ⟨a, rfl, h⟩

/-- A value that is checked is the value itself, if it passes. -/
theorem bind_guard_eq_ok_iff {ε α : Type} {P : α → Prop} [DecidablePred P] {x : Except ε α} {e : ε} {a : α} :
    (x >>= fun b => if P b then .ok b else .error e) = .ok a ↔ x = .ok a ∧ P a := by
  constructor
  · intro h
    obtain ⟨b, rfl, hb⟩ := exists_of_bind_eq_ok h
    split at hb
    · rename_i hP
      cases hb
      exact ⟨rfl, hP⟩
    · cases hb
  · rintro ⟨rfl, hP⟩
    exact if_pos hP

/-- What a function yields on the members of a list is what it may yield at all. -/
theorem forall_of_mapM {ε α β : Type} {P : β → Prop} {f : α → Except ε β} {l : List α} {bs : List β}
    (h : l.mapM f = .ok bs) (hf : ∀ a b, f a = .ok b → P b) : ∀ b ∈ bs, P b := by
  intro b hmem
  have hok : Except.ok b ∈ bs.map (Except.ok (ε := ε)) := List.mem_map_of_mem hmem
  rw [← map_eq_of_mapM h] at hok
  obtain ⟨a, -, ha⟩ := List.mem_map.mp hok
  exact hf a b ha

/-! ## Traces with values in range -/

/-- The cycle has an address of sixteen bits and brings a byte. -/
structure BusSample.InBounds (sample : BusSample) : Prop where
  address_range : InRange sample.address
  data_range : IsByte sample.data

namespace InstructionSet

variable {μ : Type} {s : InstructionSet μ} {longest opening : Nat} {r : Record μ}
  {samples : List BusSample} {response : Response μ Bool}

/-- Behind a call that is taken, the replay reaches the end if it does so from the record of the call. -/
theorem exists_replayAfter {taken : Bool} (hresult : response.result = .ok taken)
    (h : ∃ out, s.replayFrom response.record samples = .ok out) :
    ∃ out, s.replayAfter response samples = .ok out := by
  obtain ⟨out, hout⟩ := h
  simp only [replayAfter, hresult, hout]
  exact ⟨_, rfl⟩

/-- From a record that calls lead to, cycles with values in range are replayed to the end. -/
theorem Lawful.exists_replayFrom (law : s.Lawful longest opening) (hr : s.Sound r)
    (hsamples : ∀ sample ∈ samples, sample.InBounds) : ∃ out, s.replayFrom r samples = .ok out := by
  -- `Sound` carries the induction: a sound record in progress has room for a continuation.
  induction samples generalizing r with
  | nil => exact ⟨_, rfl⟩
  | cons sample rest ih =>
      obtain ⟨⟨haddress, hbyte⟩, hrest⟩ := List.forall_mem_cons.mp hsamples
      by_cases hphase : r.phase = .fetching
      · have haccepted := law.next_accepted (hr.underway hphase) hbyte
        obtain ⟨out, hout⟩ := exists_replayAfter haccepted.result_eq
          (ih (.of_accepted hr.address_range haccepted) hrest)
        rw [replayFrom_continuation hphase, hout]
        exact ⟨_, rfl⟩
      · cases hfetch : sample.fetch with
        | false =>
            obtain ⟨out, hout⟩ := ih hr hrest
            rw [replayFrom_aside hphase hfetch, hout]
            exact ⟨_, rfl⟩
        | true =>
            have haccepted := law.start_accepted hphase haddress hbyte
            obtain ⟨out, hout⟩ := exists_replayAfter haccepted.result_eq
              (ih (.of_accepted haddress haccepted) hrest)
            rw [replayFrom_opening hphase hfetch, hout]
            exact ⟨_, rfl⟩

end InstructionSet

theorem exists_replay (a : Architecture) {samples : List BusSample}
    (hsamples : ∀ sample ∈ samples, sample.InBounds) : ∃ rows, replay a samples = .ok rows := by
  obtain ⟨⟨owed, rows⟩, hrows⟩ := a.lawful.exists_replayFrom (.initial a.instructionSet) hsamples
  exact ⟨rows, replay_eq_ok_iff.mpr ⟨owed, hrows⟩⟩

/-! ## What the readers yield -/

namespace Fixture

variable {limit : Option Nat} {d : Document} {n : Int}

theorem readAddress_eq_bind (limit : Option Nat) (d : Document) :
    readAddress limit d = readInt limit d >>= fun n =>
      if 0 ≤ n ∧ n ≤ 0xFFFF then .ok n else .error (refused limit .addressRange d) := by
  unfold readAddress
  cases readInt limit d <;> rfl

theorem readByte_eq_bind (limit : Option Nat) (d : Document) :
    readByte limit d = readInt limit d >>= fun n =>
      if 0 ≤ n ∧ n ≤ 0xFF then .ok n else .error (refused limit .byteRange d) := by
  unfold readByte
  cases readInt limit d <;> rfl

/-- An address is an integer that sixteen bits can hold. -/
theorem readAddress_eq_ok_iff : readAddress limit d = .ok n ↔ readInt limit d = .ok n ∧ InRange n := by
  rw [readAddress_eq_bind, bind_guard_eq_ok_iff]
  rfl

/-- A byte is an integer that eight bits can hold. -/
theorem readByte_eq_ok_iff : readByte limit d = .ok n ↔ readInt limit d = .ok n ∧ IsByte n := by
  rw [readByte_eq_bind, bind_guard_eq_ok_iff]
  rfl

theorem inBounds_of_readSample {sample : BusSample} (h : readSample limit d = .ok sample) :
    sample.InBounds := by
  unfold readSample at h
  split at h
  · obtain ⟨address, haddress, h⟩ := exists_of_bind_eq_ok h
    obtain ⟨data, hdata, h⟩ := exists_of_bind_eq_ok h
    cases h
    exact ⟨(readAddress_eq_ok_iff.mp haddress).2, (readByte_eq_ok_iff.mp hdata).2⟩
  · cases h

theorem inBounds_of_readSamples {samples : List BusSample} (h : readSamples limit d = .ok samples) :
    ∀ sample ∈ samples, sample.InBounds := by
  unfold readSamples at h
  split at h
  · obtain ⟨members, -, h⟩ := exists_of_bind_eq_ok h
    exact forall_of_mapM h fun _ _ => inBounds_of_readSample
  · cases h
    intro sample hmem
    cases hmem

/-- A document that loads names an architecture, and its parts are those of the fixture. -/
theorem exists_of_ofDocument {c : Fixture} (h : ofDocument limit d = .ok c) :
    ∃ entries name, d = .mapping entries ∧ Document.get? entries "architecture" = some name ∧
      readArchitecture limit name = .ok c.architecture ∧
      readSamples limit ((Document.get? entries "samples").getD .null) = .ok c.samples ∧
      readProgram limit ((Document.get? entries "program").getD .null) = .ok c.program := by
  unfold ofDocument at h
  split at h
  · rename_i entries
    split at h
    · cases h
    · rename_i name hname
      obtain ⟨architecture, harchitecture, h⟩ := exists_of_bind_eq_ok h
      obtain ⟨samples, hsamples, h⟩ := exists_of_bind_eq_ok h
      obtain ⟨program, hprogram, h⟩ := exists_of_bind_eq_ok h
      cases h
      exact ⟨entries, name, rfl, hname, harchitecture, hsamples, hprogram⟩
  · cases h

/-- A document that loads gives samples in range, a trace that is replayed to its end, and a program, if
it has one, that is listed to its end. -/
theorem ofDocument_runs {c : Fixture} (h : ofDocument limit d = .ok c) :
    (∀ sample ∈ c.samples, InRange sample.address ∧ IsByte sample.data) ∧
    (∃ rows, replay c.architecture c.samples = .ok rows) ∧
    ∀ image, c.program = some image →
      ∃ rows, disassemble c.architecture image.origin (imageOf image.bytes) = .ok rows := by
  obtain ⟨entries, name, -, -, -, hsamples, -⟩ := exists_of_ofDocument h
  have hbounds := inBounds_of_readSamples hsamples
  refine ⟨?_, exists_replay c.architecture hbounds, ?_⟩
  · intro sample hmem
    exact ⟨(hbounds sample hmem).address_range, (hbounds sample hmem).data_range⟩
  · intro image _
    exact exists_disassemble c.architecture image.origin image.bytes

/-- Numbers given and spelled, an instruction over the end of memory, and one that the image breaks off. -/
def overTheEnd : Document :=
  .mapping
    [(.text (.ofString "program"), .mapping
        [(.text (.ofString "bytes"), .text (.ofString " 0xdd CB\t05 ")),
         (.text (.ofString "origin"), .text (.ofString " 65_535 "))]),
     (.text (.ofString "architecture"), .text (.ofString "ZilogZ80")),
     (.text (.ofString "samples"), .list
        [.mapping [(.text (.ofString "address"), .text (.ofString "0xFFFF")),
            (.text (.ofString "data"), .int 0xFD), (.text (.ofString "fetch"), .text (.ofString "no"))],
         .mapping [(.text (.ofString "data"), .text (.ofString "0X21")), (.text (.ofString "address"), .int 0)],
         .mapping [(.text (.ofString "data"), .text (.ofString "+7")), (.text (.ofString "address"), .int 1)]])]

/-- The text `no` marks an opcode fetch too, since it is not empty. -/
theorem ofDocument_runs_over_the_end :
    let c : Fixture :=
      { architecture := .z80
        samples := [⟨0xFFFF, 0xFD, true⟩, ⟨0, 0x21, false⟩, ⟨1, 7, false⟩]
        program := some ⟨0xFFFF, [0xDD, 0xCB, 0x05]⟩ }
    ofDocument Numeral.digitLimit overTheEnd = .ok c ∧
    (∀ sample ∈ c.samples, InRange sample.address ∧ IsByte sample.data) ∧
    (∃ rows, replay c.architecture c.samples = .ok rows) ∧
    ∀ image, c.program = some image →
      ∃ rows, disassemble c.architecture image.origin (imageOf image.bytes) = .ok rows := by
  intro c
  have h : ofDocument Numeral.digitLimit overTheEnd = .ok c := by
    apply eq_ok_of_toOption
    decide +kernel
  exact ⟨h, ofDocument_runs h⟩

end Fixture

end EightBit
