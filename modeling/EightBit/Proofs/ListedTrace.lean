import EightBit.Proofs.Composition
import EightBit.Proofs.Trace
set_option autoImplicit false

/-!
# Traces of a listed image

An image can be listed, or it can be fetched byte by byte and the bus cycles replayed.  If the cycles are
marked where the listing begins an instruction and where its data begin, the replay shows the texts of
the listing beside the bytes, whatever marks the other cycles have (`replay_fetchCycles`).

The rows of the listing give a cut of the trace: each instruction is a closed stretch, and the data are
the instruction that the trace breaks off.
-/

namespace EightBit

/-- The cycles that fetch an image byte by byte, marked as `fetch` says. -/
def fetchCycles (start : Int) (image : List UInt8) (fetch : Nat → Bool) : List BusSample :=
  image.mapIdx fun i byte => { address := wrap16 (start + i), data := byte.toNat, fetch := fetch i }

/-- The offsets at which instructions are listed, and the offset of the first byte of data. -/
def openings (offset : Nat) : List ListingRow → List Nat
  | [] => []
  | row :: rest =>
      if row.IsData then [offset] else offset :: openings (offset + row.bytes.length) rest

/-- The texts beside the bytes of a listing: an instruction's text is beside its first byte. -/
def textColumn (rows : List ListingRow) : List Text :=
  rows.flatMap fun row =>
    (if row.IsData then [] else row.text) :: List.replicate (row.bytes.length - 1) []

/-! ## The cycles of an image -/

theorem fetchCycles_cons (start : Int) (byte : UInt8) (image : List UInt8) (fetch : Nat → Bool) :
    fetchCycles start (byte :: image) fetch =
      { address := wrap16 start, data := byte.toNat, fetch := fetch 0 } ::
        fetchCycles (start + 1) image fun i => fetch (i + 1) := by
  have hplace : ∀ i : Nat, start + ((i + 1 : Nat) : Int) = start + 1 + i := by
    intro i
    omega
  simp only [fetchCycles, List.mapIdx_cons, hplace, Int.natCast_zero, Int.add_zero]

theorem fetchCycles_append (start : Int) (front back : List UInt8) (fetch : Nat → Bool) :
    fetchCycles start (front ++ back) fetch =
      fetchCycles start front fetch ++
        fetchCycles (start + front.length) back fun i => fetch (i + front.length) := by
  have hplace : ∀ i : Nat, start + ((i + front.length : Nat) : Int) = start + front.length + i := by
    intro i
    omega
  simp only [fetchCycles, List.mapIdx_append, hplace]

theorem map_data_fetchCycles (start : Int) (image : List UInt8) (fetch : Nat → Bool) :
    (fetchCycles start image fetch).map BusSample.data = imageOf image := by
  induction image generalizing start fetch with
  | nil => rfl
  | cons byte image ih => rw [fetchCycles_cons, List.map_cons, ih, imageOf_cons]

theorem length_fetchCycles (start : Int) (image : List UInt8) (fetch : Nat → Bool) :
    (fetchCycles start image fetch).length = image.length := by
  rw [fetchCycles, List.length_mapIdx]

/-- The cycles of an image whose first one is marked. -/
def InstructionCycles.ofImage (start : Int) (byte : UInt8) (image : List UInt8) (fetch : Nat → Bool)
    (marked : fetch 0 = true) : InstructionCycles where
  first := { address := wrap16 start, data := byte.toNat, fetch := fetch 0 }
  others := fetchCycles (start + 1) image fun i => fetch (i + 1)
  bytes := byte :: image
  marked := marked
  address_range := inRange_wrap16 start
  data_eq := by rw [List.map_cons, map_data_fetchCycles, imageOf_cons]

theorem InstructionCycles.samples_ofImage (start : Int) (byte : UInt8) (image : List UInt8)
    (fetch : Nat → Bool) (marked : fetch 0 = true) :
    (ofImage start byte image fetch marked).samples = fetchCycles start (byte :: image) fetch := by
  rw [fetchCycles_cons]
  rfl

/-! ## Offsets and texts of a listing -/

theorem openings_add (offset k : Nat) (rows : List ListingRow) :
    openings (offset + k) rows = (openings offset rows).map fun i => i + k := by
  induction rows generalizing offset with
  | nil => rfl
  | cons row rows ih =>
      rw [openings, openings]
      split
      · rfl
      · rw [List.map_cons, Nat.add_right_comm, ih]

theorem openings_dataRows (offset : Nat) (address : Int) (byte : UInt8) (bytes : List UInt8) :
    openings offset (dataRows address (byte :: bytes)) = [offset] := by
  have hdata := isData_dataRows address (byte :: bytes)
  rw [dataRows] at hdata ⊢
  rw [openings, if_pos (hdata _ List.mem_cons_self)]

/-- Marks at the openings of a listing that begins with an instruction are a mark at its first byte, and
marks at the openings of the listing behind it. -/
theorem marks_cons {row : ListingRow} {rows : List ListingRow} {fetch : Nat → Bool} (hrow : ¬ row.IsData)
    (h : ∀ i ∈ openings 0 (row :: rows), fetch i = true) :
    fetch 0 = true ∧ ∀ i ∈ openings 0 rows, fetch (i + row.bytes.length) = true := by
  rw [openings, if_neg hrow, openings_add] at h
  constructor
  · exact h 0 List.mem_cons_self
  · intro i hi
    apply h
    apply List.mem_cons_of_mem
    exact List.mem_map_of_mem hi

theorem textColumn_dataRows (address : Int) (bytes : List UInt8) :
    textColumn (dataRows address bytes) = List.replicate bytes.length [] := by
  induction bytes generalizing address with
  | nil => rfl
  | cons byte bytes ih =>
      have hdata := isData_dataRows address (byte :: bytes)
      rw [dataRows] at hdata ⊢
      rw [textColumn, List.flatMap_cons, if_pos (hdata _ List.mem_cons_self)]
      exact congrArg (List.cons []) (ih (address + 1))

theorem textColumn_cons {row : ListingRow} (h : ¬ row.IsData) (rows : List ListingRow) :
    textColumn (row :: rows) =
      row.text :: (List.replicate (row.bytes.length - 1) [] ++ textColumn rows) := by
  rw [textColumn, List.flatMap_cons, if_neg h, List.cons_append]
  rfl

theorem map_text_plain (samples : List BusSample) :
    (samples.map TraceRow.plain).map TraceRow.text = List.replicate samples.length [] := by
  induction samples with
  | nil => rfl
  | cons sample samples ih =>
      rw [List.map_cons, List.map_cons, ih, TraceRow.plain, List.length_cons, List.replicate_succ]

/-! ## The cut of a listed image -/

namespace Architecture

open InstructionSet

variable {a : Architecture} {start : Int} {image : List UInt8} {rows : List ListingRow}
  {fetch : Nat → Bool} {n : Nat}

/-- Bytes that complete no instruction are an instruction that the trace breaks off. -/
theorem exists_cut_of_fetching
    (h : a.instructionSet.FetchingBelow {} (wrap16 start) image (image.length + 1))
    (hmarks : ∀ i ∈ openings 0 (dataRows start image), fetch i = true) :
    ∃ cut : a.instructionSet.Cut, cut.samples = fetchCycles start image fetch ∧
      cut.rows.map TraceRow.text = textColumn (dataRows start image) := by
  cases image with
  | nil => exact ⟨⟨[], none⟩, rfl, rfl⟩
  | cons byte image =>
      rw [openings_dataRows] at hmarks
      have hmarked : fetch 0 = true := hmarks 0 (List.mem_singleton_self 0)
      have hsamples := InstructionCycles.samples_ofImage start byte image fetch hmarked
      refine ⟨⟨[], some ⟨.ofImage start byte image fetch hmarked, h⟩⟩, hsamples, ?_⟩
      rw [textColumn_dataRows, ← length_fetchCycles start _ fetch, ← map_text_plain, ← hsamples]
      rfl

/-- Bytes that complete an instruction are a stretch in front of the cut of what follows. -/
theorem exists_cut_of_completes (h : a.instructionSet.CompletesAfter {} (wrap16 start) image n)
    (hmarked : fetch 0 = true) {cut : a.instructionSet.Cut}
    (hsamples : cut.samples = fetchCycles (start + n) (image.drop n) fun i => fetch (i + n))
    (htexts : cut.rows.map TraceRow.text = textColumn rows) :
    ∃ cut : a.instructionSet.Cut, cut.samples = fetchCycles start image fetch ∧
      cut.rows.map TraceRow.text =
        textColumn (a.instructionSet.freshRow start (image.take n) :: rows) := by
  have hlength : (image.take n).length = n := List.length_take_of_le h.le_length
  have hsplit := fetchCycles_append start (image.take n) (image.drop n) fetch
  have hclosed := a.lawful.completesAfter_take (inRange_wrap16 start) h
  rw [List.take_append_drop, hlength] at hsplit
  rw [textColumn_cons (a.not_isData_freshRow h), hsplit]
  have hne : image.take n ≠ [] := by
    apply List.ne_nil_of_length_pos
    rw [hlength]
    exact h.pos
  obtain ⟨byte, others, htake⟩ := List.exists_cons_of_ne_nil hne
  rw [htake] at hclosed ⊢
  have hcycles := InstructionCycles.samples_ofImage start byte others fetch hmarked
  have hinstruction : a.instructionSet.Completes (.ofImage start byte others fetch hmarked) := hclosed
  refine ⟨cut.cons (.instruction _ hinstruction), ?_, ?_⟩
  · rw [Cut.samples_cons, hsamples, Stretch.samples, hcycles]
  · rw [Cut.rows_cons, List.map_append, htexts, Stretch.rows, List.map_cons, map_text_plain,
      InstructionCycles.ofImage, length_fetchCycles, List.cons_append]
    rfl

/-- A listed image, fetched with marks at the openings of its listing, is cut as it is listed. -/
theorem exists_cut_of_lists (h : a.instructionSet.Lists start image rows)
    (hmarks : ∀ i ∈ openings 0 rows, fetch i = true) :
    ∃ cut : a.instructionSet.Cut, cut.samples = fetchCycles start image fetch ∧
      cut.rows.map TraceRow.text = textColumn rows := by
  induction h generalizing fetch with
  | tail hbelow => exact exists_cut_of_fetching hbelow hmarks
  | @instruction start image n rows hcompletes _ ih =>
      obtain ⟨hmarked, hrest⟩ := marks_cons (a.not_isData_freshRow hcompletes) hmarks
      have hlength : (a.instructionSet.freshRow start (image.take n)).bytes.length = n :=
        List.length_take_of_le hcompletes.le_length
      rw [hlength] at hrest
      obtain ⟨cut, hsamples, htexts⟩ := ih hrest
      exact exists_cut_of_completes hcompletes hmarked hsamples htexts

end Architecture

/-- An image that is fetched with marks where its listing begins an instruction or the data, and with any
marks elsewhere, replays to the texts of the listing, each beside the first byte of its instruction. -/
theorem replay_fetchCycles (a : Architecture) (start : Int) (image : List UInt8) :
    ∃ rows, disassemble a start (imageOf image) = .ok rows ∧
      ∀ fetch : Nat → Bool, (∀ i ∈ openings 0 rows, fetch i = true) →
        ∃ trace, replay a (fetchCycles start image fetch) = .ok trace ∧
          trace.map TraceRow.sample = fetchCycles start image fetch ∧
          trace.map TraceRow.text = textColumn rows := by
  obtain ⟨rows, hrows⟩ := a.lawful.exists_lists start image
  refine ⟨rows, a.lawful.listFrom_eq hrows InstructionSet.phase_initial, ?_⟩
  intro fetch hmarks
  obtain ⟨cut, hsamples, htexts⟩ := Architecture.exists_cut_of_lists hrows hmarks
  have hreplay := a.lawful.replayFrom_cut cut
  rw [hsamples] at hreplay
  refine ⟨cut.rows, replay_eq_ok_iff.mpr ⟨[], hreplay⟩, ?_, htexts⟩
  rw [cut.map_sample_rows, hsamples]

/-- An instruction with a mark inside it that runs over the end of the address space, a short one, and
one that the image breaks off. -/
theorem replay_fetchCycles_over_the_end :
    let image : List UInt8 := [0xDD, 0x21, 0x67, 0x45, 0x00, 0xCB]
    let fetch : Nat → Bool := fun i => i != 2 && i != 3
    let rows : List ListingRow :=
      [⟨0xFFFE, [0xDD, 0x21, 0x67, 0x45], .ofString "LD IX,4567h"⟩, ⟨0x0002, [0x00], .ofString "NOP"⟩,
        ⟨0x0003, [0xCB], .ofString "DB $CB"⟩]
    disassemble .z80 0xFFFE (imageOf image) = .ok rows ∧ (∀ i ∈ openings 0 rows, fetch i = true) ∧
      ∃ trace, replay .z80 (fetchCycles 0xFFFE image fetch) = .ok trace ∧
        trace.map TraceRow.sample = fetchCycles 0xFFFE image fetch ∧
        trace.map TraceRow.text =
          [Text.ofString "LD IX,4567h", [], [], [], Text.ofString "NOP", []] := by
  intro image fetch rows
  have hlisting : disassemble .z80 0xFFFE (imageOf image) = .ok rows := by
    apply eq_ok_of_toOption
    decide +kernel
  have hmarks : ∀ i ∈ openings 0 rows, fetch i = true := by decide
  obtain ⟨listed, hlisted, htrace⟩ := replay_fetchCycles .z80 0xFFFE image
  obtain rfl : listed = rows := Except.ok.inj (hlisted.symm.trans hlisting)
  exact ⟨hlisting, hmarks, htrace fetch hmarks⟩

end EightBit
