import EightBit.Proofs.Lossless
set_option autoImplicit false

/-!
# Whole instructions

Bytes are a whole instruction if the last of them completes it.  That is a matter of the bytes alone: cells
that begin with them have to decide a length that is theirs (`Lawful.completesAfter_iff`), so no step of a
decoder needs to be followed to see it.  A record that has taken a whole instruction `Holds` it.

Instructions that differ in their leading bytes have the same operand bytes at positions that are shifted
(`Buffer.agreeShifted`).
-/

namespace EightBit

theorem pick_eq_getD {α : Type} {entries : List α} {n : Nat} (h : n < entries.length) (other : α) :
    pick entries (n : Int) = .ok (entries.getD n other) := by
  apply pick_eq_ok (Int.natCast_nonneg n)
  rw [Int.toNat_natCast, List.getD_eq_getElem?_getD, List.getElem?_eq_getElem h, Option.getD_some]

/-! ## Cells that begin with given bytes -/

namespace Buffer

variable {b c : Buffer}

/-- Cells that begin with the bytes. -/
def ofBytes (bytes : List UInt8) (h : bytes.length ≤ 8) : Buffer where
  fetched := bytes
  stale := List.replicate (8 - bytes.length) 0
  size_eq := by
    rw [List.length_replicate]
    omega

theorem agreeBelow_of_take_fetched {n : Nat} (hb : n ≤ b.count) (hc : n ≤ c.count)
    (h : b.fetched.take n = c.fetched.take n) : AgreeBelow n b.code c.code := by
  apply agreeBelow_of_take_eq
  rw [toList, toList, List.take_append_of_le_length hb, List.take_append_of_le_length hc, h]

end Buffer

/-! ## Shifted positions -/

/-- The same bytes behind different ones are at shifted positions. -/
theorem Buffer.agreeShifted {b c : Buffer} {x y rest : List UInt8} {m : Nat} (hb : b.fetched = x ++ rest)
    (hc : c.fetched = y ++ rest) (hm : y.length = x.length + m) :
    AgreeShifted m x.length b.count b.code c.code := by
  intro j hi hn
  obtain ⟨k, rfl⟩ : ∃ k : Nat, j = ((x.length + k : Nat) : Int) := ⟨(j - x.length).toNat, by omega⟩
  have hk : k < rest.length := by
    rw [count, hb, List.length_append] at hn
    omega
  have hleft : b.fetched[x.length + k]? = some rest[k] := by
    rw [hb, List.getElem?_append_right (Nat.le_add_right _ _), Nat.add_sub_cancel_left,
      List.getElem?_eq_getElem hk]
  have hright : c.fetched[x.length + k + m]? = some rest[k] := by
    rw [hc, Nat.add_right_comm, ← hm, List.getElem?_append_right (Nat.le_add_right _ _),
      Nat.add_sub_cancel_left, List.getElem?_eq_getElem hk]
  rw [pick_of_fetched hleft, ← Int.natCast_add, pick_of_fetched hright]

namespace InstructionSet

variable {μ : Type}

/-! ## Bytes that measure themselves -/

/-- Cells that begin with the bytes decide the mode and a length that is theirs. -/
def Measures (s : InstructionSet μ) (bytes : List UInt8) (mode : μ) : Prop :=
  ∃ b k, b.fetched = bytes ∧ s.DecidesAt b k mode bytes.length

variable {s : InstructionSet μ} {longest opening : Nat} {r : Record μ} {address : Int} {bytes : List UInt8}
  {n : Nat} {mode : μ}

namespace Lawful

/-- After the last byte of an instruction its bytes have decided a length that is theirs. -/
theorem measures_take (law : s.Lawful longest opening) (hr : r.phase ≠ .fetching) (haddress : InRange address)
    (h : s.CompletesAfter r address bytes n) : ∃ mode, s.Measures (bytes.take n) mode := by
  have haccepted := law.feed_accepted hr haddress h.pos h.le_length h.fetching
  have hfinished := haccepted.finished h.complete
  obtain ⟨k, mode, length, hdecides, -, -, hrequired⟩ := hfinished.settled
  have hlength : length = (bytes.take n).length := by
    rw [← hrequired, ← hfinished.count_eq, haccepted.count_eq]
  exact ⟨mode, _, k, haccepted.fetched_eq, hlength ▸ hdecides⟩

/-- Of two beginnings of the same bytes only one can have decided a length that is its own. -/
theorem measures_unique (law : s.Lawful longest opening) {first second : List UInt8} {mode' : μ}
    (h : s.Measures first mode) (h' : s.Measures second mode') (hle : first.length ≤ second.length)
    (htake : second.take first.length = first) : first.length = second.length ∧ mode = mode' := by
  obtain ⟨b, k, hb, hdecides⟩ := h
  obtain ⟨c, k', hc, hdecides'⟩ := h'
  have hk : k ≤ first.length := Int.ofNat_le.mp (law.bounds hdecides).2.1
  have hcells : b.fetched.take k = c.fetched.take k := by
    rw [hb, hc, ← htake, List.take_take, Nat.min_eq_left hk]
  have hagree : AgreeBelow k b.code c.code := by
    apply Buffer.agreeBelow_of_take_fetched _ _ hcells
    · rwa [Buffer.count, hb]
    · rw [Buffer.count, hc]
      exact Nat.le_trans hk hle
  obtain ⟨-, hmode, hlength⟩ := (law.decidesAt_congr hagree hdecides).unique hdecides'
  exact ⟨Int.ofNat_inj.mp hlength, hmode⟩

/-- Bytes complete an instruction with the last of them if and only if they decide a length that is theirs. -/
theorem completesAfter_iff (law : s.Lawful longest opening) (hr : r.phase ≠ .fetching)
    (haddress : InRange address) :
    s.CompletesAfter r address bytes bytes.length ↔ ∃ mode, s.Measures bytes mode := by
  constructor
  · intro h
    have hmeasures := law.measures_take hr haddress h
    rwa [List.take_length] at hmeasures
  · rintro ⟨mode, hmeasures⟩
    -- Enough bytes behind these complete some instruction, which cannot be a longer or a shorter one.
    have henough : longest ≤ (bytes ++ List.replicate longest 0).length := by
      rw [List.length_append, List.length_replicate]
      exact Nat.le_add_left _ _
    obtain ⟨n, -, hcompletes⟩ := law.exists_completesAfter hr haddress henough
    obtain ⟨mode', hmeasures'⟩ := law.measures_take hr haddress hcompletes
    have htaken := List.length_take_of_le hcompletes.le_length
    have hn : n = bytes.length := by
      rcases Nat.le_total n bytes.length with hle | hge
      · have htake : bytes.take n = (bytes ++ List.replicate longest 0).take n :=
          (List.take_append_of_le_length hle).symm
        have hunique := law.measures_unique hmeasures' hmeasures (by omega) (by rw [htaken, htake])
        omega
      · have htake : ((bytes ++ List.replicate longest 0).take n).take bytes.length = bytes := by
          rw [List.take_take, Nat.min_eq_left hge, List.take_left]
        have hunique := law.measures_unique hmeasures hmeasures' (by omega) htake
        omega
    subst hn
    exact law.completesAfter_congr hr hr haddress hcompletes (by rw [List.take_left, List.take_length])

end Lawful

/-! ## Records of whole instructions -/

/-- The record holds a whole instruction: where it is, its bytes, its mode, and how it is shown. -/
structure Holds (s : InstructionSet μ) (r : Record μ) (address : Int) (bytes : List UInt8) (mode : μ)
    (shown : Rendering) : Prop extends s.Shown r shown where
  address_eq : r.address = address
  fetched_eq : r.buffer.fetched = bytes
  mode_eq : r.mode = some mode
  required_eq : r.required = bytes.length
  displayed : r.completeText = shown.display

namespace Holds

variable {shown : Rendering}

/-- The cells of the record have decided its mode, and its bytes are as many as they should be. -/
theorem exists_decidesAt (h : s.Holds r address bytes mode shown) :
    ∃ k, s.DecidesAt r.buffer k mode bytes.length ∧ k ≤ bytes.length := by
  obtain ⟨k, mode', length, hdecides, hk, hmode, hrequired⟩ := h.settled
  rw [h.mode_eq] at hmode
  cases hmode
  rw [Record.count, Buffer.count, h.fetched_eq] at hk
  rw [h.required_eq] at hrequired
  exact ⟨k, hrequired ▸ hdecides, hk⟩

theorem measures (h : s.Holds r address bytes mode shown) : s.Measures bytes mode := by
  obtain ⟨k, hdecides, -⟩ := h.exists_decidesAt
  exact ⟨r.buffer, k, h.fetched_eq, hdecides⟩

theorem byte_eq (h : s.Holds r address bytes mode shown) {i : Nat} {byte : UInt8} (hbyte : bytes[i]? = some byte) :
    pick r.buffer.code i = .ok (byte.toNat : Int) := by
  apply Buffer.pick_of_fetched
  rwa [h.fetched_eq]

theorem byte_unique (h : s.Holds r address bytes mode shown) {i : Nat} {byte other : UInt8}
    (hbyte : bytes[i]? = some byte) (hother : pick r.buffer.code i = .ok (other.toNat : Int)) : byte = other :=
  toNat_injective (Except.ok.inj ((h.byte_eq hbyte).symm.trans hother))

end Holds

end InstructionSet

namespace Architecture

open InstructionSet

/-- A record that has taken a whole instruction holds it. -/
theorem feed_holds (a : Architecture) {r : Record a.Mode} {address : Int} {bytes : List UInt8}
    (hr : r.phase ≠ .fetching) (haddress : InRange address)
    (h : a.instructionSet.CompletesAfter r address bytes bytes.length) :
    ∃ mode shown, a.instructionSet.Holds (a.instructionSet.feed r address bytes).record address bytes mode
      shown := by
  obtain ⟨shown, hshown, hfetched, hdisplayed⟩ := a.feed_shown hr haddress h
  have haccepted := a.lawful.feed_accepted hr haddress h.pos h.le_length h.fetching
  rw [List.take_length] at haccepted
  obtain ⟨k, mode, length, hdecides, hk, hmode, hrequired⟩ := hshown.settled
  refine ⟨mode, shown, hshown, haccepted.address_eq, hfetched, hmode, ?_, hdisplayed⟩
  rw [← hshown.count_eq, haccepted.count_eq]

/-- Bytes that measure themselves are completed in the mode that they decide. -/
theorem holds_of_measures (a : Architecture) {r : Record a.Mode} {address : Int} {bytes : List UInt8}
    {mode : a.Mode} (hr : r.phase ≠ .fetching) (haddress : InRange address)
    (h : a.instructionSet.Measures bytes mode) :
    a.instructionSet.CompletesAfter r address bytes bytes.length ∧
      ∃ shown, a.instructionSet.Holds (a.instructionSet.feed r address bytes).record address bytes mode shown := by
  have hcompletes := (a.lawful.completesAfter_iff hr haddress).mpr ⟨mode, h⟩
  obtain ⟨mode', shown, hholds⟩ := a.feed_holds hr haddress hcompletes
  obtain ⟨-, rfl⟩ := a.lawful.measures_unique h hholds.measures (Nat.le_refl _) List.take_length
  exact ⟨hcompletes, shown, hholds⟩

end Architecture

end EightBit
