import EightBit.Proofs.Agreement
import EightBit.Proofs.Processor
set_option autoImplicit false

/-!
# Feeding an instruction byte by byte

An instruction is fed by opening it with its first byte and giving it one byte after the other.  A prefix
of the bytes either leaves it in progress or has completed it, and under the laws of the instruction set
it is complete after as many bytes as the longest instruction has at the latest (`feed_completes`).  What
the decoder did before and which bytes follow makes no difference (`feed_independent`).
-/

namespace EightBit

theorem isByte_toNat (byte : UInt8) : IsByte (byte.toNat : Int) := by
  have hbyte : byte.toNat < 256 := byte.toNat_lt
  unfold IsByte
  omega

theorem ofInt_toNat (byte : UInt8) : UInt8.ofInt (byte.toNat : Int) = byte := by
  have hbyte : byte.toNat < 256 := byte.toNat_lt
  have hmod : ((byte.toNat : Int) % 2 ^ 8).toNat = byte.toNat := by omega
  rw [UInt8.ofInt, hmod, UInt8.ofNat_toNat]

theorem toNat_ofInt {value : Int} (h : IsByte value) : ((UInt8.ofInt value).toNat : Int) = value := by
  obtain ⟨hnonneg, hle⟩ := h
  have hmod : (value % 2 ^ 8).toNat = value.toNat := by omega
  rw [UInt8.ofInt, hmod, UInt8.toNat_ofNat']
  omega

namespace InstructionSet

variable {μ : Type}

/-- The response to the last of the bytes, when the first opens an instruction and the others follow. -/
def feed (s : InstructionSet μ) (r : Record μ) (address : Int) : List UInt8 → Response μ Bool
  | [] => { record := r, result := .ok false }
  | first :: rest =>
      rest.foldl (fun response byte => s.next response.record byte.toNat) (s.start r address first.toNat)

/-- Fewer than `n` of the bytes leave the instruction in progress. -/
def FetchingBelow (s : InstructionSet μ) (r : Record μ) (address : Int) (bytes : List UInt8) (n : Nat) :
    Prop :=
  ∀ k < n, 0 < k → (s.feed r address (bytes.take k)).record.phase = .fetching

/-- The instruction is complete after exactly `n` of the bytes. -/
structure CompletesAfter (s : InstructionSet μ) (r : Record μ) (address : Int) (bytes : List UInt8)
    (n : Nat) : Prop where
  pos : 0 < n
  le_length : n ≤ bytes.length
  fetching : s.FetchingBelow r address bytes n
  complete : (s.feed r address (bytes.take n)).record.phase = .complete

instance (s : InstructionSet μ) (r : Record μ) (address : Int) (bytes : List UInt8) (n : Nat) :
    Decidable (s.FetchingBelow r address bytes n) :=
  inferInstanceAs (Decidable (∀ k < n, 0 < k → _))

instance (s : InstructionSet μ) (r : Record μ) (address : Int) (bytes : List UInt8) (n : Nat) :
    Decidable (s.CompletesAfter r address bytes n) :=
  decidable_of_iff (0 < n ∧ n ≤ bytes.length ∧ s.FetchingBelow r address bytes n ∧
      (s.feed r address (bytes.take n)).record.phase = .complete)
    ⟨fun h => ⟨h.1, h.2.1, h.2.2.1, h.2.2.2⟩, fun h => ⟨h.pos, h.le_length, h.fetching, h.complete⟩⟩

variable {s : InstructionSet μ} {longest opening : Nat} {r q : Record μ} {address : Int}
  {bytes bytes' : List UInt8} {k n : Nat}

theorem feed_append (s : InstructionSet μ) (r : Record μ) (address : Int) (h : bytes ≠ []) (byte : UInt8) :
    s.feed r address (bytes ++ [byte]) = s.next (s.feed r address bytes).record byte.toNat := by
  cases bytes with
  | nil => exact absurd rfl h
  | cons first rest => simp [feed, List.foldl_append]

theorem feed_take_succ (s : InstructionSet μ) (r : Record μ) (address : Int) (hpos : 0 < k)
    (hk : k < bytes.length) :
    s.feed r address (bytes.take (k + 1)) =
      s.next (s.feed r address (bytes.take k)).record bytes[k].toNat := by
  have hne : bytes.take k ≠ [] := by
    rw [ne_eq, List.take_eq_nil_iff]
    rintro (rfl | rfl)
    · omega
    · simp at hk
  rw [List.take_succ_eq_append_getElem hk, feed_append s r address hne]

theorem FetchingBelow.mono (h : s.FetchingBelow r address bytes n) (hk : k ≤ n) :
    s.FetchingBelow r address bytes k := by
  intro j hlt hpos
  exact h j (Nat.lt_of_lt_of_le hlt hk) hpos

theorem FetchingBelow.succ (h : s.FetchingBelow r address bytes n)
    (hphase : (s.feed r address (bytes.take n)).record.phase = .fetching) :
    s.FetchingBelow r address bytes (n + 1) := by
  intro k hlt hpos
  rcases Nat.lt_or_eq_of_le (Nat.le_of_lt_succ hlt) with hlt' | rfl
  · exact h k hlt' hpos
  · exact hphase

theorem take_eq_of_take_eq (h : bytes.take n = bytes'.take n) (hk : k ≤ n) :
    bytes'.take k = bytes.take k := by
  have hmin : min k n = k := by omega
  rw [← hmin, ← List.take_take, ← List.take_take, h]

namespace Lawful

/-! ## Every byte is taken -/

/-- As long as the instruction is in progress, the next byte is taken. -/
theorem feed_accepted (law : s.Lawful longest opening) (hr : r.phase ≠ .fetching)
    (haddress : InRange address) (hpos : 0 < k) (hk : k ≤ bytes.length)
    (hbelow : s.FetchingBelow r address bytes k) :
    s.Accepted address (bytes.take k) (s.feed r address (bytes.take k)) := by
  induction k with
  | zero => omega
  | succ k ih =>
      rcases Nat.eq_zero_or_pos k with rfl | hpos'
      · obtain ⟨first, rest, rfl⟩ := List.exists_cons_of_ne_nil (List.ne_nil_of_length_pos hk)
        have hstart := law.start_accepted hr haddress (isByte_toNat first)
        rw [ofInt_toNat] at hstart
        exact hstart
      · have haccepted := ih hpos' (by omega) (hbelow.mono (by omega))
        have hunderway := haccepted.underway (hbelow k (by omega) hpos')
        have hnext := law.next_accepted hunderway (isByte_toNat bytes[k])
        rw [haccepted.address_eq, haccepted.fetched_eq, ofInt_toNat, ← List.take_succ_eq_append_getElem hk]
          at hnext
        rw [feed_take_succ s r address hpos' hk]
        exact hnext

/-- A number of bytes leaves the instruction in progress, or some of them complete it. -/
theorem fetching_or_completes (law : s.Lawful longest opening) (hr : r.phase ≠ .fetching)
    (haddress : InRange address) (hk : k ≤ bytes.length) :
    s.FetchingBelow r address bytes (k + 1) ∨ ∃ n ≤ k, s.CompletesAfter r address bytes n := by
  induction k with
  | zero =>
      left
      intro j hlt hpos
      omega
  | succ k ih =>
      rcases ih (by omega) with hbelow | ⟨n, hn, hcompletes⟩
      · have haccepted := law.feed_accepted hr haddress (Nat.succ_pos k) hk hbelow
        rcases haccepted.progress with hunderway | hfinished
        · exact .inl (hbelow.succ hunderway.phase_eq)
        · exact .inr ⟨k + 1, Nat.le_refl _, Nat.succ_pos k, hk, hbelow, hfinished.phase_eq⟩
      · exact .inr ⟨n, by omega, hcompletes⟩

/-- Bytes that leave an instruction in progress are fewer than the longest instruction has. -/
theorem length_lt_of_fetching (law : s.Lawful longest opening) (hr : r.phase ≠ .fetching)
    (haddress : InRange address) (hk : k ≤ bytes.length)
    (hbelow : s.FetchingBelow r address bytes (k + 1)) : k < longest := by
  rcases Nat.eq_zero_or_pos k with rfl | hpos
  · have := law.opening_lt
    omega
  · have haccepted := law.feed_accepted hr haddress hpos hk (hbelow.mono (Nat.le_succ k))
    have hcount := law.underway_count (haccepted.underway (hbelow k (Nat.lt_succ_self k) hpos))
    rw [haccepted.count_eq, List.length_take_of_le hk] at hcount
    exact hcount

theorem exists_completesAfter (law : s.Lawful longest opening) (hr : r.phase ≠ .fetching)
    (haddress : InRange address) (hlength : longest ≤ bytes.length) :
    ∃ n ≤ longest, s.CompletesAfter r address bytes n := by
  rcases law.fetching_or_completes hr haddress hlength with hbelow | hcompletes
  · have := law.length_lt_of_fetching hr haddress hlength hbelow
    omega
  · exact hcompletes

/-! ## Records that agree are fed alike -/

theorem feed_agrees (law : s.Lawful longest opening) (hr : r.phase ≠ .fetching) (hq : q.phase ≠ .fetching)
    (haddress : InRange address) (hpos : 0 < k) (hk : k ≤ bytes.length)
    (hbelow : s.FetchingBelow r address bytes k) :
    (s.feed r address (bytes.take k)).Agrees (s.feed q address (bytes.take k)) := by
  induction k with
  | zero => omega
  | succ k ih =>
      rcases Nat.eq_zero_or_pos k with rfl | hpos'
      · obtain ⟨first, rest, rfl⟩ := List.exists_cons_of_ne_nil (List.ne_nil_of_length_pos hk)
        exact law.start_agrees hr hq haddress (isByte_toNat first)
      · have hbelow' := hbelow.mono (Nat.le_succ k)
        have haccepted := law.feed_accepted hr haddress hpos' (by omega) hbelow'
        have hunderway := haccepted.underway (hbelow k (by omega) hpos')
        have hagrees := ih hpos' (by omega) hbelow'
        rw [feed_take_succ s r address hpos' hk, feed_take_succ s q address hpos' hk]
        exact law.next_agrees hunderway hagrees.record (isByte_toNat bytes[k])

/-- Bytes that leave an instruction in progress do so whatever the decoder did before. -/
theorem fetchingBelow_congr (law : s.Lawful longest opening) (hr : r.phase ≠ .fetching)
    (hq : q.phase ≠ .fetching) (haddress : InRange address)
    (h : s.FetchingBelow r address bytes (bytes.length + 1)) :
    s.FetchingBelow q address bytes (bytes.length + 1) := by
  intro k hlt hpos
  have hagrees := law.feed_agrees hr hq haddress hpos (Nat.le_of_lt_succ hlt) (h.mono (Nat.le_of_lt hlt))
  rw [← hagrees.record.phase_eq]
  exact h k hlt hpos

theorem completesAfter_congr (law : s.Lawful longest opening) (hr : r.phase ≠ .fetching)
    (hq : q.phase ≠ .fetching) (haddress : InRange address) (h : s.CompletesAfter r address bytes n)
    (htake : bytes.take n = bytes'.take n) : s.CompletesAfter q address bytes' n := by
  refine ⟨h.pos, ?_, ?_, ?_⟩
  · have hlength := congrArg List.length htake
    rw [List.length_take_of_le h.le_length, List.length_take] at hlength
    omega
  · intro k hlt hpos
    have hle : k ≤ bytes.length := Nat.le_trans (Nat.le_of_lt hlt) h.le_length
    have hagrees := law.feed_agrees hr hq haddress hpos hle (h.fetching.mono (Nat.le_of_lt hlt))
    rw [take_eq_of_take_eq htake (by omega), ← hagrees.record.phase_eq]
    exact h.fetching k hlt hpos
  · have hagrees := law.feed_agrees hr hq haddress h.pos h.le_length h.fetching
    rw [← htake, ← hagrees.record.phase_eq]
    exact h.complete

end Lawful

end InstructionSet

namespace Architecture

open InstructionSet

/-- Whatever a decoder did before, an instruction is complete after as many bytes as the longest one has
at the latest; each byte up to then is taken, and the buffer never overflows. -/
theorem feed_completes (a : Architecture) (r : Record a.Mode) (address : Int) (bytes : List UInt8)
    (hr : r.phase ≠ .fetching) (haddress : InRange address) (hlength : a.longest ≤ bytes.length) :
    ∃ n, 1 ≤ n ∧ n ≤ a.longest ∧ a.instructionSet.CompletesAfter r address bytes n ∧
      ∀ k, 0 < k → k ≤ n →
        (a.instructionSet.feed r address (bytes.take k)).result = .ok true ∧
        ∀ place overflown, .overflow place overflown ∉
          (a.instructionSet.feed r address (bytes.take k)).notices := by
  obtain ⟨n, hn, h⟩ := a.lawful.exists_completesAfter hr haddress hlength
  refine ⟨n, h.pos, hn, h, ?_⟩
  intro k hpos hk
  have haccepted := a.lawful.feed_accepted hr haddress hpos (Nat.le_trans hk h.le_length)
    (h.fetching.mono hk)
  refine ⟨haccepted.result_eq, ?_⟩
  intro place overflown hmem
  obtain ⟨text, htext⟩ := haccepted.notices_eq _ hmem
  cases htext

/-- A record with the bytes of another instruction, then a page opcode, its opcode and a postbyte. -/
theorem feed_completes_postbyte :
    let r := (instructionSet .mc6809).feed {} 0x1000 [0x10, 0xAE, 0x9F, 0x12, 0x34] |>.record
    r.phase ≠ .fetching ∧ InRange 0xFFFF ∧ longest .mc6809 ≤ 6 ∧
    ∃ n, 1 ≤ n ∧ n ≤ 5 ∧
      (instructionSet .mc6809).CompletesAfter r 0xFFFF [0x11, 0xA3, 0x89, 0xFE, 0xDC, 0x12] n ∧
      ∀ k, 0 < k → k ≤ n →
        ((instructionSet .mc6809).feed r 0xFFFF ([0x11, 0xA3, 0x89, 0xFE, 0xDC, 0x12].take k)).result
          = .ok true ∧
        ∀ place overflown, .overflow place overflown ∉
          ((instructionSet .mc6809).feed r 0xFFFF ([0x11, 0xA3, 0x89, 0xFE, 0xDC, 0x12].take k)).notices := by
  intro r
  have hr : r.phase ≠ .fetching := by decide +kernel
  have haddress : InRange 0xFFFF := ⟨by decide, by decide⟩
  exact ⟨hr, haddress, by decide, feed_completes .mc6809 r 0xFFFF _ hr haddress (by decide)⟩

/-- Two decoders with any past complete an instruction after the same bytes and answer alike on the way;
the bytes behind make no difference. -/
theorem feed_independent (a : Architecture) {r q : Record a.Mode} {address : Int} {bytes bytes' : List UInt8}
    {n : Nat} (hr : r.phase ≠ .fetching) (hq : q.phase ≠ .fetching) (haddress : InRange address)
    (hn : a.instructionSet.CompletesAfter r address bytes n) (htake : bytes.take n = bytes'.take n) :
    a.instructionSet.CompletesAfter q address bytes' n ∧
      ∀ k, 0 < k → k ≤ n →
        (a.instructionSet.feed r address (bytes.take k)).Agrees
          (a.instructionSet.feed q address (bytes'.take k)) := by
  refine ⟨a.lawful.completesAfter_congr hr hq haddress hn htake, ?_⟩
  intro k hpos hk
  have hagrees := a.lawful.feed_agrees hr hq haddress hpos (Nat.le_trans hk hn.le_length)
    (hn.fetching.mono hk)
  rw [take_eq_of_take_eq htake hk]
  exact hagrees

/-- A new decoder and one with stale bytes, at an instruction with two leading bytes. -/
theorem feed_independent_indexed_bit :
    let r : Record (Mode .z80) := {}
    let q := (instructionSet .z80).feed {} 0x1000 [0xDD, 0xCB, 0xFF, 0xFF] |>.record
    (r.phase ≠ .fetching ∧ q.phase ≠ .fetching ∧ InRange 0x8000 ∧
      (instructionSet .z80).CompletesAfter r 0x8000 [0xFD, 0xCB, 0x05, 0x46, 0x00] 4) ∧
    (instructionSet .z80).CompletesAfter q 0x8000 [0xFD, 0xCB, 0x05, 0x46, 0xC9, 0xC9] 4 ∧
      ∀ k, 0 < k → k ≤ 4 →
        ((instructionSet .z80).feed r 0x8000 ([0xFD, 0xCB, 0x05, 0x46, 0x00].take k)).Agrees
          ((instructionSet .z80).feed q 0x8000 ([0xFD, 0xCB, 0x05, 0x46, 0xC9, 0xC9].take k)) := by
  intro r q
  have hr : r.phase ≠ .fetching := by decide
  have hq : q.phase ≠ .fetching := by decide +kernel
  have haddress : InRange 0x8000 := ⟨by decide, by decide⟩
  have hn : (instructionSet .z80).CompletesAfter r 0x8000 [0xFD, 0xCB, 0x05, 0x46, 0x00] 4 := by
    decide +kernel
  exact ⟨⟨hr, hq, haddress, hn⟩, feed_independent .z80 hr hq haddress hn rfl⟩

end Architecture

end EightBit
