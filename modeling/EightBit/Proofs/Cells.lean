import EightBit.Buffer
import EightBit.Code
set_option autoImplicit false

/-!
# Reading the cells of a buffer

Everything that is read off instruction bytes goes through `pick`.  Two codes that agree below a count
give the same answer to every read below that count, and a buffer, which always has eight cells, answers
every read at the positions `0 .. 7` with a byte.
-/

namespace EightBit

@[simp] theorem ok_bind {ε α β : Type} (a : α) (f : α → Except ε β) : (Except.ok a >>= f) = f a := rfl

@[simp] theorem error_bind {ε α β : Type} (e : ε) (f : α → Except ε β) :
    (Except.error e >>= f) = .error e := rfl

@[simp] theorem pure_eq_ok {ε α : Type} (a : α) : (pure a : Except ε α) = .ok a := rfl

theorem eq_ok_of_toOption {ε α : Type} {x : Except ε α} {a : α} (h : x.toOption = some a) : x = .ok a := by
  cases x with
  | error e => cases h
  | ok b => exact congrArg Except.ok (Option.some.inj h)

/-! ## Positions inside a list -/

theorem pick_eq_ok {α : Type} {entries : List α} {i : Int} {a : α} (h0 : 0 ≤ i)
    (h : entries[i.toNat]? = some a) : pick entries i = .ok a := by
  simp [pick, pick?, h0, h]

theorem exists_pick {α : Type} {entries : List α} {i : Int} (h0 : 0 ≤ i) (h : i < entries.length) :
    ∃ a ∈ entries, pick entries i = .ok a := by
  have hi : i.toNat < entries.length := by omega
  exact ⟨entries[i.toNat], List.getElem_mem hi, pick_eq_ok h0 (List.getElem?_eq_getElem hi)⟩

/-- What holds of all members of a table and of another entry holds of what is looked up. -/
theorem forall_getD {α : Type} {P : α → Prop} {entries : List α} {other : α} (hentries : ∀ a ∈ entries, P a)
    (hother : P other) (i : Nat) : P (entries.getD i other) := by
  rw [List.getD_eq_getElem?_getD]
  cases hentry : entries[i]? with
  | none => exact hother
  | some a => exact hentries a (List.mem_of_getElem? hentry)

/-! ## Codes that agree at shifted positions -/

/-- From the position `i` to below `n`, what is read is found `m` positions further on in the other code. -/
def AgreeShifted (m i n : Int) (c d : List Int) : Prop :=
  ∀ j : Int, i ≤ j → j < n → pick c j = pick d (j + m)

namespace AgreeShifted

variable {c d : List Int} {m i j n : Int}

theorem readS8 (h : AgreeShifted m i n c d) (hi : i ≤ j) (hn : j < n) : readS8 c j = readS8 d (j + m) := by
  simp only [EightBit.readS8, h j hi hn]

theorem second (h : AgreeShifted m i n c d) (hi : i ≤ j) (hn : j + 1 < n) :
    pick c (j + 1) = pick d (j + m + 1) := by
  rw [h (j + 1) (by omega) hn, Int.add_right_comm]

theorem readU16le (h : AgreeShifted m i n c d) (hi : i ≤ j) (hn : j + 1 < n) :
    readU16le c j = readU16le d (j + m) := by
  simp only [EightBit.readU16le, h j hi (by omega), h.second hi hn]

theorem readU16be (h : AgreeShifted m i n c d) (hi : i ≤ j) (hn : j + 1 < n) :
    readU16be c j = readU16be d (j + m) := by
  simp only [EightBit.readU16be, h j hi (by omega), h.second hi hn]

theorem readS16be (h : AgreeShifted m i n c d) (hi : i ≤ j) (hn : j + 1 < n) :
    readS16be c j = readS16be d (j + m) := by
  simp only [EightBit.readS16be, h.readU16be hi hn]

end AgreeShifted

/-! ## Codes that agree below a count -/

/-- Reads at the positions below `n` do not tell the two codes apart. -/
def AgreeBelow (n : Int) (c d : List Int) : Prop :=
  ∀ i : Int, 0 ≤ i → i < n → pick c i = pick d i

namespace AgreeBelow

variable {c d : List Int} {m n i : Int}

theorem mono (h : AgreeBelow n c d) (hm : m ≤ n) : AgreeBelow m c d := by
  intro i h0 hi
  exact h i h0 (Int.lt_of_lt_of_le hi hm)

theorem of_take_eq {code other : List Int} {k : Nat} (h : code.take k = other.take k) :
    AgreeBelow k code other := by
  intro i h0 hi
  have hk : i.toNat < k := by omega
  have hcell : code[i.toNat]? = other[i.toNat]? := by
    rw [← List.getElem?_take_of_lt hk, h, List.getElem?_take_of_lt hk]
  simp [pick, pick?, h0, hcell]

theorem first (h : AgreeBelow n c d) (hn : 0 < n) : pick c 0 = pick d 0 :=
  h 0 (Int.le_refl 0) hn

theorem second (h : AgreeBelow n c d) (hn : 1 < n) : pick c 1 = pick d 1 :=
  h 1 (by decide) hn

theorem shifted (h : AgreeBelow n c d) : AgreeShifted 0 0 n c d := by
  intro i h0 hi
  rw [Int.add_zero]
  exact h i h0 hi

theorem readS8 (h : AgreeBelow n c d) (h0 : 0 ≤ i) (hi : i < n) : readS8 c i = readS8 d i := by
  simpa using h.shifted.readS8 h0 hi

theorem readU16le (h : AgreeBelow n c d) (h0 : 0 ≤ i) (hi : i + 1 < n) :
    readU16le c i = readU16le d i := by
  simpa using h.shifted.readU16le h0 hi

theorem readU16be (h : AgreeBelow n c d) (h0 : 0 ≤ i) (hi : i + 1 < n) :
    readU16be c i = readU16be d i := by
  simpa using h.shifted.readU16be h0 hi

theorem readS16be (h : AgreeBelow n c d) (h0 : 0 ≤ i) (hi : i + 1 < n) :
    readS16be c i = readS16be d i := by
  simpa using h.shifted.readS16be h0 hi

end AgreeBelow

/-! ## The cells of a buffer -/

namespace Buffer

variable {b c : Buffer} {byte : UInt8} {i : Int}

theorem take_count (b : Buffer) : b.toList.take b.count = b.fetched := by
  simp [toList, count]

/-- Every cell holds a byte. -/
theorem exists_pick_code (b : Buffer) (h0 : 0 ≤ i) (h : i < 8) :
    ∃ byte : UInt8, pick b.code i = .ok (byte.toNat : Int) := by
  have hlen : i < b.code.length := by simpa [code] using h
  obtain ⟨a, ha, hpick⟩ := exists_pick h0 hlen
  obtain ⟨byte, -, rfl⟩ := List.mem_map.mp ha
  exact ⟨byte, hpick⟩

/-- The cells from which mode and length are decided. -/
theorem exists_front (b : Buffer) :
    ∃ first second third fourth : UInt8,
      pick b.code 0 = .ok (first.toNat : Int) ∧ pick b.code 1 = .ok (second.toNat : Int) ∧
      pick b.code 2 = .ok (third.toNat : Int) ∧ pick b.code 3 = .ok (fourth.toNat : Int) := by
  obtain ⟨first, h0⟩ := b.exists_pick_code (i := 0) (by decide) (by decide)
  obtain ⟨second, h1⟩ := b.exists_pick_code (i := 1) (by decide) (by decide)
  obtain ⟨third, h2⟩ := b.exists_pick_code (i := 2) (by decide) (by decide)
  obtain ⟨fourth, h3⟩ := b.exists_pick_code (i := 3) (by decide) (by decide)
  exact ⟨first, second, third, fourth, h0, h1, h2, h3⟩

theorem agreeBelow_of_take_eq {k : Nat} (h : b.toList.take k = c.toList.take k) :
    AgreeBelow k b.code c.code := by
  refine AgreeBelow.of_take_eq ?_
  rw [code, code, ← List.map_take, ← List.map_take, h]

theorem agreeBelow_of_fetched_eq (h : b.fetched = c.fetched) : AgreeBelow b.count b.code c.code := by
  have hcount : b.count = c.count := by simp [count, h]
  refine agreeBelow_of_take_eq ?_
  rw [take_count, hcount, take_count, h]

/-! ## Fetching a byte -/

theorem exists_push? (h : b.count < 8) (byte : UInt8) : ∃ c, b.push? byte = some c := by
  unfold push?
  split
  · rename_i hstale
    have := b.size_eq
    simp only [hstale, List.length_nil, count] at this h
    omega
  · exact ⟨_, rfl⟩

theorem fetched_of_push? (h : b.push? byte = some c) : c.fetched = b.fetched ++ [byte] := by
  unfold push? at h
  split at h
  · cases h
  · cases h
    rfl

theorem count_of_push? (h : b.push? byte = some c) : c.count = b.count + 1 := by
  simp [count, fetched_of_push? h]

/-- Fetching a byte leaves the cells in front of it as they are. -/
theorem take_of_push? (h : b.push? byte = some c) {k : Nat} (hk : k ≤ b.count) :
    c.toList.take k = b.toList.take k := by
  have hk' : k ≤ b.fetched.length := hk
  simp [toList, fetched_of_push? h, List.take_append_of_le_length, hk']

end Buffer

end EightBit
