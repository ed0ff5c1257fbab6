import EightBit.Number.SignExtend
set_option autoImplicit false

/-!
# Sign extension

Cutting a number to a width is done on its bits: a mask keeps the remainder (`bitAnd_mask`), and the bit
that is tested then tells the halves of the range apart (`bitAnd_highest_eq_zero_iff`).  So sign extension
chooses the representative next to zero (`signExtend_eq_iff`): it stays within half of the range, differs
from the number by a multiple of it, and gives back what the width can hold.

An address is itself taken at sixteen bits, so a distance of sixteen bits leads to the same target whether
it is counted with a sign or without (`targetOf_signExtend`).
-/

namespace EightBit

/-! ## Masks and single bits -/

/-- A mask of low bits keeps the remainder, of negative numbers too. -/
theorem bitAnd_mask (value : Int) (bits : Nat) :
    bitAnd value (Nat.pow 2 bits - 1 : Nat) = value % (Nat.pow 2 bits : Nat) := by
  have hpos : 0 < Nat.pow 2 bits := Nat.pow_pos (by decide)
  have hmask : ∀ n : Nat, n &&& (Nat.pow 2 bits - 1) = n % Nat.pow 2 bits :=
    fun n => Nat.and_two_pow_sub_one_eq_mod n bits
  cases value with
  | ofNat n =>
      change ((n &&& (Nat.pow 2 bits - 1) : Nat) : Int) = (n : Int) % (Nat.pow 2 bits : Nat)
      rw [hmask, Int.natCast_emod]
  | negSucc n =>
      -- The bits are the complement of those of `n`, which within the mask is the difference to it.
      change ((Nat.pow 2 bits - 1 - (n &&& (Nat.pow 2 bits - 1)) : Nat) : Int) = _
      have hlt : n % Nat.pow 2 bits < Nat.pow 2 bits := Nat.mod_lt n hpos
      rw [hmask, Int.negSucc_emod n (Int.natCast_pos.mpr hpos), ← Int.natCast_emod]
      omega

theorem and_two_pow_eq_zero_iff (n position : Nat) :
    n &&& Nat.pow 2 position = 0 ↔ n.testBit position = false := by
  change n &&& 2 ^ position = 0 ↔ _
  constructor
  · intro hzero
    have hbit : (n &&& 2 ^ position).testBit position = false := by rw [hzero, Nat.zero_testBit]
    rwa [Nat.testBit_and, Nat.testBit_two_pow_self, Bool.and_true] at hbit
  · intro hbit
    apply Nat.eq_of_testBit_eq
    intro i
    rw [Nat.testBit_and, Nat.testBit_two_pow, Nat.zero_testBit]
    by_cases hi : position = i
    · rw [← hi, hbit, Bool.false_and]
    · rw [decide_eq_false hi, Bool.and_false]

/-- The highest bit of a width is unset in the lower half of the numbers of that width. -/
theorem bitAnd_highest_eq_zero_iff {position n : Nat} (h : n < Nat.pow 2 (position + 1)) :
    bitAnd n (Nat.pow 2 position : Nat) = 0 ↔ n < Nat.pow 2 position := by
  have hzero : bitAnd n (Nat.pow 2 position : Nat) = 0 ↔ n.testBit position = false :=
    Int.natCast_eq_zero.trans (and_two_pow_eq_zero_iff n position)
  rw [hzero]
  constructor
  · intro hbit
    apply Nat.lt_of_not_le
    intro hle
    rw [Nat.testBit_of_two_pow_le_and_two_pow_add_one_gt hle h] at hbit
    cases hbit
  · exact Nat.testBit_lt_two_pow

/-! ## Sign extension -/

/-- The bits of a width, read as two's complement, are the representative next to zero. -/
theorem signExtend_eq_bmod (bits : Nat) (value : Int) :
    signExtend bits value = value.bmod (Nat.pow 2 bits) := by
  have hpos : 0 < Nat.pow 2 bits := Nat.pow_pos (by decide)
  obtain ⟨low, hlow⟩ : ∃ low : Nat, value % (Nat.pow 2 bits : Nat) = low :=
    Int.eq_ofNat_of_zero_le (Int.emod_nonneg value (by omega))
  have hlt : low < Nat.pow 2 bits := by
    have := Int.emod_lt_of_pos value (Int.natCast_pos.mpr hpos)
    omega
  rw [signExtend, bitAnd_mask, Int.bmod_def, hlow]
  cases bits with
  | zero =>
      have hzero : low = 0 := Nat.lt_one_iff.mp hlt
      rw [hzero]
      rfl
  | succ n =>
      have hhalf : Nat.pow 2 (n + 1) = 2 * Nat.pow 2 n := Nat.mul_comm _ 2
      simp only [Nat.add_sub_cancel, bitAnd_highest_eq_zero_iff hlt]
      congr 1
      apply propext
      omega

/-- The sign extension of a number is the only one in the range of the width that agrees with it modulo
the power of the width. -/
theorem signExtend_eq_iff {bits : Nat} (h : 0 < bits) {value r : Int} :
    signExtend bits value = r ↔ -(Nat.pow 2 (bits - 1) : Int) ≤ r ∧ r < (Nat.pow 2 (bits - 1) : Int) ∧
      r % (Nat.pow 2 bits : Nat) = value % (Nat.pow 2 bits : Nat) := by
  obtain ⟨n, rfl⟩ : ∃ n, bits = n + 1 := ⟨bits - 1, by omega⟩
  have hpos : 0 < Nat.pow 2 (n + 1) := Nat.pow_pos (by decide)
  have hhalf : Nat.pow 2 (n + 1) = 2 * Nat.pow 2 n := Nat.mul_comm _ 2
  rw [signExtend_eq_bmod, Int.bmod_eq_iff hpos, Int.emod_eq_emod_iff_emod_sub_eq_zero,
    ← Int.dvd_iff_emod_eq_zero, Nat.add_sub_cancel]
  have hlow : ((Nat.pow 2 (n + 1) : Nat) : Int) / 2 = Nat.pow 2 n := by omega
  have hhigh : (((Nat.pow 2 (n + 1) : Nat) : Int) + 1) / 2 = Nat.pow 2 n := by omega
  rw [hlow, hhigh]

theorem signExtend_range {bits : Nat} (h : 0 < bits) (value : Int) :
    -(Nat.pow 2 (bits - 1) : Int) ≤ signExtend bits value ∧
      signExtend bits value < (Nat.pow 2 (bits - 1) : Int) := by
  obtain ⟨hlow, hhigh, -⟩ := (signExtend_eq_iff h).mp (rfl : signExtend bits value = _)
  exact ⟨hlow, hhigh⟩

theorem signExtend_emod (bits : Nat) (value : Int) :
    signExtend bits value % (Nat.pow 2 bits : Nat) = value % (Nat.pow 2 bits : Nat) := by
  rw [signExtend_eq_bmod]
  exact Int.bmod_emod

/-- What is sign extended to the same number is the same at that width. -/
theorem emod_eq_of_signExtend_eq {bits : Nat} {a b : Int} (h : signExtend bits a = signExtend bits b) :
    a % (Nat.pow 2 bits : Nat) = b % (Nat.pow 2 bits : Nat) := by
  rw [← signExtend_emod bits a, h, signExtend_emod bits b]

theorem signExtend_signExtend (bits : Nat) (value : Int) :
    signExtend bits (signExtend bits value) = signExtend bits value := by
  simp only [signExtend_eq_bmod, Int.bmod_bmod]

/-- A distance of sixteen bits leads to the same target with and without its sign. -/
theorem targetOf_signExtend (base value : Int) :
    targetOf base (signExtend 16 value) = (base + value) % 0x10000 := by
  have hemod : signExtend 16 value % 0x10000 = value % 0x10000 := signExtend_emod 16 value
  change (base + signExtend 16 value) % 0x10000 = _
  omega

/-! ## Widths given as integers -/

theorem signExtendAt_of_pos {bits : Int} (h : 1 ≤ bits) (value : Int) :
    signExtendAt value bits = .ok (signExtend bits.toNat value) :=
  if_pos h

/-- A width that is not positive is refused.  At any other the result is the only number in the range of
the width that is congruent to the value, and it is its own sign extension.  At sixteen bits it leads from
any base to the target that the value itself leads to. -/
theorem signExtendAt_unique (value base bits : Int) :
    (bits ≤ 0 → signExtendAt value bits = .error .width) ∧
    (1 ≤ bits → ∃ r, signExtendAt value bits = .ok r ∧ signExtendAt r bits = .ok r ∧
      ∀ q : Int, q = r ↔
        -(Nat.pow 2 (bits.toNat - 1) : Int) ≤ q ∧ q < (Nat.pow 2 (bits.toNat - 1) : Int) ∧
        q % (Nat.pow 2 bits.toNat : Nat) = value % (Nat.pow 2 bits.toNat : Nat)) ∧
    ∃ r, signExtendAt value 16 = .ok r ∧ targetOf base r = (base + value) % 0x10000 := by
  refine ⟨?_, ?_, signExtend 16 value, rfl, targetOf_signExtend base value⟩
  · intro h
    exact if_neg (by omega)
  · intro h
    refine ⟨signExtend bits.toNat value, signExtendAt_of_pos h value, ?_, ?_⟩
    · rw [signExtendAt_of_pos h, signExtend_signExtend]
    · intro q
      rw [eq_comm]
      exact signExtend_eq_iff (by omega)

/-- The least number of a width comes from its own bits, whatever stands above them. -/
theorem signExtendAt_unique_boundary :
    signExtendAt 0x18000 0 = .error .width ∧ (1 : Int) ≤ 16 ∧
    (∃ r, signExtendAt 0x18000 16 = .ok r ∧ signExtendAt r 16 = .ok r ∧ -0x8000 = r) ∧
    ∃ r, signExtendAt 0x18000 16 = .ok r ∧ targetOf 0x8001 r = 0x0001 := by
  obtain ⟨-, hpositive, htarget⟩ := signExtendAt_unique 0x18000 0x8001 16
  obtain ⟨r, hr, hagain, hunique⟩ := hpositive (by decide)
  have hleast : -0x8000 = r := (hunique (-0x8000)).mpr (by decide)
  exact ⟨(signExtendAt_unique 0x18000 0x8001 0).1 (by decide), by decide, ⟨r, hr, hagain, hleast⟩, htarget⟩

end EightBit
