import EightBit.Proofs.SignExtension
set_option autoImplicit false

/-!
# Words made of bytes

Two bytes are joined into the word whose digits to the base 256 they are, so a word gives its bytes back.
-/

namespace EightBit

/-- A property of all bytes is a table of 256 entries. -/
theorem forall_byte {P : UInt8 → Prop} (h : ∀ n < 256, P (UInt8.ofNat n)) (byte : UInt8) : P byte := by
  have hbyte := h byte.toNat byte.toNat_lt
  rwa [UInt8.ofNat_toNat] at hbyte

theorem joinBytes_toNat (high low : UInt8) :
    joinBytes (high.toNat : Int) (low.toNat : Int) = 0x100 * (high.toNat : Int) + low.toNat := by
  have hlow : low.toNat < 2 ^ 8 := low.toNat_lt
  have hor : high.toNat * 0x100 ||| low.toNat = 0x100 * high.toNat + low.toNat := by
    rw [Nat.mul_comm]
    exact (Nat.two_pow_add_eq_or_of_lt hlow high.toNat).symm
  calc
    joinBytes (high.toNat : Int) (low.toNat : Int)
      = ((high.toNat * 0x100 ||| low.toNat : Nat) : Int) := rfl
    _ = 0x100 * (high.toNat : Int) + low.toNat := by
      rw [hor]
      omega

theorem toNat_injective {x y : UInt8} (h : (x.toNat : Int) = y.toNat) : x = y := by
  apply UInt8.toNat_inj.mp
  omega

theorem eq_of_emod_eq {x y : UInt8} (h : (x.toNat : Int) % 0x100 = y.toNat % 0x100) : x = y := by
  have hx : x.toNat < 256 := x.toNat_lt
  have hy : y.toNat < 256 := y.toNat_lt
  exact toNat_injective (by omega)

/-- A word of sixteen bits gives its bytes back. -/
theorem bytes_eq_of_joinBytes {high low high' low' : UInt8}
    (h : joinBytes (high.toNat : Int) low.toNat % 0x10000 = joinBytes (high'.toNat : Int) low'.toNat % 0x10000) :
    high = high' ∧ low = low' := by
  have h1 : high.toNat < 256 := high.toNat_lt
  have h2 : low.toNat < 256 := low.toNat_lt
  have h3 : high'.toNat < 256 := high'.toNat_lt
  have h4 : low'.toNat < 256 := low'.toNat_lt
  rw [joinBytes_toNat, joinBytes_toNat] at h
  exact ⟨toNat_injective (by omega), toNat_injective (by omega)⟩

end EightBit
