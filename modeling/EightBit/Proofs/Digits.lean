import EightBit.Number.Digits
set_option autoImplicit false

/-!
# Numbers read off their texts

No two integers have the same hexadecimal text of a given width (`hexPadded_injective`) and no two have
the same decimal text (`decimal_injective`).  For hexadecimal digits the value is read back, zeros in
front counting nothing; a sign is told from a digit by the symbol itself.

The texts consist of the symbols `numeralSymbols`, so their end is seen where another symbol follows
(`append_inj_of_setOff`), and the padded ones that instructions show have a fixed length.
-/

namespace EightBit

/-! ## Digits -/

theorem exists_digitChar_of_mem {b n : Nat} {c : Char} (hb : 1 < b) (h : c ∈ Nat.toDigits b n) :
    ∃ k < b, c = Nat.digitChar k := by
  induction n using Nat.strongRecOn with
  | _ n ih =>
      rw [Nat.toDigits_eq_if hb] at h
      split at h
      · rename_i hlt
        exact ⟨n, hlt, List.mem_singleton.mp h⟩
      · rename_i hge
        rcases List.mem_append.mp h with hfront | hlast
        · exact ih (n / b) (Nat.div_lt_self (by omega) hb) hfront
        · exact ⟨n % b, Nat.mod_lt n (by omega), List.mem_singleton.mp hlast⟩

theorem hexDigits_eq (n : Nat) :
    hexDigits n = if n < 0x10 then [(Nat.digitChar n).toUpper]
      else hexDigits (n / 0x10) ++ [(Nat.digitChar (n % 0x10)).toUpper] := by
  rw [hexDigits, Nat.toDigits_eq_if (by decide)]
  split
  · rfl
  · rw [List.map_append, hexDigits]
    rfl

/-! ## The value of hexadecimal digits -/

/-- The value of a capital hexadecimal digit. -/
def hexDigitValue (digit : Char) : Nat :=
  "0123456789ABCDEF".toList.idxOf digit

/-- The number that capital hexadecimal digits stand for. -/
def hexValue (digits : List Char) : Nat :=
  digits.foldl (fun value digit => 0x10 * value + hexDigitValue digit) 0

theorem hexDigitValue_digitChar : ∀ n < 0x10, hexDigitValue (Nat.digitChar n).toUpper = n := by
  decide

theorem hexValue_append_singleton (digits : List Char) (digit : Char) :
    hexValue (digits ++ [digit]) = 0x10 * hexValue digits + hexDigitValue digit := by
  simp [hexValue]

theorem hexValue_hexDigits (n : Nat) : hexValue (hexDigits n) = n := by
  induction n using Nat.strongRecOn with
  | _ n ih =>
      rw [hexDigits_eq]
      split
      · rename_i hlt
        have hdigit := hexDigitValue_digitChar n hlt
        simp [hexValue, hdigit]
      · rename_i hge
        have hdigit := hexDigitValue_digitChar (n % 0x10) (Nat.mod_lt n (by decide))
        rw [hexValue_append_singleton, ih (n / 0x10) (by omega), hdigit]
        omega

theorem hexValue_zeros (zeros : Nat) (digits : List Char) :
    hexValue (List.replicate zeros '0' ++ digits) = hexValue digits := by
  induction zeros with
  | zero => rfl
  | succ zeros ih =>
      rw [← ih]
      rfl

theorem hexValue_zeroFill (width : Nat) (digits : List Char) :
    hexValue (zeroFill width digits) = hexValue digits :=
  hexValue_zeros _ digits

theorem hexDigits_ne_nil (n : Nat) : hexDigits n ≠ [] := by
  intro hnil
  exact Nat.toDigits_ne_nil (List.map_eq_nil_iff.mp hnil)

/-! ## Symbols -/

/-- The symbols of which numbers are written. -/
def numeralSymbols : List Char :=
  "0123456789ABCDEF+-".toList

theorem mem_hexDigits {n : Nat} {c : Char} (h : c ∈ hexDigits n) : c ∈ "0123456789ABCDEF".toList := by
  have htable : ∀ k < 0x10, (Nat.digitChar k).toUpper ∈ "0123456789ABCDEF".toList := by decide
  obtain ⟨digit, hdigit, rfl⟩ := List.mem_map.mp h
  obtain ⟨k, hk, rfl⟩ := exists_digitChar_of_mem (by decide) hdigit
  exact htable k hk

theorem mem_zeroFill {width : Nat} {digits : List Char} {c : Char} (h : c ∈ zeroFill width digits) :
    c = '0' ∨ c ∈ digits := by
  rcases List.mem_append.mp h with hzero | hdigit
  · exact .inl (List.eq_of_mem_replicate hzero)
  · exact .inr hdigit

theorem mem_zeroFill_hexDigits {width n : Nat} {c : Char} (h : c ∈ zeroFill width (hexDigits n)) :
    c ∈ "0123456789ABCDEF".toList := by
  rcases mem_zeroFill h with rfl | hdigit
  · decide
  · exact mem_hexDigits hdigit

theorem mem_numeralSymbols_of_hex {c : Char} (h : c ∈ "0123456789ABCDEF".toList) : c ∈ numeralSymbols := by
  have hsubset : "0123456789ABCDEF".toList ⊆ numeralSymbols := by decide
  exact hsubset h

theorem mem_hexPadded {width : Nat} {value : Int} {c : Char} (h : c ∈ hexPadded width value) :
    c ∈ numeralSymbols := by
  unfold hexPadded at h
  split at h
  · rcases List.mem_cons.mp h with rfl | hdigit
    · decide
    · exact mem_numeralSymbols_of_hex (mem_zeroFill_hexDigits hdigit)
  · exact mem_numeralSymbols_of_hex (mem_zeroFill_hexDigits h)

theorem mem_toDigits_ten {n : Nat} {c : Char} (h : c ∈ Nat.toDigits 10 n) : c ∈ "0123456789".toList := by
  have htable : ∀ k < 10, Nat.digitChar k ∈ "0123456789".toList := by decide
  obtain ⟨k, hk, rfl⟩ := exists_digitChar_of_mem (by decide) h
  exact htable k hk

theorem mem_numeralSymbols_of_digit {c : Char} (h : c ∈ "0123456789".toList) : c ∈ numeralSymbols := by
  have hsubset : "0123456789".toList ⊆ numeralSymbols := by decide
  exact hsubset h

theorem mem_decimal {value : Int} {c : Char} (h : c ∈ decimal value) : c ∈ numeralSymbols := by
  unfold decimal at h
  split at h
  · rcases List.mem_cons.mp h with rfl | hdigit
    · decide
    · exact mem_numeralSymbols_of_digit (mem_toDigits_ten hdigit)
  · exact mem_numeralSymbols_of_digit (mem_toDigits_ten h)

theorem mem_signedDecimal {value : Int} {c : Char} (h : c ∈ signedDecimal value) : c ∈ numeralSymbols := by
  unfold signedDecimal at h
  split at h
  · exact mem_decimal h
  · rcases List.mem_cons.mp h with rfl | hdigit
    · decide
    · exact mem_decimal hdigit

/-- The end of a text of some symbols can be seen if another symbol follows. -/
theorem append_inj_of_setOff {α : Type} {symbols s s' t t' : List α} (hs : ∀ c ∈ s, c ∈ symbols)
    (hs' : ∀ c ∈ s', c ∈ symbols) (ht : ∀ c ∈ t.head?, c ∉ symbols) (ht' : ∀ c ∈ t'.head?, c ∉ symbols)
    (h : s ++ t = s' ++ t') : s = s' ∧ t = t' := by
  induction s generalizing s' with
  | nil =>
      cases s' with
      | nil => exact ⟨rfl, h⟩
      | cons c s' =>
          -- The other text would begin with a symbol that cannot follow.
          have hhead : c ∈ t.head? := by
            rw [List.nil_append] at h
            rw [h]
            rfl
          exact absurd (hs' c List.mem_cons_self) (ht c hhead)
  | cons c s ih =>
      cases s' with
      | nil =>
          have hhead : c ∈ t'.head? := by
            rw [List.nil_append] at h
            rw [← h]
            rfl
          exact absurd (hs c List.mem_cons_self) (ht' c hhead)
      | cons d s' =>
          rw [List.cons_append, List.cons_append, List.cons.injEq] at h
          obtain ⟨rfl, hrest⟩ := h
          obtain ⟨rfl, rfl⟩ := ih (fun x hx => hs x (List.mem_cons_of_mem c hx))
            (fun x hx => hs' x (List.mem_cons_of_mem c hx)) hrest
          exact ⟨rfl, rfl⟩

/-! ## Texts that determine their number -/

theorem hexPadded_injective {width : Nat} {a b : Int} (h : hexPadded width a = hexPadded width b) : a = b := by
  have hvalue : ∀ w m n, zeroFill w (hexDigits m) = zeroFill w (hexDigits n) → m = n := by
    intro w m n heq
    calc
      m = hexValue (zeroFill w (hexDigits m)) := by rw [hexValue_zeroFill, hexValue_hexDigits]
      _ = hexValue (zeroFill w (hexDigits n)) := by rw [heq]
      _ = n := by rw [hexValue_zeroFill, hexValue_hexDigits]
  -- A sign is no digit, so two equal texts have the same sign.
  have hsign : ∀ w m digits, '-' :: digits ≠ zeroFill w (hexDigits m) := by
    intro w m digits heq
    have hmem : '-' ∈ zeroFill w (hexDigits m) := heq ▸ List.mem_cons_self
    exact absurd (mem_zeroFill_hexDigits hmem) (by decide)
  unfold hexPadded at h
  split at h <;> split at h
  · have := hvalue _ _ _ (List.cons.inj h).2
    omega
  · exact absurd h (hsign _ _ _)
  · exact absurd h.symm (hsign _ _ _)
  · have := hvalue _ _ _ h
    omega

theorem hex8_injective {a b : Int} (h : hex8 a = hex8 b) : a % 0x100 = b % 0x100 :=
  hexPadded_injective h

theorem hex16_injective {a b : Int} (h : hex16 a = hex16 b) : a % 0x10000 = b % 0x10000 :=
  hexPadded_injective h

theorem toDigits_ten_injective {m n : Nat} (h : Nat.toDigits 10 m = Nat.toDigits 10 n) : m = n := by
  calc
    m = Nat.ofDigitChars 10 (Nat.toDigits 10 m) 0 := Nat.ofDigitChars_ten_toDigits.symm
    _ = Nat.ofDigitChars 10 (Nat.toDigits 10 n) 0 := by rw [h]
    _ = n := Nat.ofDigitChars_ten_toDigits

theorem decimal_injective {a b : Int} (h : decimal a = decimal b) : a = b := by
  have hsign : ∀ m digits, '-' :: digits ≠ Nat.toDigits 10 m := by
    intro m digits heq
    have hmem : '-' ∈ Nat.toDigits 10 m := heq ▸ List.mem_cons_self
    exact absurd (mem_toDigits_ten hmem) (by decide)
  unfold decimal at h
  split at h <;> split at h
  · have := toDigits_ten_injective (List.cons.inj h).2
    omega
  · exact absurd h (hsign _ _)
  · exact absurd h.symm (hsign _ _)
  · have := toDigits_ten_injective h
    omega

theorem signedDecimal_injective {a b : Int} (h : signedDecimal a = signedDecimal b) : a = b := by
  have hsign : ∀ m n : Int, m < 0 → decimal m ≠ '+' :: decimal n := by
    intro m n hm heq
    rw [decimal, if_pos hm] at heq
    exact absurd (List.cons.inj heq).1 (by decide)
  unfold signedDecimal at h
  split at h <;> split at h
  · exact decimal_injective h
  · rename_i ha _
    exact absurd h (hsign a b ha)
  · rename_i _ hb
    exact absurd h.symm (hsign b a hb)
  · exact decimal_injective (List.cons.inj h).2

/-! ## Lengths -/

theorem length_zeroFill {width : Nat} {digits : List Char} (h : digits.length ≤ width) :
    (zeroFill width digits).length = width := by
  rw [zeroFill, List.length_append, List.length_replicate]
  omega

theorem length_hexDigits_le {n k : Nat} (hk : 0 < k) (h : n < Nat.pow 0x10 k) : (hexDigits n).length ≤ k := by
  rw [hexDigits, List.length_map]
  exact (Nat.length_toDigits_le_iff (by decide) hk).mpr h

@[simp] theorem length_hex8 (value : Int) : (hex8 value).length = 2 := by
  have hnonneg : ¬ value % 0x100 < 0 := by omega
  rw [hex8, hexPadded, if_neg hnonneg]
  apply length_zeroFill
  apply length_hexDigits_le (by decide)
  change (value % 0x100).natAbs < 256
  omega

@[simp] theorem length_hex16 (value : Int) : (hex16 value).length = 4 := by
  have hnonneg : ¬ value % 0x10000 < 0 := by omega
  rw [hex16, hexPadded, if_neg hnonneg]
  apply length_zeroFill
  apply length_hexDigits_le (by decide)
  change (value % 0x10000).natAbs < 65536
  omega

theorem length_decimal_le {value : Int} {k : Nat} (hk : 0 < k) (h : value.natAbs < Nat.pow 10 k) :
    (decimal value).length ≤ k + 1 := by
  have hdigits : (Nat.toDigits 10 value.natAbs).length ≤ k :=
    (Nat.length_toDigits_le_iff (by decide) hk).mpr h
  unfold decimal
  split
  · exact Nat.succ_le_succ hdigits
  · exact Nat.le_succ_of_le hdigits

theorem length_signedDecimal_le {value : Int} {k : Nat} (hk : 0 < k) (h : value.natAbs < Nat.pow 10 k) :
    (signedDecimal value).length ≤ k + 1 := by
  unfold signedDecimal
  split
  · exact length_decimal_le hk h
  · rename_i hnonneg
    have hdigits : (Nat.toDigits 10 value.natAbs).length ≤ k :=
      (Nat.length_toDigits_le_iff (by decide) hk).mpr h
    rw [decimal, if_neg hnonneg]
    exact Nat.succ_le_succ hdigits

end EightBit
