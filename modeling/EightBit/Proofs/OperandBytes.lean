import EightBit.Proofs.Digits
import EightBit.Proofs.Cells
import EightBit.Proofs.Words
import EightBit.InstructionSet
import Mathlib.Data.List.Basic
set_option autoImplicit false

/-!
# Bytes behind a text

Texts of two instructions are compared.  A number in a text gives back the bytes that it was read from, so
where two texts show the same number, the cells agree; and where all cells of an instruction agree, its
bytes are the same.  `Comparable` is what each family of processors has to say about two instructions of
the same opcode.
-/

namespace EightBit

/-! ## Cells that agree in a range -/

/-- Reads at the positions from `m` up to `n` do not tell the two codes apart. -/
def AgreeWithin (m n : Int) (c d : List Int) : Prop :=
  ∀ i : Int, m ≤ i → i < n → pick c i = pick d i

section

variable {c d : List Int} {i m n : Int}

theorem AgreeWithin.none (i : Int) : AgreeWithin i (i + 0) c d := by
  intro j hle hlt
  omega

theorem AgreeWithin.byte (h : pick c i = pick d i) : AgreeWithin i (i + 1) c d := by
  intro j hle hlt
  have hij : j = i := by omega
  rw [hij, h]

theorem AgreeWithin.append {k : Int} (h : AgreeWithin m k c d) (h' : AgreeWithin k n c d) :
    AgreeWithin m n c d := by
  intro j hle hlt
  rcases Int.lt_or_le j k with hj | hj
  · exact h j hle hj
  · exact h' j hj hlt

theorem AgreeWithin.word (h : pick c i = pick d i) (h' : pick c (i + 1) = pick d (i + 1)) :
    AgreeWithin i (i + 2) c d := by
  have happend := (AgreeWithin.byte h).append (.byte h')
  rwa [Int.add_assoc] at happend

end

namespace Buffer

variable {b c : Buffer}

theorem pick_of_fetched {i : Nat} {byte : UInt8} (h : b.fetched[i]? = some byte) :
    pick b.code i = .ok (byte.toNat : Int) := by
  apply pick_eq_ok (Int.natCast_nonneg i)
  have hlt : i < b.fetched.length := (List.getElem?_eq_some_iff.mp h).1
  rw [Int.toNat_natCast, code, List.getElem?_map, toList, List.getElem?_append_left hlt, h]
  rfl

/-- Fetched bytes are equal if their cells agree. -/
theorem fetched_eq_of_agreeBelow (hcount : b.count = c.count) (h : AgreeBelow b.count b.code c.code) :
    b.fetched = c.fetched := by
  apply List.ext_getElem hcount
  intro i hb hc
  have hcells := h i (Int.natCast_nonneg i) (Int.ofNat_lt.mpr hb)
  rw [pick_of_fetched (List.getElem?_eq_getElem hb), pick_of_fetched (List.getElem?_eq_getElem hc)] at hcells
  exact toNat_injective (Except.ok.inj hcells)

theorem fetched_eq_pair {x y : UInt8} (hcount : b.count = 2) (hx : pick b.code 0 = .ok (x.toNat : Int))
    (hy : pick b.code 1 = .ok (y.toNat : Int)) : b.fetched = [x, y] := by
  obtain ⟨u, v, hfetched⟩ := List.length_eq_two.mp hcount
  have hu : pick b.code 0 = .ok (u.toNat : Int) := pick_of_fetched (i := 0) (by rw [hfetched]; rfl)
  have hv : pick b.code 1 = .ok (v.toNat : Int) := pick_of_fetched (i := 1) (by rw [hfetched]; rfl)
  rw [hfetched, toNat_injective (Except.ok.inj (hu.symm.trans hx)),
    toNat_injective (Except.ok.inj (hv.symm.trans hy))]

end Buffer

/-! ## Numbers give their bytes back -/

theorem byte_of_hex8 {x y : UInt8} (h : hex8 (x.toNat : Int) = hex8 (y.toNat : Int)) : x = y :=
  eq_of_emod_eq (hex8_injective h)

theorem bytes_of_hex16 {x y x' y' : UInt8}
    (h : hex16 (joinBytes (x.toNat : Int) y.toNat) = hex16 (joinBytes (x'.toNat : Int) y'.toNat)) :
    x = x' ∧ y = y' :=
  bytes_eq_of_joinBytes (hex16_injective h)

theorem byte_of_signExtend {x y : UInt8} (h : signExtend 8 (x.toNat : Int) = signExtend 8 (y.toNat : Int)) :
    x = y :=
  eq_of_emod_eq (emod_eq_of_signExtend_eq h)

theorem bytes_of_signExtend {x y x' y' : UInt8}
    (h : signExtend 16 (joinBytes (x.toNat : Int) y.toNat) =
      signExtend 16 (joinBytes (x'.toNat : Int) y'.toNat)) :
    x = x' ∧ y = y' :=
  bytes_eq_of_joinBytes (emod_eq_of_signExtend_eq h)

/-! ## Records of the same opcode -/

/-- Two records of the same opcode have the same length, and both refer to an address or none does.  If
their texts are equal, their cells agree; the texts are also equal in an exceptional case. -/
structure Comparable {μ : Type} (exception : Prop) (r q : Record μ) (shown shown' : Rendering) : Prop where
  required_eq : r.required = q.required
  isSome_eq : shown.target.isSome = shown'.target.isSome
  agree : shown.text = shown'.text → AgreeBelow r.required r.buffer.code q.buffer.code ∨ exception
  shown_eq : exception → shown = shown'

end EightBit
