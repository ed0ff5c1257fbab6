import EightBit.Decoder
import EightBit.Proofs.Cells
set_option autoImplicit false

/-!
# What a decoder may rely on

A decoder hands an instruction set the whole buffer, stale cells included, and asks again after every
byte.  `Lawful` collects what makes that sound, once for all instruction sets: some beginning of the
cells decides mode and length, the length covers the bytes that decided it and stays within a bound, and
neither the decision nor the text looks at a cell behind the bytes fetched.

The decision is the first one: asked about fewer cells the instruction set leaves mode and length open.
So the cells determine it (`DecidesAt.unique`), and it does not matter how often it was asked.
-/

namespace EightBit

namespace InstructionSet

variable {μ : Type}

/-- The first `k` cells decide the mode and the length, and fewer cells leave both open. -/
structure DecidesAt (s : InstructionSet μ) (b : Buffer) (k : Nat) (mode : μ) (length : Int) : Prop where
  pos : 0 < k
  open_before : ∀ j : Nat, 0 < j → j < k → s.layout b.code j = .ok none
  layout_eq : s.layout b.code k = .ok (some (mode, length))

/-- Mode and length of the record are those that its fetched bytes decide. -/
def Settled (s : InstructionSet μ) (r : Record μ) : Prop :=
  ∃ k mode length, s.DecidesAt r.buffer k mode length ∧ k ≤ r.count ∧
    r.mode = some mode ∧ r.required = length

/-- The laws of an instruction set whose instructions have at most `longest` bytes and stay undecided
for at most `opening` of them. -/
structure Lawful (s : InstructionSet μ) (longest opening : Nat) : Prop where
  opening_lt : opening < longest
  longest_le : longest ≤ 8
  /-- Some cells in front decide, and the length covers them. -/
  decides : ∀ b : Buffer, ∃ k mode length, s.DecidesAt b k mode length ∧
    k ≤ opening + 1 ∧ (k : Int) ≤ length ∧ length ≤ longest
  /-- Asked about `k` cells, the instruction set looks at no others. -/
  layout_congr : ∀ (b c : Buffer) (k : Nat), 0 < k → AgreeBelow k b.code c.code →
    s.layout b.code k = s.layout c.code k
  /-- An instruction whose bytes are all there is shown by a text. -/
  render_ok : ∀ r : Record μ, s.Settled r → (r.count : Int) = r.required →
    ∃ shown, s.render r = .ok shown ∧ shown.text ≠ []
  /-- The text and the target do not depend on the cells behind the bytes of the instruction. -/
  render_congr : ∀ r q : Record μ, s.Settled r → (r.count : Int) = r.required →
    r.address = q.address → r.mode = q.mode → r.required = q.required →
    r.buffer.fetched = q.buffer.fetched → s.render r = s.render q

/-! ## Uniqueness of the decision -/

variable {s : InstructionSet μ} {b c : Buffer} {j k : Nat} {mode mode' : μ} {length length' : Int}

theorem DecidesAt.not_lt (h : s.DecidesAt b j mode length) (h' : s.DecidesAt b k mode' length') :
    ¬ j < k := by
  intro hlt
  have hopen := h'.open_before j h.pos hlt
  rw [h.layout_eq] at hopen
  cases hopen

/-- Cells that leave the decision open are fewer than those that decide. -/
theorem DecidesAt.le_of_open (h : s.DecidesAt b k mode length)
    (hopen : ∀ i : Nat, 0 < i → i < j → s.layout b.code i = .ok none) : j ≤ k := by
  apply Nat.le_of_not_lt
  intro hlt
  have hnone := hopen k h.pos hlt
  rw [h.layout_eq] at hnone
  cases hnone

theorem DecidesAt.unique (h : s.DecidesAt b j mode length) (h' : s.DecidesAt b k mode' length') :
    j = k ∧ mode = mode' ∧ length = length' := by
  have hjk : j = k := by
    have h₁ := h.not_lt h'
    have h₂ := h'.not_lt h
    omega
  subst hjk
  have heq := h.layout_eq.symm.trans h'.layout_eq
  simp only [Except.ok.injEq, Option.some.injEq, Prod.mk.injEq] at heq
  exact ⟨rfl, heq.1, heq.2⟩

namespace Lawful

variable {longest opening : Nat}

/-- Every decision is made in time and its length covers the cells that made it. -/
theorem bounds (law : s.Lawful longest opening) (h : s.DecidesAt b k mode length) :
    k ≤ opening + 1 ∧ (k : Int) ≤ length ∧ length ≤ longest := by
  obtain ⟨k', mode', length', h', hbounds⟩ := law.decides b
  obtain ⟨rfl, rfl, rfl⟩ := h.unique h'
  exact hbounds

/-- A decision stands in every buffer that agrees on the cells that made it. -/
theorem decidesAt_congr (law : s.Lawful longest opening) (hagree : AgreeBelow k b.code c.code)
    (h : s.DecidesAt b k mode length) : s.DecidesAt c k mode length where
  pos := h.pos
  open_before j hpos hlt := by
    rw [← law.layout_congr b c j hpos (hagree.mono (by omega))]
    exact h.open_before j hpos hlt
  layout_eq := by
    rw [← law.layout_congr b c k h.pos hagree]
    exact h.layout_eq

/-- Records that agree on the cells that decided the one have the same mode and length. -/
theorem settled_congr (law : s.Lawful longest opening) {r q : Record μ}
    (h : s.DecidesAt r.buffer k mode length) (hmode : r.mode = some mode) (hrequired : r.required = length)
    (hq : s.Settled q) (hagree : AgreeBelow k r.buffer.code q.buffer.code) :
    r.mode = q.mode ∧ r.required = q.required := by
  obtain ⟨k', mode', length', h', -, hmode', hrequired'⟩ := hq
  obtain ⟨-, rfl, rfl⟩ := (law.decidesAt_congr hagree h).unique h'
  exact ⟨hmode.trans hmode'.symm, hrequired.trans hrequired'.symm⟩

/-- Cells that were open before the last one either stay open, and then they are few, or decide now. -/
theorem open_or_decidesAt (law : s.Lawful longest opening) (hpos : 0 < k)
    (hopen : ∀ j : Nat, 0 < j → j < k → s.layout b.code j = .ok none) :
    (s.layout b.code k = .ok none ∧ k ≤ opening) ∨ ∃ mode length, s.DecidesAt b k mode length := by
  obtain ⟨d, mode, length, h, hd, -, -⟩ := law.decides b
  rcases Nat.lt_trichotomy k d with hlt | rfl | hgt
  · exact .inl ⟨h.open_before k hpos hlt, by omega⟩
  · exact .inr ⟨mode, length, h⟩
  · have hnone := hopen d h.pos hgt
    rw [h.layout_eq] at hnone
    cases hnone

end Lawful

end InstructionSet

end EightBit
