import EightBit.Proofs.Listing
import EightBit.Proofs.Mc6809
import EightBit.Proofs.Z80
set_option autoImplicit false

/-!
# Answers that further bytes do not change

A decoder asks after every byte what the bytes so far decide: the mode of an instruction, or its template.
The question is open for a while and then answered.  `Persists` says of some bytes that the answer is theirs
alone: bytes behind them do not change it, whether they are counted or not, and the length that goes with it
covers the bytes that gave it.

For that it is enough that a question looks only at the bytes that it is asked about and is answered by four
of them (`Decisive`): bytes that are fewer are a beginning of bytes that decide.
-/

namespace EightBit

variable {τ : Type}

/-- Asked about one byte, about two and so on, the question is answered at `k` bytes for the first time.  No
decoder asks about no byte at all, and an answer there would only make the least count smaller. -/
structure FirstAnsweredAt (ask : List Int → Int → Except Fault (Option τ)) (code : List Int) (k : Nat) :
    Prop where
  pos : 0 < k
  answered : ask code k ≠ .ok none
  open_before : ∀ j : Nat, 0 < j → j < k → ask code j = .ok none

/-- What the bytes decide stands whatever bytes follow, and the length that it gives the instruction, if it
has one, is not below the least count at which it is decided. -/
structure Persists (ask : List Int → Int → Except Fault (Option τ))
    (lengthOf : List Int → τ → Except Fault Int) (HasLength : τ → Prop) (bytes more : List UInt8) : Prop where
  /-- The question is open or answered. -/
  asked : ∃ answer, ask (imageOf bytes) bytes.length = .ok answer
  /-- A byte that is not counted is not looked at. -/
  uncounted : ask (imageOf (bytes ++ more)) bytes.length = ask (imageOf bytes) bytes.length
  /-- An answer stays the same when further bytes are counted. -/
  kept : ∀ answer, ask (imageOf bytes) bytes.length = .ok (some answer) →
    ∀ m : Nat, bytes.length ≤ m → m ≤ bytes.length + more.length →
      ask (imageOf (bytes ++ more)) m = .ok (some answer)
  /-- The bytes that were needed for an answer are bytes of the instruction. -/
  covered : ∀ answer, ask (imageOf bytes) bytes.length = .ok (some answer) → HasLength answer →
    ∃ k length, FirstAnsweredAt ask (imageOf bytes) k ∧ lengthOf (imageOf bytes) answer = .ok length ∧
      (k : Int) ≤ length

/-! ## Questions that four bytes answer -/

/-- Up to the end of the bytes, the question is open below `k` of them and has the same answer from there
on, whose length covers these `k`. -/
structure AnsweredFrom (ask : List Int → Int → Except Fault (Option τ))
    (lengthOf : List Int → τ → Except Fault Int) (HasLength : τ → Prop) (bytes : List UInt8) (k : Nat)
    (answer : τ) : Prop where
  pos : 0 < k
  open_before : ∀ n : Nat, 0 < n → n ≤ bytes.length → n < k → ask (imageOf bytes) n = .ok none
  answered : ∀ n : Nat, k ≤ n → n ≤ bytes.length → ask (imageOf bytes) n = .ok (some answer)
  covered : k ≤ bytes.length → HasLength answer →
    ∃ length, lengthOf (imageOf bytes) answer = .ok length ∧ (k : Int) ≤ length

/-- A question that looks at no byte it is not asked about, and that four bytes answer. -/
structure Decisive (ask : List Int → Int → Except Fault (Option τ))
    (lengthOf : List Int → τ → Except Fault Int) (HasLength : τ → Prop) : Prop where
  congr : ∀ (c d : List Int) (n : Int), AgreeBelow n c d → 0 < n → ask c n = ask d n
  length_congr : ∀ (c d : List Int) (n : Int) (answer : τ), AgreeBelow n c d → 0 < n →
    ask c n = .ok (some answer) → lengthOf c answer = lengthOf d answer
  decides : ∀ bytes : List UInt8, 4 ≤ bytes.length →
    ∃ k answer, AnsweredFrom ask lengthOf HasLength bytes k answer

theorem agreeBelow_append (bytes more : List UInt8) {n : Nat} (h : n ≤ bytes.length) :
    AgreeBelow n (imageOf bytes) (imageOf (bytes ++ more)) := by
  apply AgreeBelow.of_take_eq
  rw [imageOf, imageOf, ← List.map_take, ← List.map_take, List.take_append_of_le_length h]

section

variable {ask : List Int → Int → Except Fault (Option τ)} {lengthOf : List Int → τ → Except Fault Int}
  {HasLength : τ → Prop} {bytes : List UInt8} {k n : Nat} {answer other : τ}

/-- Bytes that have an answer are not fewer than those that decide, and it is the one they decide. -/
theorem AnsweredFrom.of_answer (h : AnsweredFrom ask lengthOf HasLength bytes k answer) (hpos : 0 < n)
    (hn : n ≤ bytes.length) (hother : ask (imageOf bytes) n = .ok (some other)) : k ≤ n ∧ answer = other := by
  have hk : k ≤ n := by
    apply Nat.le_of_not_lt
    intro hlt
    rw [h.open_before n hpos hn hlt] at hother
    cases hother
  rw [h.answered n hk hn] at hother
  cases hother
  exact ⟨hk, rfl⟩

namespace Decisive

theorem ask_append (law : Decisive ask lengthOf HasLength) (more : List UInt8) (hpos : 0 < n)
    (h : n ≤ bytes.length) : ask (imageOf (bytes ++ more)) n = ask (imageOf bytes) n :=
  (law.congr _ _ n (agreeBelow_append bytes more h) (by omega)).symm

/-- Bytes of any number are the beginning of bytes that decide: with zeros behind them there are four, and
up to their own end the zeros make no difference. -/
theorem exists_answeredFrom (law : Decisive ask lengthOf HasLength) (bytes : List UInt8) :
    ∃ k answer, AnsweredFrom ask lengthOf HasLength bytes k answer := by
  obtain ⟨k, answer, h⟩ := law.decides (bytes ++ List.replicate 4 0) (by simp)
  have hpos := h.pos
  have hlength : bytes.length ≤ (bytes ++ List.replicate 4 0).length := by simp
  have hanswered : ∀ n : Nat, k ≤ n → n ≤ bytes.length → ask (imageOf bytes) n = .ok (some answer) := by
    intro n hk hn
    rw [← law.ask_append _ (by omega) hn]
    exact h.answered n hk (by omega)
  refine ⟨k, answer, hpos, ?_, hanswered, ?_⟩
  · intro n hn0 hn hlt
    rw [← law.ask_append _ hn0 hn]
    exact h.open_before n hn0 (by omega) hlt
  · intro hk hsized
    have hagree := agreeBelow_append bytes (List.replicate 4 0) hk
    rw [law.length_congr _ _ k answer hagree (by omega) (hanswered k (Nat.le_refl k) hk)]
    exact h.covered (by omega) hsized

theorem persists (law : Decisive ask lengthOf HasLength) (hne : bytes ≠ []) (more : List UInt8) :
    Persists ask lengthOf HasLength bytes more := by
  have hpos : 0 < bytes.length := List.length_pos_iff.mpr hne
  have huncounted := law.ask_append more hpos (Nat.le_refl bytes.length)
  obtain ⟨k, decided, h⟩ := law.exists_answeredFrom bytes
  refine ⟨?_, huncounted, ?_, ?_⟩
  · rcases Nat.lt_or_ge bytes.length k with hlt | hge
    · exact ⟨none, h.open_before _ hpos (Nat.le_refl _) hlt⟩
    · exact ⟨some decided, h.answered _ hge (Nat.le_refl _)⟩
  · intro answer hanswer m hle hm
    -- Both counts are taken in all the bytes, and the smaller one is answered there already.
    obtain ⟨j, decided', h'⟩ := law.exists_answeredFrom (bytes ++ more)
    have hlength : (bytes ++ more).length = bytes.length + more.length := List.length_append
    rw [← huncounted] at hanswer
    obtain ⟨hj, rfl⟩ := h'.of_answer hpos (by omega) hanswer
    exact h'.answered m (by omega) (by omega)
  · intro answer hanswer hsized
    obtain ⟨hk, rfl⟩ := h.of_answer hpos (Nat.le_refl _) hanswer
    obtain ⟨length, hlength, hle⟩ := h.covered hk hsized
    refine ⟨k, length, ⟨h.pos, ?_, fun j hj hlt => h.open_before j hj (by omega) hlt⟩, hlength, hle⟩
    rw [h.answered k (Nat.le_refl k) hk]
    simp

end Decisive

end

/-! ## The mode of the 6809 and the template of the Z80 -/

/-- The bytes from which mode and template are decided. -/
theorem exists_front_imageOf {bytes : List UInt8} (h : 4 ≤ bytes.length) :
    ∃ first second third fourth : UInt8,
      pick (imageOf bytes) 0 = .ok (first.toNat : Int) ∧ pick (imageOf bytes) 1 = .ok (second.toNat : Int) ∧
      pick (imageOf bytes) 2 = .ok (third.toNat : Int) ∧ pick (imageOf bytes) 3 = .ok (fourth.toNat : Int) := by
  have hpick : ∀ n : Nat, n < 4 → ∃ byte : UInt8, pick (imageOf bytes) n = .ok (byte.toNat : Int) := by
    intro n hn
    have hlt : n < bytes.length := Nat.lt_of_lt_of_le hn h
    refine ⟨bytes[n], pick_eq_ok (Int.natCast_nonneg n) ?_⟩
    simp [imageOf, hlt]
  obtain ⟨first, h0⟩ := hpick 0 (by decide)
  obtain ⟨second, h1⟩ := hpick 1 (by decide)
  obtain ⟨third, h2⟩ := hpick 2 (by decide)
  obtain ⟨fourth, h3⟩ := hpick 3 (by decide)
  exact ⟨first, second, third, fourth, h0, h1, h2, h3⟩

namespace Mc6809

/-- The length of an instruction in a mode, its first byte taken from the code. -/
def lengthOf (code : List Int) (mode : Mode) : Except Fault Int := do
  mode.instructionLength (← pick code 0)

theorem decisive : Decisive Mode.ofCode lengthOf (· ≠ .invalid) where
  congr _ _ _ hagree hpos := Mode.ofCode_congr hagree hpos
  length_congr _ _ _ mode hagree hpos _ := by simp only [lengthOf, hagree.first hpos]
  decides bytes hlength := by
    obtain ⟨opcode, second, third, -, h0, h1, h2, -⟩ := exists_front_imageOf hlength
    obtain ⟨k, mode, h⟩ := Mode.exists_decidedAt h0 h1 h2
    refine ⟨k, mode, h.pos, fun n hpos _ hlt => h.open_before n hpos hlt, fun n hk _ => h.decided n hk, ?_⟩
    intro _ hvalid
    obtain ⟨n, hn⟩ := Option.ne_none_iff_exists'.mp (mt Mode.operandBytes?_eq_none_iff.mp hvalid)
    refine ⟨_, ?_, h.covered n hn⟩
    rw [lengthOf, h0, ok_bind, Mode.instructionLength_eq hn]

end Mc6809

namespace Z80

/-- The length of an instruction with a template: its opcode, and the operands that the template has
places for. -/
def lengthOf (code : List Int) (template : List Char) : Except Fault Int := do
  return (← opcodeLength code) +
    Template.operandBytes (Template.operands (Template.parse placeholders template))

/-- The second byte is part of the length behind an index lead only, and there it was needed for the
template. -/
theorem lengthOf_congr {c d : List Int} {n : Int} {t : List Char} (hagree : AgreeBelow n c d) (hpos : 0 < n)
    (h : templateOf c n = .ok (some t)) : lengthOf c t = lengthOf d t := by
  have h0 := hagree.first hpos
  cases hopcode : pick d 0 with
  | error e => simp [lengthOf, opcodeLength, h0, hopcode]
  | ok opcode =>
      cases hindex : isIndexLead opcode with
      | false => simp [lengthOf, opcodeLength, h0, hopcode, hindex]
      | true =>
          have htwo : ¬ n < 2 := by
            intro hlt
            simp [templateOf, h0, hopcode, hindex, hlt] at h
          simp only [lengthOf, opcodeLength, h0, hagree.second (by omega)]

theorem decisive : Decisive templateOf lengthOf (fun _ => True) where
  congr _ _ _ hagree hpos := templateOf_congr hagree hpos
  length_congr _ _ _ _ hagree hpos h := lengthOf_congr hagree hpos h
  decides bytes hlength := by
    obtain ⟨opcode, second, -, fourth, h0, h1, -, h3⟩ := exists_front_imageOf hlength
    obtain ⟨k, t, offset, length, h⟩ := exists_decidedAt h0 h1 h3
    refine ⟨k, t, h.pos, fun n hpos _ hlt => h.open_before n hpos hlt, fun n hk _ => h.decided n hk, ?_⟩
    intro _ _
    refine ⟨_, ?_, h.covered⟩
    rw [lengthOf, h.opcodeLength_eq, ok_bind]
    rfl

end Z80

/-- What one byte or more decide about an instruction, its mode on the 6809 and its template on the Z80,
stands whatever bytes follow, and the length of the instruction is not below the number of bytes that were
needed to decide it.  Only the invalid mode has no length. -/
theorem determination_persists :
    (∀ bytes more : List UInt8, bytes ≠ [] →
      Persists Mc6809.Mode.ofCode Mc6809.lengthOf (· ≠ .invalid) bytes more) ∧
    (∀ bytes more : List UInt8, bytes ≠ [] →
      Persists Z80.templateOf Z80.lengthOf (fun _ => True) bytes more) :=
  ⟨fun _ more hne => Mc6809.decisive.persists hne more, fun _ more hne => Z80.decisive.persists hne more⟩

/-- A postbyte on the second page and an opcode behind a displacement are the last bytes that can decide. -/
theorem determination_persists_last_byte :
    ([0x10, 0xA3, 0x9F] : List UInt8) ≠ [] ∧ ([0xDD, 0xCB, 0x7F, 0x46] : List UInt8) ≠ [] ∧
    Mc6809.Mode.ofCode (imageOf [0x10, 0xA3, 0x9F, 0x12, 0x34]) 5 = .ok (some .extendedInd) ∧
    Z80.templateOf (imageOf [0xDD, 0xCB, 0x7F, 0x46, 0x00]) 5 = .ok (some "BIT 0,(IX+ddd)".toList) ∧
    ∃ k length, FirstAnsweredAt Z80.templateOf (imageOf [0xDD, 0xCB, 0x7F, 0x46]) k ∧
      Z80.lengthOf (imageOf [0xDD, 0xCB, 0x7F, 0x46]) "BIT 0,(IX+ddd)".toList = .ok length ∧ k ≤ length := by
  have hmode : Mc6809.Mode.ofCode (imageOf [0x10, 0xA3, 0x9F]) 3 = .ok (some .extendedInd) :=
    eq_ok_of_toOption (by decide)
  have htemplate : Z80.templateOf (imageOf [0xDD, 0xCB, 0x7F, 0x46]) 4 = .ok (some "BIT 0,(IX+ddd)".toList) :=
    eq_ok_of_toOption (by decide)
  have hpaged := determination_persists.1 [0x10, 0xA3, 0x9F] [0x12, 0x34] (by decide)
  have hbit := determination_persists.2 [0xDD, 0xCB, 0x7F, 0x46] [0x00] (by decide)
  exact ⟨by decide, by decide, hpaged.kept _ hmode 5 (by decide) (by decide),
    hbit.kept _ htemplate 5 (by decide) (by decide), hbit.covered _ htemplate trivial⟩

end EightBit
