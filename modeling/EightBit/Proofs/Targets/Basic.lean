import EightBit.Proofs.Relocation
import EightBit.Proofs.Whole
set_option autoImplicit false

/-!
# Distances and targets in texts

The distance of a relative instruction is the signed number in its last bytes (`signedTail`).  Its text `Refers`
to an address: it shows the distance among words without a digit or a sign, and the address that the distance
leads to is shown behind it (`Rendering.Refers.display_some`).  A text that refers to no address shows none
(`Rendering.Refers.display_none`).
-/

namespace EightBit

/-! ## Signed numbers at the end of bytes -/

/-- The number that the bytes stand for, the high one first. -/
def bigEndian (bytes : List UInt8) : Nat :=
  bytes.foldl (fun value byte => 0x100 * value + byte.toNat) 0

/-- The signed number in the last `n` bytes. -/
def signedTail (n : Nat) (bytes : List UInt8) : Int :=
  signExtend (8 * n) (bigEndian (bytes.drop (bytes.length - n)))

theorem signedTail_eq {k n : Nat} {bytes : List UInt8} (h : bytes.length = k + n) :
    signedTail n bytes = signExtend (8 * n) (bigEndian (bytes.drop k)) := by
  rw [signedTail, h, Nat.add_sub_cancel]

theorem signedTail_byte {k : Nat} {bytes : List UInt8} {byte : UInt8} (h : bytes.length = k + 1)
    (hdrop : bytes.drop k = [byte]) : signedTail 1 bytes = signExtend 8 byte.toNat := by
  rw [signedTail_eq h, hdrop, bigEndian, List.foldl_cons, List.foldl_nil, Nat.mul_zero, Nat.zero_add]

theorem signedTail_word {k : Nat} {bytes : List UInt8} {high low : UInt8} (h : bytes.length = k + 2)
    (hdrop : bytes.drop k = [high, low]) :
    signedTail 2 bytes = signExtend 16 (joinBytes high.toNat low.toNat) := by
  rw [signedTail_eq h, hdrop, bigEndian, List.foldl_cons, List.foldl_cons, List.foldl_nil, Nat.mul_zero,
    Nat.zero_add, Int.natCast_add, Int.natCast_mul, joinBytes_toNat]
  rfl

namespace InstructionSet.Holds

variable {μ : Type} {s : InstructionSet μ} {r : Record μ} {address : Int} {bytes : List UInt8} {mode : μ}
  {shown : Rendering} {k : Nat}

/-- The last byte of a whole instruction, read as a signed number. -/
theorem readS8_last (h : s.Holds r address bytes mode shown) (hlength : bytes.length = k + 1) :
    readS8 r.buffer.code k = .ok (signedTail 1 bytes) := by
  obtain ⟨byte, hdrop⟩ : ∃ byte, bytes.drop k = [byte] := by
    apply List.length_eq_one_iff.mp
    rw [List.length_drop, hlength, Nat.add_sub_cancel_left]
  have hbyte : bytes[k]? = some byte := by
    have hentry : (bytes.drop k)[0]? = bytes[k]? := List.getElem?_drop
    rw [← hentry, hdrop]
    rfl
  rw [readS8, h.byte_eq hbyte, ok_bind, signedTail_byte hlength hdrop]
  rfl

/-- The last two bytes of a whole instruction, read as a signed number. -/
theorem readS16be_last (h : s.Holds r address bytes mode shown) (hlength : bytes.length = k + 2) :
    readS16be r.buffer.code k = .ok (signedTail 2 bytes) := by
  obtain ⟨high, low, hdrop⟩ : ∃ high low, bytes.drop k = [high, low] := by
    apply List.length_eq_two.mp
    rw [List.length_drop, hlength, Nat.add_sub_cancel_left]
  have hhigh : bytes[k]? = some high := by
    have hentry : (bytes.drop k)[0]? = bytes[k]? := List.getElem?_drop
    rw [← hentry, hdrop]
    rfl
  have hlow : bytes[k + 1]? = some low := by
    have hentry : (bytes.drop k)[1]? = bytes[k + 1]? := List.getElem?_drop
    rw [← hentry, hdrop]
    rfl
  have hword : readU16be r.buffer.code k = .ok (joinBytes high.toNat low.toNat) := by
    rw [readU16be, h.byte_eq hhigh, ok_bind, ← Int.natCast_succ, h.byte_eq hlow, ok_bind]
    rfl
  rw [readS16be, hword, ok_bind, signedTail_word hlength hdrop]
  rfl

end InstructionSet.Holds

/-! ## Texts with and without a target -/

/-- No digit, no sign and no angle bracket stands in the text. -/
def Bare (text : List Char) : Prop :=
  ∀ c ∈ text, c ∉ "0123456789+-<>".toList

instance (text : List Char) : Decidable (Bare text) :=
  decidable_of_iff ((text.all fun c => c ∉ "0123456789+-<>".toList) = true) (by simp [Bare])

theorem Bare.append {s t : List Char} (hs : Bare s) (ht : Bare t) : Bare (s ++ t) := by
  intro c hc
  rcases List.mem_append.mp hc with hc | hc
  · exact hs c hc
  · exact ht c hc

theorem Bare.not_mem {text : List Char} (h : Bare text) : '>' ∉ text :=
  fun hmem => h '>' hmem (by decide)

/-- What is shown at an address with a distance that is counted from `base` behind it, or without one. -/
inductive Rendering.Refers (shown : Rendering) (address base : Int) : Option Int → Prop
  | relative {distance : Int} {front back : List Char} (hfront : Bare front) (hback : Bare back)
      (htext : shown.text = front ++ decimal distance ++ back)
      (htarget : shown.target = some (targetOf address (base + distance))) :
      Refers shown address base (some distance)
  | plain (htarget : shown.target = none) (hmark : '>' ∉ shown.text ∨ ' ' ∉ shown.text) :
      Refers shown address base none

theorem Rendering.Refers.target_eq_none {shown : Rendering} {address base : Int}
    (h : shown.Refers address base none) : shown.target = none := by
  cases h with
  | plain htarget => exact htarget

-- The text has angle brackets of its own, but no blank in front of them.
theorem refers_unknownMode (address base : Int) : unknownMode.Refers address base none :=
  .plain rfl (.inr (by decide))

section

variable {value : Int} {c : Char}

@[simp] theorem not_mem_hex8 : '>' ∉ hex8 value :=
  fun h => absurd (mem_hexPadded h) (by decide)

@[simp] theorem not_mem_hex16 : '>' ∉ hex16 value :=
  fun h => absurd (mem_hexPadded h) (by decide)

@[simp] theorem not_mem_decimal : '>' ∉ decimal value :=
  fun h => absurd (mem_decimal h) (by decide)

theorem mem_joined {operands : List (List Char)} (h : c ∈ joined operands) : c = ',' ∨ ∃ t ∈ operands, c ∈ t := by
  induction operands with
  | nil => simp [joined] at h
  | cons first rest ih =>
      cases rest with
      | nil =>
          rw [joined_singleton] at h
          exact .inr ⟨first, List.mem_singleton_self first, h⟩
      | cons second rest =>
          rw [joined, List.intercalate_cons_cons, List.mem_append, List.mem_append, List.mem_singleton] at h
          rcases h with (hfirst | hcomma) | hrest
          · exact .inr ⟨first, List.mem_cons_self, hfirst⟩
          · exact .inl hcomma
          · rcases ih hrest with hcomma | ⟨t, ht, hmem⟩
            · exact .inl hcomma
            · exact .inr ⟨t, List.mem_cons_of_mem first ht, hmem⟩

theorem not_mem_statement {mnemonic : List Char} {operands : List (List Char)} (hname : '>' ∉ mnemonic)
    (hoperands : '>' ∉ joined operands) : '>' ∉ statement mnemonic operands := by
  by_cases hempty : operands = []
  · subst hempty
    exact hname
  · rw [statement_eq hempty]
    simp [hname, hoperands]

end

/-- A statement with a distance among bare words. -/
theorem refers_statement {mnemonic front back : List Char} (hname : Bare mnemonic) (hfront : Bare front)
    (hback : Bare back) (address base distance : Int) : Rendering.Refers
      { text := statement mnemonic [front ++ decimal distance ++ back]
        target := some (targetOf address (base + distance)) } address base (some distance) := by
  have hblank : Bare [' '] := by decide
  refine .relative (hname.append (hblank.append hfront)) hback ?_ rfl
  rw [statement_eq (List.cons_ne_nil _ _), joined_singleton]
  simp

namespace Rendering

variable {shown : Rendering} {address base distance : Int}

/-- A distance among bare words is shown with the address that it leads to. -/
theorem Refers.display_some (h : shown.Refers address base (some distance)) :
    shown.target.map wrap16 = some ((address + base + distance) % 0x10000) ∧
    ∃ front back, Bare front ∧ Bare back ∧ shown.display = .ofChars (front ++ decimal distance ++ back ++
      " <".toList ++ hex16 ((address + base + distance) % 0x10000) ++ ">".toList) := by
  cases h with
  | relative hfront hback htext htarget =>
      have hvalue : targetOf address (base + distance) = (address + base + distance) % 0x10000 := by
        rw [targetOf, wrap16, Int.add_assoc]
      have hwrap := wrap16_targetOf address (base + distance)
      rw [hvalue] at htarget hwrap
      refine ⟨?_, _, _, hfront, hback, ?_⟩
      · rw [htarget, Option.map_some, hwrap]
      · rw [display_of_some htarget, hwrap, htext, ← Text.ofChars_append, targetSuffix]
        simp

/-- Without a distance no address is shown. -/
theorem Refers.display_none (h : shown.Refers address base none) (digits : Text) :
    ¬ (Text.ofString " <" ++ digits ++ Text.ofString ">") <:+: shown.display := by
  intro hfound
  rw [display_of_none h.target_eq_none] at hfound
  have hmem : ∀ c, c = ' ' ∨ c = '>' → c ∈ shown.text := by
    intro c hc
    have hpoint : CodePoint.char c ∈ Text.ofChars shown.text := by
      apply hfound.subset
      rcases hc with rfl | rfl <;> simp [Text.ofString]
    simpa [Text.ofChars] using hpoint
  cases h with
  | plain _ hmark =>
      rcases hmark with hmark | hblank
      · exact hmark (hmem '>' (.inr rfl))
      · exact hblank (hmem ' ' (.inl rfl))

end Rendering

/-! ## Templates -/

namespace Template

/-- The kind is one of distances. -/
def isDistance (kind : OperandKind) : Bool :=
  kind = .rel8 || kind = .pcrel8

/-- The template is a bare word with a distance behind it. -/
def isJump : List (Segment Char) → Bool
  | [.literal text, .operand p] => isDistance p.kind && decide (Bare text)
  | _ => false

theorem exists_of_isJump {segments : List (Segment Char)} (h : isJump segments = true) :
    ∃ text p, segments = [.literal text, .operand p] ∧ Bare text ∧ isDistance p.kind = true := by
  unfold isJump at h
  split at h
  · rename_i text p
    rw [Bool.and_eq_true, decide_eq_true_eq] at h
    exact ⟨text, p, rfl, h.2, h.1⟩
  · cases h

variable {f : Int → Placeholder Char → Except Fault Rendering} {i : Int} {shown : Rendering}

/-- A jump is shown as its word and its distance. -/
theorem render_jump {text : List Char} {p : Placeholder Char} {value : Rendering} (hvalue : f i p = .ok value)
    (h : render f i [.literal text, .operand p] = .ok shown) :
    shown.text = text ++ value.text ∧ shown.target = value.target := by
  obtain ⟨values, hvalues, hfill, htarget⟩ := exists_of_render h
  simp only [operands, placed, List.map_cons, List.map_nil, hvalue] at hvalues
  obtain rfl : [value] = values := map_ok_injective hvalues
  simp only [List.map_cons, List.map_nil, fill, List.append_nil, Except.ok.injEq] at hfill
  rw [List.foldl_cons, List.foldl_nil, Option.or_none] at htarget
  exact ⟨hfill.symm, htarget⟩

section

variable {placeholders : List (Placeholder Char)} {t : List Char} {c : Char}

theorem mem_of_mem_literals (h : c ∈ literals (parse placeholders t)) : c ∈ t := by
  have hsource := source_parse placeholders t
  rw [← hsource]
  generalize parse placeholders t = segments at h
  induction segments with
  | nil => cases h
  | cons segment rest ih =>
      cases segment with
      | literal text =>
          rw [literals, List.mem_append] at h
          rcases h with h | h
          · exact List.mem_append_left _ h
          · exact List.mem_append_right _ (ih h)
      | operand p => exact List.mem_append_right _ (ih h)

theorem mem_of_mem_operand {p : Placeholder Char} (hp : p ∈ operands (parse placeholders t)) (h : c ∈ p.text) :
    c ∈ t := by
  have hsource := source_parse placeholders t
  rw [← hsource]
  generalize parse placeholders t = segments at hp
  induction segments with
  | nil => cases hp
  | cons segment rest ih =>
      cases segment with
      | literal text => exact List.mem_append_right _ (ih hp)
      | operand q =>
          rw [operands, List.mem_cons] at hp
          rcases hp with rfl | hp
          · exact List.mem_append_left _ h
          · exact List.mem_append_right _ (ih hp)

/-- A template whose operands are no distances is shown without a target. -/
theorem render_plain (h : render f i (parse placeholders t) = .ok shown) (hmark : '>' ∉ t)
    (hf : ∀ j p value, (j, p) ∈ placed i (operands (parse placeholders t)) → f j p = .ok value →
      value.target = none ∧ IsOperand value.text) : shown.target = none ∧ '>' ∉ shown.text := by
  obtain ⟨values, hvalues, hfill, htarget⟩ := exists_of_render h
  have hall : ∀ value ∈ values, value.target = none ∧ IsOperand value.text := by
    intro value hvalue
    obtain ⟨j, p, hp, heq⟩ := exists_placed hvalues hvalue
    exact hf j p value hp heq
  constructor
  · rw [htarget, ← Option.isNone_iff_eq_none, ← Option.not_isSome, isSome_foldl_target]
    simp only [Option.isSome_none, Bool.false_or, List.any_map, Bool.not_eq_true', List.any_eq_false]
    intro value hvalue
    simp [(hall value hvalue).1]
  · intro hmem
    rcases mem_fill hfill hmem with hliteral | ⟨text, htext, hsymbol⟩
    · exact hmark (mem_of_mem_literals hliteral)
    · obtain ⟨value, hvalue, rfl⟩ := List.mem_map.mp htext
      exact absurd ((hall value hvalue).2.symbols '>' hsymbol) (by decide)

end

end Template

end EightBit
