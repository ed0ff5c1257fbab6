import EightBit.Proofs.Targets.Mc6809
import EightBit.Proofs.Targets.Z80
set_option autoImplicit false

/-!
# Targets

The text of a relative instruction shows a distance in decimal and ends with the address that the distance
leads to, and the record holds the same address; no other instruction shows or holds one
(`Architecture.feed_target`).  The 6502 and the 6800 count the distance from the second byte behind the address
of the instruction, the 6809 and the Z80 from the address itself, the Z80 after adding two.
-/

namespace EightBit

/-! ## The 6502 and the 65C02 -/

namespace Mos6502

/-- The number of bytes of the distance in a relative mode. -/
def Mode.distanceBytes? : Mode → Option Nat
  | .rel8 => some 1
  | _ => none

variable {v : Variant} {r : Record Mode} {address : Int} {bytes : List UInt8} {mode : Mode} {shown : Rendering}

/-- The templates are jumps, or they have neither the symbol of a distance nor that of a target. -/
theorem opcodes_jump (v : Variant) : ∀ t ∈ v.opcodes, ('r' ∉ t.toList ∧ '>' ∉ t.toList) ∨
    Template.isJump (Template.parse placeholders t.toList) = true := by
  cases v with
  | mos6502 =>
      change ∀ t ∈ opcodes6502, _
      apply Spelled.forall_mem (P := fun t => ('r' ∉ t ∧ '>' ∉ t) ∨
        Template.isJump (Template.parse placeholders t) = true)
      · unfold opcodes6502
        repeat' constructor
      · decide +kernel
  | mos65c02 =>
      change ∀ t ∈ opcodes65c02, _
      apply Spelled.forall_mem (P := fun t => ('r' ∉ t ∧ '>' ∉ t) ∨
        Template.isJump (Template.parse placeholders t) = true)
      · unfold opcodes65c02
        repeat' constructor
      · decide +kernel

/-- A distance is written with an `r`. -/
theorem kind_of_plain {t : List Char} (hplain : 'r' ∉ t) {p : Placeholder Char}
    (hp : p ∈ Template.operands (Template.parse placeholders t)) : p.kind = .u16 ∨ p.kind = .u8 := by
  have hmem := Template.mem_of_mem_operands_parse hp
  simp only [placeholders, List.mem_cons, List.not_mem_nil, or_false] at hmem
  rcases hmem with rfl | rfl | rfl
  · exact .inl rfl
  · exact .inr rfl
  · exact absurd (Template.mem_of_mem_operand hp (c := 'r') (by decide)) hplain

theorem target_of_kind {p : Placeholder Char} {value : Rendering} (hkind : p.kind = .u16 ∨ p.kind = .u8)
    (h : operand r p = .ok value) : value.target = none := by
  obtain ⟨-, low, high, -, -, hlow, hhigh, -⟩ := r.buffer.exists_front
  rcases hkind with hkind | hkind <;>
    simp only [operand, hkind, readU16le, hlow, Int.reduceAdd, hhigh, ok_bind, pure_eq_ok, Except.ok.injEq] at h <;>
    rw [← h]

theorem distanceBytes?_of_plain {t : List Char} (hplain : 'r' ∉ t) : (modeOf t).distanceBytes? = none := by
  rw [modeOf]
  split
  · rfl
  · rename_i p rest hoperands
    have hp : p ∈ Template.operands (Template.parse placeholders t) := by
      rw [hoperands]
      exact List.mem_cons_self
    rcases kind_of_plain hplain hp with hkind | hkind <;> rw [hkind] <;> rfl

/-- The placeholder of a distance gives the relative mode. -/
theorem modeOf_jump {t text : List Char} {p : Placeholder Char}
    (hsegments : Template.parse placeholders t = [.literal text, .operand p])
    (hkind : Template.isDistance p.kind = true) : modeOf t = .rel8 := by
  rw [modeOf, hsegments]
  cases hp : p.kind <;> simp_all [Template.operands, Template.isDistance]

/-- A distance is shown with the address that it leads to. -/
theorem operand_distance {p : Placeholder Char} {distance : Int} (hkind : Template.isDistance p.kind = true)
    (hread : readS8 r.buffer.code 1 = .ok distance) : operand r p =
      .ok { text := decimal distance, target := some (targetOf r.address (r.required + distance)) } := by
  cases hp : p.kind <;> simp_all [operand, Template.isDistance]

/-- A whole instruction is shown by the template of its opcode. -/
theorem holds_template (h : (instructionSet v).Holds r address bytes mode shown) :
    ∃ t ∈ v.opcodes, mode = modeOf t.toList ∧ (bytes.length : Int) = mode.length ∧
      Template.render (fun _ p => operand r p) 1 (Template.parse placeholders t.toList) = .ok shown := by
  obtain ⟨byte, t, hmem, hbyte, ht, hlayout⟩ := exists_layout v r.buffer
  obtain ⟨k, hdecides, -⟩ := h.exists_decidesAt
  have heq := hdecides.layout_eq.symm.trans (hlayout k)
  simp only [Except.ok.injEq, Option.some.injEq, Prod.mk.injEq] at heq
  have hrender : render v r = .ok shown := h.render_eq
  simp only [render, hbyte, ht, ok_bind] at hrender
  exact ⟨t, hmem, heq.1, by rw [heq.1, heq.2], hrender⟩

theorem refers (h : (instructionSet v).Holds r address bytes mode shown) :
    shown.Refers address 2 (mode.distanceBytes?.map fun n => signedTail n bytes) := by
  obtain ⟨t, hmem, hmode, hlength, hrender⟩ := holds_template h
  rcases opcodes_jump v t hmem with ⟨hplain, hmark⟩ | hjump
  · rw [hmode, distanceBytes?_of_plain hplain]
    obtain ⟨htarget, htext⟩ := Template.render_plain hrender hmark fun j p value hp hvalue =>
      ⟨target_of_kind (kind_of_plain hplain (Template.mem_placed hp).1) hvalue, isOperand_operand hvalue⟩
    exact .plain htarget (.inl htext)
  · obtain ⟨text, p, hsegments, hbare, hkind⟩ := Template.exists_of_isJump hjump
    obtain rfl : mode = .rel8 := hmode.trans (modeOf_jump hsegments hkind)
    have hread : readS8 r.buffer.code 1 = .ok (signedTail 1 bytes) :=
      h.readS8_last (k := 1) (Int.ofNat_inj.mp hlength)
    have hvalue := operand_distance hkind hread
    rw [h.required_eq.trans hlength, h.address_eq] at hvalue
    rw [hsegments] at hrender
    obtain ⟨htext, htarget⟩ := Template.render_jump (f := fun _ p => operand r p) hvalue hrender
    exact .relative hbare (by decide : Bare []) (by rw [htext, List.append_nil]) htarget

end Mos6502

/-! ## The 6800 -/

namespace Mc6800

/-- The number of bytes of the distance in a relative mode. -/
def Mode.distanceBytes? : Mode → Option Nat
  | .relative => some 1
  | _ => none

variable {r : Record Mode} {address : Int} {bytes : List UInt8} {mode : Mode} {shown : Rendering} {b : Buffer}

theorem opcodes_bare : ∀ t ∈ opcodes, Bare t.toList := by
  apply Spelled.forall_mem (P := Bare)
  · unfold opcodes
    repeat' constructor
  · decide +kernel

theorem operands_plain {x : List (List Char) × Option Int} (hmode : mode.distanceBytes? = none)
    (h : operands mode b.code = .ok x) : x.2 = none ∧ '>' ∉ joined x.1 := by
  obtain ⟨-, first, second, -, -, hfirst, hsecond, -⟩ := b.exists_front
  cases mode <;> cases hmode <;>
    simp only [operands, readU16be, hfirst, Int.reduceAdd, hsecond, ok_bind, pure_eq_ok, Except.ok.injEq] at h <;>
    subst h <;>
    simp [joined]

theorem refers (h : instructionSet.Holds r address bytes mode shown) :
    shown.Refers address 2 (mode.distanceBytes?.map fun n => signedTail n bytes) := by
  have hrender : render r = .ok shown := h.render_eq
  by_cases hvalid : mode = .invalid
  · subst hvalid
    rw [render, h.mode_eq] at hrender
    cases hrender
    exact refers_unknownMode address 2
  · obtain ⟨byte, -, -, -, hbyte, -, -, -⟩ := r.buffer.exists_front
    obtain ⟨t, hmem, ht⟩ := exists_mnemonic byte
    obtain ⟨x, hx⟩ := exists_operands mode r.buffer
    have hname := opcodes_bare t hmem
    simp only [render, h.mode_eq, hbyte, ht, hx, ok_bind, pure_eq_ok, Except.ok.injEq] at hrender
    subst hrender
    cases hdistance : mode.distanceBytes? with
    | none =>
        obtain ⟨hnone, hmark⟩ := operands_plain hdistance hx
        exact .plain (by rw [hnone]; rfl) (.inl (not_mem_statement hname.not_mem hmark))
    | some n =>
        cases mode <;> cases hdistance
        obtain ⟨hmode, hrequired⟩ := settled_eq h.settled hbyte
        rw [h.mode_eq, Option.some.injEq] at hmode
        rw [h.required_eq, ← hmode] at hrequired
        have hlength : bytes.length = 1 + 1 := Int.ofNat_inj.mp hrequired
        have hread : readS8 r.buffer.code 1 = .ok (signedTail 1 bytes) := h.readS8_last hlength
        simp only [operands, hread, ok_bind, pure_eq_ok, Except.ok.injEq] at hx
        subst hx
        have hrefers := refers_statement hname (by decide : Bare []) (by decide : Bare []) address 2
          (signedTail 1 bytes)
        rw [h.address_eq]
        rwa [List.nil_append, List.append_nil] at hrefers

end Mc6800

/-! ## All architectures -/

namespace Architecture

/-- The number of bytes of the distance in a relative mode. -/
def distanceBytes? : (a : Architecture) → a.Mode → Option Nat
  | .mos6502 | .mos65c02 => Mos6502.Mode.distanceBytes?
  | .mc6800 => Mc6800.Mode.distanceBytes?
  | .mc6809 | .mc6809e => Mc6809.Mode.distanceBytes?
  | .z80 => Z80.Mode.distanceBytes?

/-- How far behind the address of an instruction the place is from which the distance that it shows is
counted. -/
def base : Architecture → Int
  | .mos6502 | .mos65c02 | .mc6800 => 2
  | .mc6809 | .mc6809e | .z80 => 0

/-- The difference between the distance that an instruction shows and the one in its bytes. -/
def surplus : Architecture → Int
  | .z80 => 2
  | _ => 0

/-- The distance that a relative instruction shows. -/
def distance? (a : Architecture) (mode : a.Mode) (bytes : List UInt8) : Option Int :=
  (a.distanceBytes? mode).map fun n => signedTail n bytes + a.surplus

variable {address : Int} {bytes : List UInt8} {shown : Rendering}

theorem refers (a : Architecture) {r : Record a.Mode} {mode : a.Mode}
    (h : a.instructionSet.Holds r address bytes mode shown) :
    shown.Refers address a.base (a.distance? mode bytes) := by
  unfold distance?
  cases a with
  | mos6502 | mos65c02 =>
      simp only [surplus, Int.add_zero]
      exact Mos6502.refers h
  | mc6800 =>
      simp only [surplus, Int.add_zero]
      exact Mc6800.refers h
  | mc6809 | mc6809e =>
      simp only [surplus, Int.add_zero]
      exact Mc6809.refers h
  | z80 => exact Z80.refers h

end Architecture

/-- A complete instruction refers to an address if and only if it is relative.  A relative one shows the distance,
the signed number in its last bytes, among words without a digit or a sign, and behind them the address in angle
brackets.  No other instruction shows an address in angle brackets. -/
theorem Architecture.feed_target (a : Architecture) {r : Record a.Mode} {address : Int} {bytes : List UInt8}
    (hr : r.phase ≠ .fetching) (haddress : InRange address)
    (h : a.instructionSet.CompletesAfter r address bytes bytes.length) :
    let taken := (a.instructionSet.feed r address bytes).record
    ∃ mode, taken.mode = some mode ∧ (taken.target.isSome ↔ (a.distanceBytes? mode).isSome) ∧
      (∀ distance, a.distance? mode bytes = some distance →
        taken.target = some ((address + a.base + distance) % 0x10000) ∧
        ∃ front back, Bare front ∧ Bare back ∧ taken.completeText = .ofChars (front ++ decimal distance ++ back ++
          " <".toList ++ hex16 ((address + a.base + distance) % 0x10000) ++ ">".toList)) ∧
      (a.distance? mode bytes = none → ∀ digits : Text,
        ¬ (Text.ofString " <" ++ digits ++ Text.ofString ">") <:+: taken.completeText) := by
  intro taken
  obtain ⟨mode, shown, hholds⟩ : ∃ mode shown, a.instructionSet.Holds taken address bytes mode shown :=
    a.feed_holds hr haddress h
  have hrefers := a.refers hholds
  rw [hholds.displayed, hholds.target_eq]
  refine ⟨mode, hholds.mode_eq, ?_, ?_, ?_⟩
  · rw [← Option.isSome_map (f := fun n => signedTail n bytes + a.surplus)]
    change _ ↔ (a.distance? mode bytes).isSome
    cases hdistance : a.distance? mode bytes with
    | none =>
        rw [hdistance] at hrefers
        rw [hrefers.target_eq_none]
        exact Iff.rfl
    | some distance =>
        rw [hdistance] at hrefers
        rw [hrefers.display_some.1]
        exact iff_of_true rfl rfl
  · intro distance hdistance
    rw [hdistance] at hrefers
    exact hrefers.display_some
  · intro hdistance
    rw [hdistance] at hrefers
    exact hrefers.display_none

/-- A load through a pointer that is found before the first address, by a decoder with a past. -/
theorem Architecture.feed_target_indirect :
    let r := (mc6809.instructionSet.feed {} 0x1000 [0x20, 0x10]).record
    let bytes : List UInt8 := [0xA6, 0x9D, 0x80, 0x00]
    (r.phase ≠ .fetching ∧ InRange 0x0010 ∧ mc6809.instructionSet.CompletesAfter r 0x0010 bytes bytes.length) ∧
    let taken := (mc6809.instructionSet.feed r 0x0010 bytes).record
    taken.target = some 0x8010 ∧ ∃ front back, Bare front ∧ Bare back ∧ taken.completeText =
      .ofChars (front ++ decimal (-0x8000) ++ back ++ " <".toList ++ hex16 0x8010 ++ ">".toList) := by
  intro r bytes
  have hr : r.phase ≠ .fetching := by decide +kernel
  have haddress : InRange 0x0010 := ⟨by decide, by decide⟩
  have hcompletes : mc6809.instructionSet.CompletesAfter r 0x0010 bytes bytes.length := by decide +kernel
  have hmode : (mc6809.instructionSet.feed r 0x0010 bytes).record.mode =
      some (show mc6809.Mode from .pcrel16Ind) := by decide +kernel
  obtain ⟨mode, hmode', -, hrelative, -⟩ := mc6809.feed_target hr haddress hcompletes
  rw [hmode, Option.some.injEq] at hmode'
  subst hmode'
  have hplace : (0x0010 + mc6809.base + -0x8000) % 0x10000 = 0x8010 := by decide
  have hshown := hrelative (-0x8000) (by decide +kernel)
  rw [hplace] at hshown
  exact ⟨⟨hr, haddress, hcompletes⟩, hshown⟩

end EightBit
