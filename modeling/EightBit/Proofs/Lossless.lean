import EightBit.Proofs.StatementBytes
import EightBit.Proofs.TemplateBytes
set_option autoImplicit false

/-!
# What a text tells

The text of an instruction shows all of its operand bytes: instructions of the same opcode that have the
same text are equal.  Only the registers of an exchange or a transfer of the 6809 may differ, where they
have no names and are shown by a question mark (`text_eq_iff`).

`opcodeOf` says which bytes count as the opcode.  The leading bytes belong to it, the postbyte of an
indexed mode does, and behind two leading bytes of the Z80 it is split by the displacement.
-/

namespace EightBit

/-- Lists with a common beginning have the same entries there. -/
theorem getElem?_eq_of_take_eq {α : Type} {x y : List α} {i m n : Nat} (h : x.take m = y.take n) (hm : i < m)
    (hi : i < x.length) : x[i]? = y[i]? := by
  have hentry : (x.take m)[i]? = some x[i] := by
    rw [List.getElem?_take_of_lt hm, List.getElem?_eq_getElem hi]
  rw [h] at hentry
  have hlt : i < (y.take n).length := (List.getElem?_eq_some_iff.mp hentry).1
  rw [List.length_take] at hlt
  rw [List.getElem?_take_of_lt (by omega)] at hentry
  rw [hentry, List.getElem?_eq_getElem hi]

theorem Buffer.pick_eq_of_fetched_eq {b c : Buffer} {i : Nat} (hi : i < b.count)
    (h : b.fetched[i]? = c.fetched[i]?) : pick b.code i = pick c.code i := by
  have hb := List.getElem?_eq_getElem hi
  rw [pick_of_fetched hb, pick_of_fetched (h.symm.trans hb)]

/-! ## Opcodes of the 6809 -/

namespace Mc6809

/-- The opcode of the first page has a postbyte. -/
def hasPostbyte (opcode : UInt8) : Bool :=
  (0x30 ≤ opcode && opcode ≤ 0x33) || [0x6, 0xA, 0xE].contains (opcode / 0x10)

/-- The opcode of the second or third page has a postbyte. -/
def hasPagedPostbyte (page opcode : UInt8) : Bool :=
  opcode / 0x10 = 0xA || (page = 0x10 && opcode / 0x10 = 0xE)

/-- The number of bytes of page, opcode and postbyte. -/
def opcodeCount : List UInt8 → Nat
  | first :: second :: _ =>
      if first = 0x10 ∨ first = 0x11 then if hasPagedPostbyte first second then 3 else 2
      else if hasPostbyte first then 2 else 1
  | _ => 1

/-- The bytes of page, opcode and postbyte. -/
def opcodeOf (bytes : List UInt8) : List UInt8 :=
  bytes.take (opcodeCount bytes)

variable {b c : Buffer}

theorem opensPage_iff (opcode : UInt8) :
    Mode.opensPage opcode.toNat = true ↔ opcode = 0x10 ∨ opcode = 0x11 := by
  simp only [Mode.opensPage, Bool.or_eq_true, decide_eq_true_eq]
  constructor
  · rintro (h | h)
    · exact .inl (toNat_injective h)
    · exact .inr (toNat_injective h)
  · rintro (rfl | rfl)
    · exact .inl rfl
    · exact .inr rfl

theorem isNone_ofOpcode? : ∀ opcode : UInt8, (Mode.ofOpcode? opcode.toNat).isNone = hasPostbyte opcode :=
  forall_byte (by decide +kernel)

theorem isNone_ofPagedOpcode? {page : UInt8} (hpage : page = 0x10 ∨ page = 0x11) (opcode : UInt8) :
    (Mode.ofPagedOpcode? (joinBytes page.toNat opcode.toNat)).isNone = hasPagedPostbyte page opcode := by
  rcases hpage with rfl | rfl
  · exact forall_byte (P := fun opcode => (Mode.ofPagedOpcode? (joinBytes 0x10 opcode.toNat)).isNone =
      hasPagedPostbyte 0x10 opcode) (by decide +kernel) opcode
  · exact forall_byte (P := fun opcode => (Mode.ofPagedOpcode? (joinBytes 0x11 opcode.toNat)).isNone =
      hasPagedPostbyte 0x11 opcode) (by decide +kernel) opcode

/-- Page, opcode and postbyte decide the mode. -/
theorem exists_ofCode_opcodeCount {first second : UInt8} {rest : List UInt8}
    (h : b.fetched = first :: second :: rest) :
    ∃ mode, Mode.ofCode b.code (opcodeCount b.fetched) = .ok (some mode) := by
  obtain ⟨third, h2⟩ := b.exists_pick_code (i := 2) (by decide) (by decide)
  have h0 : pick b.code 0 = .ok (first.toNat : Int) := Buffer.pick_of_fetched (i := 0) (by rw [h]; rfl)
  have h1 : pick b.code 1 = .ok (second.toNat : Int) := Buffer.pick_of_fetched (i := 1) (by rw [h]; rfl)
  rw [h, opcodeCount]
  cases hpage : Mode.opensPage first.toNat with
  | true =>
      have hfirst := (opensPage_iff first).mp hpage
      rw [if_pos hfirst, ← isNone_ofPagedOpcode? hfirst second]
      cases hmode : Mode.ofPagedOpcode? (joinBytes first.toNat second.toNat) with
      | some mode =>
          refine ⟨mode, ?_⟩
          change Mode.ofCode b.code (2 : Nat) = _
          rw [Mode.ofCode_of_page h0 hpage (by decide), Mode.ofPaged_of_some h0 h1 hmode (by decide)]
      | none =>
          refine ⟨Mode.ofPostbyte (UInt8.ofInt third.toNat), ?_⟩
          change Mode.ofCode b.code (3 : Nat) = _
          rw [Mode.ofCode_of_page h0 hpage (by decide), Mode.ofPaged_of_none h0 h1 hmode (by decide),
            Mode.ofPostbyteAt_of_lt h2 (by decide)]
  | false =>
      have hfirst : ¬ (first = 0x10 ∨ first = 0x11) := by
        rw [← opensPage_iff, hpage]
        exact Bool.false_ne_true
      rw [if_neg hfirst, ← isNone_ofOpcode? first]
      cases hmode : Mode.ofOpcode? first.toNat with
      | some mode =>
          refine ⟨mode, ?_⟩
          change Mode.ofCode b.code (1 : Nat) = _
          rw [Mode.ofCode_of_some h0 hpage hmode (by decide)]
      | none =>
          refine ⟨Mode.ofPostbyte (UInt8.ofInt second.toNat), ?_⟩
          change Mode.ofCode b.code (2 : Nat) = _
          rw [Mode.ofCode_of_none h0 hpage hmode (by decide), Mode.ofPostbyteAt_of_lt h1 (by decide)]

theorem layout_ne_open {code : List Int} {count : Int} {mode : Mode}
    (h : Mode.ofCode code count = .ok (some mode)) : layout code count ≠ .ok none := by
  intro hopen
  rw [layout, h, ok_bind] at hopen
  split at hopen
  · contradiction
  · cases hopen
  · rename_i mode' _ _
    cases hopcode : pick code 0 with
    | error e => simp [hopcode] at hopen
    | ok opcode => cases hlength : mode'.instructionLength opcode <;> simp [hopcode, hlength] at hopen

theorem opcodeCount_pos (bytes : List UInt8) : 0 < opcodeCount bytes := by
  unfold opcodeCount
  repeat' split
  all_goals decide

/-- No byte behind page, opcode and postbyte is needed to decide. -/
theorem le_opcodeCount {k : Nat} {mode : Mode} {length : Int} (h : instructionSet.DecidesAt b k mode length)
    (hk : k ≤ b.count) : k ≤ opcodeCount b.fetched := by
  have hpos := opcodeCount_pos b.fetched
  rcases Nat.lt_or_ge (opcodeCount b.fetched) k with hlt | hge
  · have hopen := h.open_before _ hpos hlt
    have htwo : 2 ≤ b.fetched.length := Nat.le_trans (Nat.lt_of_le_of_lt hpos hlt) hk
    match hfetched : b.fetched, htwo with
    | first :: second :: rest, _ =>
        obtain ⟨mode, hmode⟩ := exists_ofCode_opcodeCount hfetched
        exact absurd hopen (layout_ne_open hmode)
  · exact hge

theorem agreeBelow_of_opcodeOf_eq (h : opcodeOf b.fetched = opcodeOf c.fetched) {k : Nat} {mode : Mode}
    {length : Int} (hdecides : instructionSet.DecidesAt b k mode length) (hk : k ≤ b.count) :
    AgreeBelow k b.code c.code := by
  have hle := le_opcodeCount hdecides hk
  intro i h0 hi
  obtain ⟨j, rfl⟩ := Int.eq_ofNat_of_zero_le h0
  have hj : j < k := Int.ofNat_lt.mp hi
  apply Buffer.pick_eq_of_fetched_eq (Nat.lt_of_lt_of_le hj hk)
  exact getElem?_eq_of_take_eq h (Nat.lt_of_lt_of_le hj hle) (Nat.lt_of_lt_of_le hj hk)

end Mc6809

/-! ## Opcodes of the Z80 -/

namespace Z80

/-- The leading bytes and the opcode. -/
def opcodeOf : List UInt8 → List UInt8
  | first :: second :: rest =>
      if isIndexLead first.toNat ∧ second = 0xCB then first :: second :: rest[1]?.toList
      else if isLead first.toNat then [first, second]
      else [first]
  | bytes => bytes

variable {b c : Buffer} {bytes : List UInt8}

theorem opcodeOf_first (bytes : List UInt8) : (opcodeOf bytes)[0]? = bytes[0]? := by
  unfold opcodeOf
  repeat' split
  all_goals rfl

theorem opcodeOf_second {lead : UInt8} (h0 : bytes[0]? = some lead) (h : isLead lead.toNat = true) :
    (opcodeOf bytes)[1]? = bytes[1]? := by
  unfold opcodeOf
  split
  · cases h0
    rw [if_pos h]
    split <;> rfl
  · rfl

theorem opcodeOf_fourth {lead : UInt8} (h0 : bytes[0]? = some lead) (h : isIndexLead lead.toNat = true)
    (h1 : bytes[1]? = some 0xCB) : (opcodeOf bytes)[2]? = bytes[3]? := by
  match bytes, h0, h1 with
  | lead :: _ :: rest, rfl, rfl =>
      rw [opcodeOf, if_pos ⟨h, rfl⟩]
      change rest[1]?.toList[0]? = rest[1]?
      cases rest[1]? <;> rfl

/-- Bytes with the same leading bytes and opcode fill the same cells with them. -/
theorem sameOpcode_of_opcodeOf_eq {k : Nat} {t : List Char} {offset length : Int}
    (hdecided : DecidedAt b.code k t offset length) (hk : k ≤ b.count)
    (h : opcodeOf b.fetched = opcodeOf c.fetched) : SameOpcode b c := by
  have hpos : 0 < b.count := Nat.lt_of_lt_of_le hdecided.pos hk
  obtain ⟨lead, hlead⟩ : ∃ lead, b.fetched[0]? = some lead := ⟨_, List.getElem?_eq_getElem hpos⟩
  have hfirst : b.fetched[0]? = c.fetched[0]? := by rw [← opcodeOf_first, h, opcodeOf_first]
  have hlead' : c.fetched[0]? = some lead := hfirst.symm.trans hlead
  have hcell : pick b.code 0 = .ok (lead.toNat : Int) := Buffer.pick_of_fetched (i := 0) hlead
  have hsecond : isLead lead.toNat = true → b.fetched[1]? = c.fetched[1]? := by
    intro hleads
    rw [← opcodeOf_second hlead hleads, h, opcodeOf_second hlead' hleads]
  exact {
    first := Buffer.pick_eq_of_fetched_eq (i := 0) hpos hfirst
    second := by
      intro byte hbyte hleads
      have hcount := hdecided.two_le hbyte hleads
      rw [hcell] at hbyte
      cases hbyte
      exact Buffer.pick_eq_of_fetched_eq (i := 1) (by omega) (hsecond hleads)
    fourth := by
      intro byte hbyte hindex hbit
      have hcount := hdecided.four_le hbyte hindex hbit
      rw [hcell] at hbyte
      cases hbyte
      have hone : 1 < b.fetched.length := by
        change 1 < b.count
        omega
      have hlast : b.fetched[1]? = some 0xCB := by
        have hentry := List.getElem?_eq_getElem hone
        have hcells := (Buffer.pick_of_fetched (i := 1) hentry).symm.trans hbit
        have hbyte : b.fetched[1] = 0xCB := toNat_injective (Except.ok.inj hcells)
        rw [hentry, hbyte]
      have hlast' : c.fetched[1]? = some 0xCB := (hsecond (by simp [isLead, hindex])).symm.trans hlast
      apply Buffer.pick_eq_of_fetched_eq (i := 3) (by omega)
      rw [← opcodeOf_fourth hlead hindex hlast, h, opcodeOf_fourth hlead' hindex hlast'] }

end Z80

/-! ## Instructions of the same opcode -/

namespace Rendering

/-- The address behind a text has a width of its own, so the text can be told from it. -/
theorem text_eq_of_display_eq {shown shown' : Rendering} (hsome : shown.target.isSome = shown'.target.isSome)
    (h : shown.display = shown'.display) : shown.text = shown'.text := by
  cases htarget : shown.target with
  | none =>
      have htarget' : shown'.target = none := by
        rw [htarget] at hsome
        exact Option.isNone_iff_eq_none.mp (Option.isSome_eq_false_iff.mp hsome.symm)
      rw [display_of_none htarget, display_of_none htarget'] at h
      exact Text.ofChars_inj.mp h
  | some target =>
      obtain ⟨target', htarget'⟩ : ∃ target', shown'.target = some target' := by
        rw [htarget] at hsome
        exact Option.isSome_iff_exists.mp hsome.symm
      rw [display_of_some htarget, display_of_some htarget'] at h
      apply Text.ofChars_inj.mp
      apply List.append_inj_left' h
      rw [Text.length_ofChars, Text.length_ofChars, length_targetSuffix, length_targetSuffix]

end Rendering

namespace Architecture

open InstructionSet

/-- The leading bytes and the opcode of an instruction, with the postbyte of an indexed mode. -/
def opcodeOf : Architecture → List UInt8 → List UInt8
  | .mos6502 | .mos65c02 | .mc6800 => List.take 1
  | .mc6809 | .mc6809e => Mc6809.opcodeOf
  | .z80 => Z80.opcodeOf

/-- The bytes are two exchanges or two transfers of registers that cannot be told apart by their names. -/
def SameTransfer : Architecture → List UInt8 → List UInt8 → Prop
  | .mos6502 | .mos65c02 | .mc6800 | .z80 => fun _ _ => False
  | .mc6809 | .mc6809e => Mc6809.SameTransfer

variable {a : Architecture} {r q : Record a.Mode} {shown shown' : Rendering}

theorem first_eq_of_take_eq {b c : Buffer} (hpos : 0 < b.count) (h : b.fetched.take 1 = c.fetched.take 1) :
    pick b.code 0 = pick c.code 0 :=
  Buffer.pick_eq_of_fetched_eq (i := 0) hpos (getElem?_eq_of_take_eq h (by decide) hpos)

theorem comparable (h : a.instructionSet.Shown r shown) (h' : a.instructionSet.Shown q shown')
    (hopcode : a.opcodeOf r.buffer.fetched = a.opcodeOf q.buffer.fetched) :
    Comparable (a.SameTransfer r.buffer.fetched q.buffer.fetched) r q shown shown' := by
  obtain ⟨k, mode, length, hdecides, hk, -, -⟩ := h.settled
  have hpos : 0 < r.count := Nat.lt_of_lt_of_le hdecides.pos hk
  cases a with
  | mos6502 =>
      exact Mos6502.comparable h.settled h'.settled (first_eq_of_take_eq hpos hopcode) h.render_eq h'.render_eq
  | mos65c02 =>
      exact Mos6502.comparable h.settled h'.settled (first_eq_of_take_eq hpos hopcode) h.render_eq h'.render_eq
  | mc6800 =>
      exact Mc6800.comparable h.settled h'.settled (first_eq_of_take_eq hpos hopcode) h.render_eq h'.render_eq
  | mc6809 | mc6809e =>
      exact Mc6809.comparable h.settled h'.settled h.count_eq h'.count_eq
        (fun _ _ _ => Mc6809.agreeBelow_of_opcodeOf_eq hopcode) h.render_eq h'.render_eq
  | z80 =>
      obtain ⟨_, _, _, _, hdecided, hle, -⟩ := Z80.settled_template h.settled
      have hsame := Z80.sameOpcode_of_opcodeOf_eq hdecided hle hopcode
      exact Z80.comparable h.settled h'.settled hsame h.render_eq h'.render_eq

/-- A record that has taken the bytes of one instruction holds them, and it shows its text whole. -/
theorem feed_shown (a : Architecture) {r : Record a.Mode} {address : Int} {bytes : List UInt8}
    (hr : r.phase ≠ .fetching) (haddress : InRange address)
    (h : a.instructionSet.CompletesAfter r address bytes bytes.length) :
    let taken := (a.instructionSet.feed r address bytes).record
    ∃ shown, a.instructionSet.Shown taken shown ∧ taken.buffer.fetched = bytes ∧
      taken.completeText = shown.display := by
  obtain ⟨shown, hshown⟩ := a.lawful.exists_shown hr haddress h
  have haccepted := a.lawful.feed_accepted hr haddress h.pos h.le_length h.fetching
  have hcomplete := h.complete
  rw [List.take_length] at hshown haccepted hcomplete
  refine ⟨shown, hshown, haccepted.fetched_eq, ?_⟩
  rw [Record.completeText, if_pos hcomplete]
  exact hshown.text_eq_display (a.render_fits hshown.settled hshown.render_eq)

/-- Instructions that differ in registers without names are shown as exchanges and transfers are. -/
theorem display_of_sameTransfer (h : a.instructionSet.Shown r shown) {opcode registers : UInt8}
    {y : List UInt8} (hfetched : r.buffer.fetched = [opcode, registers])
    (hsame : a.SameTransfer [opcode, registers] y) :
    shown.display = .ofChars (Mc6809.transferText opcode registers) := by
  cases a with
  | mos6502 | mos65c02 | mc6800 | z80 => exact hsame.elim
  | mc6809 | mc6809e =>
      obtain ⟨_, hopcode, _, _, heq, -⟩ := hsame
      cases heq
      have hrender := (Mc6809.render_transfer hopcode h.settled hfetched).symm.trans h.render_eq
      rw [← Except.ok.inj hrender]
      rfl

/-- Complete instructions of the same opcode have the same text if and only if their bytes are the same, or
they exchange or transfer registers without names; then these are shown by a question mark. -/
theorem text_eq_iff (a : Architecture) {r q : Record a.Mode} {address : Int} {x y : List UInt8}
    (hr : r.phase ≠ .fetching) (hq : q.phase ≠ .fetching) (haddress : InRange address)
    (hx : a.instructionSet.CompletesAfter r address x x.length)
    (hy : a.instructionSet.CompletesAfter q address y y.length) (hopcode : a.opcodeOf x = a.opcodeOf y) :
    ((a.instructionSet.feed r address x).record.completeText =
        (a.instructionSet.feed q address y).record.completeText ↔
      x = y ∨ a.SameTransfer x y) ∧
    ∀ opcode registers, x = [opcode, registers] → a.SameTransfer x y →
      (a.instructionSet.feed r address x).record.completeText =
        .ofChars (Mc6809.transferText opcode registers) := by
  obtain ⟨shown, hshown, hfetched, htext⟩ := a.feed_shown hr haddress hx
  obtain ⟨shown', hshown', hfetched', htext'⟩ := a.feed_shown hq haddress hy
  have hcomparable := comparable hshown hshown' (by rw [hfetched, hfetched', hopcode])
  have hagree := hcomparable.agree
  have hequal := hcomparable.shown_eq
  rw [← hshown.count_eq] at hagree
  rw [hfetched, hfetched'] at hagree hequal
  refine ⟨⟨?_, ?_⟩, ?_⟩
  · intro h
    rw [htext, htext'] at h
    rcases hagree (Rendering.text_eq_of_display_eq hcomparable.isSome_eq h) with hcells | hsame
    · have hcount := hshown.count_eq.trans (hcomparable.required_eq.trans hshown'.count_eq.symm)
      have hbytes := Buffer.fetched_eq_of_agreeBelow (Int.ofNat_inj.mp hcount) hcells
      rw [hfetched, hfetched'] at hbytes
      exact .inl hbytes
    · exact .inr hsame
  · rintro (rfl | hsame)
    · have hagrees := a.lawful.feed_agrees hr hq haddress hx.pos hx.le_length hx.fetching
      rw [List.take_length] at hagrees
      rw [Record.completeText, Record.completeText, hagrees.record.phase_eq, hagrees.record.text_eq]
    · rw [htext, htext', hequal hsame]
  · rintro opcode registers rfl hsame
    rw [htext, display_of_sameTransfer hshown hfetched hsame]

/-- Two transfers between registers without names, by a decoder with a past and by a new one. -/
theorem text_eq_iff_transfer :
    let s := instructionSet .mc6809
    let r := (s.feed {} 0x1000 [0x10, 0xAE, 0x9F, 0x12, 0x34]).record
    let q : Record (Mode .mc6809) := {}
    let x : List UInt8 := [0x1F, 0x6D]
    let y : List UInt8 := [0x1F, 0xCF]
    (r.phase ≠ .fetching ∧ q.phase ≠ .fetching ∧ InRange 0xFFFF ∧ s.CompletesAfter r 0xFFFF x x.length ∧
      s.CompletesAfter q 0xFFFF y y.length ∧ opcodeOf .mc6809 x = opcodeOf .mc6809 y) ∧
    ((s.feed r 0xFFFF x).record.completeText = (s.feed q 0xFFFF y).record.completeText ↔
      x = y ∨ SameTransfer .mc6809 x y) ∧
    (s.feed r 0xFFFF x).record.completeText = .ofChars (Mc6809.transferText 0x1F 0x6D) := by
  intro s r q x y
  have hr : r.phase ≠ .fetching := by decide +kernel
  have hq : q.phase ≠ .fetching := by decide
  have haddress : InRange 0xFFFF := ⟨by decide, by decide⟩
  have hx : s.CompletesAfter r 0xFFFF x x.length := by decide +kernel
  have hy : s.CompletesAfter q 0xFFFF y y.length := by decide +kernel
  have hsame : SameTransfer .mc6809 x y := ⟨0x1F, by decide, 0x6D, 0xCF, rfl, rfl, by decide, by decide⟩
  obtain ⟨hiff, htext⟩ := text_eq_iff .mc6809 hr hq haddress hx hy rfl
  exact ⟨⟨hr, hq, haddress, hx, hy, rfl⟩, hiff, htext 0x1F 0x6D rfl hsame⟩

end Architecture

end EightBit
