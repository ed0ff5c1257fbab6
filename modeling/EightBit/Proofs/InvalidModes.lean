import EightBit.Proofs.Targets
set_option autoImplicit false

/-!
# Bytes without an addressing mode on the 6809

Some opcodes, some opcodes of the pages and some postbytes select no addressing mode.  An instruction ends with
the first byte that leaves none, and a marker is shown in the place of its text (`feed_invalid_iff`).  Which bytes
these are is written out in `unassigned`, by rows and digits.
-/

namespace EightBit.Mc6809

open InstructionSet

/-! ## Bytes that leave no mode -/

/-- The postbyte selects no indexed mode.  Its digit stands for none, or only for one that is direct or one that
is indirect, and the other is asked for. -/
def badPostbyte (postbyte : UInt8) : Bool :=
  let digit := postbyte % 0x10
  postbyte &&& 0x80 ≠ 0 &&
    ([0x7, 0xA, 0xE].contains digit || (digit = 0xF && postbyte &&& 0x10 = 0) ||
      ([0x0, 0x2].contains digit && postbyte &&& 0x10 ≠ 0))

/-- The bytes are the shortest that leave no addressing mode. -/
def unassigned : List UInt8 → Bool
  | [opcode] => [0x14, 0x15, 0x18, 0x1B, 0x38].contains opcode
  | [first, second] =>
      (hasPostbyte first && badPostbyte second) ||
      (first = 0x10 && [0x0, 0x1, 0x4, 0x5, 0x6, 0x7].contains (second / 0x10)) ||
      (first = 0x11 && [0x0, 0x1, 0x2, 0x4, 0x5, 0x6, 0x7, 0xC, 0xD, 0xE, 0xF].contains (second / 0x10))
  | [page, opcode, postbyte] =>
      (page = 0x10 || page = 0x11) && hasPagedPostbyte page opcode && badPostbyte postbyte
  | _ => false

/-- The mode that the bytes behind a page byte decide. -/
def pagedMode (page : UInt8) : List UInt8 → Option Mode
  | [] => none
  | opcode :: rest =>
      (Mode.ofPagedOpcode? (joinBytes page.toNat opcode.toNat)).or (rest[0]?.map Mode.ofPostbyte)

/-- The mode that the first bytes of an instruction decide. -/
def frontMode : List UInt8 → Option Mode
  | [] => none
  | first :: rest =>
      if Mode.opensPage first.toNat then pagedMode first rest
      else (Mode.ofOpcode? first.toNat).or (rest[0]?.map Mode.ofPostbyte)

/-! ## Tables -/

theorem ofPostbyte_eq_invalid_iff : ∀ postbyte : UInt8,
    Mode.ofPostbyte postbyte = .invalid ↔ badPostbyte postbyte = true :=
  forall_byte (by decide +kernel)

theorem frontMode_opcode : ∀ first : UInt8, frontMode [first] = some .invalid ↔ unassigned [first] = true :=
  forall_byte (by decide +kernel)

theorem frontMode_page : ∀ second : UInt8,
    (Mode.ofPagedOpcode? (joinBytes 0x10 second.toNat) = some .invalid ↔ unassigned [0x10, second] = true) ∧
    (Mode.ofPagedOpcode? (joinBytes 0x11 second.toNat) = some .invalid ↔ unassigned [0x11, second] = true) :=
  forall_byte (by decide +kernel)

/-! ## What the first bytes decide -/

variable {b : Buffer} {bytes : List UInt8}

theorem pick_of_take {k i : Nat} {byte : UInt8} (h : (b.fetched.take k)[i]? = some byte) :
    pick b.code i = .ok (byte.toNat : Int) := by
  rw [List.getElem?_take] at h
  split at h
  · exact Buffer.pick_of_fetched h
  · cases h

theorem ofPostbyteAt_eq {k : Nat} (i : Nat) (hk : k ≤ b.count) :
    Mode.ofPostbyteAt b.code k i = .ok ((b.fetched.take k)[i]?.map Mode.ofPostbyte) := by
  cases hbyte : (b.fetched.take k)[i]? with
  | none =>
      have hle : k ≤ i := by
        rw [List.getElem?_eq_none_iff, List.length_take_of_le hk] at hbyte
        exact hbyte
      exact Mode.ofPostbyteAt_of_le (Int.ofNat_le.mpr hle)
  | some byte =>
      have hlt : i < k := by
        have hi := (List.getElem?_eq_some_iff.mp hbyte).1
        rwa [List.length_take_of_le hk] at hi
      rw [Mode.ofPostbyteAt_of_lt (pick_of_take hbyte) (Int.ofNat_lt.mpr hlt), ofInt_toNat]
      rfl

theorem ofPaged_eq_pagedMode {k : Nat} {page : UInt8} {rest : List UInt8} (hk : k ≤ b.count)
    (h : b.fetched.take k = page :: rest) : Mode.ofPaged b.code k = .ok (pagedMode page rest) := by
  have hlength : k = rest.length + 1 := by
    rw [← List.length_cons, ← h, List.length_take_of_le hk]
  have h0 : pick b.code (0 : Nat) = .ok (page.toNat : Int) := pick_of_take (by rw [h]; rfl)
  cases rest with
  | nil =>
      subst hlength
      rfl
  | cons opcode rest =>
      have h1 : pick b.code (1 : Nat) = .ok (opcode.toNat : Int) := pick_of_take (by rw [h]; rfl)
      rw [List.length_cons] at hlength
      cases hmode : Mode.ofPagedOpcode? (joinBytes page.toNat opcode.toNat) with
      | some mode =>
          rw [Mode.ofPaged_of_some h0 h1 hmode (by omega), pagedMode, hmode]
          rfl
      | none =>
          rw [Mode.ofPaged_of_none h0 h1 hmode (by omega), pagedMode, hmode]
          exact (ofPostbyteAt_eq 2 hk).trans (by rw [h]; rfl)

/-- The mode that is decided is read off the bytes in front. -/
theorem ofCode_eq_frontMode {k : Nat} (hpos : 0 < k) (hk : k ≤ b.count) :
    Mode.ofCode b.code k = .ok (frontMode (b.fetched.take k)) := by
  have hlength : (b.fetched.take k).length = k := List.length_take_of_le hk
  cases hfront : b.fetched.take k with
  | nil =>
      rw [hfront] at hlength
      subst hlength
      cases hpos
  | cons first rest =>
      have h0 : pick b.code (0 : Nat) = .ok (first.toNat : Int) := pick_of_take (by rw [hfront]; rfl)
      rw [frontMode]
      cases hpage : Mode.opensPage first.toNat with
      | true =>
          rw [Mode.ofCode_of_page h0 hpage hpos, ofPaged_eq_pagedMode hk hfront]
          rfl
      | false =>
          cases hmode : Mode.ofOpcode? first.toNat with
          | some mode => exact Mode.ofCode_of_some h0 hpage hmode hpos
          | none =>
              rw [Mode.ofCode_of_none h0 hpage hmode hpos]
              exact (ofPostbyteAt_eq 1 hk).trans (by rw [hfront]; rfl)

/-- Three bytes decide the mode. -/
theorem frontMode_ne_none (h : 3 ≤ bytes.length) : frontMode bytes ≠ none := by
  rcases bytes with _ | ⟨first, _ | ⟨second, _ | ⟨third, rest⟩⟩⟩
  · simp at h
  · simp at h
  · simp at h
  · simp only [frontMode, pagedMode]
    split <;> simp

/-- Bytes are an instruction of the invalid mode if they decide it and fewer of them decide nothing. -/
theorem measures_invalid_iff : instructionSet.Measures bytes .invalid ↔
    frontMode bytes = some .invalid ∧ ∀ j, 0 < j → j < bytes.length → frontMode (bytes.take j) = none := by
  constructor
  · rintro ⟨b, k, rfl, hdecides⟩
    obtain ⟨opcode, -, -, -, h0, -, -, -⟩ := b.exists_front
    obtain ⟨hcode, ⟨-, hlength⟩ | ⟨n, -, hvalid, -⟩⟩ := layout_eq_some h0 hdecides.layout_eq
    · obtain rfl : b.count = k := Int.ofNat_inj.mp hlength
      constructor
      · rw [ofCode_eq_frontMode hdecides.pos (Nat.le_refl _), Buffer.count, List.take_length] at hcode
        exact Except.ok.inj hcode
      · intro j hpos hlt
        have hopen : layout b.code j = .ok none := hdecides.open_before j hpos hlt
        have hfront := ofCode_eq_frontMode (b := b) hpos (Nat.le_of_lt hlt)
        cases hmode : frontMode (b.fetched.take j) with
        | none => rfl
        | some mode =>
            rw [hmode] at hfront
            exact absurd hopen (layout_ne_open hfront)
    · exact absurd rfl hvalid
  · rintro ⟨hinvalid, hopen⟩
    have hshort : bytes.length ≤ 3 := by
      apply Nat.le_of_not_lt
      intro hlt
      have hthree : 3 ≤ (bytes.take 3).length := Nat.le_of_eq (List.length_take_of_le (Nat.le_of_lt hlt)).symm
      exact frontMode_ne_none hthree (hopen 3 (by decide) hlt)
    have hpos : 0 < bytes.length := by
      apply List.length_pos_of_ne_nil
      rintro rfl
      cases hinvalid
    let b := Buffer.ofBytes bytes (by omega)
    refine ⟨b, bytes.length, rfl, hpos, ?_, ?_⟩
    · intro j hj hlt
      apply layout_of_open
      rw [ofCode_eq_frontMode (b := b) hj (Nat.le_of_lt hlt)]
      exact congrArg Except.ok (hopen j hj hlt)
    · have hcode := ofCode_eq_frontMode (b := b) hpos (Nat.le_refl _)
      change Mode.ofCode b.code bytes.length = .ok (frontMode (bytes.take bytes.length)) at hcode
      rw [List.take_length, hinvalid] at hcode
      change layout b.code bytes.length = _
      simp [layout, hcode]

theorem length_of_unassigned (h : unassigned bytes = true) : bytes.length ≤ 3 := by
  unfold unassigned at h
  split at h
  · simp
  · simp
  · simp
  · cases h

theorem unassigned_pair (first second : UInt8) : unassigned [first, second] = true ↔
    frontMode [first, second] = some .invalid ∧ frontMode [first] = none := by
  cases hpage : Mode.opensPage first.toNat with
  | true =>
      have hfront : frontMode [first, second] = Mode.ofPagedOpcode? (joinBytes first.toNat second.toNat) := by
        simp [frontMode, hpage, pagedMode]
      have hnone : frontMode [first] = none := by simp [frontMode, hpage, pagedMode]
      rw [hfront, and_iff_left hnone]
      rcases (opensPage_iff first).mp hpage with rfl | rfl
      · exact (frontMode_page second).1.symm
      · exact (frontMode_page second).2.symm
  | false =>
      have hfirst : ¬ (first = 0x10 ∨ first = 0x11) := by
        rw [← opensPage_iff, hpage]
        exact Bool.false_ne_true
      have hunassigned : unassigned [first, second] = (hasPostbyte first && badPostbyte second) := by
        simp [unassigned, not_or.mp hfirst]
      rw [hunassigned, Bool.and_eq_true, ← isNone_ofOpcode?, ← ofPostbyte_eq_invalid_iff]
      cases hmode : Mode.ofOpcode? first.toNat with
      | some mode => simp [frontMode, hpage, hmode]
      | none => simp [frontMode, hpage, hmode]

theorem unassigned_triple (first second third : UInt8) : unassigned [first, second, third] = true ↔
    frontMode [first, second, third] = some .invalid ∧ frontMode [first, second] = none ∧
      frontMode [first] = none := by
  cases hpage : Mode.opensPage first.toNat with
  | true =>
      have hfirst := (opensPage_iff first).mp hpage
      have hunassigned : unassigned [first, second, third] =
          (hasPagedPostbyte first second && badPostbyte third) := by
        rcases hfirst with rfl | rfl <;> rfl
      have hnone : frontMode [first] = none := by simp [frontMode, hpage, pagedMode]
      rw [hunassigned, Bool.and_eq_true, ← isNone_ofPagedOpcode? hfirst, ← ofPostbyte_eq_invalid_iff,
        and_iff_left hnone]
      cases hmode : Mode.ofPagedOpcode? (joinBytes first.toNat second.toNat) with
      | some mode => simp [frontMode, hpage, pagedMode, hmode]
      | none => simp [frontMode, hpage, pagedMode, hmode]
  | false =>
      -- Without a page byte two bytes decide, and the third is not looked at.
      have hfirst : ¬ (first = 0x10 ∨ first = 0x11) := by
        rw [← opensPage_iff, hpage]
        exact Bool.false_ne_true
      simp [unassigned, not_or.mp hfirst, frontMode, hpage]

/-- The bytes of the invalid mode are the unassigned ones. -/
theorem measures_invalid_iff_unassigned :
    instructionSet.Measures bytes .invalid ↔ unassigned bytes = true := by
  rw [measures_invalid_iff]
  rcases bytes with _ | ⟨first, _ | ⟨second, _ | ⟨third, _ | ⟨fourth, rest⟩⟩⟩⟩
  · simp [frontMode, unassigned]
  · rw [frontMode_opcode]
    refine and_iff_left ?_
    intro j hpos hlt
    simp only [List.length_singleton] at hlt
    omega
  · rw [unassigned_pair]
    refine and_congr_right' ⟨fun h => h 1 (by decide) (by simp), ?_⟩
    intro hfirst j hpos hlt
    simp only [List.length_cons, List.length_nil] at hlt
    obtain rfl : j = 1 := by omega
    exact hfirst
  · rw [unassigned_triple]
    refine and_congr_right' ⟨fun h => ⟨h 2 (by decide) (by simp), h 1 (by decide) (by simp)⟩, ?_⟩
    rintro ⟨hsecond, hfirst⟩ j hpos hlt
    simp only [List.length_cons, List.length_nil] at hlt
    obtain rfl | rfl : j = 1 ∨ j = 2 := by omega
    · exact hfirst
    · exact hsecond
  · refine iff_of_false ?_ (by simp [unassigned])
    rintro ⟨-, hopen⟩
    exact frontMode_ne_none (by simp) (hopen 3 (by decide) (by simp))

/-! ## The marker -/

theorem exists_statement_eq (mnemonic : List Char) (operands : List (List Char)) :
    ∃ tail, statement mnemonic operands = mnemonic ++ tail := by
  unfold statement
  split
  · exact ⟨[], (List.append_nil _).symm⟩
  · exact ⟨_, rfl⟩

variable {r : Record Mode} {address : Int} {mode : Mode} {shown : Rendering}

/-- The marker is shown for the invalid mode, without a target, and for no other. -/
theorem display_eq_marker_iff (h : instructionSet.Holds r address bytes mode shown) :
    shown.display = .ofString "<?ADDRMODE?>" ↔ mode = .invalid := by
  have hrender : render r = .ok shown := h.render_eq
  constructor
  · intro hmarker
    apply Decidable.byContradiction
    intro hvalid
    obtain ⟨opcode, -, -, -, h0, -, -, -⟩ := r.buffer.exists_front
    obtain ⟨name, x, hname, -, rfl⟩ := exists_statement h.mode_eq hvalid h0 hrender
    obtain ⟨tail, htail⟩ := exists_statement_eq name.toList x.1
    obtain ⟨suffix, hsuffix⟩ := exists_display
      { text := statement name.toList x.1, target := x.2.map (targetOf r.address) }
    obtain ⟨name', hname', hne⟩ := exists_mnemonic r.buffer
    obtain rfl : name' = name := Except.ok.inj (hname'.symm.trans hname)
    -- The text begins with a symbol of a name, and the marker does not.
    obtain ⟨c, rest, hcons⟩ := List.exists_cons_of_ne_nil (mt String.toList_eq_nil_iff.mp hne)
    rw [hsuffix, Text.ofString, Text.ofChars_inj, htail, hcons] at hmarker
    have hc : c ∈ nameSymbols := mnemonic_symbols hname (by rw [hcons]; exact List.mem_cons_self)
    obtain rfl : c = '<' := (List.cons.inj hmarker).1
    exact absurd hc (by decide)
  · rintro rfl
    rw [render, h.mode_eq] at hrender
    cases hrender
    rfl

theorem target_of_invalid (h : instructionSet.Holds r address bytes .invalid shown) : r.target = none := by
  have hrender : render r = .ok shown := h.render_eq
  rw [render, h.mode_eq] at hrender
  cases hrender
  exact h.target_eq

/-- Where an instruction ends, the marker is shown if and only if its mode is the invalid one, and that if and only
if its bytes are unassigned.  Unassigned bytes end an instruction with the last of them, which refers to no address,
and no bytes that go on behind them are an instruction. -/
theorem feed_invalid_iff (hr : r.phase ≠ .fetching) (haddress : InRange address) :
    (instructionSet.CompletesAfter r address bytes bytes.length →
      let taken := (instructionSet.feed r address bytes).record
      (taken.completeText = .ofString "<?ADDRMODE?>" ↔ taken.mode = some .invalid) ∧
      (taken.mode = some .invalid ↔ unassigned bytes = true)) ∧
    (unassigned bytes = true →
      let taken := (instructionSet.feed r address bytes).record
      instructionSet.CompletesAfter r address bytes bytes.length ∧ bytes.length ≤ 3 ∧
      taken.completeText = .ofString "<?ADDRMODE?>" ∧ taken.mode = some .invalid ∧ taken.target = none ∧
      ∀ more, more ≠ [] →
        ¬ instructionSet.CompletesAfter r address (bytes ++ more) (bytes ++ more).length) := by
  constructor
  · intro hcompletes taken
    obtain ⟨mode, shown, hholds⟩ : ∃ mode shown, instructionSet.Holds taken address bytes mode shown :=
      Architecture.feed_holds .mc6809 hr haddress hcompletes
    have hmode : taken.mode = some .invalid ↔ mode = .invalid := by
      rw [hholds.mode_eq, Option.some_inj]
    rw [hholds.displayed, display_eq_marker_iff hholds, hmode]
    refine ⟨Iff.rfl, ?_⟩
    rw [← measures_invalid_iff_unassigned]
    constructor
    · rintro rfl
      exact hholds.measures
    · intro hmeasures
      exact (lawful.measures_unique hholds.measures hmeasures (Nat.le_refl _) List.take_length).2
  · intro hunassigned taken
    have hmeasures := measures_invalid_iff_unassigned.mpr hunassigned
    obtain ⟨hcompletes, shown, hholds⟩ : instructionSet.CompletesAfter r address bytes bytes.length ∧
        ∃ shown, instructionSet.Holds taken address bytes .invalid shown :=
      Architecture.holds_of_measures .mc6809 hr haddress hmeasures
    refine ⟨hcompletes, length_of_unassigned hunassigned, ?_, hholds.mode_eq, target_of_invalid hholds, ?_⟩
    · rw [hholds.displayed, display_eq_marker_iff hholds]
    · intro more hmore hlonger
      obtain ⟨mode, hlonger⟩ := (lawful.completesAfter_iff hr haddress).mp hlonger
      have hlength : bytes.length = (bytes ++ more).length :=
        (lawful.measures_unique hmeasures hlonger (by simp) (by simp)).1
      exact hmore (by simpa using hlength)

/-- Stepping back by one has no indirect form, stepping on by two has one; the decoder has a past. -/
theorem feed_invalid_iff_stepping :
    let r := (instructionSet.feed {} 0x1000 [0x86, 0x5A]).record
    let bad := (instructionSet.feed r 0xFFFE [0x10, 0xAE, 0x92]).record
    let good := (instructionSet.feed r 0xFFFE [0x10, 0xAE, 0x91]).record
    (r.phase ≠ .fetching ∧ InRange 0xFFFE ∧ instructionSet.CompletesAfter r 0xFFFE [0x10, 0xAE, 0x91] 3 ∧
      unassigned [0x10, 0xAE, 0x92] = true) ∧
    (bad.completeText = .ofString "<?ADDRMODE?>" ∧ bad.mode = some .invalid ∧ bad.target = none) ∧
    (good.completeText = .ofString "<?ADDRMODE?>" ↔ good.mode = some .invalid) := by
  intro r bad good
  have hr : r.phase ≠ .fetching := by decide
  have haddress : InRange 0xFFFE := ⟨by decide, by decide⟩
  have hcompletes : instructionSet.CompletesAfter r 0xFFFE [0x10, 0xAE, 0x91] 3 := by decide
  have hunassigned : unassigned [0x10, 0xAE, 0x92] = true := by decide
  obtain ⟨-, -, htext, hmode, htarget, -⟩ := (feed_invalid_iff hr haddress).2 hunassigned
  exact ⟨⟨hr, haddress, hcompletes, hunassigned⟩, ⟨htext, hmode, htarget⟩,
    ((feed_invalid_iff hr haddress).1 hcompletes).1⟩

end EightBit.Mc6809
