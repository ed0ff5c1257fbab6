import EightBit.Proofs.Whole
set_option autoImplicit false

/-!
# The pages of the 6809

An opcode of the second or third page stands behind a page byte.  If it has the operand class of an opcode
of the first page, the two read the same operand bytes in the same way: everything behind the opcode is one
position further on, and the instruction is one byte longer (`feed_paged`).  Only the name at the front of the
text is its own.

The operand classes are given by the rows of the opcodes.  `Paired` says what two codes need for the rest:
their opcodes select the same mode, or both leave it to the postbyte.
-/

namespace EightBit.Mc6809

open InstructionSet

/-! ## Operand classes -/

/-- What stands behind an opcode. -/
inductive OperandClass where
  | direct
  | extended
  | imm16
  | rel16
  | indexed
  deriving DecidableEq, Repr

/-- The addressing mode of an operand class; the indexed one has a mode for each postbyte. -/
def OperandClass.mode? : OperandClass → Option Mode
  | .direct => some .direct
  | .extended => some .extended
  | .imm16 => some .imm16
  | .rel16 => some .rel16
  | .indexed => none

/-- The operand class of a mode, or of none where a postbyte selects it. -/
def OperandClass.ofMode? : Option Mode → Option OperandClass
  | some .direct => some .direct
  | some .extended => some .extended
  | some .imm16 => some .imm16
  | some .rel16 => some .rel16
  | none => some .indexed
  | _ => none

theorem OperandClass.ofMode?_eq_some_iff {mode : Option Mode} {kind : OperandClass} :
    ofMode? mode = some kind ↔ mode = kind.mode? := by
  constructor
  · intro h
    unfold ofMode? at h
    split at h <;> cases h <;> rfl
  · rintro rfl
    cases kind <;> rfl

/-- The operand class of an opcode of the first page. -/
def operandClass? (opcode : UInt8) : Option OperandClass :=
  let row := opcode / 0x10
  if hasPostbyte opcode then some .indexed
  else if row ∈ [0x0, 0x9, 0xD] then some .direct
  else if row ∈ [0x7, 0xB, 0xF] then some .extended
  else if row ∈ [0x8, 0xC] ∧ opcode % 0x10 ∈ [0x3, 0xC, 0xE] then some .imm16
  else if opcode ∈ [0x16, 0x17] then some .rel16
  else none

/-- The operand class of an opcode behind a page byte.  The third page has fewer rows. -/
def pagedClass? (page opcode : UInt8) : Option OperandClass :=
  let row := opcode / 0x10
  if page = 0x10 then
    if row = 0x2 then some .rel16
    else if row ∈ [0x8, 0xC] then some .imm16
    else if row ∈ [0x9, 0xD] then some .direct
    else if row ∈ [0xA, 0xE] then some .indexed
    else if row ∈ [0xB, 0xF] then some .extended
    else none
  else if page = 0x11 then
    if row = 0x8 then some .imm16
    else if row = 0x9 then some .direct
    else if row = 0xA then some .indexed
    else if row = 0xB then some .extended
    else none
  else none

/-- The rows of an operand class are those whose opcodes select its mode. -/
theorem operandClass?_eq_some_iff (opcode : UInt8) (kind : OperandClass) : operandClass? opcode = some kind ↔
    Mode.opensPage opcode.toNat = false ∧ Mode.ofOpcode? opcode.toNat = kind.mode? := by
  have htable : ∀ opcode : UInt8, operandClass? opcode = if Mode.opensPage opcode.toNat then none
      else OperandClass.ofMode? (Mode.ofOpcode? opcode.toNat) := forall_byte (by decide +kernel)
  rw [htable, ← OperandClass.ofMode?_eq_some_iff]
  split <;> simp [*]

theorem pagedClass?_eq_some_iff (page opcode : UInt8) (kind : OperandClass) : pagedClass? page opcode = some kind ↔
    Mode.opensPage page.toNat = true ∧
      Mode.ofPagedOpcode? (joinBytes page.toNat opcode.toNat) = kind.mode? := by
  have hsecond : ∀ opcode : UInt8, pagedClass? 0x10 opcode =
      OperandClass.ofMode? (Mode.ofPagedOpcode? (joinBytes 0x10 opcode.toNat)) := forall_byte (by decide +kernel)
  have hthird : ∀ opcode : UInt8, pagedClass? 0x11 opcode =
      OperandClass.ofMode? (Mode.ofPagedOpcode? (joinBytes 0x11 opcode.toNat)) := forall_byte (by decide +kernel)
  rw [opensPage_iff, ← OperandClass.ofMode?_eq_some_iff]
  by_cases hpage : page = 0x10 ∨ page = 0x11
  · rcases hpage with rfl | rfl
    · rw [hsecond]
      exact (and_iff_right (.inl rfl)).symm
    · rw [hthird]
      exact (and_iff_right (.inr rfl)).symm
  · have hnone : pagedClass? page opcode = none := by
      rw [not_or] at hpage
      simp only [pagedClass?, if_neg hpage.1, if_neg hpage.2]
    rw [hnone]
    constructor
    · rintro ⟨⟩
    · rintro ⟨hopens, -⟩
      exact absurd hopens hpage

/-! ## Codes with opcodes of the same class -/

/-- The one code begins with an opcode of the first page, the other one with a page byte and an opcode behind
it, and the opcodes have the same operand class. -/
structure Paired (kind : OperandClass) (opcode page second : Int) (c d : List Int) : Prop where
  first_eq : pick c 0 = .ok opcode
  plain : Mode.opensPage opcode = false
  mode_eq : Mode.ofOpcode? opcode = kind.mode?
  page_eq : pick d 0 = .ok page
  opens : Mode.opensPage page = true
  second_eq : pick d 1 = .ok second
  paged_eq : Mode.ofPagedOpcode? (joinBytes page second) = kind.mode?

namespace Paired

variable {kind : OperandClass} {opcode page second : Int} {c d : List Int} {k : Nat}

/-- The mode is decided by the same bytes one position further on. -/
theorem ofCode_eq (h : Paired kind opcode page second c d) (hk : 0 < k) (hagree : AgreeShifted 1 1 k c d) :
    Mode.ofCode d (k + 1 : Nat) = Mode.ofCode c k := by
  cases hmode : kind.mode? with
  | some mode =>
      rw [Mode.ofCode_of_some h.first_eq h.plain (h.mode_eq.trans hmode) hk,
        Mode.ofCode_of_page h.page_eq h.opens (Nat.succ_pos k),
        Mode.ofPaged_of_some h.page_eq h.second_eq (h.paged_eq.trans hmode) (Nat.succ_le_succ hk)]
  | none =>
      rw [Mode.ofCode_of_none h.first_eq h.plain (h.mode_eq.trans hmode) hk,
        Mode.ofCode_of_page h.page_eq h.opens (Nat.succ_pos k),
        Mode.ofPaged_of_none h.page_eq h.second_eq (h.paged_eq.trans hmode) (Nat.succ_le_succ hk)]
      rcases Nat.lt_or_ge 1 k with hlt | hle
      · have hpost : pick c 1 = pick d 2 := hagree 1 (by decide) (by omega)
        have hc : ¬ (k : Int) ≤ 1 := by omega
        have hd : ¬ ((k + 1 : Nat) : Int) ≤ 2 := by omega
        rw [Mode.ofPostbyteAt, Mode.ofPostbyteAt, if_neg hc, if_neg hd, hpost]
      · rw [Mode.ofPostbyteAt_of_le (by omega), Mode.ofPostbyteAt_of_le (by omega)]

/-- The page byte alone decides nothing. -/
theorem layout_page (h : Paired kind opcode page second c d) : layout d (1 : Nat) = .ok none := by
  have hopen : Mode.ofCode d (1 : Nat) = .ok none := by
    rw [Mode.ofCode_of_page h.page_eq h.opens (by decide)]
    rfl
  simp only [layout, hopen, ok_bind, pure_eq_ok]

/-- The layouts are the same but for the length, which counts the page byte. -/
theorem layout_eq (h : Paired kind opcode page second c d) (hk : 0 < k) (hagree : AgreeShifted 1 1 k c d) :
    layout d (k + 1 : Nat) = (layout c k).map (Option.map fun decided => (decided.1, decided.2 + 1)) := by
  simp only [layout, h.ofCode_eq hk hagree, h.first_eq, h.page_eq]
  cases Mode.ofCode c k with
  | error e => rfl
  | ok decided =>
      rw [ok_bind, ok_bind]
      split
      · rfl
      · rfl
      · rename_i mode _
        cases hn : mode.operandBytes? with
        | none => simp [Mode.instructionLength, hn, Except.map]
        | some n =>
            have hone : Mode.opcodeBytes opcode = 1 := by simp [Mode.opcodeBytes, h.plain]
            have htwo : Mode.opcodeBytes page = 2 := by simp [Mode.opcodeBytes, h.opens]
            have hlength : 2 + n = 1 + n + 1 := by omega
            simp only [Mode.instructionLength_eq hn, hone, htwo, hlength, ok_bind, pure_eq_ok, Except.map,
              Option.map_some]

end Paired

/-! ## Whole instructions of the same class -/

variable {kind : OperandClass} {opcode page second : UInt8} {rest : List UInt8} {mode : Mode} {b c : Buffer}
  {k : Nat}

/-- Buffers with the same bytes behind opcodes of the same class. -/
theorem paired_of_fetched (hopcode : operandClass? opcode = some kind)
    (hpaged : pagedClass? page second = some kind) (hb : b.fetched = opcode :: rest)
    (hc : c.fetched = page :: second :: rest) :
    Paired kind opcode.toNat page.toNat second.toNat b.code c.code where
  first_eq := Buffer.pick_of_fetched (i := 0) (by rw [hb]; rfl)
  plain := ((operandClass?_eq_some_iff opcode kind).mp hopcode).1
  mode_eq := ((operandClass?_eq_some_iff opcode kind).mp hopcode).2
  page_eq := Buffer.pick_of_fetched (i := 0) (by rw [hc]; rfl)
  opens := ((pagedClass?_eq_some_iff page second kind).mp hpaged).1
  second_eq := Buffer.pick_of_fetched (i := 1) (by rw [hc]; rfl)
  paged_eq := ((pagedClass?_eq_some_iff page second kind).mp hpaged).2

theorem agreeShifted_paged (hb : b.fetched = opcode :: rest) (hc : c.fetched = page :: second :: rest)
    (hk : k ≤ b.count) : AgreeShifted 1 1 k b.code c.code := by
  have hagree := Buffer.agreeShifted (x := [opcode]) (y := [page, second]) (m := 1) hb hc rfl
  intro j hi hn
  exact hagree j hi (by omega)

/-- One byte more decides the same mode and a length that is greater by one. -/
theorem decidesAt_paged (h : Paired kind opcode.toNat page.toNat second.toNat b.code c.code)
    (hagree : AgreeShifted 1 1 k b.code c.code) (hk : 0 < k) {length : Int} :
    instructionSet.DecidesAt c (k + 1) mode (length + 1) ↔ instructionSet.DecidesAt b k mode length := by
  have hshift : ∀ j : Nat, 0 < j → j ≤ k → layout c.code (j + 1 : Nat) =
      (layout b.code j).map (Option.map fun decided => (decided.1, decided.2 + 1)) := by
    intro j hpos hle
    exact h.layout_eq hpos fun i hi hn => hagree i hi (by omega)
  constructor
  · intro hdecides
    refine ⟨hk, ?_, ?_⟩
    · intro j hpos hlt
      have hopen : layout c.code (j + 1 : Nat) = .ok none :=
        hdecides.open_before (j + 1) (Nat.succ_pos j) (Nat.succ_lt_succ hlt)
      rw [hshift j hpos (Nat.le_of_lt hlt)] at hopen
      change layout b.code j = .ok none
      match hlayout : layout b.code j, hopen with
      | .ok none, _ => rfl
    · have hlayout : layout c.code (k + 1 : Nat) = .ok (some (mode, length + 1)) := hdecides.layout_eq
      rw [hshift k hk (Nat.le_refl k)] at hlayout
      change layout b.code k = .ok (some (mode, length))
      match hdecided : layout b.code k, hlayout with
      | .ok (some (mode', length')), heq =>
          have hpair : (mode', length' + 1) = (mode, length + 1) := Option.some.inj (Except.ok.inj heq)
          obtain ⟨hmode, hlength⟩ := Prod.mk.inj hpair
          rw [hmode, (Int.add_left_inj 1).mp hlength]
  · intro hdecides
    refine ⟨Nat.succ_pos k, ?_, ?_⟩
    · intro j hpos hlt
      cases j with
      | zero => exact absurd hpos (Nat.lt_irrefl 0)
      | succ j =>
          rcases Nat.eq_zero_or_pos j with rfl | hpos'
          · exact h.layout_page
          · have hopen : layout b.code j = .ok none :=
              hdecides.open_before j hpos' (Nat.lt_of_succ_lt_succ hlt)
            change layout c.code (j + 1 : Nat) = .ok none
            rw [hshift j hpos' (Nat.le_of_lt_succ (Nat.lt_of_succ_lt hlt)), hopen]
            rfl
    · have hlayout : layout b.code k = .ok (some (mode, length)) := hdecides.layout_eq
      change layout c.code (k + 1 : Nat) = .ok (some (mode, length + 1))
      rw [hshift k hk (Nat.le_refl k), hlayout]
      rfl

theorem measures_paged (hopcode : operandClass? opcode = some kind) (hpaged : pagedClass? page second = some kind) :
    instructionSet.Measures (opcode :: rest) mode ↔ instructionSet.Measures (page :: second :: rest) mode := by
  constructor
  · rintro ⟨b, k, hb, hdecides⟩
    -- No instruction fills the buffer, so there is room for a page byte.
    obtain ⟨-, hk, hlongest⟩ := lawful.bounds hdecides
    rw [List.length_cons] at hk hlongest
    let c := Buffer.ofBytes (page :: second :: rest) (by rw [List.length_cons, List.length_cons]; omega)
    have hle : k ≤ b.count := by
      rw [Buffer.count, hb, List.length_cons]
      omega
    have hpair := paired_of_fetched (c := c) hopcode hpaged hb rfl
    exact ⟨c, k + 1, rfl, (decidesAt_paged hpair (agreeShifted_paged hb rfl hle) hdecides.pos).mpr hdecides⟩
  · rintro ⟨c, k', hc, hdecides⟩
    obtain ⟨-, hk, hlongest⟩ := lawful.bounds hdecides
    rw [List.length_cons, List.length_cons] at hk hlongest
    let b := Buffer.ofBytes (opcode :: rest) (by rw [List.length_cons]; omega)
    have hpair := paired_of_fetched (b := b) hopcode hpaged rfl hc
    obtain ⟨k, rfl⟩ : ∃ k, k' = k + 1 := Nat.exists_eq_succ_of_ne_zero (Nat.ne_of_gt hdecides.pos)
    have hpos : 0 < k := by
      rcases Nat.eq_zero_or_pos k with rfl | hpos
      · have hdecided : layout c.code (1 : Nat) = _ := hdecides.layout_eq
        rw [hpair.layout_page] at hdecided
        cases hdecided
      · exact hpos
    have hle : k ≤ b.count := by
      change k ≤ rest.length + 1
      omega
    exact ⟨b, k, rfl, (decidesAt_paged hpair (agreeShifted_paged rfl hc hle) hpos).mp hdecides⟩

/-! ## Operands further on -/

/-- The mode has operands that are read behind the opcode only. -/
def Mode.readsBehind (mode : Mode) : Bool :=
  mode.isIndexed || [.direct, .extended, .imm16, .rel16].contains mode

theorem readsBehind_ofPostbyte : ∀ postbyte : UInt8,
    Mode.ofPostbyte postbyte = .invalid ∨ (Mode.ofPostbyte postbyte).readsBehind = true :=
  forall_byte (by decide +kernel)

/-- The modes of the operand classes. -/
theorem Paired.readsBehind {opcode page second : Int} {c d : List Int} (h : Paired kind opcode page second c d)
    (hk : 0 < k) (hmode : Mode.ofCode c k = .ok (some mode)) (hvalid : mode ≠ .invalid) :
    mode.readsBehind = true := by
  cases hkind : kind.mode? with
  | some mode' =>
      rw [Mode.ofCode_of_some h.first_eq h.plain (h.mode_eq.trans hkind) hk] at hmode
      cases hmode
      cases kind <;> cases hkind <;> rfl
  | none =>
      rw [Mode.ofCode_of_none h.first_eq h.plain (h.mode_eq.trans hkind) hk, Mode.ofPostbyteAt] at hmode
      split at hmode
      · cases hmode
      · cases hpost : pick c 1 with
        | error e =>
            rw [hpost] at hmode
            cases hmode
        | ok byte =>
            rw [hpost] at hmode
            cases hmode
            exact (readsBehind_ofPostbyte _).resolve_left hvalid

theorem operands_ne_nil {i : Int} {x : List (List Char) × Option Int} (h0 : 0 ≤ i) (h6 : i < 6)
    (hreads : mode.readsBehind = true) (h : operands mode b.code i = .ok x) : x.1 ≠ [] := by
  obtain ⟨first, hfirst⟩ := b.exists_pick_code (i := i) h0 (by omega)
  obtain ⟨second, hsecond⟩ := b.exists_pick_code (i := i + 1) (by omega) (by omega)
  obtain ⟨third, hthird⟩ := b.exists_pick_code (i := i + 1 + 1) (by omega) (by omega)
  cases mode <;> cases hreads <;>
    simp only [operands, readS8, readU16be, readS16be, hfirst, hsecond, hthird, ok_bind, pure_eq_ok,
      Except.ok.injEq] at h <;>
    subst h <;>
    exact List.cons_ne_nil _ _

/-! ## The same instruction on two pages -/

/-- The texts are both unknown, or the same but for the name in front. -/
def SameButName (name name' : String) (shown shown' : Rendering) : Prop :=
  (shown = unknownMode ∧ shown' = unknownMode) ∨
  ∃ tail, shown.text = name.toList ++ ' ' :: tail ∧ shown'.text = name'.toList ++ ' ' :: tail ∧
    shown.target = shown'.target

variable {r q : Record Mode} {address : Int} {shown shown' : Rendering}

theorem mnemonic_plain {code : List Int} {opcode : UInt8} (h0 : pick code 0 = .ok (opcode.toNat : Int))
    (hplain : Mode.opensPage opcode.toNat = false) : mnemonic code = .ok (opcodes.getD opcode.toNat "?") := by
  have hlt : opcode.toNat < opcodes.length := by
    rw [length_opcodes]
    exact opcode.toNat_lt
  simp [mnemonic, h0, hplain, pick_eq_getD hlt "?"]

theorem mnemonic_paged {code : List Int} {page second : Int} (h0 : pick code 0 = .ok page)
    (h1 : pick code 1 = .ok second) (hpage : Mode.opensPage page = true) :
    mnemonic code = .ok (pagedMnemonic (joinBytes page second)) := by
  simp [mnemonic, h0, h1, hpage]

/-- Instructions of the same operand class with the same bytes behind the opcode are shown alike. -/
theorem holds_paged (hopcode : operandClass? opcode = some kind) (hpaged : pagedClass? page second = some kind)
    (h : instructionSet.Holds r address (opcode :: rest) mode shown)
    (h' : instructionSet.Holds q address (page :: second :: rest) mode shown') :
    SameButName (opcodes.getD opcode.toNat "?") (pagedMnemonic (joinBytes page.toNat second.toNat)) shown
      shown' := by
  have hpair := paired_of_fetched hopcode hpaged h.fetched_eq h'.fetched_eq
  obtain ⟨k, hdecides, hk⟩ := h.exists_decidesAt
  obtain ⟨hcode, hlength⟩ := layout_eq_some hpair.first_eq hdecides.layout_eq
  by_cases hvalid : mode = .invalid
  · subst hvalid
    have hrender : Mc6809.render r = .ok unknownMode := by rw [render, h.mode_eq]
    have hrender' : Mc6809.render q = .ok unknownMode := by rw [render, h'.mode_eq]
    exact .inl ⟨Except.ok.inj (h.render_eq.symm.trans hrender), Except.ok.inj (h'.render_eq.symm.trans hrender')⟩
  · have hreads := hpair.readsBehind hdecides.pos hcode hvalid
    have hone : Mode.opcodeBytes opcode.toNat = 1 := by simp [Mode.opcodeBytes, hpair.plain]
    have htwo : Mode.opcodeBytes page.toNat = 2 := by simp [Mode.opcodeBytes, hpair.opens]
    obtain ⟨n, hn, hsum⟩ : ∃ n, mode.operandBytes? = some n ∧ (rest.length : Int) + 1 = 1 + n := by
      rcases hlength with ⟨hinvalid, -⟩ | ⟨n, hn, -, hsum⟩
      · exact absurd hinvalid hvalid
      · rw [hone, List.length_cons] at hsum
        exact ⟨n, hn, by omega⟩
    obtain ⟨name, x, hname, hx, rfl⟩ := exists_statement h.mode_eq hvalid hpair.first_eq h.render_eq
    obtain ⟨name', x', hname', hx', rfl⟩ := exists_statement h'.mode_eq hvalid hpair.page_eq h'.render_eq
    rw [mnemonic_plain hpair.first_eq hpair.plain] at hname
    rw [mnemonic_paged hpair.page_eq hpair.second_eq hpair.opens] at hname'
    cases hname
    cases hname'
    rw [hone] at hx
    rw [htwo] at hx'
    have hagree : AgreeShifted 1 1 (1 + n) r.buffer.code q.buffer.code := by
      have hcount : r.buffer.count = rest.length + 1 := by rw [Buffer.count, h.fetched_eq, List.length_cons]
      have hshift := agreeShifted_paged h.fetched_eq h'.fetched_eq (Nat.le_of_eq hcount.symm)
      rw [← hsum]
      exact hshift
    have hinherent : mode ≠ .inherent := by
      rintro rfl
      cases hreads
    have hpshPul : mode ≠ .pshPul := by
      rintro rfl
      cases hreads
    have hsame : x = x' := by
      rw [operands_shifted hinherent hpshPul hn hagree] at hx
      exact Except.ok.inj (hx.symm.trans hx')
    subst hsame
    have hne := operands_ne_nil (by decide) (by decide) hreads hx
    rw [statement_eq hne, statement_eq hne, h.address_eq, h'.address_eq]
    exact .inr ⟨joined x.1, rfl, rfl, rfl⟩

theorem SameButName.display_eq {name name' : String} (h : SameButName name name' shown shown') :
    shown.target = shown'.target ∧
    ((shown.display = .ofString "<?ADDRMODE?>" ∧ shown'.display = .ofString "<?ADDRMODE?>") ∨
      ∃ tail, shown.display = .ofString name ++ .ofString " " ++ tail ∧
        shown'.display = .ofString name' ++ .ofString " " ++ tail) := by
  rcases h with ⟨rfl, rfl⟩ | ⟨tail, htext, htext', htarget⟩
  · exact ⟨rfl, .inl ⟨rfl, rfl⟩⟩
  · refine ⟨htarget, .inr ?_⟩
    cases hrefers : shown.target with
    | none =>
        rw [Rendering.display_of_none hrefers, Rendering.display_of_none (htarget.symm.trans hrefers), htext,
          htext', Text.ofChars_append, Text.ofChars_append, Text.ofChars_cons]
        exact ⟨.ofChars tail, by simp [Text.ofString], by simp [Text.ofString]⟩
    | some target =>
        rw [Rendering.display_of_some hrefers, Rendering.display_of_some (htarget.symm.trans hrefers), htext,
          htext', Text.ofChars_append, Text.ofChars_append, Text.ofChars_cons]
        exact ⟨.ofChars tail ++ .ofChars (targetSuffix (wrap16 target)), by simp [Text.ofString],
          by simp [Text.ofString]⟩

/-- An opcode of the second or third page decodes what stands behind it as an opcode of the first page with
the same operand class does: the same bytes complete it, in the same mode and with the same target, it is one
byte longer, and its text differs in the name only. -/
theorem feed_paged (rest : List UInt8) (hr : r.phase ≠ .fetching) (hq : q.phase ≠ .fetching)
    (haddress : InRange address) (hopcode : operandClass? opcode = some kind)
    (hpaged : pagedClass? page second = some kind) :
    (instructionSet.CompletesAfter r address (opcode :: rest) (rest.length + 1) ↔
      instructionSet.CompletesAfter q address (page :: second :: rest) (rest.length + 2)) ∧
    (instructionSet.CompletesAfter r address (opcode :: rest) (rest.length + 1) →
      let one := (instructionSet.feed r address (opcode :: rest)).record
      let other := (instructionSet.feed q address (page :: second :: rest)).record
      one.mode = other.mode ∧ other.required = one.required + 1 ∧ other.target = one.target ∧
      ((one.completeText = .ofString "<?ADDRMODE?>" ∧ other.completeText = .ofString "<?ADDRMODE?>") ∨
        ∃ tail, one.completeText = .ofString (opcodes.getD opcode.toNat "?") ++ .ofString " " ++ tail ∧
          other.completeText =
            .ofString (pagedMnemonic (joinBytes page.toNat second.toNat)) ++ .ofString " " ++ tail)) := by
  have hiff : instructionSet.CompletesAfter r address (opcode :: rest) (rest.length + 1) ↔
      instructionSet.CompletesAfter q address (page :: second :: rest) (rest.length + 2) := by
    refine (lawful.completesAfter_iff hr haddress).trans (Iff.trans ?_ (lawful.completesAfter_iff hq haddress).symm)
    exact exists_congr fun mode => measures_paged hopcode hpaged
  refine ⟨hiff, ?_⟩
  intro hcompletes one other
  obtain ⟨mode, shown, hone⟩ : ∃ mode shown, instructionSet.Holds one address (opcode :: rest) mode shown :=
    Architecture.feed_holds .mc6809 hr haddress hcompletes
  obtain ⟨mode', shown', hother⟩ : ∃ mode shown,
      instructionSet.Holds other address (page :: second :: rest) mode shown :=
    Architecture.feed_holds .mc6809 hq haddress (hiff.mp hcompletes)
  obtain rfl : mode = mode' := by
    have hmeasures : instructionSet.Measures (page :: second :: rest) mode :=
      (measures_paged hopcode hpaged).mp hone.measures
    exact (lawful.measures_unique hmeasures hother.measures (Nat.le_refl _) (List.take_length)).2
  obtain ⟨htarget, htext⟩ := (holds_paged hopcode hpaged hone hother).display_eq
  refine ⟨hone.mode_eq.trans hother.mode_eq.symm, ?_, ?_, ?_⟩
  · rw [hone.required_eq, hother.required_eq]
    rfl
  · rw [hone.target_eq, hother.target_eq, htarget]
  · rw [hone.displayed, hother.displayed]
    exact htext

/-- A load of `A` and one of `Y` behind a page byte, with an index that is counted from the instruction; the
first decoder has a past. -/
theorem feed_paged_index :
    let r := (instructionSet.feed {} 0x1000 [0x11, 0xA3, 0x9F, 0x12, 0x34]).record
    let q : Record Mode := {}
    let rest : List UInt8 := [0x8D, 0xFF, 0xF0]
    (r.phase ≠ .fetching ∧ q.phase ≠ .fetching ∧ InRange 0x0008 ∧ operandClass? 0xA6 = some .indexed ∧
      pagedClass? 0x10 0xAE = some .indexed ∧ instructionSet.CompletesAfter r 0x0008 (0xA6 :: rest) 4) ∧
    (instructionSet.CompletesAfter r 0x0008 (0xA6 :: rest) 4 ↔
      instructionSet.CompletesAfter q 0x0008 (0x10 :: 0xAE :: rest) 5) ∧
    let one := (instructionSet.feed r 0x0008 (0xA6 :: rest)).record
    let other := (instructionSet.feed q 0x0008 (0x10 :: 0xAE :: rest)).record
    one.mode = other.mode ∧ other.required = one.required + 1 ∧ other.target = one.target ∧
    ((one.completeText = .ofString "<?ADDRMODE?>" ∧ other.completeText = .ofString "<?ADDRMODE?>") ∨
      ∃ tail, one.completeText = .ofString "LDA" ++ .ofString " " ++ tail ∧
        other.completeText = .ofString "LDY" ++ .ofString " " ++ tail) := by
  intro r q rest
  have hr : r.phase ≠ .fetching := by decide +kernel
  have hq : q.phase ≠ .fetching := by decide
  have haddress : InRange 0x0008 := ⟨by decide, by decide⟩
  have hcompletes : instructionSet.CompletesAfter r 0x0008 (0xA6 :: rest) 4 := by decide +kernel
  have hopcode : operandClass? 0xA6 = some .indexed := by decide
  have hpaged : pagedClass? 0x10 0xAE = some .indexed := by decide
  have hname : opcodes.getD (0xA6 : UInt8).toNat "?" = "LDA" := by decide +kernel
  have hname' : pagedMnemonic (joinBytes (0x10 : UInt8).toNat (0xAE : UInt8).toNat) = "LDY" := by decide +kernel
  obtain ⟨hiff, halike⟩ := feed_paged rest hr hq haddress hopcode hpaged
  rw [hname, hname'] at halike
  exact ⟨⟨hr, hq, haddress, hopcode, hpaged, hcompletes⟩, hiff, halike hcompletes⟩

end EightBit.Mc6809
