import EightBit.Proofs.Composition
import EightBit.Proofs.Widths
import Mathlib.Data.List.Forall2
set_option autoImplicit false

/-!
# Listings at another address

An image can be listed at any address.  Where its instructions begin and end does not depend on the
address, and neither does what is shown of them, but for the address that an instruction refers to: it
lies at a fixed distance from the instruction, so it moves with it (`Relative`).  Hence two listings of
one image have the same rows, moved by the same distance (`disassemble_relocated`).
-/

namespace EightBit

/-! ## Renderings that move with the address -/

/-- A text with the distance to the address that it refers to, shown at an address. -/
def shownAt (address : Int) (part : List Char × Option Int) : Rendering where
  text := part.1
  target := part.2.map (targetOf address)

/-- What is shown depends on the address only by the address that it refers to. -/
def Relative (shown : Int → Except Fault Rendering) : Prop :=
  ∃ part, ∀ address, shown address = .ok (shownAt address part)

theorem relative_fixed (text : List Char) : Relative fun _ => .ok { text := text } :=
  ⟨(text, none), fun _ => rfl⟩

theorem relative_offset (text : List Char) (offset : Int) :
    Relative fun address => .ok { text := text, target := some (targetOf address offset) } :=
  ⟨(text, some offset), fun _ => rfl⟩

theorem exists_mapM_relative {α : Type} {f : Int → α → Except Fault Rendering} {l : List α}
    (h : ∀ a ∈ l, Relative fun address => f address a) :
    ∃ parts : List (List Char × Option Int), parts.length = l.length ∧
      ∀ address, l.mapM (f address) = .ok (parts.map (shownAt address)) := by
  induction l with
  | nil => exact ⟨[], rfl, fun address => rfl⟩
  | cons a l ih =>
      obtain ⟨part, hpart⟩ := h a List.mem_cons_self
      obtain ⟨parts, hlength, hparts⟩ := ih fun b hb => h b (List.mem_cons_of_mem a hb)
      refine ⟨part :: parts, by simp [hlength], ?_⟩
      intro address
      simp [hpart address, hparts address]

/-- Of several distances the last one counts, as of several addresses. -/
theorem foldl_shownAt (address : Int) (parts : List (List Char × Option Int)) (offset : Option Int) :
    (parts.map (shownAt address)).foldl (fun target r => r.target.or target) (offset.map (targetOf address)) =
      (parts.foldl (fun offset part => part.2.or offset) offset).map (targetOf address) := by
  induction parts generalizing offset with
  | nil => rfl
  | cons part parts ih =>
      rw [List.map_cons, List.foldl_cons, List.foldl_cons, ← ih, Option.map_or]
      rfl

/-- A template moves with the address if its operands do. -/
theorem Template.render_relative {operand : Int → Int → Placeholder Char → Except Fault Rendering} {i : Int}
    {segments : List (Segment Char)}
    (h : ∀ j p, (j, p) ∈ placed i (operands segments) → Relative fun address => operand address j p) :
    Relative fun address => render (operand address) i segments := by
  obtain ⟨parts, hlength, hparts⟩ := exists_mapM_relative (f := fun address p => operand address p.1 p.2)
    (l := placed i (operands segments)) fun p hp => h p.1 p.2 hp
  have hvalues : (parts.map Prod.fst).length = (operands segments).length := by
    rw [List.length_map, hlength, length_placed]
  obtain ⟨text, htext⟩ := exists_fill hvalues
  refine ⟨(text, parts.foldl (fun offset part => part.2.or offset) none), ?_⟩
  intro address
  have htexts : (parts.map (shownAt address)).map Rendering.text = parts.map Prod.fst := by
    rw [List.map_map]
    rfl
  have htarget := foldl_shownAt address parts none
  rw [Option.map_none] at htarget
  simp only [render, hparts address, ok_bind, htexts, htext, htarget, shownAt, pure_eq_ok]

/-! ## The families -/

theorem Mos6502.operand_relative (r : Record Mode) (p : Placeholder Char) :
    Relative fun address => operand { r with address := address } p := by
  obtain ⟨-, low, high, -, -, hlow, hhigh, -⟩ := r.buffer.exists_front
  simp only [operand, readU16le, readS8, hlow, Int.reduceAdd, hhigh, ok_bind, pure_eq_ok]
  split
  · exact relative_fixed _
  · exact relative_fixed _
  · exact relative_offset _ _

theorem Mos6502.render_relative {v : Variant} {r : Record Mode} (h : (instructionSet v).Settled r) :
    Relative fun address => render v { r with address := address } := by
  obtain ⟨byte, t, -, hbyte, ht, -⟩ := settled_template h
  simp only [render, hbyte, ht, ok_bind]
  apply Template.render_relative
  intro _ p _
  exact operand_relative r p

theorem Mc6800.render_relative {r : Record Mode} (h : instructionSet.Settled r) :
    Relative fun address => render { r with address := address } := by
  obtain ⟨mode, hmode, -⟩ := settled_mode h
  obtain ⟨byte, -, -, -, hbyte, -, -, -⟩ := r.buffer.exists_front
  obtain ⟨t, -, ht⟩ := exists_mnemonic byte
  obtain ⟨shown, hshown⟩ := exists_operands mode r.buffer
  by_cases hinvalid : mode = .invalid
  · simp only [render, hmode, hinvalid]
    exact relative_fixed unknownMode.text
  · simp only [render, hmode, hbyte, ht, hshown, ok_bind]
    refine ⟨(statement t.toList shown.1, shown.2.map fun offset => 2 + offset), ?_⟩
    intro address
    rw [shownAt, Option.map_map]
    rfl

theorem Mc6809.render_relative {r : Record Mode} (h : instructionSet.Settled r) :
    Relative fun address => render { r with address := address } := by
  rcases settled_mode h with hmode | ⟨opcode, mode, n, h0, hmode, hvalid, -, -⟩
  · simp only [render, hmode]
    exact relative_fixed unknownMode.text
  · have hopcode := opcodeBytes_bounds opcode
    obtain ⟨name, hname, -⟩ := exists_mnemonic r.buffer
    obtain ⟨shown, hshown⟩ := exists_operands mode r.buffer (i := Mode.opcodeBytes opcode)
      (by omega) (by omega)
    refine ⟨(statement name.toList shown.1, shown.2), ?_⟩
    intro address
    have hrender := render_eq (r := { r with address := address }) hmode hvalid h0
    simp only [hname, hshown, ok_bind, pure_eq_ok] at hrender
    exact hrender

theorem Z80.operand_relative (r : Record Mode) {i : Int} (p : Placeholder Char) (h0 : 0 ≤ i) (h : i < 7) :
    Relative fun address => operand { r with address := address } i p := by
  obtain ⟨low, hlow⟩ := r.buffer.exists_pick_code (i := i) h0 (by omega)
  obtain ⟨high, hhigh⟩ := r.buffer.exists_pick_code (i := i + 1) (by omega) (by omega)
  simp only [operand, readU16le, readS8, hlow, hhigh, ok_bind, pure_eq_ok]
  split
  · exact relative_fixed _
  · exact relative_fixed _
  · exact relative_fixed _
  · exact relative_offset _ _

theorem Z80.render_relative {r : Record Mode} (h : instructionSet.Settled r) :
    Relative fun address => render { r with address := address } := by
  obtain ⟨k, t, offset, length, h, hk, -⟩ := settled_template h
  have hrender : ∀ address, render { r with address := address } =
      Template.render (operand { r with address := address }) offset (Template.parse placeholders t) := by
    intro address
    exact render_eq (h.decided r.count hk) h.operandOffset_eq
  simp only [hrender]
  apply Template.render_relative
  intro j p hp
  obtain ⟨hfirst, hend⟩ := h.placed_bounds hp
  exact operand_relative r p hfirst (by omega)

namespace InstructionSet

variable {μ : Type} {s : InstructionSet μ} {longest opening : Nat} {r q : Record μ} {address address' : Int}
  {bytes : List UInt8} {n : Nat}

/-! ## Where instructions end -/

namespace Lawful

/-- Mode and length are a matter of the bytes. -/
theorem settled_unique (law : s.Lawful longest opening) (hr : s.Settled r) (hq : s.Settled q)
    (hfetched : r.buffer.fetched = q.buffer.fetched) : r.mode = q.mode ∧ r.required = q.required := by
  obtain ⟨k, mode, length, hdecides, hk, hmode, hlength⟩ := hr
  have hagree := Buffer.agreeBelow_of_fetched_eq hfetched
  exact law.settled_congr hdecides hmode hlength hq (hagree.mono (Int.ofNat_le.mpr hk))

/-- The bytes of a complete instruction do not leave another one in progress. -/
theorem not_underway (law : s.Lawful longest opening) (hr : s.Finished r) (hq : s.Underway q)
    (hfetched : r.buffer.fetched = q.buffer.fetched) : False := by
  have hcount : q.count = r.count := by simp only [Record.count, Buffer.count, hfetched]
  rcases hq.progress with hopen | ⟨hsettled, hlt⟩
  · obtain ⟨k, mode, length, hdecides, hk, -, -⟩ := hr.settled
    have hagree : AgreeBelow k r.buffer.code q.buffer.code :=
      (Buffer.agreeBelow_of_fetched_eq hfetched).mono (Int.ofNat_le.mpr hk)
    have hnone := hopen.layout_eq k hdecides.pos (by omega)
    rw [(law.decidesAt_congr hagree hdecides).layout_eq] at hnone
    cases hnone
  · obtain ⟨-, hrequired⟩ := law.settled_unique hr.settled hsettled hfetched
    have hcomplete := hr.count_eq
    omega

/-- Bytes that complete an instruction at one address complete it at every other one. -/
theorem completesAfter_relocate (law : s.Lawful longest opening) (haddress : InRange address)
    (haddress' : InRange address') (h : s.CompletesAfter {} address bytes n) :
    s.CompletesAfter {} address' bytes n := by
  have haccepted : ∀ k, 0 < k → k ≤ n → s.Accepted address (bytes.take k) (s.feed {} address (bytes.take k)) :=
    fun k hpos hk => law.feed_accepted phase_initial haddress hpos (Nat.le_trans hk h.le_length)
      (h.fetching.mono hk)
  have hcases : s.FetchingBelow {} address' bytes (n + 1) ∨ ∃ m ≤ n, s.CompletesAfter {} address' bytes m :=
    law.fetching_or_completes phase_initial haddress' h.le_length
  rcases hcases with hbelow | ⟨m, hm, hmoved⟩
  · -- The bytes would leave the moved instruction in progress.
    have hmoved := law.feed_accepted phase_initial haddress' h.pos h.le_length (hbelow.mono (Nat.le_succ n))
    have hfetched := (haccepted n h.pos (Nat.le_refl n)).fetched_eq.trans hmoved.fetched_eq.symm
    exact (law.not_underway ((haccepted n h.pos (Nat.le_refl n)).finished h.complete)
      (hmoved.underway (hbelow n (Nat.lt_succ_self n) h.pos)) hfetched).elim
  · rcases Nat.lt_or_eq_of_le hm with hlt | rfl
    · -- Fewer bytes would complete the moved instruction.
      have hshort := law.feed_accepted phase_initial haddress' hmoved.pos hmoved.le_length hmoved.fetching
      have hlong := haccepted m hmoved.pos hm
      have hfetched := hshort.fetched_eq.trans hlong.fetched_eq.symm
      exact (law.not_underway (hshort.finished hmoved.complete)
        (hlong.underway (h.fetching m hlt hmoved.pos)) hfetched).elim
    · exact hmoved

theorem fetchingBelow_relocate (law : s.Lawful longest opening) (haddress : InRange address)
    (haddress' : InRange address') (h : s.FetchingBelow {} address bytes (bytes.length + 1)) :
    s.FetchingBelow {} address' bytes (bytes.length + 1) := by
  have hcases : s.FetchingBelow {} address' bytes (bytes.length + 1) ∨
      ∃ m ≤ bytes.length, s.CompletesAfter {} address' bytes m :=
    law.fetching_or_completes phase_initial haddress' (Nat.le_refl _)
  rcases hcases with hbelow | ⟨m, hm, hmoved⟩
  · exact hbelow
  · have hcomplete := (law.completesAfter_relocate haddress' haddress hmoved).complete
    rw [h m (Nat.lt_succ_of_le hm) hmoved.pos] at hcomplete
    cases hcomplete

end Lawful

/-! ## Rows that are moved -/

/-- The address that the instruction of a row refers to; data refers to none. -/
def targetIn (s : InstructionSet μ) (row : ListingRow) : Option Int :=
  if row.IsData then none else (s.feed {} row.address row.bytes).record.target

/-- The second row is the first one, moved by a distance. -/
structure Relocated (s : InstructionSet μ) (distance : Int) (row row' : ListingRow) : Prop where
  hex_eq : row'.hex = row.hex
  address_eq : row'.address = (row.address + distance) % 0x10000
  target_eq : s.targetIn row' = (s.targetIn row).map fun target => (target + distance) % 0x10000
  /-- A row that refers to no address keeps its text. -/
  text_of_none : s.targetIn row = none → row'.text = row.text
  /-- The text of a row that refers to an address changes in this address only. -/
  text_of_some : ∀ target, s.targetIn row = some target → ∃ body : Text,
    row.text = body ++ Text.ofChars (targetSuffix target) ∧
    row'.text = body ++ Text.ofChars (targetSuffix ((target + distance) % 0x10000))

theorem wrap16_add (address distance : Int) :
    wrap16 (address + distance) = (wrap16 address + distance) % 0x10000 := by
  unfold wrap16
  omega

theorem relocated_dataRows (s : InstructionSet μ) (distance address : Int) (bytes : List UInt8) :
    List.Forall₂ (s.Relocated distance) (dataRows address bytes) (dataRows (address + distance) bytes) := by
  induction bytes generalizing address with
  | nil => exact .nil
  | cons byte rest ih =>
      have hdata := isData_dataRows address (byte :: rest) _ List.mem_cons_self
      have hdata' := isData_dataRows (address + distance) (byte :: rest) _ List.mem_cons_self
      have hnone : s.targetIn _ = none := if_pos hdata
      have hnone' : s.targetIn _ = none := if_pos hdata'
      refine .cons ?_ ?_
      · exact {
          hex_eq := rfl
          address_eq := wrap16_add address distance
          target_eq := by rw [hnone, hnone']; rfl
          text_of_none := fun _ => rfl
          text_of_some := by
            intro target htarget
            rw [hnone] at htarget
            cases htarget }
      · have hplace : address + distance + 1 = address + 1 + distance := by omega
        rw [hplace]
        exact ih (address + 1)

end InstructionSet

/-! ## Instructions that are moved -/

theorem wrap16_targetOf (address offset : Int) : wrap16 (targetOf address offset) = targetOf address offset := by
  unfold targetOf wrap16
  omega

theorem targetOf_add (address distance offset : Int) :
    targetOf (wrap16 (address + distance)) offset =
      (targetOf (wrap16 address) offset + distance) % 0x10000 := by
  unfold targetOf wrap16
  omega

/-- The record of a complete instruction, by its text and the distance to the address it refers to. -/
structure ShowsPart {μ : Type} (r : Record μ) (part : List Char × Option Int) : Prop where
  text_eq : r.text = (shownAt r.address part).display
  target_eq : r.target = part.2.map (targetOf r.address)

theorem InstructionSet.Shown.showsPart {μ : Type} {s : InstructionSet μ} {r : Record μ}
    {part : List Char × Option Int} (h : s.Shown r (shownAt r.address part))
    (hfits : (shownAt r.address part).Fits) : ShowsPart r part where
  text_eq := h.text_eq_display hfits
  target_eq := by
    rw [h.target_eq, shownAt, Option.map_map]
    apply Option.map_congr
    intro offset _
    exact wrap16_targetOf r.address offset

namespace InstructionSet

variable {μ : Type} {s : InstructionSet μ}

/-- The row of an instruction, by its text and the distance to the address it refers to. -/
structure RowShows (s : InstructionSet μ) (row : ListingRow) (part : List Char × Option Int) : Prop where
  text_eq : row.text = (shownAt row.address part).display
  target_eq : s.targetIn row = part.2.map (targetOf row.address)

theorem RowShows.relocated {row row' : ListingRow} {part : List Char × Option Int} {address distance : Int}
    (h : s.RowShows row part) (h' : s.RowShows row' part) (hbytes : row'.bytes = row.bytes)
    (haddress : row.address = wrap16 address) (haddress' : row'.address = wrap16 (address + distance)) :
    s.Relocated distance row row' := by
  obtain ⟨text, offset⟩ := part
  have htext := h.text_eq
  have htext' := h'.text_eq
  have htarget := h.target_eq
  have htarget' := h'.target_eq
  rw [haddress] at htext htarget
  rw [haddress'] at htext' htarget'
  cases offset with
  | none =>
      exact {
        hex_eq := by rw [ListingRow.hex, ListingRow.hex, hbytes]
        address_eq := by rw [haddress, haddress', wrap16_add]
        target_eq := by rw [htarget, htarget']; rfl
        text_of_none := fun _ => htext'.trans htext.symm
        text_of_some := by
          intro target hsome
          rw [htarget] at hsome
          cases hsome }
  | some offset =>
      exact {
        hex_eq := by rw [ListingRow.hex, ListingRow.hex, hbytes]
        address_eq := by rw [haddress, haddress', wrap16_add]
        target_eq := by
          rw [htarget, htarget']
          exact congrArg some (targetOf_add address distance offset)
        text_of_none := by
          intro hnone
          rw [htarget] at hnone
          cases hnone
        text_of_some := by
          intro target hsome
          rw [htarget] at hsome
          cases hsome
          refine ⟨.ofChars text, ?_, ?_⟩
          · rw [htext, Rendering.display_of_some rfl, wrap16_targetOf]
            rfl
          · rw [htext', Rendering.display_of_some rfl, wrap16_targetOf, targetOf_add]
            rfl }

end InstructionSet

namespace Architecture

open InstructionSet

theorem render_relative (a : Architecture) {r : Record a.Mode} (h : a.instructionSet.Settled r) :
    Relative fun address => a.instructionSet.render { r with address := address } := by
  cases a with
  | mos6502 => exact Mos6502.render_relative h
  | mos65c02 => exact Mos6502.render_relative h
  | mc6800 => exact Mc6800.render_relative h
  | mc6809 => exact Mc6809.render_relative h
  | mc6809e => exact Mc6809.render_relative h
  | z80 => exact Z80.render_relative h

/-- Records of the same bytes show the same text and refer to addresses at the same distance. -/
theorem exists_showsPart (a : Architecture) {r q : Record a.Mode} {shown shown' : Rendering}
    (hr : a.instructionSet.Shown r shown) (hq : a.instructionSet.Shown q shown')
    (hfetched : r.buffer.fetched = q.buffer.fetched) : ∃ part, ShowsPart r part ∧ ShowsPart q part := by
  obtain ⟨part, hpart⟩ := a.render_relative hr.settled
  have heq : shownAt r.address part = shown := Except.ok.inj ((hpart r.address).symm.trans hr.render_eq)
  obtain ⟨hmode, hrequired⟩ := a.lawful.settled_unique hr.settled hq.settled hfetched
  have hmoved : a.instructionSet.render { r with address := q.address } = a.instructionSet.render q :=
    a.lawful.render_congr _ q hr.settled hr.count_eq rfl hmode hrequired hfetched
  have heq' : shownAt q.address part = shown' :=
    Except.ok.inj ((hpart q.address).symm.trans (hmoved.trans hq.render_eq))
  subst heq heq'
  exact ⟨part, hr.showsPart (a.render_fits hr.settled hr.render_eq),
    hq.showsPart (a.render_fits hq.settled hq.render_eq)⟩

/-- The row of a complete instruction shows what its record shows. -/
theorem rowShows_freshRow (a : Architecture) {address : Int} {bytes : List UInt8} {n : Nat}
    {part : List Char × Option Int} (h : a.instructionSet.CompletesAfter {} (wrap16 address) bytes n)
    (hpart : ShowsPart (a.instructionSet.feed {} (wrap16 address) (bytes.take n)).record part) :
    a.instructionSet.RowShows (a.instructionSet.freshRow address (bytes.take n)) part := by
  have haccepted := a.lawful.feed_accepted phase_initial (inRange_wrap16 address) h.pos h.le_length h.fetching
  have htext := hpart.text_eq
  have htarget := hpart.target_eq
  rw [haccepted.address_eq] at htext htarget
  constructor
  · rw [freshRow, Record.completeText, if_pos h.complete]
    exact htext
  · rw [targetIn, if_neg (a.not_isData_freshRow h)]
    exact htarget

/-- An instruction at another address has the same row, moved by the distance. -/
theorem relocated_freshRow (a : Architecture) {address : Int} {bytes : List UInt8} {n : Nat}
    (h : a.instructionSet.CompletesAfter {} (wrap16 address) bytes n) (distance : Int) :
    a.instructionSet.Relocated distance (a.instructionSet.freshRow address (bytes.take n))
      (a.instructionSet.freshRow (address + distance) (bytes.take n)) := by
  have hrange := inRange_wrap16 address
  have hrange' := inRange_wrap16 (address + distance)
  have h' := a.lawful.completesAfter_relocate hrange hrange' h
  have haccepted := a.lawful.feed_accepted phase_initial hrange h.pos h.le_length h.fetching
  have haccepted' := a.lawful.feed_accepted phase_initial hrange' h'.pos h'.le_length h'.fetching
  obtain ⟨shown, hshown⟩ := a.lawful.exists_shown phase_initial hrange h
  obtain ⟨shown', hshown'⟩ := a.lawful.exists_shown phase_initial hrange' h'
  obtain ⟨part, hpart, hpart'⟩ :=
    a.exists_showsPart hshown hshown' (haccepted.fetched_eq.trans haccepted'.fetched_eq.symm)
  exact (a.rowShows_freshRow h hpart).relocated (a.rowShows_freshRow h' hpart') rfl rfl rfl

theorem exists_lists_relocated (a : Architecture) {address : Int} {bytes : List UInt8} {rows : List ListingRow}
    (h : a.instructionSet.Lists address bytes rows) (distance : Int) :
    ∃ moved, a.instructionSet.Lists (address + distance) bytes moved ∧
      List.Forall₂ (a.instructionSet.Relocated distance) rows moved := by
  induction h with
  | @tail address bytes hbelow =>
      have hbelow' := a.lawful.fetchingBelow_relocate (inRange_wrap16 address)
        (inRange_wrap16 (address + distance)) hbelow
      exact ⟨_, .tail hbelow', relocated_dataRows _ distance address bytes⟩
  | @instruction address bytes n rows hcompletes _ ih =>
      obtain ⟨moved, hmoved, hrows⟩ := ih
      have hcompletes' := a.lawful.completesAfter_relocate (inRange_wrap16 address)
        (inRange_wrap16 (address + distance)) hcompletes
      have hplace : address + n + distance = address + distance + n := by omega
      rw [hplace] at hmoved
      exact ⟨_, .instruction hcompletes' hmoved, .cons (a.relocated_freshRow hcompletes distance) hrows⟩

end Architecture

/-- Two listings of an image have the same rows, moved by the distance of their addresses. -/
theorem disassemble_relocated (a : Architecture) (start start' : Int) (image : List UInt8) :
    ∃ rows moved,
      disassemble a start (imageOf image) = .ok rows ∧
      disassemble a start' (imageOf image) = .ok moved ∧
      List.Forall₂ (a.instructionSet.Relocated (start' - start)) rows moved := by
  have hfresh : ({} : Record a.Mode).phase ≠ .fetching := InstructionSet.phase_initial
  obtain ⟨rows, hrows⟩ := a.lawful.exists_lists start image
  obtain ⟨moved, hmoved, hrelocated⟩ := a.exists_lists_relocated hrows (start' - start)
  have hplace : start + (start' - start) = start' := by omega
  rw [hplace] at hmoved
  exact ⟨rows, moved, a.lawful.listFrom_eq hrows hfresh, a.lawful.listFrom_eq hmoved hfresh, hrelocated⟩

end EightBit
