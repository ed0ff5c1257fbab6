import EightBit.Proofs.Composition
import EightBit.Proofs.TemplateBytes
set_option autoImplicit false

/-!
# Programs of the 6502 on the 65C02

The 65C02 has instructions where the 6502 has none.  Of the opcodes that the 6502 has, its table gives ten
another template (`reassigned`), and each of them shows in a listing: the instruction has another length, or
a text of another length.  So a program of the 6502 is listed alike for both processors if and only if it
begins no instruction with one of the ten (`disassemble_mos65c02_eq_iff`).

That the other instructions are listed alike is not special to the two tables: instruction sets that
coincide on the first bytes of the instructions list an image alike (`lists_of_coincide`).
-/

namespace EightBit

/-! ## Instruction sets that coincide -/

namespace InstructionSet

variable {μ : Type}

/-- The two instruction sets make the same of every instruction that begins with the byte. -/
structure Coincide (s t : InstructionSet μ) (first : UInt8) : Prop where
  layout_eq : ∀ b : Buffer, b.fetched.head? = some first → ∀ count,
    s.layout b.code count = t.layout b.code count
  render_eq : ∀ r : Record μ, r.buffer.fetched.head? = some first → s.render r = t.render r

theorem fetched_of_append {r q : Record μ} {byte : Int} (h : r.append byte = .ok q) :
    q.buffer.fetched = r.buffer.fetched ++ [UInt8.ofInt byte] := by
  unfold Record.append at h
  split at h
  · cases h
  · split at h
    · rename_i hpush
      cases h
      exact Buffer.fetched_of_push? hpush
    · cases h

variable {s t : InstructionSet μ} {longest opening k n : Nat} {first : UInt8} {r : Record μ} {address : Int}
  {bytes : List UInt8} {rows : List ListingRow}

namespace Coincide

theorem step_eq (h : s.Coincide t first) (hfirst : r.buffer.fetched.head? = some first) :
    s.step r = t.step r := by
  have hmeasure : s.measure r = t.measure r := by
    simp only [measure, h.layout_eq r.buffer hfirst]
  have hadvance : s.advance r = t.advance r := by
    unfold advance
    rw [hmeasure]
    cases hmeasured : t.measure r with
    | error e => rfl
    | ok measured =>
        cases measured with
        | none => rfl
        | some q =>
            have hbuffer : q.buffer = r.buffer := by
              rcases measure_eq_some_iff.mp hmeasured with ⟨-, mode, length, -, rfl⟩ | ⟨-, rfl⟩ <;> rfl
            rw [← hbuffer] at hfirst
            simp only [ok_bind, complete, h.render_eq q hfirst]
  rw [step, step, hadvance]

theorem start_eq (h : s.Coincide t first) (r : Record μ) (address : Int) :
    s.start r address first.toNat = t.start r address first.toNat := by
  unfold start
  cases happend : (r.clear address).append first.toNat with
  | error e => rfl
  | ok opened =>
      have hfirst : opened.buffer.fetched.head? = some first := by
        rw [fetched_of_append happend, ofInt_toNat]
        rfl
      simp only [h.step_eq hfirst]

theorem next_eq (h : s.Coincide t first) (hfirst : r.buffer.fetched.head? = some first) (byte : Int) :
    s.next r byte = t.next r byte := by
  unfold next
  cases happend : r.append byte with
  | error e => rfl
  | ok appended =>
      have hfirst' : appended.buffer.fetched.head? = some first := by
        rw [fetched_of_append happend, List.head?_append, hfirst]
        rfl
      simp only [h.step_eq hfirst']

end Coincide

theorem head?_take_of_pos (hpos : 0 < k) : (bytes.take k).head? = bytes.head? := by
  rw [List.head?_take, if_neg (Nat.ne_of_gt hpos)]

namespace Lawful

/-- An instruction is fed alike to instruction sets that coincide on its first byte. -/
theorem feed_coincide (law : s.Lawful longest opening) (h : s.Coincide t first) (hr : r.phase ≠ .fetching)
    (haddress : InRange address) (hfirst : bytes.head? = some first) (hpos : 0 < k) (hk : k ≤ bytes.length)
    (hbelow : s.FetchingBelow r address bytes k) :
    s.feed r address (bytes.take k) = t.feed r address (bytes.take k) := by
  induction k with
  | zero => cases hpos
  | succ k ih =>
      rcases Nat.eq_zero_or_pos k with rfl | hpos'
      · obtain ⟨rest, rfl⟩ := List.head?_eq_some_iff.mp hfirst
        exact h.start_eq r address
      · have hbelow' := hbelow.mono (Nat.le_succ k)
        have haccepted := law.feed_accepted hr haddress hpos' (Nat.le_of_lt hk) hbelow'
        rw [feed_take_succ s r address hpos' hk, feed_take_succ t r address hpos' hk,
          ← ih hpos' (Nat.le_of_lt hk) hbelow']
        apply h.next_eq
        rw [haccepted.fetched_eq, head?_take_of_pos hpos', hfirst]

theorem completesAfter_coincide (law : s.Lawful longest opening) (h : s.Coincide t first)
    (haddress : InRange address) (hfirst : bytes.head? = some first)
    (hcompletes : s.CompletesAfter {} address bytes n) : t.CompletesAfter {} address bytes n where
  pos := hcompletes.pos
  le_length := hcompletes.le_length
  fetching k hlt hpos := by
    have hle : k ≤ bytes.length := Nat.le_trans (Nat.le_of_lt hlt) hcompletes.le_length
    rw [← law.feed_coincide h phase_initial haddress hfirst hpos hle
      (hcompletes.fetching.mono (Nat.le_of_lt hlt))]
    exact hcompletes.fetching k hlt hpos
  complete := by
    rw [← law.feed_coincide h phase_initial haddress hfirst hcompletes.pos hcompletes.le_length
      hcompletes.fetching]
    exact hcompletes.complete

/-- Instruction sets that coincide on the first bytes of the instructions list them alike. -/
theorem lists_of_coincide (law : s.Lawful longest opening) (hlists : s.Lists address bytes rows)
    (hdata : ∀ row ∈ rows, ¬ row.IsData)
    (h : ∀ row ∈ rows, ∀ first ∈ row.bytes.head?, s.Coincide t first) : t.Lists address bytes rows := by
  induction hlists with
  | @tail address bytes _ =>
      -- Without data there are no bytes behind the last instruction.
      cases bytes with
      | nil =>
          apply Lists.tail
          intro k hlt hpos
          exact absurd hpos (Nat.not_lt_of_le (Nat.le_of_lt_succ hlt))
      | cons byte bytes =>
          exact absurd (isData_dataRows address (byte :: bytes) _ List.mem_cons_self)
            (hdata _ List.mem_cons_self)
  | @instruction address bytes n rows hcompletes _ ih =>
      have haddress := inRange_wrap16 address
      obtain ⟨first, rest, rfl⟩ := List.exists_cons_of_ne_nil
        (List.ne_nil_of_length_pos (Nat.lt_of_lt_of_le hcompletes.pos hcompletes.le_length))
      have hcoincide : s.Coincide t first := by
        apply h _ List.mem_cons_self
        exact head?_take_of_pos hcompletes.pos
      have hrow : s.freshRow address ((first :: rest).take n) = t.freshRow address ((first :: rest).take n) := by
        rw [freshRow, freshRow, law.feed_coincide hcoincide phase_initial haddress rfl hcompletes.pos
          hcompletes.le_length hcompletes.fetching]
      rw [hrow]
      refine .instruction (law.completesAfter_coincide hcoincide haddress rfl hcompletes) (ih ?_ ?_)
      · intro row hmem
        exact hdata row (List.mem_cons_of_mem _ hmem)
      · intro row hmem
        exact h row (List.mem_cons_of_mem _ hmem)

/-- Each row of a listing without data is what a new decoder makes of its bytes. -/
theorem completes_of_lists (law : s.Lawful longest opening) (hlists : s.Lists address bytes rows)
    (hdata : ∀ row ∈ rows, ¬ row.IsData) :
    ∀ row ∈ rows, InRange row.address ∧ s.CompletesAfter {} row.address row.bytes row.bytes.length ∧
      row.text = (s.feed {} row.address row.bytes).record.completeText := by
  obtain ⟨instructions, data, rfl, hpartition⟩ := law.exists_partition hlists
  intro row hmem
  have hinstruction : row ∈ instructions := by
    rcases List.mem_append.mp hmem with hinstruction | hrow
    · exact hinstruction
    · obtain ⟨byte, -, htext⟩ := hpartition.data_byte row hrow
      exact absurd (ListingRow.isData_of_text htext) (hdata row hmem)
  obtain ⟨front, back, hsplit⟩ := List.append_of_mem hmem
  refine ⟨?_, hpartition.instruction row hinstruction⟩
  rw [hpartition.address_eq front row back hsplit]
  exact inRange_wrap16 _

end Lawful

end InstructionSet

/-! ## Texts as long as their template -/

namespace Template

/-- Values as long as their placeholders make a text as long as the template. -/
theorem length_fill {segments : List (Segment Char)} {values : List (List Char)} {text : List Char}
    (h : fill segments values = .ok text)
    (hvalues : values.map List.length = (operands segments).map fun p => p.text.length) :
    text.length = (segments.flatMap Segment.source).length := by
  induction segments generalizing values text with
  | nil =>
      cases h
      rfl
  | cons segment segments ih =>
      cases segment with
      | literal front =>
          obtain ⟨tail, htail, rfl⟩ := exists_of_fill_literal h
          rw [List.flatMap_cons, List.length_append, List.length_append, ih htail hvalues, Segment.source]
      | operand p =>
          obtain ⟨value, rest, tail, rfl, htail, rfl⟩ := exists_of_fill_operand h
          simp only [operands, List.map_cons, List.cons.injEq] at hvalues
          rw [List.flatMap_cons, List.length_append, List.length_append, ih htail hvalues.2, Segment.source,
            hvalues.1]

section

variable {f : Int → Placeholder Char → Except Fault Rendering}

theorem length_of_values {i : Int} {ps : List (Placeholder Char)} {values : List Rendering}
    (h : (placed i ps).map (fun p => f p.1 p.2) = values.map .ok)
    (hf : ∀ j p value, (j, p) ∈ placed i ps → f j p = .ok value →
      value.text.length = p.text.length ∧ value.target = none) :
    (values.map Rendering.text).map List.length = ps.map (fun p => p.text.length) ∧
      values.foldl (fun target r => r.target.or target) none = none := by
  induction ps generalizing i values with
  | nil =>
      have hnil : values = [] := List.map_eq_nil_iff.mp h.symm
      subst hnil
      exact ⟨rfl, rfl⟩
  | cons p ps ih =>
      obtain ⟨value, rest, rfl, hvalue, hrest⟩ := List.map_eq_cons_iff.mp h.symm
      obtain ⟨hlength, htarget⟩ := hf i p value List.mem_cons_self hvalue.symm
      obtain ⟨hlengths, htargets⟩ := ih hrest.symm fun j q value hq => hf j q value (List.mem_cons_of_mem _ hq)
      refine ⟨?_, ?_⟩
      · rw [List.map_cons, List.map_cons, List.map_cons, hlength, hlengths]
      · rw [List.foldl_cons, htarget]
        exact htargets

/-- A text has the length of its template if every operand has the length of its placeholder. -/
theorem length_render {placeholders : List (Placeholder Char)} {t : List Char} {i : Int} {shown : Rendering}
    (h : render f i (parse placeholders t) = .ok shown)
    (hf : ∀ j p value, (j, p) ∈ placed i (operands (parse placeholders t)) → f j p = .ok value →
      value.text.length = p.text.length ∧ value.target = none) :
    shown.text.length = t.length ∧ shown.target = none := by
  obtain ⟨values, hvalues, hfill, htarget⟩ := exists_of_render h
  obtain ⟨hlengths, htargets⟩ := length_of_values hvalues hf
  have htext := length_fill hfill hlengths
  rw [source_parse] at htext
  exact ⟨htext, htarget.trans htargets⟩

end

end Template

/-! ## The two tables -/

theorem Buffer.pick_of_head? {b : Buffer} {first : UInt8} (h : b.fetched.head? = some first) :
    pick b.code 0 = .ok (first.toNat : Int) := by
  rw [List.head?_eq_getElem?] at h
  exact pick_of_fetched h

/-- What holds of the spellings by opcode holds of two tables. -/
theorem Spelled.forall_opcode {P : UInt8 → List Char → List Char → Prop} {xs ys : List (List Char)}
    {t u : List String} (ht : Spelled xs t) (hu : Spelled ys u)
    (h : ∀ n < 256, P (UInt8.ofNat n) (xs.getD n ['?']) (ys.getD n ['?'])) (opcode : UInt8) :
    P opcode (t.getD opcode.toNat "?").toList (u.getD opcode.toNat "?").toList := by
  have hopcode := h opcode.toNat opcode.toNat_lt
  rw [UInt8.ofNat_toNat, ← ht.toList_getD, ← hu.toList_getD] at hopcode
  exact hopcode

namespace Mos6502

open InstructionSet

/-- The template of an opcode. -/
def entry (v : Variant) (opcode : UInt8) : List Char :=
  (v.opcodes.getD opcode.toNat "?").toList

/-- The opcodes of the 6502 that have another template in the table of the 65C02. -/
def reassigned : List UInt8 :=
  [0x45, 0x96, 0xA5, 0xB6, 0xC4, 0xC5, 0xC6, 0xCC, 0xCD, 0xCE]

/-- Instructions of the two templates differ in their length or in the length of their text. -/
def Discernible (t u : List Char) : Prop :=
  (modeOf t).length ≠ (modeOf u).length ∨
    (modeOf t ≠ .rel8 ∧ modeOf u ≠ .rel8 ∧ t.length ≠ u.length)

instance (t u : List Char) : Decidable (Discernible t u) :=
  inferInstanceAs (Decidable (_ ∨ _))

/-- What the 65C02 makes of an opcode with the template `t`: there was none, it is kept, or it is replaced by a
template that can be told from it. -/
def Succession (opcode : UInt8) (t u : List Char) : Prop :=
  t = ['?'] ∨ (t = u ∧ opcode ∉ reassigned) ∨ (opcode ∈ reassigned ∧ Discernible t u)

instance (opcode : UInt8) (t u : List Char) : Decidable (Succession opcode t u) :=
  inferInstanceAs (Decidable (_ ∨ _))

theorem succession (opcode : UInt8) :
    Succession opcode (entry .mos6502 opcode) (entry .mos65c02 opcode) := by
  apply Spelled.forall_opcode (P := Succession)
  · unfold Variant.opcodes opcodes6502
    repeat' constructor
  · unfold Variant.opcodes opcodes65c02
    repeat' constructor
  · decide +kernel

theorem template_eq (v : Variant) (opcode : UInt8) : template v opcode.toNat = .ok (entry v opcode) := by
  have hlt : opcode.toNat < v.opcodes.length := by
    rw [length_opcodes]
    exact opcode.toNat_lt
  have hpick : pick v.opcodes opcode.toNat = .ok v.opcodes[opcode.toNat] :=
    pick_eq_ok (Int.natCast_nonneg _) (List.getElem?_eq_getElem hlt)
  simp [template, hpick, entry, List.getElem?_eq_getElem hlt]

/-- The variants coincide where their templates do. -/
theorem coincide_of_entry_eq {v w : Variant} {opcode : UInt8} (h : entry v opcode = entry w opcode) :
    (instructionSet v).Coincide (instructionSet w) opcode where
  layout_eq b hfirst count := by
    change layout v b.code count = layout w b.code count
    simp only [layout, Buffer.pick_of_head? hfirst, template_eq, ok_bind, h]
  render_eq r hfirst := by
    change render v r = render w r
    simp only [render, Buffer.pick_of_head? hfirst, template_eq, ok_bind, h]

variable {v : Variant} {t : List Char} {r : Record Mode} {p : Placeholder Char} {value shown : Rendering}
  {address : Int} {bytes : List UInt8} {opcode : UInt8}

/-- A byte or a word is as long as its placeholder and refers to no address. -/
theorem length_operand (hp : p ∈ placeholders) (hkind : p.kind = .u16 ∨ p.kind = .u8)
    (h : operand r p = .ok value) : value.text.length = p.text.length ∧ value.target = none := by
  obtain ⟨-, low, high, -, -, hlow, hhigh, -⟩ := r.buffer.exists_front
  simp only [placeholders, List.mem_cons, List.not_mem_nil, or_false] at hp
  rcases hp with rfl | rfl | rfl
  · simp only [operand, readU16le, hlow, Int.reduceAdd, hhigh, ok_bind, pure_eq_ok, Except.ok.injEq] at h
    rw [← h]
    exact ⟨by simp, rfl⟩
  · simp only [operand, hlow, ok_bind, pure_eq_ok, Except.ok.injEq] at h
    rw [← h]
    exact ⟨by simp, rfl⟩
  · rcases hkind with hkind | hkind <;> cases hkind

/-- The text of an instruction that is no branch is as long as its template. -/
theorem length_render (hsingle : (Template.operands (Template.parse placeholders t)).length ≤ 1)
    (hmode : modeOf t ≠ .rel8)
    (h : Template.render (fun _ p => operand r p) 1 (Template.parse placeholders t) = .ok shown) :
    shown.text.length = t.length ∧ shown.target = none := by
  apply Template.length_render h
  intro j p value hplaced hvalue
  have hp := (Template.mem_placed hplaced).1
  have hkind : p.kind = .u16 ∨ p.kind = .u8 := by
    rcases modeOf_cases hsingle hp with ⟨hkind, -⟩ | ⟨hkind, -⟩ | ⟨-, -, hrel8⟩
    · exact .inl hkind
    · exact .inr hkind
    · exact absurd hrel8 hmode
  exact length_operand (Template.mem_of_mem_operands_parse hp) hkind hvalue

/-- An instruction has the length of its opcode's template, and the text is the template shown. -/
theorem exists_rendering (haddress : InRange address)
    (h : (instructionSet v).CompletesAfter {} address bytes bytes.length)
    (hopcode : bytes.head? = some opcode) :
    (modeOf (entry v opcode)).length = bytes.length ∧ ∃ r shown,
      Template.render (fun _ p => operand r p) 1 (Template.parse placeholders (entry v opcode)) = .ok shown ∧
      ((instructionSet v).feed {} address bytes).record.completeText = shown.display := by
  have haccepted := (lawful v).feed_accepted phase_initial haddress h.pos h.le_length h.fetching
  obtain ⟨shown, hshown⟩ := (lawful v).exists_shown phase_initial haddress h
  have hcomplete := h.complete
  rw [List.take_length] at haccepted hshown hcomplete
  have hpick : pick ((instructionSet v).feed {} address bytes).record.buffer.code 0 =
      .ok (opcode.toNat : Int) := by
    apply Buffer.pick_of_head?
    rw [haccepted.fetched_eq, hopcode]
  have hrender : render v ((instructionSet v).feed {} address bytes).record = .ok shown := hshown.render_eq
  obtain ⟨byte, t, -, hbyte, ht, hlength⟩ := settled_template hshown.settled
  have htemplate : t.toList = entry v opcode := by
    rw [← Except.ok.inj (hpick.symm.trans hbyte), template_eq] at ht
    exact (Except.ok.inj ht).symm
  refine ⟨?_, ((instructionSet v).feed {} address bytes).record, shown, ?_, ?_⟩
  · rw [← htemplate, ← hlength, ← hshown.count_eq, haccepted.count_eq]
  · rw [← hrender, render, hpick, ok_bind, template_eq, ok_bind]
  · rw [Record.completeText, if_pos hcomplete]
    exact hshown.text_eq_display (render_fits hshown.settled hrender)

theorem entry_wellFormed (v : Variant) (opcode : UInt8) : WellFormed (entry v opcode) := by
  obtain ⟨t, hmem, ht⟩ := exists_template v opcode
  rw [← Except.ok.inj (ht.symm.trans (template_eq v opcode))]
  exact opcodes_wellFormed v t hmem

/-- The instruction of an opcode without a template is shown by a question mark. -/
theorem text_of_unknown (haddress : InRange address)
    (h : (instructionSet v).CompletesAfter {} address bytes bytes.length)
    (hopcode : bytes.head? = some opcode) (hentry : entry v opcode = ['?']) :
    ((instructionSet v).feed {} address bytes).record.completeText = .ofString "?" := by
  obtain ⟨-, r, shown, hrender, htext⟩ := exists_rendering haddress h hopcode
  rw [hentry] at hrender
  cases hrender
  exact htext

/-- Templates that can be told apart show the same bytes by different texts. -/
theorem text_ne_of_discernible {w : Variant} (haddress : InRange address)
    (hv : (instructionSet v).CompletesAfter {} address bytes bytes.length)
    (hw : (instructionSet w).CompletesAfter {} address bytes bytes.length)
    (hopcode : bytes.head? = some opcode) (h : Discernible (entry v opcode) (entry w opcode)) :
    ((instructionSet v).feed {} address bytes).record.completeText ≠
      ((instructionSet w).feed {} address bytes).record.completeText := by
  obtain ⟨hlength, r, shown, hrender, htext⟩ := exists_rendering haddress hv hopcode
  obtain ⟨hlength', r', shown', hrender', htext'⟩ := exists_rendering haddress hw hopcode
  rcases h with hdiffers | ⟨hmode, hmode', hdiffers⟩
  · -- The same bytes are one instruction of both variants, so their modes have one length.
    exact absurd (hlength.trans hlength'.symm) hdiffers
  · obtain ⟨hshown, htarget⟩ := length_render (entry_wellFormed v opcode).2 hmode hrender
    obtain ⟨hshown', htarget'⟩ := length_render (entry_wellFormed w opcode).2 hmode' hrender'
    rw [htext, htext', Rendering.display_of_none htarget, Rendering.display_of_none htarget']
    intro heq
    apply hdiffers
    rw [← hshown, ← hshown', Text.ofChars_inj.mp heq]

end Mos6502

/-! ## Listings for both processors -/

theorem Architecture.lists_of_disassemble {a : Architecture} {start : Int} {image : List UInt8}
    {rows : List ListingRow} (h : disassemble a start (imageOf image) = .ok rows) :
    a.instructionSet.Lists start image rows := by
  obtain ⟨listed, hlisted⟩ := a.lawful.exists_lists start image
  have heq : disassemble a start (imageOf image) = .ok listed :=
    a.lawful.listFrom_eq hlisted InstructionSet.phase_initial
  cases h.symm.trans heq
  exact hlisted

open Mos6502 in
/-- A program of the 6502, all of it instructions, is listed alike for the 65C02 if and only if none of its
instructions begins with an opcode that was given another template. -/
theorem disassemble_mos65c02_eq_iff {start : Int} {image : List UInt8} {rows : List ListingRow}
    (hrows : disassemble .mos6502 start (imageOf image) = .ok rows)
    (hdefined : ∀ row ∈ rows, ¬ row.IsData ∧ row.text ≠ .ofString "?") :
    disassemble .mos65c02 start (imageOf image) = .ok rows ↔
      ∀ row ∈ rows, ∀ opcode ∈ row.bytes.head?, opcode ∉ reassigned := by
  have hlists : (instructionSet .mos6502).Lists start image rows := Architecture.lists_of_disassemble hrows
  have hdata : ∀ row ∈ rows, ¬ row.IsData := fun row hmem => (hdefined row hmem).1
  have hold := (lawful .mos6502).completes_of_lists hlists hdata
  have hentry : ∀ row ∈ rows, ∀ opcode ∈ row.bytes.head?, entry .mos6502 opcode ≠ ['?'] := by
    intro row hmem opcode hopcode hunknown
    obtain ⟨haddress, hcompletes, htext⟩ := hold row hmem
    apply (hdefined row hmem).2
    rw [htext]
    exact text_of_unknown haddress hcompletes hopcode hunknown
  constructor
  · intro heq row hmem opcode hopcode
    have hlists' : (instructionSet .mos65c02).Lists start image rows := Architecture.lists_of_disassemble heq
    obtain ⟨haddress, hcompletes, htext⟩ := hold row hmem
    obtain ⟨-, hcompletes', htext'⟩ := (lawful .mos65c02).completes_of_lists hlists' hdata row hmem
    rcases succession opcode with hunknown | ⟨-, hkept⟩ | ⟨-, hdiscernible⟩
    · exact absurd hunknown (hentry row hmem opcode hopcode)
    · exact hkept
    · exact absurd (htext.symm.trans htext')
        (text_ne_of_discernible haddress hcompletes hcompletes' hopcode hdiscernible)
  · intro hkept
    apply (lawful .mos65c02).listFrom_eq _ InstructionSet.phase_initial
    apply (lawful .mos6502).lists_of_coincide hlists hdata
    intro row hmem opcode hopcode
    rcases succession opcode with hunknown | ⟨heq, -⟩ | ⟨hreassigned, -⟩
    · exact absurd hunknown (hentry row hmem opcode hopcode)
    · exact coincide_of_entry_eq heq
    · exact absurd hreassigned (hkept row hmem opcode hopcode)

/-- Zero page instructions and a branch back to the first of them, none with a reassigned opcode. -/
theorem disassemble_mos65c02_loop :
    let rows : List ListingRow := [⟨0xFFFE, [0xE6, 0x10], .ofString "INC $10"⟩,
      ⟨0x0000, [0xD0, 0xFC], .ofString "BNE -4 <FFFE>"⟩]
    (disassemble .mos6502 0xFFFE (imageOf [0xE6, 0x10, 0xD0, 0xFC]) = .ok rows ∧
      ∀ row ∈ rows, ¬ row.IsData ∧ row.text ≠ .ofString "?") ∧
    (disassemble .mos65c02 0xFFFE (imageOf [0xE6, 0x10, 0xD0, 0xFC]) = .ok rows ↔
      ∀ row ∈ rows, ∀ opcode ∈ row.bytes.head?, opcode ∉ Mos6502.reassigned) := by
  intro rows
  have hrows : disassemble .mos6502 0xFFFE (imageOf [0xE6, 0x10, 0xD0, 0xFC]) = .ok rows := by
    apply eq_ok_of_toOption
    decide +kernel
  have hdefined : ∀ row ∈ rows, ¬ row.IsData ∧ row.text ≠ .ofString "?" := by
    decide +kernel
  exact ⟨⟨hrows, hdefined⟩, disassemble_mos65c02_eq_iff hrows hdefined⟩

/-- The 65C02 reads a word behind the opcode of a load from the zero page, so every instruction behind it is
another one. -/
theorem disassemble_mos65c02_shifted :
    let image := imageOf [0xA5, 0x10, 0xA9, 0x01, 0x60]
    let rows : List ListingRow := [⟨0x0200, [0xA5, 0x10], .ofString "LDA $10"⟩,
      ⟨0x0202, [0xA9, 0x01], .ofString "LDA #$01"⟩, ⟨0x0204, [0x60], .ofString "RTS"⟩]
    disassemble .mos6502 0x0200 image = .ok rows ∧
      (∀ row ∈ rows, ¬ row.IsData ∧ row.text ≠ .ofString "?") ∧
      disassemble .mos65c02 0x0200 image = .ok [⟨0x0200, [0xA5, 0x10, 0xA9], .ofString "LDA $A910"⟩,
        ⟨0x0203, [0x01, 0x60], .ofString "ORA ($60,X)"⟩] := by
  refine ⟨?_, ?_, ?_⟩
  · apply eq_ok_of_toOption
    decide +kernel
  · decide +kernel
  · apply eq_ok_of_toOption
    decide +kernel

end EightBit
