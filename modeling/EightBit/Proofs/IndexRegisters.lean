import EightBit.Proofs.Replaced
import EightBit.Proofs.Targets
set_option autoImplicit false

/-!
# Index registers in the place of `HL`

Behind `0xDD` and `0xFD` an instruction works on an index register where it would work on `HL`.  A memory cell
`(HL)` becomes one with a displacement, whose byte stands in front of the other operands; anywhere else the name
of the register is put in the place of `HL`.  So the text is that of the instruction without the lead, with one
or the other replaced (`Z80.feed_indexed`).

For the templates this is a matter of the table: the segments of a template behind a lead are those of the opcode
with the cell opened or the literals changed (`Z80.indexedSegments`).  The operands behind the lead have the same
values, since they are read from the same bytes further on.
-/

namespace EightBit

theorem Template.placed_add {α : Type} (i m : Int) (ps : List (Placeholder α)) :
    placed (i + m) ps = (placed i ps).map fun p => (p.1 + m, p.2) := by
  induction ps generalizing i with
  | nil => rfl
  | cons p ps ih =>
      rw [placed, placed, List.map_cons, ← ih, Int.add_right_comm]

namespace Z80

open InstructionSet

/-! ## Templates behind an index lead -/

/-- The index leads with their registers. -/
def indexLeads : List (UInt8 × String) :=
  [(0xDD, "IX"), (0xFD, "IY")]

/-- The opcodes that are leads themselves, and the jumps. -/
def unindexed : List UInt8 :=
  [0xCB, 0xDD, 0xED, 0xFD] ++ jumps

/-- The placeholder of a displacement. -/
def displacement : Placeholder Char :=
  ⟨"+ddd".toList, .disp8, 1⟩

/-- The only bracket opens a memory cell in the first literal. -/
structure Cell (segments : List (Segment Char)) where
  front : List Char
  back : List Char
  tail : List (Segment Char)
  segments_eq : segments = .literal (front ++ ("(HL)".toList ++ back)) :: tail
  front_clear : '(' ∉ front
  back_clear : '(' ∉ back
  tail_clear : '(' ∉ Template.literals tail

namespace Cell

variable {segments : List (Segment Char)} {text : List Char} {values : List (List Char)}

/-- The segments with a register and a displacement in the cell. -/
def opened (cell : Cell segments) (register : List Char) : List (Segment Char) :=
  .literal (cell.front ++ '(' :: register) :: .operand displacement :: .literal (')' :: cell.back) :: cell.tail

theorem operands_opened (cell : Cell segments) (register : List Char) :
    Template.operands (cell.opened register) = displacement :: Template.operands segments := by
  have hoperands := congrArg Template.operands cell.segments_eq
  rw [hoperands]
  rfl

theorem mem_literals (cell : Cell segments) : 'H' ∈ Template.literals segments := by
  have hliterals := congrArg Template.literals cell.segments_eq
  rw [hliterals]
  simp [Template.literals]

theorem infix_of_fill (cell : Cell segments) (h : Template.fill segments values = .ok text) :
    "(HL)".toList <:+: text := by
  rw [cell.segments_eq] at h
  obtain ⟨rest, -, htext⟩ := Template.exists_of_fill_literal h
  exact ⟨cell.front, cell.back ++ rest, by simp [htext]⟩

/-- A cell is opened in a filled template by filling in the displacement. -/
theorem fill_opened (cell : Cell segments) (register d : List Char)
    (hvalues : ∀ value ∈ values, value ≠ [] ∧ Foreign "(HL)".toList value)
    (h : Template.fill segments values = .ok text) : Template.fill (cell.opened register) (d :: values) =
      .ok (replaced "(HL)".toList ('(' :: (register ++ d ++ [')'])) text) := by
  rw [cell.segments_eq] at h
  obtain ⟨rest, hrest, rfl⟩ := Template.exists_of_fill_literal h
  have hkept : '(' ∉ cell.back ++ rest := by
    rw [List.mem_append, not_or]
    refine ⟨cell.back_clear, ?_⟩
    intro hmem
    rcases Template.mem_fill hrest hmem with hliteral | ⟨value, hvalue, hsymbol⟩
    · exact cell.tail_clear hliteral
    · exact (hvalues value hvalue).2 '(' hsymbol (by decide)
  have hcell : "(HL)".toList = '(' :: "HL)".toList := rfl
  have hreplaced : ∀ new, replaced "(HL)".toList new (cell.front ++ ("(HL)".toList ++ cell.back) ++ rest) =
      cell.front ++ (new ++ (cell.back ++ rest)) := by
    intro new
    have hword : "(HL)".toList ≠ [] := by decide
    rw [List.append_assoc, List.append_assoc, hcell, replaced_append_of_not_mem cell.front_clear, ← hcell,
      replaced_append_word hword, hcell, replaced_of_not_mem hkept]
  rw [hreplaced]
  simp [opened, Template.fill, hrest]

end Cell

/-- The memory cell of a template, if it has one. -/
def cell? : (segments : List (Segment Char)) → Option (Cell segments)
  | .literal text :: tail =>
      let rest := text.dropWhile (· ≠ '(')
      if h : "(HL)".toList.isPrefixOf rest = true ∧ '(' ∉ rest.drop 4 ∧ '(' ∉ Template.literals tail then
        some {
          front := text.takeWhile (· ≠ '(')
          back := rest.drop 4
          tail := tail
          segments_eq := by
            have hrest : "(HL)".toList ++ rest.drop 4 = rest :=
              List.prefix_iff_eq_append.mp (List.isPrefixOf_iff_prefix.mp h.1)
            rw [hrest, List.takeWhile_append_dropWhile]
          front_clear := by
            intro hmem
            have hall := List.all_eq_true.mp (List.all_takeWhile (p := (· ≠ '(')) (l := text)) '(' hmem
            simp at hall
          back_clear := h.2.1
          tail_clear := h.2.2 }
      else none
  | _ => none

/-- The segments behind an index lead. -/
def indexedSegments (register : List Char) (transfer : Bool) (segments : List (Segment Char)) :
    List (Segment Char) :=
  match if transfer then none else cell? segments with
  | some cell => cell.opened register
  | none => Template.mapLiterals (replaced "HL".toList register) segments

theorem indexedSegments_cell {register : List Char} {segments : List (Segment Char)} {cell : Cell segments}
    (h : cell? segments = some cell) : indexedSegments register false segments = cell.opened register := by
  simp [indexedSegments, h]

theorem indexedSegments_name {register : List Char} {transfer : Bool} {segments : List (Segment Char)}
    (h : cell? segments = none ∨ transfer = true) :
    indexedSegments register transfer segments = Template.mapLiterals (replaced "HL".toList register) segments := by
  rcases h with h | h <;> simp [indexedSegments, h]

section

variable {lead opcode : UInt8} {t : List Char} {text : List Char}

/-- In a template without an `H` there is nothing to replace. -/
theorem indexedSegments_eq_self (h : 'H' ∉ t) (register : List Char) (transfer : Bool) :
    indexedSegments register transfer (Template.parse placeholders t) = Template.parse placeholders t := by
  have hnone : cell? (Template.parse placeholders t) = none := by
    rw [Option.eq_none_iff_forall_ne_some]
    intro cell _
    exact h (Template.mem_of_mem_literals cell.mem_literals)
  rw [indexedSegments_name (.inl hnone)]
  apply Template.mapLiterals_eq_self
  intro text htext
  exact replaced_of_not_mem fun hmem => h (Template.mem_of_mem_literals (Template.mem_literals htext hmem))

theorem not_infix_of_not_mem {word : List Char} (h : 'H' ∉ t)
    (htext : text ∈ Template.literalTexts (Template.parse placeholders t)) (hword : 'H' ∈ word) :
    ¬ word <:+: text :=
  fun hinside => h (Template.mem_of_mem_literals (Template.mem_literals htext (hinside.subset hword)))

/-- What an index lead makes of the template of an opcode: `HL` stands nowhere behind the lead, and what looks like
a memory cell is one. -/
structure Indexes (lead : UInt8) (register : List Char) (opcode : UInt8) (t : List Char) : Prop where
  parse_eq : Template.parse placeholders (leadTemplate lead opcode t) =
    indexedSegments register (opcode = 0xE9) (Template.parse placeholders t)
  name : ∀ text ∈ Template.literalTexts (indexedSegments register (opcode = 0xE9) (Template.parse placeholders t)),
    ¬ "HL".toList <:+: text
  cell : cell? (Template.parse placeholders t) = none →
    ∀ text ∈ Template.literalTexts (Template.parse placeholders t), ¬ "(HL)".toList <:+: text

theorem Indexes.of_not_mem (h : 'H' ∉ t) (hadd : opcode &&& 0xCF ≠ 0x09) (lead : UInt8) (register : List Char) :
    Indexes lead register opcode t where
  parse_eq := by rw [leadTemplate_eq_self h hadd, indexedSegments_eq_self h]
  name text htext := by
    rw [indexedSegments_eq_self h] at htext
    exact not_infix_of_not_mem h htext (by decide)
  cell _ text htext := not_infix_of_not_mem h htext (by decide)

instance (lead : UInt8) (register : List Char) (opcode : UInt8) (t : List Char) :
    Decidable (Indexes lead register opcode t) :=
  decidable_of_iff
    (Template.parse placeholders (leadTemplate lead opcode t) =
        indexedSegments register (opcode = 0xE9) (Template.parse placeholders t) ∧
      ((Template.literalTexts (indexedSegments register (opcode = 0xE9) (Template.parse placeholders t))).all
        fun text => !occurs "HL".toList text) = true ∧
      ((cell? (Template.parse placeholders t)).isNone = true →
        ((Template.literalTexts (Template.parse placeholders t)).all
          fun text => !occurs "(HL)".toList text) = true))
    (by
      simp only [List.all_eq_true, Bool.not_eq_true', ← Bool.not_eq_true, occurs_iff, Option.isNone_iff_eq_none]
      exact ⟨fun h => ⟨h.1, h.2.1, h.2.2⟩, fun h => ⟨h.parse_eq, h.name, h.cell⟩⟩)

end

theorem indexes {lead opcode : UInt8} {register : String} (hlead : (lead, register) ∈ indexLeads)
    (hopcode : opcode ∉ unindexed) : Indexes lead register.toList opcode (plainTemplate opcode) := by
  -- Only the templates with an `H` are compared, the others follow from `Indexes.of_not_mem`.
  have htable : opcode ∉ unindexed → if 'H' ∈ plainTemplate opcode then
      Indexes lead register.toList opcode (plainTemplate opcode) else opcode &&& 0xCF ≠ 0x09 := by
    apply Spelled.forall_entry (P := fun opcode t => opcode ∉ unindexed →
      if 'H' ∈ t then Indexes lead register.toList opcode t else opcode &&& 0xCF ≠ 0x09)
    · unfold opcodes
      repeat' constructor
    · exact length_opcodes
    · simp only [indexLeads, List.mem_cons, List.not_mem_nil, or_false, Prod.mk.injEq] at hlead
      rcases hlead with ⟨rfl, rfl⟩ | ⟨rfl, rfl⟩ <;> decide +kernel
  have hentry := htable hopcode
  split at hentry
  · exact hentry
  · rename_i hmem
    exact .of_not_mem hmem hentry lead register.toList

/-! ## Operands behind an index lead -/

/-- The text is the template filled with the values of its operands, which have no symbol of a memory cell. -/
structure Filled (r : Record Mode) (offset : Int) (segments : List (Segment Char)) (text : List Char)
    (values : List Rendering) : Prop where
  values_eq : (Template.placed offset (Template.operands segments)).map (fun p => operand r p.1 p.2) =
    values.map .ok
  fill_eq : Template.fill segments (values.map Rendering.text) = .ok text
  foreign : ∀ value ∈ values.map Rendering.text, value ≠ [] ∧ Foreign "(HL)".toList value

theorem Filled.foreign_name {r : Record Mode} {offset : Int} {segments : List (Segment Char)} {text : List Char}
    {values : List Rendering} (h : Filled r offset segments text values) :
    ∀ value ∈ values.map Rendering.text, value ≠ [] ∧ Foreign "HL".toList value :=
  fun value hvalue => (h.foreign value hvalue).imp_right fun hforeign => hforeign.mono (by decide)

section

variable {r q : Record Mode} {address i m n : Int} {bytes rest : List UInt8} {mode : Mode} {shown : Rendering}
  {t : List Char} {offset length : Int} {lead opcode : UInt8} {b : Buffer}

/-- The text of an operand has no symbol of a memory cell. -/
theorem foreign_operand {p : Placeholder Char} {value : Rendering}
    (hkind : p.kind = .u16 ∨ p.kind = .u8 ∨ p.kind = .disp8) (h0 : 0 ≤ i) (h7 : i < 7)
    (h : operand r i p = .ok value) : value.text ≠ [] ∧ Foreign "(HL)".toList value.text := by
  constructor
  · obtain ⟨low, hlow⟩ := r.buffer.exists_pick_code (i := i) h0 (by omega)
    obtain ⟨high, hhigh⟩ := r.buffer.exists_pick_code (i := i + 1) (by omega) (by omega)
    rcases hkind with hkind | hkind | hkind <;>
      simp only [operand, hkind, readU16le, readS8, hlow, hhigh, ok_bind, pure_eq_ok, Except.ok.injEq] at h <;>
      rw [← h]
    · simp
    · simp
    · simp only [signedDecimal, decimal]
      split <;> simp
  · intro c hc hcell
    have hsymbol := (isOperand_operand h0 h7 h).symbols c hc
    have hcases : c = '(' ∨ c = 'H' ∨ c = 'L' ∨ c = ')' := by simpa using hcell
    rcases hcases with rfl | rfl | rfl | rfl <;> exact absurd hsymbol (by decide)

theorem map_operand_shifted {ps : List (Placeholder Char)} (hps : ∀ p ∈ ps, p ∈ placeholders)
    (hagree : AgreeShifted m 1 n r.buffer.code q.buffer.code) (haddress : r.address = q.address)
    (hend : 1 + (Template.operandBytes ps : Int) ≤ n) :
    (Template.placed (1 + m) ps).map (fun p => operand q p.1 p.2) =
      (Template.placed 1 ps).map fun p => operand r p.1 p.2 := by
  rw [Template.placed_add, List.map_map]
  apply List.map_congr_left
  rintro ⟨j, p⟩ hp
  obtain ⟨hmem, hj, hsize⟩ := Template.mem_placed hp
  have hlast : j + p.size ≤ n := by omega
  exact (operand_shifted (hps p hmem) hagree hj hlast haddress).symm

theorem Form.exists_filled (h : Form r.buffer.code t offset length)
    (hkinds : ∀ p ∈ Template.operands (Template.parse placeholders t),
      p.kind = .u16 ∨ p.kind = .u8 ∨ p.kind = .disp8)
    (hholds : instructionSet.Holds r address bytes mode shown) :
    ∃ values, Filled r offset (Template.parse placeholders t) shown.text values := by
  obtain ⟨k, hdecided⟩ := h.exists_decidedAt
  obtain ⟨-, -, hrender⟩ := h.of_holds hholds
  obtain ⟨values, hvalues, hfill, -⟩ := Template.exists_of_render hrender
  refine ⟨values, hvalues, hfill, ?_⟩
  intro text htext
  obtain ⟨value, hvalue, rfl⟩ := List.mem_map.mp htext
  obtain ⟨j, p, hp, heq⟩ := Template.exists_placed hvalues hvalue
  obtain ⟨hfirst, hend⟩ := hdecided.placed_bounds hp
  exact foreign_operand (hkinds p (Template.mem_placed hp).1) hfirst (by omega) heq

end

/-- An index lead adds the operand of a displacement or none. -/
theorem mem_operands_indexedSegments {register : List Char} {transfer : Bool} {segments : List (Segment Char)}
    {p : Placeholder Char} (hp : p ∈ Template.operands (indexedSegments register transfer segments)) :
    p = displacement ∨ p ∈ Template.operands segments := by
  by_cases hname : cell? segments = none ∨ transfer = true
  · rw [indexedSegments_name hname, Template.operands_mapLiterals] at hp
    exact .inr hp
  · rw [not_or, Bool.not_eq_true] at hname
    obtain ⟨hcell, rfl⟩ := hname
    obtain ⟨cell, hcell⟩ := Option.ne_none_iff_exists'.mp hcell
    rw [indexedSegments_cell hcell, cell.operands_opened] at hp
    exact List.mem_cons.mp hp

/-! ## Instructions behind an index lead -/

section

variable {r q : Record Mode} {address : Int} {rest : List UInt8} {mode mode' : Mode} {shown shown' : Rendering}
  {lead opcode d : UInt8} {register : String} {b : Buffer}

theorem form_plain (hopcode : opcode ∉ unindexed) (hfetched : b.fetched = opcode :: rest) :
    Form b.code (plainTemplate opcode) 1 1 := by
  have hne : ∀ lead : UInt8, lead ∈ unindexed → (opcode.toNat : Int) ≠ lead.toNat :=
    fun lead hmem heq => hopcode (toNat_injective heq ▸ hmem)
  have hcb : (opcode.toNat : Int) ≠ 0xCB := hne 0xCB (by decide)
  have hdd : (opcode.toNat : Int) ≠ 0xDD := hne 0xDD (by decide)
  have hed : (opcode.toNat : Int) ≠ 0xED := hne 0xED (by decide)
  have hfd : (opcode.toNat : Int) ≠ 0xFD := hne 0xFD (by decide)
  have h0 : b.fetched[0]? = some opcode := by rw [hfetched]; rfl
  exact .plain (Buffer.pick_of_fetched h0) (by simp [isLead, isIndexLead, hcb, hdd, hed, hfd])

theorem isIndexLead_of_mem (hlead : (lead, register) ∈ indexLeads) : isIndexLead (lead.toNat : Int) = true := by
  simp only [indexLeads, List.mem_cons, List.not_mem_nil, or_false, Prod.mk.injEq] at hlead
  rcases hlead with ⟨rfl, -⟩ | ⟨rfl, -⟩ <;> rfl

theorem form_lead (hlead : (lead, register) ∈ indexLeads) (hopcode : opcode ∉ unindexed)
    (hfetched : b.fetched = lead :: opcode :: rest) :
    Form b.code (leadTemplate lead opcode (plainTemplate opcode)) 2 2 := by
  have h0 : b.fetched[0]? = some lead := by rw [hfetched]; rfl
  have h1 : b.fetched[1]? = some opcode := by rw [hfetched]; rfl
  have hbit : opcode ≠ 0xCB := by
    rintro rfl
    exact hopcode (by decide)
  exact .indexed (Buffer.pick_of_fetched h0) (Buffer.pick_of_fetched h1) (isIndexLead_of_mem hlead) hbit
    (indexedTemplate_eq lead opcode)

theorem distance_not_mem (hopcode : opcode ∉ unindexed) : 'r' ∉ plainTemplate opcode :=
  fun hmem => hopcode (List.mem_append_right _ ((plainTemplate_symbols opcode).2 hmem))

theorem kind_plain (hopcode : opcode ∉ unindexed) {p : Placeholder Char}
    (hp : p ∈ Template.operands (Template.parse placeholders (plainTemplate opcode))) :
    p.kind = .u16 ∨ p.kind = .u8 ∨ p.kind = .disp8 :=
  kind_of_plain (distance_not_mem hopcode) hp

theorem kind_lead (hlead : (lead, register) ∈ indexLeads) (hopcode : opcode ∉ unindexed) {p : Placeholder Char}
    (hp : p ∈ Template.operands (Template.parse placeholders (leadTemplate lead opcode (plainTemplate opcode)))) :
    p.kind = .u16 ∨ p.kind = .u8 ∨ p.kind = .disp8 := by
  rw [(indexes hlead hopcode).parse_eq] at hp
  rcases mem_operands_indexedSegments hp with rfl | hp
  · exact .inr (.inr rfl)
  · exact kind_plain hopcode hp

/-- The bytes behind an opcode are those of the operands, and they are few. -/
theorem size_plain (hopcode : opcode ∉ unindexed)
    (h : instructionSet.Holds r address (opcode :: rest) mode shown) :
    mode = Mode.ofOperands (Template.operands (Template.parse placeholders (plainTemplate opcode))) ∧
      rest.length = Template.size (Template.parse placeholders (plainTemplate opcode)) ∧ rest.length ≤ 3 := by
  have hform := form_plain hopcode h.fetched_eq
  obtain ⟨hmode, hlength, -⟩ := hform.of_holds h
  obtain ⟨k, hdecided⟩ := hform.exists_decidedAt
  have hbounded := hdecided.bounded
  rw [List.length_cons] at hlength
  exact ⟨hmode, by omega, by omega⟩

theorem measures_lead (rest : List UInt8) (hlead : (lead, register) ∈ indexLeads) (hopcode : opcode ∉ unindexed)
    (hle : rest.length ≤ 6)
    (hsize : rest.length = Template.size (indexedSegments register.toList (opcode = 0xE9)
      (Template.parse placeholders (plainTemplate opcode)))) :
    instructionSet.Measures (lead :: opcode :: rest) (Mode.ofOperands (Template.operands
      (indexedSegments register.toList (opcode = 0xE9) (Template.parse placeholders (plainTemplate opcode))))) := by
  have hparse := (indexes hlead hopcode).parse_eq
  have hform : Form (Buffer.ofBytes (lead :: opcode :: rest) (Nat.add_le_add_right hle 2)).code _ 2 2 :=
    form_lead hlead hopcode rfl
  rw [← hparse] at hsize ⊢
  have hlength : ((lead :: opcode :: rest).length : Int) =
      2 + Template.size (Template.parse placeholders (leadTemplate lead opcode (plainTemplate opcode))) := by
    rw [List.length_cons, List.length_cons, hsize]
    omega
  exact hform.measures rfl hlength

theorem exists_filled_plain (hopcode : opcode ∉ unindexed)
    (h : instructionSet.Holds r address (opcode :: rest) mode shown) :
    ∃ values, Filled r 1 (Template.parse placeholders (plainTemplate opcode)) shown.text values :=
  (form_plain hopcode h.fetched_eq).exists_filled (fun _ => kind_plain hopcode) h

theorem exists_filled_lead (hlead : (lead, register) ∈ indexLeads) (hopcode : opcode ∉ unindexed)
    (h : instructionSet.Holds q address (lead :: opcode :: rest) mode shown) :
    ∃ values, Filled q 2 (indexedSegments register.toList (opcode = 0xE9)
      (Template.parse placeholders (plainTemplate opcode))) shown.text values := by
  rw [← (indexes hlead hopcode).parse_eq]
  exact (form_lead hlead hopcode h.fetched_eq).exists_filled (fun _ => kind_lead hlead hopcode) h

/-- The operands of an opcode have the same values behind a lead and further bytes. -/
theorem values_moved (extra : List UInt8) {values : List Rendering} (hopcode : opcode ∉ unindexed)
    (hone : instructionSet.Holds r address (opcode :: rest) mode shown)
    (hother : instructionSet.Holds q address (lead :: opcode :: (extra ++ rest)) mode' shown')
    (hfilled : Filled r 1 (Template.parse placeholders (plainTemplate opcode)) shown.text values) :
    (Template.placed (1 + (extra.length + 1 : Nat))
      (Template.operands (Template.parse placeholders (plainTemplate opcode)))).map (fun p => operand q p.1 p.2) =
      values.map .ok := by
  rw [← hfilled.values_eq]
  have hagree : AgreeShifted (extra.length + 1 : Nat) 1 r.buffer.count r.buffer.code q.buffer.code :=
    Buffer.agreeShifted (x := [opcode]) (y := lead :: opcode :: extra) hone.fetched_eq hother.fetched_eq
      (by simp; omega)
  obtain ⟨-, hsize, -⟩ := size_plain hopcode hone
  apply map_operand_shifted (fun p => Template.mem_of_mem_operands_parse) hagree
    (hone.address_eq.trans hother.address_eq.symm)
  rw [Buffer.count, hone.fetched_eq, List.length_cons, hsize, Template.size]
  omega

/-- Behind an index lead `HL` stands nowhere. -/
theorem not_infix_lead (hlead : (lead, register) ∈ indexLeads) (hopcode : opcode ∉ unindexed)
    (h : instructionSet.Holds q address (lead :: opcode :: rest) mode shown) : ¬ "HL".toList <:+: shown.text := by
  have htable := indexes hlead hopcode
  obtain ⟨values, hfilled⟩ := exists_filled_lead hlead hopcode h
  intro hinside
  have halternates : Template.Alternates (indexedSegments register.toList (opcode = 0xE9)
      (Template.parse placeholders (plainTemplate opcode))) := by
    rw [← htable.parse_eq]
    exact Template.alternates_parse _ _
  obtain ⟨text, htext, hfound⟩ := Template.infix_literal_of_fill (by decide) halternates hfilled.foreign_name
    hfilled.fill_eq hinside
  exact htable.name text htext hfound

theorem measures_cell (hlead : (lead, register) ∈ indexLeads) (hopcode : opcode ∉ unindexed)
    (htransfer : opcode ≠ 0xE9) {cell : Cell (Template.parse placeholders (plainTemplate opcode))}
    (hcell : cell? (Template.parse placeholders (plainTemplate opcode)) = some cell)
    (h : instructionSet.Holds r address (opcode :: rest) mode shown) (d : UInt8) :
    instructionSet.Measures (lead :: opcode :: d :: rest) .disp8 := by
  obtain ⟨-, hsize, hle⟩ := size_plain hopcode h
  have hmeasures := measures_lead (d :: rest) hlead hopcode
  rw [decide_eq_false htransfer, indexedSegments_cell hcell, Template.size, cell.operands_opened] at hmeasures
  apply hmeasures
  · rw [List.length_cons]
    omega
  · rw [List.length_cons, hsize, Template.size, Template.operandBytes, displacement, Nat.add_comm]

/-- A memory cell is replaced by one with a displacement. -/
theorem holds_cell (hlead : (lead, register) ∈ indexLeads) (hopcode : opcode ∉ unindexed)
    (htransfer : opcode ≠ 0xE9) {cell : Cell (Template.parse placeholders (plainTemplate opcode))}
    (hcell : cell? (Template.parse placeholders (plainTemplate opcode)) = some cell)
    (hone : instructionSet.Holds r address (opcode :: rest) mode shown)
    (hother : instructionSet.Holds q address (lead :: opcode :: d :: rest) mode' shown') :
    shown'.text = replaced "(HL)".toList
      ('(' :: (register.toList ++ signedDecimal (signExtend 8 d.toNat) ++ [')'])) shown.text := by
  obtain ⟨values, hfilled⟩ := exists_filled_plain hopcode hone
  obtain ⟨values', hfilled'⟩ := exists_filled_lead hlead hopcode hother
  rw [decide_eq_false htransfer, indexedSegments_cell hcell] at hfilled'
  have hmoved := values_moved [d] hopcode hone hother hfilled
  have hbyte : pick q.buffer.code 2 = .ok (d.toNat : Int) := hother.byte_eq (i := 2) rfl
  have hvalue : operand q 2 displacement = .ok { text := signedDecimal (signExtend 8 d.toNat) } := by
    simp only [operand, displacement, readS8, hbyte, ok_bind, pure_eq_ok]
  generalize signedDecimal (signExtend 8 d.toNat) = number at hvalue ⊢
  have hvalues : ({ text := number } :: values).map (Except.ok : Rendering → Except Fault Rendering) =
      values'.map .ok := by
    rw [← hfilled'.values_eq, cell.operands_opened, List.map_cons, ← hvalue, ← hmoved]
    rfl
  obtain rfl := Template.map_ok_injective hvalues
  have hfill := hfilled'.fill_eq
  rw [List.map_cons, cell.fill_opened _ _ hfilled.foreign hfilled.fill_eq] at hfill
  exact (Except.ok.inj hfill).symm

theorem measures_name (hlead : (lead, register) ∈ indexLeads) (hopcode : opcode ∉ unindexed)
    (hname : cell? (Template.parse placeholders (plainTemplate opcode)) = none ∨ opcode = 0xE9)
    (h : instructionSet.Holds r address (opcode :: rest) mode shown) :
    instructionSet.Measures (lead :: opcode :: rest) mode := by
  obtain ⟨hmode, hsize, hle⟩ := size_plain hopcode h
  have hmeasures := measures_lead rest hlead hopcode
  rw [indexedSegments_name (hname.imp_right decide_eq_true), Template.operands_mapLiterals, ← hmode] at hmeasures
  apply hmeasures (by omega)
  rw [hsize, Template.size, Template.size, Template.operands_mapLiterals]

/-- Without a memory cell the name of the register is replaced. -/
theorem holds_name (hlead : (lead, register) ∈ indexLeads) (hopcode : opcode ∉ unindexed)
    (hname : cell? (Template.parse placeholders (plainTemplate opcode)) = none ∨ opcode = 0xE9)
    (hone : instructionSet.Holds r address (opcode :: rest) mode shown)
    (hother : instructionSet.Holds q address (lead :: opcode :: rest) mode' shown') :
    shown'.text = replaced "HL".toList register.toList shown.text := by
  obtain ⟨values, hfilled⟩ := exists_filled_plain hopcode hone
  obtain ⟨values', hfilled'⟩ := exists_filled_lead hlead hopcode hother
  have hmoved := values_moved [] hopcode hone hother hfilled
  rw [indexedSegments_name (hname.imp_right decide_eq_true)] at hfilled'
  have hvalues := hfilled'.values_eq
  rw [Template.operands_mapLiterals] at hvalues
  obtain rfl := Template.map_ok_injective (hvalues.symm.trans hmoved)
  have hfill := hfilled'.fill_eq
  rw [Template.fill_replaced (by decide) (Template.alternates_parse _ _) hfilled.foreign_name
    hfilled.fill_eq] at hfill
  exact (Except.ok.inj hfill).symm

/-- A memory cell in the text is one in the template. -/
theorem infix_cell_iff (hlead : (lead, register) ∈ indexLeads) (hopcode : opcode ∉ unindexed)
    (h : instructionSet.Holds r address (opcode :: rest) mode shown) :
    "(HL)".toList <:+: shown.text ↔ cell? (Template.parse placeholders (plainTemplate opcode)) ≠ none := by
  obtain ⟨values, hfilled⟩ := exists_filled_plain hopcode h
  constructor
  · intro hinside hnone
    obtain ⟨text, htext, hfound⟩ := Template.infix_literal_of_fill (by decide) (Template.alternates_parse _ _)
      hfilled.foreign hfilled.fill_eq hinside
    exact (indexes hlead hopcode).cell hnone text htext hfound
  · intro hcell
    obtain ⟨cell, -⟩ := Option.ne_none_iff_exists'.mp hcell
    exact cell.infix_of_fill hfilled.fill_eq

theorem distanceBytes?_plain (hopcode : opcode ∉ unindexed)
    (h : instructionSet.Holds r address (opcode :: rest) mode shown) : mode.distanceBytes? = none := by
  rw [(size_plain hopcode h).1]
  exact distanceBytes?_of_plain (distance_not_mem hopcode)

theorem completeText_of_mode (h : instructionSet.Holds r address (opcode :: rest) mode shown)
    (hmode : mode.distanceBytes? = none) : r.completeText = .ofChars shown.text := by
  have hrefers := refers h
  rw [hmode] at hrefers
  rw [h.displayed, Rendering.display_of_none hrefers.target_eq_none]

theorem holds_of_measures {bytes : List UInt8} (hr : r.phase ≠ .fetching) (haddress : InRange address)
    (h : instructionSet.Measures bytes mode) : instructionSet.CompletesAfter r address bytes bytes.length ∧
      ∃ shown, instructionSet.Holds (instructionSet.feed r address bytes).record address bytes mode shown :=
  Architecture.holds_of_measures .z80 hr haddress h

/-- Behind an index lead an instruction has the text that it has without it, with a displacement in a memory cell
and the index register in the place of `HL`. -/
theorem feed_indexed (rest : List UInt8) (hr : r.phase ≠ .fetching) (hq : q.phase ≠ .fetching)
    (haddress : InRange address) (hlead : (lead, register) ∈ indexLeads) (hopcode : opcode ∉ unindexed)
    (h : instructionSet.CompletesAfter q address (opcode :: rest) (rest.length + 1)) :
    let plain := (instructionSet.feed q address (opcode :: rest)).record
    let hasCell := Text.ofString "(HL)" <:+: plain.completeText ∧ opcode ≠ 0xE9
    (hasCell → ∀ d : UInt8,
      instructionSet.CompletesAfter r address (lead :: opcode :: d :: rest) (rest.length + 3) ∧
      let taken := (instructionSet.feed r address (lead :: opcode :: d :: rest)).record
      taken.completeText = replaced (Text.ofString "(HL)") (Text.ofString "(" ++ Text.ofString register ++
        Text.ofChars (signedDecimal (signExtend 8 d.toNat)) ++ Text.ofString ")") plain.completeText ∧
      taken.mode = some .disp8 ∧ taken.required = plain.required + 2 ∧
      ¬ Text.ofString "HL" <:+: taken.completeText) ∧
    (¬ hasCell →
      instructionSet.CompletesAfter r address (lead :: opcode :: rest) (rest.length + 2) ∧
      let taken := (instructionSet.feed r address (lead :: opcode :: rest)).record
      taken.completeText = replaced (Text.ofString "HL") (Text.ofString register) plain.completeText ∧
      taken.mode = plain.mode ∧ taken.required = plain.required + 1 ∧
      ¬ Text.ofString "HL" <:+: taken.completeText) := by
  intro plain hasCell
  obtain ⟨mode, shown, hone⟩ : ∃ mode shown, instructionSet.Holds plain address (opcode :: rest) mode shown :=
    Architecture.feed_holds .z80 hq haddress h
  have hmode := distanceBytes?_plain hopcode hone
  have htext : plain.completeText = .ofChars shown.text := completeText_of_mode hone hmode
  have hcell : hasCell ↔ cell? (Template.parse placeholders (plainTemplate opcode)) ≠ none ∧ opcode ≠ 0xE9 := by
    rw [← infix_cell_iff hlead hopcode hone, ← Text.infix_ofChars, ← htext]
    rfl
  constructor
  · intro hhas d
    obtain ⟨hsome, htransfer⟩ := hcell.mp hhas
    obtain ⟨cell, hsome⟩ := Option.ne_none_iff_exists'.mp hsome
    obtain ⟨hcompletes, shown', hother⟩ :=
      holds_of_measures hr haddress (measures_cell hlead hopcode htransfer hsome hone d)
    refine ⟨hcompletes, ?_, hother.mode_eq, ?_, ?_⟩
    · rw [completeText_of_mode hother rfl, htext, holds_cell hlead hopcode htransfer hsome hone hother,
        ← Text.ofChars_replaced]
      simp [Text.ofString]
    · rw [hother.required_eq, hone.required_eq]
      rfl
    · rw [completeText_of_mode hother rfl]
      exact mt Text.infix_ofChars.mp (not_infix_lead hlead hopcode hother)
  · intro hhas
    have hname : cell? (Template.parse placeholders (plainTemplate opcode)) = none ∨ opcode = 0xE9 := by
      rwa [hcell, not_and_or, Classical.not_not, Classical.not_not] at hhas
    obtain ⟨hcompletes, shown', hother⟩ :=
      holds_of_measures hr haddress (measures_name hlead hopcode hname hone)
    refine ⟨hcompletes, ?_, hother.mode_eq.trans hone.mode_eq.symm, ?_, ?_⟩
    · rw [completeText_of_mode hother hmode, htext, holds_name hlead hopcode hname hone hother,
        ← Text.ofChars_replaced]
      rfl
    · rw [hother.required_eq, hone.required_eq]
      rfl
    · rw [completeText_of_mode hother hmode]
      exact mt Text.infix_ofChars.mp (not_infix_lead hlead hopcode hother)

end

/-- A store of a byte, whose displacement comes before that byte, over the last address; the decoder behind the lead
has a past. -/
theorem feed_indexed_immediate :
    let r := (instructionSet.feed {} 0x2000 [0xED, 0x4B, 0x34, 0x12]).record
    let q : Record Mode := {}
    let plain := (instructionSet.feed q 0xFFFE [0x36, 0x7F]).record
    (r.phase ≠ .fetching ∧ q.phase ≠ .fetching ∧ InRange 0xFFFE ∧ (0xFD, "IY") ∈ indexLeads ∧ 0x36 ∉ unindexed ∧
      instructionSet.CompletesAfter q 0xFFFE [0x36, 0x7F] 2 ∧
      Text.ofString "(HL)" <:+: plain.completeText ∧ (0x36 : UInt8) ≠ 0xE9) ∧
    instructionSet.CompletesAfter r 0xFFFE [0xFD, 0x36, 0x80, 0x7F] 4 ∧
    let taken := (instructionSet.feed r 0xFFFE [0xFD, 0x36, 0x80, 0x7F]).record
    taken.completeText = Text.ofString "LD (IY-128),7Fh" ∧ taken.mode = some .disp8 ∧
    taken.required = plain.required + 2 ∧ ¬ Text.ofString "HL" <:+: taken.completeText := by
  intro r q plain
  have hr : r.phase ≠ .fetching := by decide +kernel
  have hq : q.phase ≠ .fetching := by decide
  have haddress : InRange 0xFFFE := ⟨by decide, by decide⟩
  have hlead : (0xFD, "IY") ∈ indexLeads := by decide
  have hopcode : 0x36 ∉ unindexed := by decide
  have hcompletes : instructionSet.CompletesAfter q 0xFFFE [0x36, 0x7F] 2 := by decide +kernel
  have hplain : plain.completeText = Text.ofString "LD (HL),7Fh" := by decide +kernel
  have hcell : Text.ofString "(HL)" <:+: plain.completeText ∧ (0x36 : UInt8) ≠ 0xE9 := by
    rw [hplain]
    decide +kernel
  have htext : replaced (Text.ofString "(HL)") (Text.ofString "(" ++ Text.ofString "IY" ++
      Text.ofChars (signedDecimal (signExtend 8 (0x80 : UInt8).toNat)) ++ Text.ofString ")")
      (Text.ofString "LD (HL),7Fh") = Text.ofString "LD (IY-128),7Fh" := by decide +kernel
  obtain ⟨hindexed, htaken, hmode, hrequired, hname⟩ :=
    (feed_indexed [0x7F] hr hq haddress hlead hopcode hcompletes).1 hcell 0x80
  rw [hplain, htext] at htaken
  exact ⟨⟨hr, hq, haddress, hlead, hopcode, hcompletes, hcell⟩, hindexed, htaken, hmode, hrequired, hname⟩

end Z80

end EightBit
