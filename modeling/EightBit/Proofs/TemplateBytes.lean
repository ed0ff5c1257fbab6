import EightBit.Proofs.OperandBytes
import EightBit.Proofs.Widths
set_option autoImplicit false

/-!
# Bytes behind a template

A clear template shows the operands that it was filled with, and they follow one another in the code.  So
two instructions of the same template with the same text agree on all cells of their operands.  For the
6502 the opcode decides the template.  For the Z80 the leading bytes do with it, and in the indexed bit
group the opcode is behind the displacement.
-/

namespace EightBit

/-- Operands that follow one another agree as one range. -/
theorem agreeWithin_placed {c d : List Int} {i : Int} {ps : List (Placeholder Char)}
    (h : ∀ j p, (j, p) ∈ Template.placed i ps → AgreeWithin j (j + p.size) c d) :
    AgreeWithin i (i + Template.operandBytes ps) c d := by
  induction ps generalizing i with
  | nil => exact .none i
  | cons p ps ih =>
      have hfirst := h i p List.mem_cons_self
      have hrest := ih fun j q hq => h j q (List.mem_cons_of_mem _ hq)
      have happend := hfirst.append hrest
      rwa [Int.add_assoc, ← Int.natCast_add] at happend

namespace Template

variable {f g : Int → Placeholder Char → Except Fault Rendering} {i : Int} {segments : List (Segment Char)}
  {shown shown' : Rendering}

section

variable {values : List Rendering} (h : (placed i (operands segments)).map (fun p => f p.1 p.2) = values.map .ok)

include h

/-- What is asked of the values is asked of the operands. -/
theorem map_values {β : Type} (φ : Rendering → β) :
    (placed i (operands segments)).map (fun p => (f p.1 p.2).map φ) = (values.map φ).map .ok := by
  calc (placed i (operands segments)).map (fun p => (f p.1 p.2).map φ)
      = ((placed i (operands segments)).map fun p => f p.1 p.2).map (Except.map φ) := by rw [List.map_map]; rfl
    _ = (values.map φ).map .ok := by rw [h, List.map_map, List.map_map]; rfl

theorem length_values : (values.map Rendering.text).length = (operands segments).length := by
  have hlength := congrArg List.length h
  rw [List.length_map, List.length_map, length_placed] at hlength
  rw [List.length_map, hlength]

end

/-- A single operand is at the first position. -/
theorem placed_single {j : Int} {p : Placeholder Char} {ps : List (Placeholder Char)} (hlength : ps.length ≤ 1)
    (h : (j, p) ∈ placed i ps) : j = i := by
  cases ps with
  | nil => cases h
  | cons q rest =>
      have hrest : rest = [] := List.eq_nil_of_length_eq_zero (Nat.le_zero.mp (Nat.le_of_succ_le_succ hlength))
      subst hrest
      exact congrArg Prod.fst (List.mem_singleton.mp h)

/-- Of several addresses the last one counts, so there is one if any operand refers to one. -/
theorem isSome_foldl_target (values : List Rendering) (target : Option Int) :
    (values.foldl (fun target r => r.target.or target) target).isSome =
      (target.isSome || (values.map fun r => r.target.isSome).any id) := by
  induction values generalizing target with
  | nil => simp
  | cons r values ih => simp [ih, Bool.or_left_comm, Bool.or_assoc]

/-- Two renderings of a template both refer to an address or none does, as their operands do. -/
theorem isSome_render (h : render f i segments = .ok shown) (h' : render g i segments = .ok shown')
    (hsome : ∀ j p, (j, p) ∈ placed i (operands segments) →
      (f j p).map (fun r => r.target.isSome) = (g j p).map fun r => r.target.isSome) :
    shown.target.isSome = shown'.target.isSome := by
  obtain ⟨values, hvalues, -, htarget⟩ := exists_of_render h
  obtain ⟨values', hvalues', -, htarget'⟩ := exists_of_render h'
  have hmap := map_values hvalues fun r => r.target.isSome
  have hmap' := map_values hvalues' fun r => r.target.isSome
  have heq : (values.map fun r => r.target.isSome) = values'.map fun r => r.target.isSome := by
    have hok : ∀ x y : Bool, (.ok x : Except Fault Bool) = .ok y → x = y := fun _ _ => Except.ok.inj
    rw [← List.map_inj_right hok, ← hmap, ← hmap']
    exact List.map_congr_left fun p hp => hsome p.1 p.2 hp
  rw [htarget, htarget', isSome_foldl_target, isSome_foldl_target, heq]

/-- Equal texts of a clear template have equal operands. -/
theorem render_injective {width : Nat} (hclear : Clear width segments)
    (hf : ∀ j p value, (j, p) ∈ placed i (operands segments) → f j p = .ok value → IsOperand value.text)
    (hg : ∀ j p value, (j, p) ∈ placed i (operands segments) → g j p = .ok value → IsOperand value.text)
    (h : render f i segments = .ok shown) (h' : render g i segments = .ok shown')
    (htext : shown.text = shown'.text) :
    ∀ j p, (j, p) ∈ placed i (operands segments) →
      (f j p).map Rendering.text = (g j p).map Rendering.text := by
  obtain ⟨values, hvalues, hfill, -⟩ := exists_of_render h
  obtain ⟨values', hvalues', hfill', -⟩ := exists_of_render h'
  have heq : values.map Rendering.text = values'.map Rendering.text := by
    rw [← htext] at hfill'
    exact fill_injective hclear.setOff_eq (length_values hvalues) (length_values hvalues')
      (fun text hmem => (isOperand_of_values hf hvalues text hmem).symbols)
      (fun text hmem => (isOperand_of_values hg hvalues' text hmem).symbols) hfill hfill'
  have hmap : (placed i (operands segments)).map (fun p => (f p.1 p.2).map Rendering.text) =
      (placed i (operands segments)).map fun p => (g p.1 p.2).map Rendering.text := by
    rw [map_values hvalues, map_values hvalues', heq]
  intro j p hp
  exact List.map_inj_left.mp hmap (j, p) hp

end Template

/-! ## The 6502 and the 65C02 -/

namespace Mos6502

variable {r q : Record Mode} {p : Placeholder Char}

theorem operand_injective (hp : p ∈ placeholders)
    (h : (operand r p).map Rendering.text = (operand q p).map Rendering.text) :
    AgreeWithin 1 (1 + p.size) r.buffer.code q.buffer.code := by
  obtain ⟨-, low, high, -, -, hlow, hhigh, -⟩ := r.buffer.exists_front
  obtain ⟨-, low', high', -, -, hlow', hhigh', -⟩ := q.buffer.exists_front
  simp only [placeholders, List.mem_cons, List.not_mem_nil, or_false] at hp
  rcases hp with rfl | rfl | rfl <;>
    simp only [operand, readU16le, readS8, hlow, hlow', Int.reduceAdd, hhigh, hhigh', ok_bind, pure_eq_ok,
      Except.map, Except.ok.injEq] at h
  · obtain ⟨rfl, rfl⟩ := bytes_of_hex16 h
    exact .word (hlow.trans hlow'.symm) (hhigh.trans hhigh'.symm)
  · have hbyte := byte_of_hex8 h
    subst hbyte
    exact .byte (hlow.trans hlow'.symm)
  · have hbyte := byte_of_signExtend (decimal_injective h)
    subst hbyte
    exact .byte (hlow.trans hlow'.symm)

theorem operand_isSome (r q : Record Mode) (p : Placeholder Char) :
    (operand r p).map (fun shown => shown.target.isSome) =
      (operand q p).map fun shown => shown.target.isSome := by
  obtain ⟨-, low, high, -, -, hlow, hhigh, -⟩ := r.buffer.exists_front
  obtain ⟨-, low', high', -, -, hlow', hhigh', -⟩ := q.buffer.exists_front
  simp only [operand, readU16le, readS8, hlow, hlow', Int.reduceAdd, hhigh, hhigh', ok_bind, pure_eq_ok]
  split <;> simp [Except.map]

/-- An instruction has the bytes of its opcode and its operands. -/
theorem length_modeOf {t : List Char} (h : (Template.operands (Template.parse placeholders t)).length ≤ 1) :
    (modeOf t).length = 1 + Template.operandBytes (Template.operands (Template.parse placeholders t)) := by
  cases hoperands : Template.operands (Template.parse placeholders t) with
  | nil => simp [modeOf, hoperands, Mode.length, Template.operandBytes]
  | cons p rest =>
      have hrest : rest = [] := by
        rw [hoperands, List.length_cons] at h
        exact List.eq_nil_of_length_eq_zero (by omega)
      subst hrest
      have hmem : p ∈ Template.operands (Template.parse placeholders t) := by
        rw [hoperands]
        exact List.mem_cons_self
      have hp := Template.mem_of_mem_operands_parse hmem
      simp only [placeholders, List.mem_cons, List.not_mem_nil, or_false] at hp
      rcases hp with rfl | rfl | rfl <;> simp [modeOf, hoperands, Mode.length, Template.operandBytes]

theorem comparable {v : Variant} {shown shown' : Rendering} (hr : (instructionSet v).Settled r)
    (hq : (instructionSet v).Settled q) (hopcode : pick r.buffer.code 0 = pick q.buffer.code 0)
    (h : render v r = .ok shown) (h' : render v q = .ok shown') : Comparable False r q shown shown' := by
  obtain ⟨byte, t, hmem, hbyte, ht, hlength⟩ := settled_template hr
  obtain ⟨byte', t', -, hbyte', ht', hlength'⟩ := settled_template hq
  have heq : (byte.toNat : Int) = byte'.toNat := Except.ok.inj (hbyte.symm.trans (hopcode.trans hbyte'))
  rw [← heq] at hbyte' ht'
  have htemplate : t'.toList = t.toList := Except.ok.inj (ht'.symm.trans ht)
  obtain ⟨-, hsingle⟩ := opcodes_wellFormed v t hmem
  rw [htemplate] at ht' hlength'
  simp only [render, hbyte, ht, ok_bind] at h
  simp only [render, hbyte', ht', ok_bind] at h'
  exact {
    required_eq := hlength.trans hlength'.symm
    isSome_eq := Template.isSome_render h h' fun _ p _ => operand_isSome r q p
    agree := by
      intro htext
      have hoperands := Template.render_injective (opcodes_clear v t hmem)
        (fun _ _ _ _ => isOperand_operand) (fun _ _ _ _ => isOperand_operand) h h' htext
      have hwithin : AgreeWithin 1 r.required r.buffer.code q.buffer.code := by
        rw [hlength, length_modeOf hsingle]
        apply agreeWithin_placed
        intro j p hp
        rw [Template.placed_single hsingle hp]
        exact operand_injective (Template.mem_of_mem_operands_parse (Template.mem_placed hp).1)
          (hoperands j p hp)
      have hfirst : AgreeWithin 0 1 r.buffer.code q.buffer.code := .byte hopcode
      exact .inl (hfirst.append hwithin)
    shown_eq := False.elim }

end Mos6502

/-! ## The Z80 -/

namespace Z80

variable {r q : Record Mode} {i : Int} {p : Placeholder Char} {b c : Buffer}

theorem operand_injective (hp : p ∈ placeholders) (h0 : 0 ≤ i) (h7 : i < 7)
    (h : (operand r i p).map Rendering.text = (operand q i p).map Rendering.text) :
    AgreeWithin i (i + p.size) r.buffer.code q.buffer.code := by
  obtain ⟨low, hlow⟩ := r.buffer.exists_pick_code (i := i) h0 (by omega)
  obtain ⟨high, hhigh⟩ := r.buffer.exists_pick_code (i := i + 1) (by omega) (by omega)
  obtain ⟨low', hlow'⟩ := q.buffer.exists_pick_code (i := i) h0 (by omega)
  obtain ⟨high', hhigh'⟩ := q.buffer.exists_pick_code (i := i + 1) (by omega) (by omega)
  simp only [placeholders, List.mem_cons, List.not_mem_nil, or_false] at hp
  rcases hp with rfl | rfl | rfl | rfl <;>
    simp only [operand, readU16le, readS8, hlow, hlow', hhigh, hhigh', ok_bind, pure_eq_ok, Except.map,
      Except.ok.injEq] at h
  · obtain ⟨rfl, rfl⟩ := bytes_of_hex16 (List.append_cancel_right h)
    exact .word (hlow.trans hlow'.symm) (hhigh.trans hhigh'.symm)
  · have hbyte := byte_of_hex8 (List.append_cancel_right h)
    subst hbyte
    exact .byte (hlow.trans hlow'.symm)
  · have hbyte := byte_of_signExtend (signedDecimal_injective h)
    subst hbyte
    exact .byte (hlow.trans hlow'.symm)
  · have hoffset := decimal_injective h
    have hbyte := byte_of_signExtend (x := low) (y := low') (by omega)
    subst hbyte
    exact .byte (hlow.trans hlow'.symm)

theorem operand_isSome (r q : Record Mode) (p : Placeholder Char) (h0 : 0 ≤ i) (h7 : i < 7) :
    (operand r i p).map (fun shown => shown.target.isSome) =
      (operand q i p).map fun shown => shown.target.isSome := by
  obtain ⟨low, hlow⟩ := r.buffer.exists_pick_code (i := i) h0 (by omega)
  obtain ⟨high, hhigh⟩ := r.buffer.exists_pick_code (i := i + 1) (by omega) (by omega)
  obtain ⟨low', hlow'⟩ := q.buffer.exists_pick_code (i := i) h0 (by omega)
  obtain ⟨high', hhigh'⟩ := q.buffer.exists_pick_code (i := i + 1) (by omega) (by omega)
  simp only [operand, readU16le, readS8, hlow, hlow', hhigh, hhigh', ok_bind, pure_eq_ok]
  split <;> simp [Except.map]

theorem DecidedAt.two_le {code : List Int} {lead : Int} {k : Nat} {t : List Char} {offset length : Int}
    (h : DecidedAt code k t offset length) (h0 : pick code 0 = .ok lead) (hlead : isLead lead = true) :
    2 ≤ k := by
  rcases Nat.lt_or_ge k 2 with hlt | hge
  · have hlt' : (k : Int) < 2 := by omega
    have hdecided := h.decided k (Nat.le_refl k)
    simp only [isLead, Bool.or_eq_true, decide_eq_true_eq] at hlead
    rcases hlead with (rfl | rfl) | hindex
    · simp [templateOf, h0, hlt', isIndexLead] at hdecided
    · simp [templateOf, h0, hlt', isIndexLead] at hdecided
    · simp [templateOf, h0, hlt', hindex] at hdecided
  · exact hge

theorem DecidedAt.four_le {code : List Int} {lead : Int} {k : Nat} {t : List Char} {offset length : Int}
    (h : DecidedAt code k t offset length) (h0 : pick code 0 = .ok lead) (hindex : isIndexLead lead = true)
    (h1 : pick code 1 = .ok 0xCB) : 4 ≤ k := by
  rcases Nat.lt_or_ge k 4 with hlt | hge
  · have hlt' : (k : Int) < 4 := by omega
    have hdecided := h.decided k (Nat.le_refl k)
    simp [templateOf, h0, h1, hindex, hlt'] at hdecided
  · exact hge

/-- The cells of leading bytes and opcode agree. -/
structure SameOpcode (b c : Buffer) : Prop where
  first : pick b.code 0 = pick c.code 0
  second : ∀ lead, pick b.code 0 = .ok lead → isLead lead = true → pick b.code 1 = pick c.code 1
  /-- The opcode of the indexed bit group is behind the displacement. -/
  fourth : ∀ lead, pick b.code 0 = .ok lead → isIndexLead lead = true → pick b.code 1 = .ok 0xCB →
    pick b.code 3 = pick c.code 3

namespace SameOpcode

/-- Templates are found by leading bytes and opcode. -/
theorem templateOf_eq (h : SameOpcode b c) (n : Int) : templateOf b.code n = templateOf c.code n := by
  obtain ⟨opcode, second, -, fourth, h0, h1, -, h3⟩ := b.exists_front
  have h0' : pick c.code 0 = .ok (opcode.toNat : Int) := h.first.symm.trans h0
  by_cases hindex : isIndexLead (opcode.toNat : Int) = true
  · have h1' : pick c.code 1 = .ok (second.toNat : Int) :=
      (h.second _ h0 (by simp [isLead, hindex])).symm.trans h1
    by_cases hbit : (second.toNat : Int) = 0xCB
    · have h3' : pick c.code 3 = .ok (fourth.toNat : Int) :=
        (h.fourth _ h0 hindex (by rw [h1, hbit])).symm.trans h3
      simp only [templateOf, h0, h0', h1, h1', h3, h3']
    · simp only [templateOf, h0, h0', h1, h1', ok_bind, if_neg hbit]
  · by_cases hlead : isLead (opcode.toNat : Int) = true
    · have h1' : pick c.code 1 = .ok (second.toNat : Int) := (h.second _ h0 hlead).symm.trans h1
      simp only [templateOf, h0, h0', h1, h1', ok_bind, if_neg hindex]
    · simp only [isLead, Bool.or_eq_true, decide_eq_true_eq, not_or] at hlead
      obtain ⟨⟨hcb, hed⟩, -⟩ := hlead
      simp only [templateOf, h0, h0', ok_bind, if_neg hindex, if_neg hed, if_neg hcb]

theorem opcodeLength_eq (h : SameOpcode b c) : opcodeLength b.code = opcodeLength c.code := by
  obtain ⟨opcode, second, -, -, h0, h1, -, -⟩ := b.exists_front
  have h0' : pick c.code 0 = .ok (opcode.toNat : Int) := h.first.symm.trans h0
  by_cases hindex : isIndexLead (opcode.toNat : Int) = true
  · have h1' : pick c.code 1 = .ok (second.toNat : Int) :=
      (h.second _ h0 (by simp [isLead, hindex])).symm.trans h1
    simp only [opcodeLength, h0, h0', h1, h1']
  · simp only [opcodeLength, h0, h0', ok_bind, if_neg hindex]

/-- Behind two leading bytes the displacement is the only operand. -/
theorem size_of_indexed_bit {opcode : UInt8} {k : Nat} {t : List Char} {offset length : Int}
    (h : DecidedAt b.code k t offset length) (h0 : pick b.code 0 = .ok (opcode.toNat : Int))
    (hindex : isIndexLead (opcode.toNat : Int) = true) (h1 : pick b.code 1 = .ok 0xCB) :
    length = 3 ∧ Template.size (Template.parse placeholders t) = 1 := by
  have hlength : length = 3 := by
    have hopcode := h.opcodeLength_eq
    simp only [opcodeLength, h0, h1, hindex, ok_bind, if_true, pure_eq_ok, Except.ok.injEq] at hopcode
    exact hopcode.symm
  have hk := h.four_le h0 hindex h1
  have hcovered := h.covered
  have hbounded := h.bounded
  omega

/-- Cells that agree on leading bytes, opcode and operands agree on the whole instruction. -/
theorem agreeBelow (h : SameOpcode b c) {k : Nat} {t : List Char} {offset length : Int}
    (hdecided : DecidedAt b.code k t offset length)
    (hwithin : AgreeWithin offset (offset + Template.size (Template.parse placeholders t)) b.code c.code) :
    AgreeBelow (length + Template.size (Template.parse placeholders t)) b.code c.code := by
  obtain ⟨opcode, second, -, -, h0, h1, -, -⟩ := b.exists_front
  have hoffset := hdecided.operandOffset_eq
  have hlength := hdecided.opcodeLength_eq
  simp only [operandOffset, h0, ok_bind, pure_eq_ok, Except.ok.injEq] at hoffset
  simp only [opcodeLength, h0, h1, ok_bind, pure_eq_ok] at hlength
  have hfirst : AgreeWithin 0 1 b.code c.code := .byte h.first
  by_cases hlead : isLead (opcode.toNat : Int) = true
  · have hfront : AgreeWithin 0 2 b.code c.code := hfirst.append (.byte (h.second _ h0 hlead))
    rw [if_pos hlead] at hoffset
    subst hoffset
    by_cases hindex : isIndexLead (opcode.toNat : Int) = true
    · by_cases hbit : (second.toNat : Int) = 0xCB
      · rw [hbit] at h1
        obtain ⟨rfl, hsize⟩ := size_of_indexed_bit hdecided h0 hindex h1
        have hlast : AgreeWithin 3 4 b.code c.code := .byte (h.fourth _ h0 hindex h1)
        rw [hsize] at hwithin ⊢
        exact (hfront.append hwithin).append hlast
      · rw [if_pos hindex, if_neg hbit] at hlength
        cases hlength
        exact hfront.append hwithin
    · rw [if_neg hindex, if_pos hlead] at hlength
      cases hlength
      exact hfront.append hwithin
  · have hindex : ¬ isIndexLead (opcode.toNat : Int) = true := by
      intro hindex
      exact hlead (by simp [isLead, hindex])
    rw [if_neg hlead] at hoffset
    rw [if_neg hindex, if_neg hlead] at hlength
    subst hoffset
    cases hlength
    exact hfirst.append hwithin

end SameOpcode

theorem comparable {shown shown' : Rendering} (hr : instructionSet.Settled r) (hq : instructionSet.Settled q)
    (hopcode : SameOpcode r.buffer q.buffer) (h : render r = .ok shown) (h' : render q = .ok shown') :
    Comparable False r q shown shown' := by
  obtain ⟨k, t, offset, length, hdecided, hk, hrequired⟩ := settled_template hr
  obtain ⟨k', t', offset', length', hdecided', hk', hrequired'⟩ := settled_template hq
  have htemplate : t = t' := by
    have heq := hopcode.templateOf_eq (max k k' : Nat)
    rw [hdecided.decided _ (Nat.le_max_left k k'), hdecided'.decided _ (Nat.le_max_right k k')] at heq
    cases heq
    rfl
  have hoffset : offset = offset' := by
    have heq : operandOffset r.buffer.code = operandOffset q.buffer.code := by
      simp only [operandOffset, hopcode.first]
    rw [hdecided.operandOffset_eq, hdecided'.operandOffset_eq] at heq
    exact Except.ok.inj heq
  have hlength : length = length' := by
    have heq := hopcode.opcodeLength_eq
    rw [hdecided.opcodeLength_eq, hdecided'.opcodeLength_eq] at heq
    exact Except.ok.inj heq
  subst htemplate hoffset hlength
  have ht := hdecided.decided r.count hk
  rw [render_eq ht hdecided.operandOffset_eq] at h
  rw [render_eq (hdecided'.decided q.count hk') hdecided'.operandOffset_eq] at h'
  have hplaced : ∀ {j : Int} {p : Placeholder Char},
      (j, p) ∈ Template.placed offset (Template.operands (Template.parse placeholders t)) → 0 ≤ j ∧ j < 7 := by
    intro j p hp
    obtain ⟨hfirst, hend⟩ := hdecided.placed_bounds hp
    exact ⟨hfirst, by omega⟩
  exact {
    required_eq := hrequired.trans hrequired'.symm
    isSome_eq := Template.isSome_render h h' fun j p hp =>
      operand_isSome r q p (hplaced hp).1 (hplaced hp).2
    agree := by
      intro htext
      have hoperands := Template.render_injective (clear_ofTables.templateOf ht)
        (fun j p _ hp => isOperand_operand (hplaced hp).1 (hplaced hp).2)
        (fun j p _ hp => isOperand_operand (hplaced hp).1 (hplaced hp).2) h h' htext
      rw [hrequired]
      refine .inl (hopcode.agreeBelow hdecided (agreeWithin_placed ?_))
      intro j p hp
      exact operand_injective (Template.mem_of_mem_operands_parse (Template.mem_placed hp).1)
        (hplaced hp).1 (hplaced hp).2 (hoperands j p hp)
    shown_eq := False.elim }

end Z80

end EightBit
