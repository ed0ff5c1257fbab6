import EightBit.Proofs.Rendering
set_option autoImplicit false

/-!
# The segments of a template

Cutting a template into literals and placeholders is a scan from the left that keeps the symbols at which
no placeholder occurs and jumps over the ones at which one does.  `IsSegmentation` says what comes out
without the scan: the segments cover the template, a placeholder is the first of the list that occurs at
its position, and no placeholder occurs at a position inside a literal.  Together with literals that are
not empty and not side by side this leaves one list of segments (`parse_isSegmentation`).

`Fits` says the same of a segment and what follows it, without positions, so that it goes from the end of
the segments to their beginning as the scan does.
-/

namespace EightBit

variable {α : Type}

namespace Placeholder

/-- The text of the placeholder occurs in the template at a position. -/
def OccursAt (p : Placeholder α) (template : List α) (i : Nat) : Prop :=
  p.text <+: template.drop i

/-- The placeholder is the first of the list that occurs in the template at a position. -/
def IsFirstAt (p : Placeholder α) (placeholders : List (Placeholder α)) (template : List α) (i : Nat) : Prop :=
  ∃ before after, placeholders = before ++ p :: after ∧ p.OccursAt template i ∧
    ∀ q ∈ before, ¬ q.OccursAt template i

theorem occursAt_append (p : Placeholder α) (front template : List α) (i : Nat) :
    p.OccursAt (front ++ template) (front.length + i) ↔ p.OccursAt template i := by
  rw [OccursAt, OccursAt, ← List.drop_drop, List.drop_left]

theorem isFirstAt_append (p : Placeholder α) (placeholders : List (Placeholder α)) (front template : List α) :
    p.IsFirstAt placeholders (front ++ template) front.length ↔ p.IsFirstAt placeholders template 0 := by
  have hplace : ∀ q : Placeholder α, q.OccursAt (front ++ template) front.length ↔ q.OccursAt template 0 :=
    fun q => q.occursAt_append front template 0
  simp only [IsFirstAt, hplace]

variable [DecidableEq α]

theorem standsAt_iff {p : Placeholder α} (hp : p.text ≠ []) {s : List α} :
    p.standsAt s = true ↔ p.OccursAt s 0 := by
  have hsolid : p.text.isEmpty = false := List.isEmpty_eq_false_iff.mpr hp
  rw [standsAt, hsolid, Bool.not_false, Bool.true_and, List.isPrefixOf_iff_prefix]
  rfl

/-- The search of the scan, said of the list. -/
theorem find?_standsAt_eq_some {placeholders : List (Placeholder α)}
    (hsolid : ∀ p ∈ placeholders, p.text ≠ []) {p : Placeholder α} {s : List α} :
    placeholders.find? (·.standsAt s) = some p ↔ p.IsFirstAt placeholders s 0 := by
  rw [List.find?_eq_some_iff_append]
  constructor
  · rintro ⟨hstands, before, after, rfl, hbefore⟩
    have hp := hsolid p (List.mem_append_right _ List.mem_cons_self)
    refine ⟨before, after, rfl, (standsAt_iff hp).mp hstands, ?_⟩
    intro q hq hoccurs
    have hfree := hbefore q hq
    rw [(standsAt_iff (hsolid q (List.mem_append_left _ hq))).mpr hoccurs] at hfree
    cases hfree
  · rintro ⟨before, after, rfl, hoccurs, hbefore⟩
    have hp := hsolid p (List.mem_append_right _ List.mem_cons_self)
    refine ⟨(standsAt_iff hp).mpr hoccurs, before, after, rfl, ?_⟩
    intro q hq
    rw [Bool.not_eq_true']
    exact Bool.eq_false_iff.mpr fun hstands =>
      hbefore q hq ((standsAt_iff (hsolid q (List.mem_append_left _ hq))).mp hstands)

end Placeholder

namespace Template

/-! ## Segmentations -/

/-- The segments are the ones of the template. -/
structure IsSegmentation (placeholders : List (Placeholder α)) (template : List α)
    (segments : List (Segment α)) : Prop where
  /-- The segments cover the template. -/
  source_eq : segments.flatMap Segment.source = template
  literal_ne_nil : ∀ text, .literal text ∈ segments → text ≠ []
  /-- Two literals never stand side by side. -/
  not_adjacent : ∀ front first second back, segments ≠ front ++ .literal first :: .literal second :: back
  /-- A placeholder is the first of the list that occurs at its position. -/
  operand_first : ∀ front p back, segments = front ++ .operand p :: back →
    p.IsFirstAt placeholders template (front.flatMap Segment.source).length
  /-- No placeholder occurs at a position that a literal covers. -/
  literal_clear : ∀ front text back, segments = front ++ .literal text :: back →
    ∀ i < text.length, ∀ p ∈ placeholders,
      ¬ p.OccursAt template ((front.flatMap Segment.source).length + i)

/-- Each of the segments is right for what it and the ones behind it cover. -/
inductive Fits (placeholders : List (Placeholder α)) : List (Segment α) → Prop
  | nil : Fits placeholders []
  | operand {p : Placeholder α} {back : List (Segment α)}
      (hfirst : p.IsFirstAt placeholders (p.text ++ back.flatMap Segment.source) 0)
      (hback : Fits placeholders back) : Fits placeholders (.operand p :: back)
  | literal {text : List α} {back : List (Segment α)} (hne : text ≠ [])
      (hclear : ∀ i < text.length, ∀ p ∈ placeholders,
        ¬ p.OccursAt (text ++ back.flatMap Segment.source) i)
      (hnext : ∀ other tail, back ≠ .literal other :: tail)
      (hback : Fits placeholders back) : Fits placeholders (.literal text :: back)

variable {placeholders : List (Placeholder α)} {template : List α} {segments : List (Segment α)}

theorem Fits.of_append {front back : List (Segment α)} (h : Fits placeholders (front ++ back)) :
    Fits placeholders back := by
  induction front with
  | nil => exact h
  | cons segment front ih =>
      cases h with
      | operand _ hback => exact ih hback
      | literal _ _ _ hback => exact ih hback

/-- The segments from some place on fit. -/
theorem IsSegmentation.fits_back (h : IsSegmentation placeholders template segments)
    (front back : List (Segment α)) (hsplit : segments = front ++ back) : Fits placeholders back := by
  induction back generalizing front with
  | nil => exact .nil
  | cons segment back ih =>
      have hback : Fits placeholders back := ih (front ++ [segment]) (by simpa using hsplit)
      have hsource : template =
          front.flatMap Segment.source ++ (segment.source ++ back.flatMap Segment.source) := by
        rw [← h.source_eq, hsplit, List.flatMap_append, List.flatMap_cons]
      cases segment with
      | literal text =>
          refine .literal (h.literal_ne_nil text (by simp [hsplit])) ?_ ?_ hback
          · intro i hi p hp hoccurs
            apply h.literal_clear front text back hsplit i hi p hp
            rw [hsource, Placeholder.occursAt_append]
            exact hoccurs
          · rintro other tail rfl
            exact h.not_adjacent front text other tail hsplit
      | operand p =>
          refine .operand ?_ hback
          have hfirst := h.operand_first front p back hsplit
          rw [hsource, Placeholder.isFirstAt_append] at hfirst
          exact hfirst

theorem isSegmentation_iff :
    IsSegmentation placeholders template segments ↔
      segments.flatMap Segment.source = template ∧ Fits placeholders segments := by
  constructor
  · intro h
    exact ⟨h.source_eq, h.fits_back [] segments rfl⟩
  · rintro ⟨rfl, h⟩
    refine ⟨rfl, ?_, ?_, ?_, ?_⟩
    · intro text hmem
      obtain ⟨front, back, rfl⟩ := List.append_of_mem hmem
      cases h.of_append with
      | literal hne _ _ _ => exact hne
    · rintro front first second back rfl
      cases h.of_append with
      | literal _ _ hnext _ => exact hnext second back rfl
    · rintro front p back rfl
      rw [List.flatMap_append, List.flatMap_cons, Placeholder.isFirstAt_append]
      cases h.of_append with
      | operand hfirst _ => exact hfirst
    · rintro front text back rfl i hi p hp
      rw [List.flatMap_append, List.flatMap_cons, Placeholder.occursAt_append]
      cases h.of_append with
      | literal _ hclear _ _ => exact hclear i hi p hp

/-- Symbols in front of segments that begin with no literal are a literal of their own. -/
theorem foldr_consSymbol {text : List α} (hne : text ≠ [])
    (hnext : ∀ other tail, segments ≠ .literal other :: tail) :
    text.foldr consSymbol segments = .literal text :: segments := by
  induction text with
  | nil => exact absurd rfl hne
  | cons c text ih =>
      rw [List.foldr_cons]
      cases text with
      | nil =>
          rw [List.foldr_nil, consSymbol]
          intro other tail heq
          exact hnext other tail heq
      | cons d text => rw [ih (List.cons_ne_nil d text), consSymbol]

/-- A symbol at which no placeholder occurs goes in front of segments that fit. -/
theorem Fits.consSymbol {c : α} (h : Fits placeholders segments)
    (hclear : ∀ p ∈ placeholders, ¬ p.OccursAt (c :: segments.flatMap Segment.source) 0) :
    Fits placeholders (consSymbol c segments) := by
  have hfirst : ∀ i < 1, ∀ p ∈ placeholders,
      ¬ p.OccursAt ([c] ++ segments.flatMap Segment.source) i := by
    intro i hi
    rw [Nat.lt_one_iff.mp hi]
    exact hclear
  cases h with
  | nil => exact .literal (List.cons_ne_nil _ _) hfirst (fun _ _ heq => by cases heq) .nil
  | operand hmatch hback =>
      exact .literal (List.cons_ne_nil _ _) hfirst (fun _ _ heq => by cases heq) (.operand hmatch hback)
  | @literal text back hne hrest hnext hback =>
      refine .literal (List.cons_ne_nil _ _) ?_ hnext hback
      intro i hi p hp
      cases i with
      | zero => exact hclear p hp
      | succ i => exact hrest i (Nat.lt_of_succ_lt_succ hi) p hp

/-! ## Filling the segments -/

/-- What is written for a segment that `k` placeholders stand before: its own text, or the value for it. -/
def piece? (values : List (List α)) (k : Nat) : Segment α → Option (List α)
  | .literal text => some text
  | .operand _ => values[k]?

/-- The pieces are written for the segments, one for each. -/
structure Filled (segments : List (Segment α)) (values pieces : List (List α)) : Prop where
  length_eq : pieces.length = segments.length
  piece_eq : ∀ front segment back, segments = front ++ segment :: back →
    pieces[front.length]? = piece? values (operands front).length segment

theorem Filled.cons_literal {values pieces : List (List α)} (text : List α) (h : Filled segments values pieces) :
    Filled (.literal text :: segments) values (text :: pieces) where
  length_eq := congrArg Nat.succ h.length_eq
  piece_eq front segment back hsplit := by
    cases front with
    | nil =>
        cases hsplit
        rfl
    | cons first front =>
        cases hsplit
        exact h.piece_eq front segment back rfl

theorem Filled.cons_operand {values pieces : List (List α)} (p : Placeholder α) (value : List α)
    (h : Filled segments values pieces) :
    Filled (.operand p :: segments) (value :: values) (value :: pieces) where
  length_eq := congrArg Nat.succ h.length_eq
  piece_eq front segment back hsplit := by
    cases front with
    | nil =>
        cases hsplit
        rfl
    | cons first front =>
        cases hsplit
        refine (h.piece_eq front segment back rfl).trans ?_
        cases segment <;> rfl

/-- Values for all placeholders are put in their places. -/
theorem exists_filled (segments : List (Segment α)) {values : List (List α)}
    (h : values.length = (operands segments).length) :
    ∃ pieces, Filled segments values pieces ∧ fill segments values = .ok pieces.flatten := by
  induction segments generalizing values with
  | nil => exact ⟨[], ⟨rfl, by simp⟩, rfl⟩
  | cons segment segments ih =>
      cases segment with
      | literal text =>
          obtain ⟨pieces, hfilled, hfill⟩ := ih h
          exact ⟨text :: pieces, hfilled.cons_literal text, by simp [fill, hfill]⟩
      | operand p =>
          cases values with
          | nil => simp [operands] at h
          | cons value values =>
              obtain ⟨pieces, hfilled, hfill⟩ := ih (Nat.succ.inj h)
              exact ⟨value :: pieces, hfilled.cons_operand p value, by simp [fill, hfill]⟩

/-- Placeholders filled with their own texts give the template back. -/
theorem fill_text (segments : List (Segment α)) :
    fill segments ((operands segments).map Placeholder.text) = .ok (segments.flatMap Segment.source) := by
  induction segments with
  | nil => rfl
  | cons segment segments ih => cases segment <;> simp [operands, fill, ih, Segment.source]

/-! ## The scan finds them -/

variable [DecidableEq α]

theorem parseFrom_eq (placeholders : List (Placeholder α)) (skip : Nat) (template : List α) :
    parseFrom placeholders skip template = parse placeholders (template.drop skip) := by
  induction template generalizing skip with
  | nil => rw [List.drop_nil, parse, parseFrom, parseFrom]
  | cons c rest ih =>
      cases skip with
      | zero => rfl
      | succ skip => rw [parseFrom, ih, List.drop_succ_cons]

/-- The scan jumps over a placeholder that occurs where it is. -/
theorem parse_of_isFirstAt (hsolid : ∀ p ∈ placeholders, p.text ≠ []) {p : Placeholder α} {rest : List α}
    (h : p.IsFirstAt placeholders (p.text ++ rest) 0) :
    parse placeholders (p.text ++ rest) = .operand p :: parse placeholders rest := by
  have hp : p.text ≠ [] := by
    obtain ⟨before, after, rfl, -⟩ := h
    exact hsolid p (List.mem_append_right _ List.mem_cons_self)
  have hfind := (Placeholder.find?_standsAt_eq_some hsolid).mpr h
  obtain ⟨c, text, htext⟩ := List.exists_cons_of_ne_nil hp
  rw [htext, List.cons_append] at hfind ⊢
  rw [parse, parseFrom, hfind]
  simp only [parseFrom_eq, htext, List.length_cons, Nat.add_sub_cancel, List.drop_left]

/-- The scan keeps the symbols at which no placeholder occurs. -/
theorem parse_of_clear (hsolid : ∀ p ∈ placeholders, p.text ≠ []) {text rest : List α}
    (h : ∀ i < text.length, ∀ p ∈ placeholders, ¬ p.OccursAt (text ++ rest) i) :
    parse placeholders (text ++ rest) = text.foldr consSymbol (parse placeholders rest) := by
  induction text with
  | nil => rfl
  | cons c text ih =>
      have hrest : ∀ i < text.length, ∀ p ∈ placeholders, ¬ p.OccursAt (text ++ rest) i :=
        fun i hi p hp => h (i + 1) (Nat.succ_lt_succ hi) p hp
      rw [List.foldr_cons, ← ih hrest]
      apply parse_cons
      intro p hp hstands
      exact h 0 (Nat.succ_pos _) p hp ((Placeholder.standsAt_iff (hsolid p hp)).mp hstands)

/-- Segments that fit are the ones that the scan finds. -/
theorem Fits.parse_eq (hsolid : ∀ p ∈ placeholders, p.text ≠ []) (h : Fits placeholders segments) :
    parse placeholders (segments.flatMap Segment.source) = segments := by
  induction h with
  | nil => rfl
  | operand hfirst _ ih =>
      rw [List.flatMap_cons]
      exact (parse_of_isFirstAt hsolid hfirst).trans (by rw [ih])
  | literal hne hclear hnext _ ih =>
      rw [List.flatMap_cons]
      exact (parse_of_clear hsolid hclear).trans (by rw [ih, foldr_consSymbol hne hnext])

/-- What the scan finds fits. -/
theorem fits_parse (hsolid : ∀ p ∈ placeholders, p.text ≠ []) (template : List α) :
    Fits placeholders (parse placeholders template) := by
  -- The induction is on the length, since a placeholder takes several symbols off the front.
  induction hlength : template.length using Nat.strongRecOn generalizing template with
  | _ length ih =>
      cases template with
      | nil => exact .nil
      | cons c rest =>
          cases hfind : placeholders.find? (·.standsAt (c :: rest)) with
          | none =>
              have hclear : ∀ p ∈ placeholders, ¬ p.standsAt (c :: rest) = true := List.find?_eq_none.mp hfind
              rw [parse_cons hclear]
              refine (ih rest.length (hlength ▸ Nat.lt_succ_self _) rest rfl).consSymbol ?_
              rw [source_parse]
              intro p hp hoccurs
              exact hclear p hp ((Placeholder.standsAt_iff (hsolid p hp)).mpr hoccurs)
          | some p =>
              have hfirst := (Placeholder.find?_standsAt_eq_some hsolid).mp hfind
              have hpos : 0 < p.text.length :=
                List.length_pos_iff.mpr (hsolid p (List.mem_of_find?_eq_some hfind))
              obtain ⟨behind, hbehind⟩ : ∃ behind, p.text ++ behind = c :: rest := by
                obtain ⟨_, _, -, hoccurs, -⟩ := hfirst
                exact hoccurs
              have hshorter : behind.length < length := by
                rw [← hlength, ← hbehind, List.length_append]
                omega
              rw [← hbehind] at hfirst ⊢
              rw [parse_of_isFirstAt hsolid hfirst]
              refine .operand ?_ (ih behind.length hshorter behind rfl)
              rw [source_parse]
              exact hfirst

/-- A template has one segmentation, and cutting it gives that one.  Its placeholders filled with their own
texts give the template back; any values are put between the literals as they are. -/
theorem parse_isSegmentation (hsolid : ∀ p ∈ placeholders, p.text ≠ []) (template : List α) :
    IsSegmentation placeholders template (parse placeholders template) ∧
    (∀ segments, IsSegmentation placeholders template segments → segments = parse placeholders template) ∧
    fill (parse placeholders template) ((operands (parse placeholders template)).map Placeholder.text) =
      .ok template ∧
    ∀ values : List (List α), values.length = (operands (parse placeholders template)).length →
      ∃ pieces, Filled (parse placeholders template) values pieces ∧
        fill (parse placeholders template) values = .ok pieces.flatten := by
  refine ⟨?_, ?_, ?_, ?_⟩
  · exact isSegmentation_iff.mpr ⟨source_parse placeholders template, fits_parse hsolid template⟩
  · intro segments h
    obtain ⟨rfl, hfits⟩ := isSegmentation_iff.mp h
    exact (hfits.parse_eq hsolid).symm
  · rw [fill_text, source_parse]
  · intro values hvalues
    exact exists_filled _ hvalues

/-- A placeholder and its own beginning. -/
def overlapping : List (Placeholder Char) :=
  [⟨"nnnn".toList, .u16, 2⟩, ⟨"nn".toList, .u8, 1⟩]

/-- A run of one symbol that both placeholders may begin in, with a symbol left over. -/
theorem parse_isSegmentation_run :
    let template := "nnnnnnn,nn".toList
    let segments : List (Segment Char) :=
      [.operand ⟨"nnnn".toList, .u16, 2⟩, .operand ⟨"nn".toList, .u8, 1⟩, .literal "n,".toList,
        .operand ⟨"nn".toList, .u8, 1⟩]
    (∀ p ∈ overlapping, p.text ≠ []) ∧ parse overlapping template = segments ∧
    IsSegmentation overlapping template segments ∧
    (∀ other, IsSegmentation overlapping template other → other = segments) ∧
    fill segments ((operands segments).map Placeholder.text) = .ok template ∧
    ∀ values : List (List Char), values.length = 3 →
      ∃ pieces, Filled segments values pieces ∧ fill segments values = .ok pieces.flatten := by
  intro template segments
  have hsolid : ∀ p ∈ overlapping, p.text ≠ [] := by decide
  have hparse : parse overlapping template = segments := by decide
  have h := parse_isSegmentation hsolid template
  rw [hparse] at h
  exact ⟨hsolid, hparse, h⟩

end Template

end EightBit
