import EightBit.InstructionSet
import EightBit.Proofs.Cells
import EightBit.Statement
set_option autoImplicit false

/-!
# Instructions that can be shown

A template is shown without a fault when each of its operands is, and the shown text is not empty when
the template begins with a literal.  The operands of a template follow one another in the code, so their
bytes lie between the position of the first one and that position plus all sizes.  A statement is empty
only if its mnemonic is.

Facts about every template of an opcode table are decided by evaluation.  `Spelled` gives the characters
of the table's strings to the evaluation directly, which spares it the decoding of each string.
-/

namespace EightBit

/-! ## Tables of strings -/

/-- The strings of a table, spelled out. -/
inductive Spelled : List (List Char) → List String → Prop
  | nil : Spelled [] []
  | cons {s : List Char} {spellings : List (List Char)} {table : List String} :
      Spelled spellings table → Spelled (s :: spellings) (String.ofList s :: table)

/-- What holds of the spellings holds of the table. -/
theorem Spelled.forall_mem {P : List Char → Prop} {spellings : List (List Char)} {table : List String}
    (h : Spelled spellings table) (hP : ∀ s ∈ spellings, P s) : ∀ t ∈ table, P t.toList := by
  induction h with
  | nil => simp
  | cons _ ih =>
      simp only [List.mem_cons, forall_eq_or_imp, String.toList_ofList] at hP ⊢
      exact ⟨hP.1, ih hP.2⟩

theorem Spelled.toList_getD {spellings : List (List Char)} {table : List String} (h : Spelled spellings table)
    (n : Nat) (other : List Char) :
    (table.getD n (.ofList other)).toList = spellings.getD n other := by
  induction h generalizing n with
  | nil => simp
  | cons _ ih =>
      cases n with
      | zero => simp
      | succ n => simpa using ih n

theorem Spelled.length_eq {spellings : List (List Char)} {table : List String} (h : Spelled spellings table) :
    spellings.length = table.length := by
  induction h with
  | nil => rfl
  | cons _ ih => rw [List.length_cons, List.length_cons, ih]

/-- What holds of the numbered spellings holds of the table by opcode. -/
theorem Spelled.forall_entry {P : UInt8 → List Char → Prop} {spellings : List (List Char)} {table : List String}
    (h : Spelled spellings table) (hlength : table.length = 256)
    (hP : ∀ entry ∈ spellings.zipIdx, P (UInt8.ofNat entry.2) entry.1) (opcode : UInt8) :
    P opcode (table.getD opcode.toNat "?").toList := by
  have hlt : opcode.toNat < spellings.length := by
    rw [h.length_eq, hlength]
    exact opcode.toNat_lt
  have hentry := hP (spellings[opcode.toNat], opcode.toNat)
    (List.mk_mem_zipIdx_iff_getElem?.mpr (List.getElem?_eq_getElem hlt))
  rw [UInt8.ofNat_toNat] at hentry
  have hspelled : (table.getD opcode.toNat "?").toList = spellings.getD opcode.toNat ['?'] := h.toList_getD _ _
  rw [hspelled, List.getD_eq_getElem?_getD, List.getElem?_eq_getElem hlt, Option.getD_some]
  exact hentry

theorem exists_mapM {ε α β : Type} {f : α → Except ε β} {l : List α}
    (h : ∀ a ∈ l, ∃ b, f a = .ok b) : ∃ bs, l.mapM f = .ok bs ∧ bs.length = l.length := by
  induction l with
  | nil => exact ⟨[], rfl, rfl⟩
  | cons a l ih =>
      obtain ⟨b, hb⟩ := h a List.mem_cons_self
      obtain ⟨bs, hbs, hlength⟩ := ih fun x hx => h x (List.mem_cons_of_mem a hx)
      exact ⟨b :: bs, by simp [hb, hbs], by simp [hlength]⟩

theorem mapM_congr_mem {ε α β : Type} {f g : α → Except ε β} {l : List α}
    (h : ∀ a ∈ l, f a = g a) : l.mapM f = l.mapM g := by
  induction l with
  | nil => rfl
  | cons a l ih =>
      rw [List.mapM_cons, List.mapM_cons, h a List.mem_cons_self,
        ih fun x hx => h x (List.mem_cons_of_mem a hx)]

/-- The values of a list are those of its members, one by one. -/
theorem map_eq_of_mapM {ε α β : Type} {f : α → Except ε β} {l : List α} {bs : List β}
    (h : l.mapM f = .ok bs) : l.map f = bs.map .ok := by
  induction l generalizing bs with
  | nil =>
      cases h
      rfl
  | cons a l ih =>
      rw [List.mapM_cons] at h
      cases hfirst : f a with
      | error e =>
          rw [hfirst] at h
          cases h
      | ok b =>
          cases hrest : l.mapM f with
          | error e =>
              rw [hfirst, hrest] at h
              cases h
          | ok rest =>
              rw [hfirst, hrest] at h
              cases h
              rw [List.map_cons, List.map_cons, hfirst, ih hrest]

namespace Template

variable {α : Type}

/-- The segments begin with a literal that is not empty. -/
def startsLiteral : List (Segment α) → Bool
  | .literal (_ :: _) :: _ => true
  | _ => false

/-- The number of bytes that the operands take. -/
def size (segments : List (Segment α)) : Nat :=
  operandBytes (operands segments)

/-! ## Operands and their positions -/

theorem operands_consSymbol (c : α) (segments : List (Segment α)) :
    operands (consSymbol c segments) = operands segments := by
  unfold consSymbol
  split <;> simp [operands]

/-- Only the given placeholders are found. -/
theorem mem_of_mem_operands_parseFrom [DecidableEq α] {placeholders : List (Placeholder α)}
    {p : Placeholder α} (skip : Nat) (text : List α)
    (h : p ∈ operands (parseFrom placeholders skip text)) : p ∈ placeholders := by
  fun_induction parseFrom placeholders skip text with
  | case1 => simp [operands] at h
  | case2 _ _ _ ih => exact ih h
  | case3 c rest found hfind ih =>
      rw [operands, List.mem_cons] at h
      rcases h with rfl | h
      · exact List.mem_of_find?_eq_some hfind
      · exact ih h
  | case4 c rest _ ih =>
      rw [operands_consSymbol] at h
      exact ih h

theorem mem_of_mem_operands_parse [DecidableEq α] {placeholders : List (Placeholder α)}
    {p : Placeholder α} {text : List α} (h : p ∈ operands (parse placeholders text)) :
    p ∈ placeholders :=
  mem_of_mem_operands_parseFrom 0 text h

/-- A symbol at which no placeholder stands is kept. -/
theorem parse_cons [DecidableEq α] {placeholders : List (Placeholder α)} {c : α} {rest : List α}
    (h : ∀ p ∈ placeholders, ¬ p.standsAt (c :: rest) = true) :
    parse placeholders (c :: rest) = consSymbol c (parse placeholders rest) := by
  rw [parse, parseFrom, List.find?_eq_none.mpr h, parse]

/-- The symbols that placeholders begin with. -/
def heads (placeholders : List (Placeholder α)) : List α :=
  placeholders.filterMap fun p => p.text.head?

/-- No symbol of the text begins a placeholder. -/
def Plain (placeholders : List (Placeholder α)) (text : List α) : Prop :=
  ∀ c ∈ text, c ∉ heads placeholders

instance [DecidableEq α] (placeholders : List (Placeholder α)) (text : List α) :
    Decidable (Plain placeholders text) :=
  decidable_of_iff ((text.all fun c => c ∉ heads placeholders) = true) (by simp [Plain])

/-- A plain text is kept in front of what follows it. -/
theorem parse_append [DecidableEq α] {placeholders : List (Placeholder α)} {s : List α}
    (h : Plain placeholders s) (t : List α) :
    parse placeholders (s ++ t) = s.foldr consSymbol (parse placeholders t) := by
  induction s with
  | nil => rfl
  | cons c s ih =>
      obtain ⟨hc, hs⟩ := List.forall_mem_cons.mp h
      rw [List.foldr_cons, ← ih hs]
      apply parse_cons
      intro p hp hstands
      rw [Placeholder.standsAt, Bool.and_eq_true] at hstands
      cases htext : p.text with
      | nil => simp [htext] at hstands
      | cons d text =>
          have hstart := List.isPrefixOf_iff_prefix.mp hstands.2
          rw [htext, List.cons_prefix_cons] at hstart
          exact hc (List.mem_filterMap.mpr ⟨p, hp, by rw [htext, hstart.1]; rfl⟩)

theorem operands_foldr_consSymbol (s : List α) (segments : List (Segment α)) :
    operands (s.foldr consSymbol segments) = operands segments := by
  induction s with
  | nil => rfl
  | cons c s ih => rw [List.foldr_cons, operands_consSymbol, ih]

theorem startsLiteral_consSymbol (c : α) (segments : List (Segment α)) :
    startsLiteral (consSymbol c segments) = true := by
  unfold consSymbol
  split <;> rfl

/-! ## What segments cover -/

theorem source_consSymbol (c : α) (segments : List (Segment α)) :
    (consSymbol c segments).flatMap Segment.source = c :: segments.flatMap Segment.source := by
  unfold consSymbol
  split <;> simp [Segment.source]

/-- The segments of a template cover it. -/
theorem source_parseFrom [DecidableEq α] {placeholders : List (Placeholder α)} (skip : Nat) (text : List α) :
    (parseFrom placeholders skip text).flatMap Segment.source = text.drop skip := by
  fun_induction parseFrom placeholders skip text with
  | case1 => simp
  | case2 _ _ _ ih => simpa using ih
  | case3 c rest p hfind ih =>
      have hstands := List.find?_some hfind
      simp only [Placeholder.standsAt, Bool.and_eq_true, Bool.not_eq_true', List.isEmpty_eq_false_iff] at hstands
      obtain ⟨d, text, htext⟩ := List.exists_cons_of_ne_nil hstands.1
      obtain ⟨behind, hbehind⟩ := List.isPrefixOf_iff_prefix.mp hstands.2
      rw [htext, List.cons_append, List.cons.injEq] at hbehind
      obtain ⟨rfl, rfl⟩ := hbehind
      rw [List.flatMap_cons, ih, Segment.source, htext]
      simp
  | case4 c rest _ ih =>
      rw [source_consSymbol, ih]
      rfl

theorem source_parse [DecidableEq α] (placeholders : List (Placeholder α)) (template : List α) :
    (parse placeholders template).flatMap Segment.source = template :=
  source_parseFrom 0 template

/-! ## Places of operands -/

/-- Operands lie behind the first position and end within all their sizes. -/
theorem mem_placed {i j : Int} {p : Placeholder α} {ps : List (Placeholder α)}
    (h : (j, p) ∈ placed i ps) :
    p ∈ ps ∧ i ≤ j ∧ j + p.size ≤ i + operandBytes ps := by
  induction ps generalizing i with
  | nil => simp [placed] at h
  | cons q ps ih =>
      simp only [placed, List.mem_cons, Prod.mk.injEq] at h
      simp only [List.mem_cons, operandBytes]
      rcases h with ⟨rfl, rfl⟩ | h
      · exact ⟨.inl rfl, by omega, by omega⟩
      · obtain ⟨hmem, hle, hend⟩ := ih h
        exact ⟨.inr hmem, by omega, by omega⟩

theorem length_placed (i : Int) (ps : List (Placeholder α)) : (placed i ps).length = ps.length := by
  induction ps generalizing i with
  | nil => rfl
  | cons p ps ih => simp [placed, ih]

/-! ## Filling and showing -/

theorem exists_fill {segments : List (Segment α)} {values : List (List α)}
    (h : values.length = (operands segments).length) : ∃ text, fill segments values = .ok text := by
  induction segments generalizing values with
  | nil => exact ⟨[], rfl⟩
  | cons segment segments ih =>
      cases segment with
      | literal text =>
          obtain ⟨tail, htail⟩ := ih h
          exact ⟨text ++ tail, by simp [fill, htail]⟩
      | operand p =>
          cases values with
          | nil => simp [operands] at h
          | cons value values =>
              have hlength : values.length = (operands segments).length := by simpa [operands] using h
              obtain ⟨tail, htail⟩ := ih hlength
              exact ⟨value ++ tail, by simp [fill, htail]⟩

theorem ne_nil_of_fill {segments : List (Segment α)} {values : List (List α)} {text : List α}
    (hstart : startsLiteral segments = true) (h : fill segments values = .ok text) : text ≠ [] := by
  unfold startsLiteral at hstart
  split at hstart
  · rename_i c head rest
    cases hrest : fill rest values with
    | error e => simp [fill, hrest] at h
    | ok tail =>
        simp only [fill, hrest, Except.ok.injEq] at h
        simp [← h]
  · cases hstart

/-- A template whose operands can be shown can be shown. -/
theorem exists_render {operand : Int → Placeholder Char → Except Fault Rendering} {i : Int}
    {segments : List (Segment Char)} (hstart : startsLiteral segments = true)
    (h : ∀ j p, (j, p) ∈ placed i (operands segments) → ∃ shown, operand j p = .ok shown) :
    ∃ shown, render operand i segments = .ok shown ∧ shown.text ≠ [] := by
  obtain ⟨shown, hshown, hlength⟩ := exists_mapM (f := fun p => operand p.1 p.2)
    (l := placed i (operands segments)) fun p hp => h p.1 p.2 hp
  have hvalues : (shown.map Rendering.text).length = (operands segments).length := by
    rw [List.length_map, hlength, length_placed]
  obtain ⟨text, htext⟩ := exists_fill hvalues
  exact ⟨_, by simp only [render, hshown, htext, ok_bind]; rfl, ne_nil_of_fill hstart htext⟩

theorem map_ok_injective {ε α : Type} {xs ys : List α} (h : xs.map (Except.ok : α → Except ε α) = ys.map .ok) :
    xs = ys :=
  (List.map_inj_right fun _ _ heq => Except.ok.inj heq).mp h

/-- A template that is shown has been filled with the texts of its operands. -/
theorem exists_of_render {operand : Int → Placeholder Char → Except Fault Rendering} {i : Int}
    {segments : List (Segment Char)} {shown : Rendering} (h : render operand i segments = .ok shown) :
    ∃ values : List Rendering,
      (placed i (operands segments)).map (fun p => operand p.1 p.2) = values.map .ok ∧
      fill segments (values.map Rendering.text) = .ok shown.text ∧
      shown.target = values.foldl (fun target r => r.target.or target) none := by
  unfold render at h
  cases hvalues : (placed i (operands segments)).mapM fun p => operand p.1 p.2 with
  | error e => simp [hvalues] at h
  | ok values =>
      cases hfill : fill segments (values.map Rendering.text) with
      | error e => simp [hvalues, hfill] at h
      | ok text =>
          simp only [hvalues, hfill, ok_bind, pure_eq_ok, Except.ok.injEq] at h
          subst h
          exact ⟨values, map_eq_of_mapM hvalues, hfill, rfl⟩

/-- Every value is that of an operand at its place. -/
theorem exists_placed {operand : Int → Placeholder Char → Except Fault Rendering} {i : Int}
    {ps : List (Placeholder Char)} {values : List Rendering} {value : Rendering}
    (h : (placed i ps).map (fun p => operand p.1 p.2) = values.map .ok) (hvalue : value ∈ values) :
    ∃ j p, (j, p) ∈ placed i ps ∧ operand j p = .ok value := by
  have hmem : Except.ok value ∈ (placed i ps).map fun p => operand p.1 p.2 := by
    rw [h]
    exact List.mem_map_of_mem hvalue
  obtain ⟨⟨j, p⟩, hp, heq⟩ := List.mem_map.mp hmem
  exact ⟨j, p, hp, heq⟩

theorem render_congr {f g : Int → Placeholder Char → Except Fault Rendering} {i : Int}
    {segments : List (Segment Char)}
    (h : ∀ j p, (j, p) ∈ placed i (operands segments) → f j p = g j p) :
    render f i segments = render g i segments := by
  rw [render, render, mapM_congr_mem (g := fun p => g p.1 p.2) fun p hp => h p.1 p.2 hp]

end Template

theorem statement_ne_nil {mnemonic : String} (h : mnemonic ≠ "") (operands : List (List Char)) :
    statement mnemonic.toList operands ≠ [] := by
  have hne : mnemonic.toList ≠ [] := by simpa using h
  unfold statement
  split
  · exact hne
  · simp

end EightBit
