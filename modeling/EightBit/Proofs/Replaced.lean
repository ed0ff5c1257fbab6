import EightBit.Proofs.Legible
set_option autoImplicit false

/-!
# Words replaced in filled templates

A word that stands in a filled template stands in one of its literals, if no operand has a symbol of the word
(`Template.infix_literal_of_fill`).  For two literals never stand side by side, so what follows a literal is the
end or an operand, and neither continues the word.  For the same reason a word is replaced in the filled template
by replacing it in the literals (`Template.fill_replaced`).
-/

namespace EightBit

variable {α : Type}

/-! ## Words at the border of two texts -/

/-- The text is empty or begins with a symbol that is none of the word. -/
def Stops (word text : List α) : Prop :=
  ∀ c ∈ text.head?, c ∉ word

/-- No symbol of the text is one of the word. -/
def Foreign (word text : List α) : Prop :=
  ∀ c ∈ text, c ∉ word

section

variable {word s t : List α} {c : α}

theorem Foreign.mono {other : List α} (h : Foreign word s) (hsubset : other ⊆ word) : Foreign other s :=
  fun c hc hmem => h c hc (hsubset hmem)

theorem Foreign.stops_append (h : Foreign word s) (hs : s ≠ []) (t : List α) : Stops word (s ++ t) := by
  obtain ⟨c, rest, rfl⟩ := List.exists_cons_of_ne_nil hs
  intro d hd
  cases hd
  exact h c List.mem_cons_self

/-- A word does not go on into a text that stops it. -/
theorem prefix_of_prefix_append (h : Stops word t) (hword : word <+: s ++ t) : word <+: s := by
  rcases Nat.le_total word.length s.length with hle | hge
  · exact List.prefix_of_prefix_length_le hword (List.prefix_append s t) hle
  · obtain ⟨rest, rfl⟩ := List.prefix_of_prefix_length_le (List.prefix_append s t) hword hge
    cases rest with
    | nil => simp
    | cons c rest =>
        obtain ⟨tail, rfl⟩ := (List.prefix_append_right_inj s).mp hword
        exact absurd (List.mem_append_right s List.mem_cons_self) (h c rfl)

theorem not_prefix_cons (hc : c ∉ word) (hword : word ≠ []) (t : List α) : ¬ word <+: c :: t := by
  obtain ⟨first, others, rfl⟩ := List.exists_cons_of_ne_nil hword
  intro h
  rw [List.cons_prefix_cons] at h
  exact hc (h.1 ▸ List.mem_cons_self)

/-- A word in two texts, of which the second stops it, is in one of them. -/
theorem infix_of_infix_append (h : Stops word t) (hword : word <:+: s ++ t) : word <:+: s ∨ word <:+: t := by
  induction s with
  | nil => exact .inr hword
  | cons c s ih =>
      rw [List.cons_append, List.infix_cons_iff, ← List.cons_append] at hword
      rcases hword with hstands | hinside
      · exact .inl (prefix_of_prefix_append h hstands).isInfix
      · exact (ih hinside).imp_left List.infix_cons

theorem Foreign.infix_of_infix_append (h : Foreign word s) (hword : word ≠ []) (hinside : word <:+: s ++ t) :
    word <:+: t := by
  induction s with
  | nil => exact hinside
  | cons c s ih =>
      rw [List.cons_append, List.infix_cons_iff] at hinside
      obtain ⟨hc, hs⟩ := List.forall_mem_cons.mp h
      exact ih hs (hinside.resolve_left (not_prefix_cons hc hword _))

end

/-! ## Replacing a word -/

section

variable [DecidableEq α]

/-- The word stands somewhere in the text. -/
def occurs (word : List α) : List α → Bool
  | [] => word.isEmpty
  | c :: rest => word.isPrefixOf (c :: rest) || occurs word rest

theorem occurs_iff {word t : List α} : occurs word t = true ↔ word <:+: t := by
  induction t with
  | nil => rw [occurs, List.isEmpty_iff, List.infix_nil]
  | cons c t ih => rw [occurs, Bool.or_eq_true, List.isPrefixOf_iff_prefix, ih, List.infix_cons_iff]

/-- The text behind its first `skip` symbols, with `new` in the place of `word`. -/
def replacedFrom (word new : List α) : Nat → List α → List α
  | _, [] => []
  | skip + 1, _ :: rest => replacedFrom word new skip rest
  | 0, c :: rest =>
      if word.isPrefixOf (c :: rest) then new ++ replacedFrom word new (word.length - 1) rest
      else c :: replacedFrom word new 0 rest

/-- The text with `new` in the place of every `word`, found from the left. -/
def replaced (word new text : List α) : List α :=
  replacedFrom word new 0 text

variable {word new s t : List α} {c : α}

theorem replacedFrom_eq (skip : Nat) (t : List α) :
    replacedFrom word new skip t = replaced word new (t.drop skip) := by
  induction t generalizing skip with
  | nil =>
      rw [List.drop_nil]
      rfl
  | cons c t ih =>
      cases skip with
      | zero => rfl
      | succ skip => exact ih skip

theorem replaced_cons (h : ¬ word <+: c :: t) : replaced word new (c :: t) = c :: replaced word new t := by
  rw [replaced, replacedFrom, if_neg (mt List.isPrefixOf_iff_prefix.mp h)]
  rfl

theorem replaced_append_word (hword : word ≠ []) (t : List α) :
    replaced word new (word ++ t) = new ++ replaced word new t := by
  obtain ⟨first, others, rfl⟩ := List.exists_cons_of_ne_nil hword
  have hstands : (first :: others).isPrefixOf (first :: (others ++ t)) = true :=
    List.isPrefixOf_iff_prefix.mpr (List.prefix_append (first :: others) t)
  rw [List.cons_append, replaced, replacedFrom, if_pos hstands, replacedFrom_eq, List.length_cons,
    Nat.add_sub_cancel, List.drop_left]

/-- What stands in front of the first symbol of the word is kept. -/
theorem replaced_append_of_not_mem {first : α} {others : List α} (h : first ∉ s) (t : List α) :
    replaced (first :: others) new (s ++ t) = s ++ replaced (first :: others) new t := by
  induction s with
  | nil => rfl
  | cons c s ih =>
      rw [List.mem_cons, not_or] at h
      have hstands : ¬ first :: others <+: c :: (s ++ t) := by
        intro hstands
        exact h.1 (List.cons_prefix_cons.mp hstands).1
      rw [List.cons_append, replaced_cons hstands, ih h.2, List.cons_append]

theorem replaced_of_not_mem {first : α} {others : List α} (h : first ∉ s) :
    replaced (first :: others) new s = s := by
  have hkept : replaced (first :: others) new (s ++ []) = s ++ [] := replaced_append_of_not_mem h []
  rwa [List.append_nil] at hkept

theorem Foreign.replaced_append (h : Foreign word s) (hword : word ≠ []) (t : List α) :
    replaced word new (s ++ t) = s ++ replaced word new t := by
  obtain ⟨first, others, rfl⟩ := List.exists_cons_of_ne_nil hword
  exact replaced_append_of_not_mem (fun hmem => h first hmem List.mem_cons_self) t

/-- A word is replaced in two texts apart, if the second stops it. -/
theorem replaced_append (hword : word ≠ []) (h : Stops word t) (s : List α) :
    replaced word new (s ++ t) = replaced word new s ++ replaced word new t := by
  -- The word is taken off the text as a whole, so the induction is on the length.
  induction hn : s.length using Nat.strongRecOn generalizing s with
  | ind n ih =>
      cases s with
      | nil => rfl
      | cons c s =>
          subst hn
          by_cases hstands : word <+: c :: s
          · obtain ⟨rest, hrest⟩ := hstands
            have hlt : rest.length < (c :: s).length := by
              rw [← hrest, List.length_append]
              exact Nat.lt_add_of_pos_left (List.length_pos_iff.mpr hword)
            rw [← hrest, List.append_assoc, replaced_append_word hword, replaced_append_word hword,
              ih rest.length hlt rest rfl, List.append_assoc]
          · have hstands' : ¬ word <+: c :: (s ++ t) := fun h' => hstands (prefix_of_prefix_append h h')
            rw [List.cons_append, replaced_cons hstands', replaced_cons hstands,
              ih s.length (Nat.lt_succ_self _) s rfl, List.cons_append]

/-- Symbols may be renamed before or after. -/
theorem replaced_map {β : Type} [DecidableEq β] {f : α → β} (hf : Function.Injective f) (word new t : List α) :
    replaced (word.map f) (new.map f) (t.map f) = (replaced word new t).map f := by
  have hgeneral : ∀ skip, replacedFrom (word.map f) (new.map f) skip (t.map f) =
      (replacedFrom word new skip t).map f := by
    induction t with
    | nil =>
        intro skip
        cases skip <;> rfl
    | cons c t ih =>
        intro skip
        cases skip with
        | succ skip => exact ih skip
        | zero =>
            have hstands : (word.map f).isPrefixOf (f c :: t.map f) = word.isPrefixOf (c :: t) := by
              rw [Bool.eq_iff_iff, List.isPrefixOf_iff_prefix, List.isPrefixOf_iff_prefix, ← List.map_cons]
              constructor
              · intro h
                obtain ⟨other, hother, heq⟩ := List.prefix_map_iff.mp h
                rwa [(List.map_inj_right fun _ _ hxy => hf hxy).mp heq]
              · exact fun h => h.map f
            rw [List.map_cons, replacedFrom, replacedFrom, hstands, List.length_map, ih, ih]
            split
            · rw [List.map_append]
            · rw [List.map_cons]
  exact hgeneral 0

end

namespace Text

theorem ofChars_replaced (word new t : List Char) :
    replaced (ofChars word) (ofChars new) (ofChars t) = ofChars (replaced word new t) := by
  apply replaced_map
  intro c d h
  cases h
  rfl

theorem infix_ofChars {s t : List Char} : ofChars s <:+: ofChars t ↔ s <:+: t := by
  constructor
  · intro h
    have hchars := h.map CodePoint.toChar
    change (ofChars s).chars <:+: (ofChars t).chars at hchars
    rwa [chars_ofChars, chars_ofChars] at hchars
  · exact fun h => h.map CodePoint.char

end Text

/-! ## Templates -/

namespace Template

/-- Two literals never stand side by side. -/
def Alternates : List (Segment α) → Prop
  | .literal _ :: .literal _ :: _ => False
  | _ :: rest => Alternates rest
  | [] => True

theorem alternates_consSymbol (c : α) {segments : List (Segment α)} (h : Alternates segments) :
    Alternates (consSymbol c segments) := by
  match segments, h with
  | [], _ => trivial
  | .operand _ :: _, h => exact h
  | [.literal _], _ => trivial
  | .literal _ :: .operand _ :: _, h => exact h

theorem alternates_parse [DecidableEq α] (placeholders : List (Placeholder α)) (t : List α) :
    Alternates (parse placeholders t) := by
  unfold parse
  fun_induction parseFrom placeholders 0 t with
  | case1 => trivial
  | case2 _ _ _ ih => exact ih
  | case3 c rest p _ ih => exact ih
  | case4 c rest _ ih => exact alternates_consSymbol c ih

theorem Alternates.of_literal {text : List α} {rest : List (Segment α)} (h : Alternates (.literal text :: rest)) :
    Alternates rest ∧ ∀ other tail, rest ≠ .literal other :: tail := by
  match rest, h with
  | [], _ => exact ⟨trivial, fun _ _ heq => by cases heq⟩
  | .operand _ :: _, h => exact ⟨h, fun _ _ heq => by cases heq⟩

/-- The texts of the literals. -/
def literalTexts : List (Segment α) → List (List α)
  | [] => []
  | .literal text :: rest => text :: literalTexts rest
  | .operand _ :: rest => literalTexts rest

/-- The segments with the literals changed. -/
def mapLiterals (f : List α → List α) : List (Segment α) → List (Segment α)
  | [] => []
  | .literal text :: rest => .literal (f text) :: mapLiterals f rest
  | .operand p :: rest => .operand p :: mapLiterals f rest

theorem mapLiterals_eq_self {f : List α → List α} {segments : List (Segment α)}
    (h : ∀ text ∈ literalTexts segments, f text = text) : mapLiterals f segments = segments := by
  induction segments with
  | nil => rfl
  | cons segment rest ih =>
      cases segment with
      | literal text =>
          obtain ⟨htext, hrest⟩ := List.forall_mem_cons.mp h
          rw [mapLiterals, htext, ih hrest]
      | operand p => rw [mapLiterals, ih h]

theorem operands_mapLiterals (f : List α → List α) (segments : List (Segment α)) :
    operands (mapLiterals f segments) = operands segments := by
  induction segments with
  | nil => rfl
  | cons segment rest ih => cases segment <;> simp [mapLiterals, operands, ih]

variable {word new text : List Char} {segments : List (Segment Char)} {values : List (List Char)}

theorem mem_literals {c : Char} (htext : text ∈ literalTexts segments) (hc : c ∈ text) : c ∈ literals segments := by
  induction segments with
  | nil => cases htext
  | cons segment rest ih =>
      cases segment with
      | literal front =>
          rcases List.mem_cons.mp htext with rfl | htext
          · exact List.mem_append_left _ hc
          · exact List.mem_append_right _ (ih htext)
      | operand p => exact ih htext

/-- Segments that do not begin with a literal are filled to a text that stops the word. -/
theorem stops_of_fill (hvalues : ∀ value ∈ values, value ≠ [] ∧ Foreign word value)
    (hsegments : ∀ other tail, segments ≠ .literal other :: tail) (h : fill segments values = .ok text) :
    Stops word text := by
  match segments with
  | [] =>
      cases h
      intro c hc
      cases hc
  | .literal other :: tail => exact absurd rfl (hsegments other tail)
  | .operand p :: rest =>
      obtain ⟨value, others, tail, rfl, -, rfl⟩ := exists_of_fill_operand h
      obtain ⟨hne, hforeign⟩ := hvalues value List.mem_cons_self
      exact hforeign.stops_append hne tail

/-- A word in a filled template is in one of its literals. -/
theorem infix_literal_of_fill (hword : word ≠ []) (halternates : Alternates segments)
    (hvalues : ∀ value ∈ values, value ≠ [] ∧ Foreign word value) (h : fill segments values = .ok text)
    (hinside : word <:+: text) : ∃ other ∈ literalTexts segments, word <:+: other := by
  induction segments generalizing values text with
  | nil =>
      cases h
      exact absurd (List.infix_nil.mp hinside) hword
  | cons segment rest ih =>
      cases segment with
      | literal other =>
          obtain ⟨hrest, hhead⟩ := halternates.of_literal
          obtain ⟨tail, htail, rfl⟩ := exists_of_fill_literal h
          rcases infix_of_infix_append (stops_of_fill hvalues hhead htail) hinside with hother | hinside
          · exact ⟨other, List.mem_cons_self, hother⟩
          · obtain ⟨found, hmem, hfound⟩ := ih hrest hvalues htail hinside
            exact ⟨found, List.mem_cons_of_mem _ hmem, hfound⟩
      | operand p =>
          obtain ⟨value, others, tail, rfl, htail, rfl⟩ := exists_of_fill_operand h
          obtain ⟨⟨-, hforeign⟩, hothers⟩ := List.forall_mem_cons.mp hvalues
          exact ih halternates hothers htail (hforeign.infix_of_infix_append hword hinside)

/-- A word is replaced in a filled template by replacing it in the literals. -/
theorem fill_replaced (hword : word ≠ []) (halternates : Alternates segments)
    (hvalues : ∀ value ∈ values, value ≠ [] ∧ Foreign word value) (h : fill segments values = .ok text) :
    fill (mapLiterals (replaced word new) segments) values = .ok (replaced word new text) := by
  induction segments generalizing values text with
  | nil =>
      cases h
      rfl
  | cons segment rest ih =>
      cases segment with
      | literal other =>
          obtain ⟨hrest, hhead⟩ := halternates.of_literal
          obtain ⟨tail, htail, rfl⟩ := exists_of_fill_literal h
          rw [mapLiterals, fill, ih hrest hvalues htail, replaced_append hword (stops_of_fill hvalues hhead htail)]
      | operand p =>
          obtain ⟨value, others, tail, rfl, htail, rfl⟩ := exists_of_fill_operand h
          obtain ⟨⟨-, hforeign⟩, hothers⟩ := List.forall_mem_cons.mp hvalues
          rw [mapLiterals, fill, ih halternates hothers htail, hforeign.replaced_append hword]

end Template

end EightBit
