import EightBit.Proofs.Digits
import EightBit.Proofs.Rendering
import EightBit.Proofs.Words
set_option autoImplicit false

/-!
# Legible texts

A text is legible at a width if it has at most that many symbols, all of them printable ASCII.  Numbers
are, at the widths of their ranges, and so are texts put together of legible ones, the widths being added.

A template is clear if its literals are legible, leave room for its operands, and set each operand off by
a symbol that no operand has.  Then every filling of it is legible (`Clear.legible_fill`) and shows what it
was filled with (`fill_injective`).
-/

namespace EightBit

/-! ## Texts -/

/-- The widest text that leaves room for an address behind it. -/
def bodyWidth : Nat := 25

/-- The character is a printable one of ASCII. -/
def isAscii (c : Char) : Bool :=
  0x20 ≤ c.toNat && c.toNat ≤ 0x7E

/-- The text has at most `width` symbols, which are printable. -/
structure Legible (width : Nat) (text : List Char) : Prop where
  length_le : text.length ≤ width
  ascii : ∀ c ∈ text, isAscii c = true

instance (width : Nat) (text : List Char) : Decidable (Legible width text) :=
  decidable_of_iff (text.length ≤ width ∧ text.all isAscii = true)
    ⟨fun h => ⟨h.1, List.all_eq_true.mp h.2⟩, fun h => ⟨h.length_le, List.all_eq_true.mpr h.ascii⟩⟩

namespace Legible

variable {m n : Nat} {s t : List Char} {c : Char}

theorem nil : Legible n [] where
  length_le := Nat.zero_le n
  ascii c h := by cases h

theorem cons (hc : isAscii c = true) (h : Legible n t) : Legible (n + 1) (c :: t) where
  length_le := Nat.succ_le_succ h.length_le
  ascii d hd := by
    rcases List.mem_cons.mp hd with rfl | hd
    · exact hc
    · exact h.ascii d hd

theorem append (hs : Legible m s) (ht : Legible n t) : Legible (m + n) (s ++ t) where
  length_le := by
    rw [List.length_append]
    exact Nat.add_le_add hs.length_le ht.length_le
  ascii c h := by
    rcases List.mem_append.mp h with h | h
    · exact hs.ascii c h
    · exact ht.ascii c h

theorem mono (h : Legible m t) (hle : m ≤ n := by decide) : Legible n t where
  length_le := Nat.le_trans h.length_le hle
  ascii := h.ascii

theorem literal (text : List Char) (h : text.all isAscii = true := by rfl) :
    Legible text.length text where
  length_le := Nat.le_refl _
  ascii := List.all_eq_true.mp h

theorem of_cons (h : Legible (n + 1) (c :: t)) : Legible n t where
  length_le := Nat.le_of_succ_le_succ h.length_le
  ascii d hd := h.ascii d (List.mem_cons_of_mem c hd)

theorem sublist (h : Legible n t) (hsub : s.Sublist t) : Legible n s where
  length_le := Nat.le_trans hsub.length_le h.length_le
  ascii d hd := h.ascii d (hsub.subset hd)

end Legible

/-! ## Numbers -/

theorem isAscii_of_numeral {c : Char} (h : c ∈ numeralSymbols) : isAscii c = true := by
  have htable : numeralSymbols.all isAscii = true := by decide
  exact List.all_eq_true.mp htable c h

theorem legible_hex8 (value : Int) : Legible 2 (hex8 value) where
  length_le := Nat.le_of_eq (length_hex8 value)
  ascii _ h := isAscii_of_numeral (mem_hexPadded h)

theorem legible_hex16 (value : Int) : Legible 4 (hex16 value) where
  length_le := Nat.le_of_eq (length_hex16 value)
  ascii _ h := isAscii_of_numeral (mem_hexPadded h)

theorem legible_decimal {value : Int} {k : Nat} (hk : 0 < k) (h : value.natAbs < Nat.pow 10 k) :
    Legible (k + 1) (decimal value) where
  length_le := length_decimal_le hk h
  ascii _ h := isAscii_of_numeral (mem_decimal h)

theorem natAbs_signExtend_eight (value : Int) : (signExtend 8 value).natAbs ≤ 128 := by
  have hrange : -128 ≤ signExtend 8 value ∧ signExtend 8 value < 128 := signExtend_range (by decide) value
  omega

theorem natAbs_signExtend_sixteen (value : Int) : (signExtend 16 value).natAbs ≤ 32768 := by
  have hrange : -32768 ≤ signExtend 16 value ∧ signExtend 16 value < 32768 :=
    signExtend_range (by decide) value
  omega

theorem legible_signed_byte (value : Int) : Legible 4 (decimal (signExtend 8 value)) := by
  have := natAbs_signExtend_eight value
  apply legible_decimal (by decide)
  change _ < 1000
  omega

theorem legible_signed_word (value : Int) : Legible 6 (decimal (signExtend 16 value)) := by
  have := natAbs_signExtend_sixteen value
  apply legible_decimal (by decide)
  change _ < 100000
  omega

/-! ## Operands in a list -/

/-- Operands with commas between them. -/
def joined (operands : List (List Char)) : List Char :=
  List.intercalate [','] operands

theorem joined_singleton (operand : List Char) : joined [operand] = operand := by
  simp [joined, List.intercalate]

theorem joined_pair (first second : List Char) : joined [first, second] = first ++ ',' :: second := by
  simp [joined, List.intercalate]

/-- Commas in front of the operands are one more than commas between them. -/
theorem comma_joined {operands : List (List Char)} (h : operands ≠ []) :
    ',' :: joined operands = operands.flatMap fun operand => ',' :: operand := by
  induction operands with
  | nil => exact absurd rfl h
  | cons first rest ih =>
      cases rest with
      | nil => simp [joined_singleton]
      | cons second rest =>
          have hrest := ih (List.cons_ne_nil second rest)
          rw [List.flatMap_cons, ← hrest]
          simp [joined, List.intercalate]

theorem statement_eq {mnemonic : List Char} {operands : List (List Char)} (h : operands ≠ []) :
    statement mnemonic operands = mnemonic ++ ' ' :: joined operands := by
  have hne : ¬ operands.isEmpty = true := by simpa using h
  rw [statement, if_neg hne]
  rfl

theorem legible_statement {m n : Nat} {mnemonic : List Char} {operands : List (List Char)}
    (hm : Legible m mnemonic) (hn : Legible n (joined operands)) :
    Legible (m + 1 + n) (statement mnemonic operands) := by
  by_cases hempty : operands = []
  · subst hempty
    exact hm.mono (by omega)
  · rw [statement_eq hempty]
    have happend := hm.append (hn.cons (c := ' ') rfl)
    exact happend.mono (by omega)

namespace Template

/-! ## The texts of operands -/

/-- The widest operand. -/
def operandWidth : Nat := 5

/-- The symbols of which operands are written. -/
def operandSymbols : List Char :=
  'h' :: numeralSymbols

/-- The text is one of an operand. -/
structure IsOperand (text : List Char) : Prop where
  length_le : text.length ≤ operandWidth
  symbols : ∀ c ∈ text, c ∈ operandSymbols

namespace IsOperand

variable {text : List Char} {value : Int}

theorem legible (h : IsOperand text) : Legible operandWidth text where
  length_le := h.length_le
  ascii c hc := by
    rcases List.mem_cons.mp (h.symbols c hc) with rfl | hnumeral
    · rfl
    · exact isAscii_of_numeral hnumeral

theorem of_numeral (hlength : text.length ≤ operandWidth) (h : ∀ c ∈ text, c ∈ numeralSymbols) :
    IsOperand text where
  length_le := hlength
  symbols c hc := List.mem_cons_of_mem 'h' (h c hc)

/-- A number in hexadecimal may have an `h` behind it. -/
theorem append_h (hlength : text.length < operandWidth) (h : ∀ c ∈ text, c ∈ numeralSymbols) :
    IsOperand (text ++ ['h']) where
  length_le := by
    rw [List.length_append]
    exact hlength
  symbols c hc := by
    rcases List.mem_append.mp hc with hnumeral | hlast
    · exact List.mem_cons_of_mem 'h' (h c hnumeral)
    · rw [List.mem_singleton.mp hlast]
      exact List.mem_cons_self

theorem hex8 (value : Int) : IsOperand (hex8 value) := by
  apply of_numeral
  · rw [length_hex8]
    decide
  · exact fun c => mem_hexPadded

theorem hex16 (value : Int) : IsOperand (hex16 value) := by
  apply of_numeral
  · rw [length_hex16]
    decide
  · exact fun c => mem_hexPadded

theorem decimal (h : value.natAbs < 1000) : IsOperand (decimal value) := by
  apply of_numeral
  · have hle := length_decimal_le (k := 3) (by decide) h
    exact Nat.le_succ_of_le hle
  · exact fun c => mem_decimal

theorem signedDecimal (h : value.natAbs < 1000) : IsOperand (signedDecimal value) := by
  apply of_numeral
  · have hle := length_signedDecimal_le (k := 3) (by decide) h
    exact Nat.le_succ_of_le hle
  · exact fun c => mem_signedDecimal

end IsOperand

/-! ## Clear templates -/

/-- The symbols of the literals. -/
def literals : List (Segment Char) → List Char
  | [] => []
  | .literal text :: rest => text ++ literals rest
  | .operand _ :: rest => literals rest

/-- Behind each operand the template ends or goes on with a symbol that no operand has. -/
def setOff : List (Segment Char) → Bool
  | [] => true
  | .literal _ :: rest => setOff rest
  | [.operand _] => true
  | .operand _ :: .literal (c :: _) :: rest => c ∉ operandSymbols && setOff rest
  | .operand _ :: _ => false

/-- The literals are printable, leave room for the operands in a width, and set them off. -/
structure Clear (width : Nat) (segments : List (Segment Char)) : Prop where
  room : (literals segments).length + operandWidth * (operands segments).length ≤ width
  ascii : ∀ c ∈ literals segments, isAscii c = true
  setOff_eq : setOff segments = true

instance (width : Nat) (segments : List (Segment Char)) : Decidable (Clear width segments) :=
  decidable_of_iff
    ((literals segments).length + operandWidth * (operands segments).length ≤ width ∧
      (literals segments).all isAscii = true ∧ setOff segments = true)
    ⟨fun h => ⟨h.1, List.all_eq_true.mp h.2.1, h.2.2⟩,
      fun h => ⟨h.room, List.all_eq_true.mpr h.ascii, h.setOff_eq⟩⟩

theorem literals_foldr_consSymbol (s : List Char) (segments : List (Segment Char)) :
    literals (s.foldr consSymbol segments) = s ++ literals segments := by
  induction s with
  | nil => rfl
  | cons c s ih =>
      rw [List.foldr_cons, List.cons_append, ← ih]
      generalize s.foldr consSymbol segments = others
      unfold consSymbol
      split <;> rfl

theorem setOff_foldr_consSymbol (s : List Char) (segments : List (Segment Char)) :
    setOff (s.foldr consSymbol segments) = setOff segments := by
  induction s with
  | nil => rfl
  | cons c s ih =>
      rw [List.foldr_cons, ← ih]
      generalize s.foldr consSymbol segments = others
      unfold consSymbol
      split <;> rfl

/-- Printable symbols in front of a clear template leave it clear. -/
theorem Clear.foldr_consSymbol {n width : Nat} {segments : List (Segment Char)} {s : List Char}
    (hs : Legible n s) (h : Clear width segments) : Clear (n + width) (s.foldr consSymbol segments) where
  room := by
    have hlength := hs.length_le
    have hroom := h.room
    rw [literals_foldr_consSymbol, operands_foldr_consSymbol, List.length_append]
    omega
  ascii c hc := by
    rw [literals_foldr_consSymbol] at hc
    rcases List.mem_append.mp hc with hc | hc
    · exact hs.ascii c hc
    · exact h.ascii c hc
  setOff_eq := by
    rw [setOff_foldr_consSymbol]
    exact h.setOff_eq

/-! ## Fillings -/

variable {segments rest : List (Segment Char)} {values values' : List (List Char)}
  {front text : List Char} {p : Placeholder Char}

theorem exists_of_fill_literal (h : fill (.literal front :: rest) values = .ok text) :
    ∃ tail, fill rest values = .ok tail ∧ text = front ++ tail := by
  rw [fill] at h
  cases hrest : fill rest values with
  | error e => simp [hrest] at h
  | ok tail =>
      simp only [hrest, Except.ok.injEq] at h
      exact ⟨tail, rfl, h.symm⟩

theorem exists_of_fill_operand (h : fill (.operand p :: rest) values = .ok text) :
    ∃ value others tail, values = value :: others ∧ fill rest others = .ok tail ∧ text = value ++ tail := by
  cases values with
  | nil => simp [fill] at h
  | cons value others =>
      rw [fill] at h
      cases hrest : fill rest others with
      | error e => simp [hrest] at h
      | ok tail =>
          simp only [hrest, Except.ok.injEq] at h
          exact ⟨value, others, tail, rfl, hrest, h.symm⟩

/-- A filled template has its literals and a value for each operand. -/
theorem length_fill_le {k : Nat} (h : fill segments values = .ok text) (hvalues : ∀ v ∈ values, v.length ≤ k) :
    text.length ≤ (literals segments).length + k * (operands segments).length := by
  induction segments generalizing values text with
  | nil =>
      cases h
      exact Nat.zero_le _
  | cons segment rest ih =>
      cases segment with
      | literal front =>
          obtain ⟨tail, hrest, rfl⟩ := exists_of_fill_literal h
          have hle := ih hrest hvalues
          simp only [literals, operands, List.length_append]
          omega
      | operand p =>
          obtain ⟨value, others, tail, rfl, hrest, rfl⟩ := exists_of_fill_operand h
          obtain ⟨hvalue, hothers⟩ := List.forall_mem_cons.mp hvalues
          have hle := ih hrest hothers
          simp only [literals, operands, List.length_append, List.length_cons, Nat.mul_succ]
          omega

/-- A symbol of a filled template is one of a literal or one of a value. -/
theorem mem_fill (h : fill segments values = .ok text) {c : Char} (hc : c ∈ text) :
    c ∈ literals segments ∨ ∃ v ∈ values, c ∈ v := by
  induction segments generalizing values text with
  | nil =>
      cases h
      cases hc
  | cons segment rest ih =>
      cases segment with
      | literal front =>
          obtain ⟨tail, hrest, rfl⟩ := exists_of_fill_literal h
          rcases List.mem_append.mp hc with hfront | htail
          · exact .inl (List.mem_append_left _ hfront)
          · exact (ih hrest htail).imp_left (List.mem_append_right front)
      | operand p =>
          obtain ⟨value, others, tail, rfl, hrest, rfl⟩ := exists_of_fill_operand h
          rcases List.mem_append.mp hc with hvalue | htail
          · exact .inr ⟨value, List.mem_cons_self, hvalue⟩
          · rcases ih hrest htail with hliteral | ⟨v, hv, hcv⟩
            · exact .inl hliteral
            · exact .inr ⟨v, List.mem_cons_of_mem value hv, hcv⟩

/-- What follows an operand does not begin like an operand. -/
theorem head_of_setOff (hoff : setOff (.operand p :: rest) = true) (h : fill rest values = .ok text) :
    setOff rest = true ∧ ∀ c ∈ text.head?, c ∉ operandSymbols := by
  unfold setOff at hoff
  split at hoff
  case h_1 heq => cases heq
  case h_2 heq => cases heq
  case h_3 heq =>
      cases heq
      cases h
      exact ⟨rfl, fun c hc => by cases hc⟩
  case h_4 c others rest' heq =>
      cases heq
      obtain ⟨hc, hrest⟩ := Bool.and_eq_true_iff.mp hoff
      obtain ⟨tail, -, rfl⟩ := exists_of_fill_literal h
      refine ⟨hrest, ?_⟩
      intro d hd
      cases hd
      exact of_decide_eq_true hc
  case h_5 => cases hoff

/-- A filled template whose operands are set off shows what it was filled with. -/
theorem fill_injective (hoff : setOff segments = true) (hlength : values.length = (operands segments).length)
    (hlength' : values'.length = (operands segments).length)
    (hvalues : ∀ v ∈ values, ∀ c ∈ v, c ∈ operandSymbols)
    (hvalues' : ∀ v ∈ values', ∀ c ∈ v, c ∈ operandSymbols)
    (h : fill segments values = .ok text) (h' : fill segments values' = .ok text) : values = values' := by
  induction segments generalizing values values' text with
  | nil => rw [List.length_eq_zero_iff.mp hlength, List.length_eq_zero_iff.mp hlength']
  | cons segment rest ih =>
      cases segment with
      | literal front =>
          obtain ⟨tail, hrest, rfl⟩ := exists_of_fill_literal h
          obtain ⟨tail', hrest', heq⟩ := exists_of_fill_literal h'
          have htail : tail = tail' := List.append_cancel_left heq
          subst htail
          exact ih hoff hlength hlength' hvalues hvalues' hrest hrest'
      | operand p =>
          obtain ⟨value, others, tail, rfl, hrest, rfl⟩ := exists_of_fill_operand h
          obtain ⟨value', others', tail', rfl, hrest', heq⟩ := exists_of_fill_operand h'
          obtain ⟨hvalue, hothers⟩ := List.forall_mem_cons.mp hvalues
          obtain ⟨hvalue', hothers'⟩ := List.forall_mem_cons.mp hvalues'
          obtain ⟨hoff', hhead⟩ := head_of_setOff hoff hrest
          obtain ⟨-, hhead'⟩ := head_of_setOff hoff hrest'
          obtain ⟨rfl, rfl⟩ := append_inj_of_setOff hvalue hvalue' hhead hhead' heq
          have hcount : others.length = (operands rest).length := Nat.succ.inj hlength
          have hcount' : others'.length = (operands rest).length := Nat.succ.inj hlength'
          rw [ih hoff' hcount hcount' hothers hothers' hrest hrest']

theorem Clear.legible_fill {width : Nat} (hclear : Clear width segments) (h : fill segments values = .ok text)
    (hvalues : ∀ v ∈ values, IsOperand v) : Legible width text where
  length_le := Nat.le_trans (length_fill_le h fun v hv => (hvalues v hv).length_le) hclear.room
  ascii c hc := by
    rcases mem_fill h hc with hliteral | ⟨v, hv, hcv⟩
    · exact hclear.ascii c hliteral
    · exact (hvalues v hv).legible.ascii c hcv

end Template

end EightBit
