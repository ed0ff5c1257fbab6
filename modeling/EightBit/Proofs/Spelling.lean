import EightBit.Numeral
import EightBit.Proofs.Digits
set_option autoImplicit false

/-!
# Words and numbers read back from texts

The words of a text are found one by one: a blank ends a word whatever stands around it, so texts joined by
blanks have the words of the texts (`words_intercalate`).  A word of hexadecimal digits, in either case, is
read as the number that the digits stand for (`read?_hex`, behind a mark `read?_marked`), since no digit is
taken for a blank, a sign, an underscore or the mark of a base.  The decimal text of an integer is read as
the integer (`parse_decimal`) wherever the limit on decimal digits admits its length.
-/

namespace EightBit

namespace Text

variable {b c : CodePoint} {s : Text}

/-! ## Words -/

theorem ofChars_intercalate (separator : List Char) (pieces : List (List Char)) :
    ofChars (List.intercalate separator pieces) =
      List.intercalate (ofChars separator) (pieces.map ofChars) := by
  induction pieces with
  | nil => rfl
  | cons piece rest ih =>
      cases rest with
      | nil => rw [List.map_singleton, List.intercalate_singleton, List.intercalate_singleton]
      | cons next rest =>
          rw [List.map_cons, List.map_cons, List.intercalate_cons_cons, List.intercalate_cons_cons,
            ofChars_append, ofChars_append, ih, List.map_cons]

theorem consWord_false (c : CodePoint) (list : List Text) : consWord c false list = [c] :: list := by
  cases list <;> rfl

theorem consWord_ne_nil (c : CodePoint) (joined : Bool) (list : List Text) : consWord c joined list ≠ [] := by
  cases list <;> cases joined <;> simp [consWord]

/-- A symbol that belongs to no word, or to a word that is there, does not see the words further on. -/
theorem consWord_append {joined : Bool} {list : List Text} (h : joined = true → list ≠ []) (rest : List Text) :
    consWord c joined (list ++ rest) = consWord c joined list ++ rest := by
  cases joined with
  | false => rw [consWord_false, consWord_false, List.cons_append]
  | true =>
      obtain ⟨word, others, rfl⟩ := List.exists_cons_of_ne_nil (h rfl)
      rfl

theorem words_of_blank (hb : isBlank b.toChar = true) (s : Text) : words (b :: s) = words s := by
  rw [words, if_pos hb]

theorem words_of_solid (hc : isBlank c.toChar = false) (s : Text) :
    words (c :: s) = consWord c (s.head?.any fun d => !isBlank d.toChar) (words s) := by
  rw [words, if_neg (by rw [hc]; exact Bool.false_ne_true)]

theorem words_ne_nil (hc : isBlank c.toChar = false) (s : Text) : words (c :: s) ≠ [] := by
  rw [words_of_solid hc]
  exact consWord_ne_nil _ _ _

/-- A blank ends the words in front of it. -/
theorem words_append_blank (hb : isBlank b.toChar = true) (s t : Text) :
    words (s ++ b :: t) = words s ++ words t := by
  induction s with
  | nil => exact words_of_blank hb t
  | cons c s ih =>
      rw [List.cons_append]
      cases hc : isBlank c.toChar with
      | true => rw [words_of_blank hc, words_of_blank hc, ih]
      | false =>
          rw [words_of_solid hc, words_of_solid hc, ih]
          cases s with
          | nil =>
              rw [List.nil_append, List.head?_cons, Option.any_some, hb]
              exact consWord_false c (words t)
          | cons d s =>
              rw [List.cons_append, List.head?_cons, List.head?_cons]
              apply consWord_append
              intro hjoined
              exact words_ne_nil (by simpa using hjoined) s

/-- Texts joined by blanks have the words of the texts. -/
theorem words_intercalate (hb : isBlank b.toChar = true) (pieces : List Text) :
    words (List.intercalate [b] pieces) = pieces.flatMap words := by
  induction pieces with
  | nil => rfl
  | cons piece rest ih =>
      rw [List.flatMap_cons, ← ih]
      cases rest with
      | nil => rw [List.intercalate_singleton, List.intercalate_nil, words, List.append_nil]
      | cons next rest =>
          rw [List.intercalate_cons_cons, List.append_assoc, List.singleton_append, words_append_blank hb]

/-- A text without blanks is one word. -/
theorem words_eq_singleton (hs : s ≠ []) (h : ∀ c ∈ s, isBlank c.toChar = false) : words s = [s] := by
  induction s with
  | nil => exact absurd rfl hs
  | cons c s ih =>
      obtain ⟨hc, hrest⟩ := List.forall_mem_cons.mp h
      rw [words_of_solid hc]
      cases s with
      | nil => rfl
      | cons d s =>
          rw [ih (List.cons_ne_nil d s) hrest, List.head?_cons, Option.any_some, hrest d List.mem_cons_self]
          rfl

end Text

/-! ## Digits -/

namespace Numeral

variable {base : Nat} {value : Char → Nat} {s : List Char}

/-- Digits without underscores spell the number that their values make up. -/
theorem digitsFrom?_eq (acc : Nat) (h : ∀ c ∈ s, c ≠ '_' ∧ digit? base c = some (value c)) :
    digitsFrom? base acc s = some (s.foldl (fun n c => base * n + value c) acc) := by
  induction s generalizing acc with
  | nil => rfl
  | cons c s ih =>
      obtain ⟨⟨hunderscore, hdigit⟩, hrest⟩ := List.forall_mem_cons.mp h
      have hstep : digitsFrom? base acc (c :: s) = digitsFrom? base (acc * base + value c) s := by
        rw [digitsFrom?, hdigit]
        intro _ _ heq
        exact absurd heq hunderscore
      rw [hstep, ih _ hrest, List.foldl_cons, Nat.mul_comm]

theorem digits?_eq (hs : s ≠ []) (h : ∀ c ∈ s, c ≠ '_' ∧ digit? base c = some (value c)) :
    digits? base s = some (s.foldl (fun n c => base * n + value c) 0) := by
  obtain ⟨c, rest, rfl⟩ := List.exists_cons_of_ne_nil hs
  obtain ⟨⟨-, hdigit⟩, hrest⟩ := List.forall_mem_cons.mp h
  have hfirst : digits? base (c :: rest) = digitsFrom? base (value c) rest := by
    rw [digits?, hdigit]
  rw [hfirst, digitsFrom?_eq _ hrest, List.foldl_cons, Nat.mul_zero, Nat.zero_add]

/-! ## Texts without blanks -/

theorem dropWhile_eq_self {p : Char → Bool} (h : ∀ c ∈ s, p c = false) : s.dropWhile p = s := by
  cases s with
  | nil => rfl
  | cons c s => rw [List.dropWhile_cons_of_neg (by rw [h c List.mem_cons_self]; exact Bool.false_ne_true)]

theorem body_eq_self (h : ∀ c ∈ s, isMargin c = false) : body s = s := by
  rw [body, dropWhile_eq_self h, dropWhile_eq_self, List.reverse_reverse]
  intro c hmem
  exact h c (List.mem_reverse.mp hmem)

/-- Without blanks and without a sign in front the text is a magnitude. -/
theorem read?_unsigned (hmargin : ∀ c ∈ s, isMargin c = false) (hminus : s.head? ≠ some '-')
    (hplus : s.head? ≠ some '+') : read? base s = (magnitude? base s).map fun n : Nat => (n : Int) := by
  unfold read?
  rw [body_eq_self hmargin]
  split
  · exact absurd List.head?_cons hminus
  · exact absurd List.head?_cons hplus
  · cases magnitude? base s <;> rfl

theorem read?_minus (hmargin : ∀ c ∈ s, isMargin c = false) :
    read? base ('-' :: s) = (magnitude? base s).map fun n : Nat => -(n : Int) := by
  have hbody : body ('-' :: s) = '-' :: s :=
    body_eq_self (List.forall_mem_cons.mpr ⟨by decide, hmargin⟩)
  simp only [read?, hbody]
  cases magnitude? base s <;> rfl

/-! ## Hexadecimal digits -/

/-- The hexadecimal digits in either case. -/
def hexSymbols : List Char :=
  "0123456789ABCDEFabcdef".toList

/-- A hexadecimal digit has its value and is nothing else that a number text may hold. -/
theorem hexSymbol_digit {c : Char} (h : c ∈ hexSymbols) :
    digit? 16 c = some (hexDigitValue c.toUpper) ∧ isMargin c = false ∧ Text.isBlank c = false ∧
      isMarkOf 16 c = false := by
  have htable : (hexSymbols.all fun c => digit? 16 c = some (hexDigitValue c.toUpper) ∧ isMargin c = false ∧
      Text.isBlank c = false ∧ isMarkOf 16 c = false) = true := by decide
  simpa using List.all_eq_true.mp htable c h

theorem digits?_hex (hs : s ≠ []) (h : ∀ c ∈ s, c ∈ hexSymbols) :
    digits? 16 s = some (hexValue (s.map Char.toUpper)) := by
  have hdigits : ∀ c ∈ s, c ≠ '_' ∧ digit? 16 c = some (hexDigitValue c.toUpper) := by
    intro c hmem
    refine ⟨?_, (hexSymbol_digit (h c hmem)).1⟩
    rintro rfl
    exact absurd (h '_' hmem) (by decide)
  rw [digits?_eq hs hdigits, hexValue, List.foldl_map]

theorem unmarked_hex (h : ∀ c ∈ s, c ∈ hexSymbols) : unmarked 16 s = s := by
  unfold unmarked
  split
  · rename_i zero mark rest
    have hmark : isMarkOf 16 mark = false := (hexSymbol_digit (h mark (by simp))).2.2.2
    rw [if_neg]
    rintro ⟨-, hmarked⟩
    rw [hmark] at hmarked
    cases hmarked
  · rfl

/-- Hexadecimal digits are read as the number that they stand for. -/
theorem read?_hex (hs : s ≠ []) (h : ∀ c ∈ s, c ∈ hexSymbols) :
    read? 16 s = some (hexValue (s.map Char.toUpper) : Int) := by
  have hhead : ∀ sign : Char, sign ∉ hexSymbols → s.head? ≠ some sign := by
    intro sign hsign hfirst
    exact hsign (h sign (List.mem_of_head? hfirst))
  rw [read?_unsigned (fun c hmem => (hexSymbol_digit (h c hmem)).2.1) (hhead '-' (by decide))
    (hhead '+' (by decide)), magnitude?, unmarked_hex h, digits?_hex hs h]
  rfl

/-- So they are behind a mark. -/
theorem read?_marked {mark : Char} (hmark : mark = 'x' ∨ mark = 'X') (hs : s ≠ [])
    (h : ∀ c ∈ s, c ∈ hexSymbols) :
    read? 16 ('0' :: mark :: s) = some (hexValue (s.map Char.toUpper) : Int) := by
  have hunmarked : unmarked 16 ('0' :: mark :: s) = s := by
    have hmarked : Text.decimalValue? '0' = some 0 ∧ isMarkOf 16 mark = true := by
      rcases hmark with rfl | rfl <;> decide
    rw [unmarked, if_pos hmarked]
    rintro digits rfl
    exact absurd (h '_' List.mem_cons_self) (by decide)
  have hmargin : ∀ c ∈ '0' :: mark :: s, isMargin c = false := by
    refine List.forall_mem_cons.mpr ⟨by decide, List.forall_mem_cons.mpr ⟨?_, ?_⟩⟩
    · rcases hmark with rfl | rfl <;> decide
    · intro c hmem
      exact (hexSymbol_digit (h c hmem)).2.1
  rw [read?_unsigned hmargin (by simp) (by simp), magnitude?, hunmarked, digits?_hex hs h]
  rfl

/-- The limit is on decimal digits. -/
theorem parse_of_read? {limit : Option Nat} {base : Nat} {text : Text} {n : Int} (hbase : base ≠ 10)
    (h : read? base text.chars = some n) : parse limit base text = .ok n := by
  cases limit <;> simp [parse, excess?, hbase, h]

/-! ## Decimal texts -/

theorem isMargin_numeralSymbol {c : Char} (h : c ∈ numeralSymbols) : isMargin c = false := by
  have htable : (numeralSymbols.all fun c => isMargin c = false) = true := by decide
  simpa using List.all_eq_true.mp htable c h

theorem decimalSymbol_digit {c : Char} (h : c ∈ "0123456789".toList) :
    c ≠ '_' ∧ digit? 10 c = some (c.toNat - '0'.toNat) := by
  have htable : ("0123456789".toList.all fun c =>
      c ≠ '_' ∧ digit? 10 c = some (c.toNat - '0'.toNat)) = true := by decide
  simpa using List.all_eq_true.mp htable c h

/-- No letter marks the base ten. -/
theorem unmarked_ten (s : List Char) : unmarked 10 s = s := by
  unfold unmarked
  split
  · exact if_neg fun hmarked => Bool.false_ne_true hmarked.2
  · rfl

theorem magnitude?_toDigits (n : Nat) : magnitude? 10 (Nat.toDigits 10 n) = some n := by
  rw [magnitude?, unmarked_ten, digits?_eq Nat.toDigits_ne_nil fun c hmem =>
    decimalSymbol_digit (mem_toDigits_ten hmem)]
  exact congrArg some Nat.ofDigitChars_ten_toDigits

theorem isMargin_toDigits {n : Nat} {c : Char} (h : c ∈ Nat.toDigits 10 n) : isMargin c = false :=
  isMargin_numeralSymbol (mem_numeralSymbols_of_digit (mem_toDigits_ten h))

theorem head?_toDigits {sign : Char} (hsign : sign ∉ "0123456789".toList) (n : Nat) :
    (Nat.toDigits 10 n).head? ≠ some sign :=
  fun hfirst => hsign (mem_toDigits_ten (List.mem_of_head? hfirst))

/-- The decimal text of an integer is read as the integer. -/
theorem read?_decimal (n : Int) : read? 10 (decimal n) = some n := by
  unfold decimal
  split
  · rw [read?_minus fun c => isMargin_toDigits, magnitude?_toDigits, Option.map_some]
    congr 1
    omega
  · rw [read?_unsigned (fun c => isMargin_toDigits) (head?_toDigits (by decide) _)
      (head?_toDigits (by decide) _), magnitude?_toDigits, Option.map_some]
    congr 1
    omega

/-- The limit admits as many decimal digits as the integer has. -/
def Fits (limit : Option Nat) (n : Int) : Prop :=
  ∀ l, limit = some l → (Nat.toDigits 10 n.natAbs).length ≤ l

theorem fits_none (n : Int) : Fits none n := by
  intro l h
  cases h

theorem unsigned_decimal (n : Int) : unsigned (decimal n) = Nat.toDigits 10 n.natAbs := by
  have hminus : (Nat.toDigits 10 n.natAbs).head? ≠ some '-' := head?_toDigits (by decide) _
  have hplus : (Nat.toDigits 10 n.natAbs).head? ≠ some '+' := head?_toDigits (by decide) _
  unfold decimal
  split
  · rfl
  · unfold unsigned
    split
    · rename_i heq
      exact absurd (heq ▸ List.head?_cons) hminus
    · rename_i heq
      exact absurd (heq ▸ List.head?_cons) hplus
    · rfl

theorem excess?_decimal {l : Nat} {n : Int} (h : (Nat.toDigits 10 n.natAbs).length ≤ l) :
    excess? l 10 (decimal n) = none := by
  have hbody : body (decimal n) = decimal n :=
    body_eq_self fun c hmem => isMargin_numeralSymbol (mem_decimal hmem)
  have hleading : (leadingDigits 10 (decimal n)).length ≤ l := by
    rw [leadingDigits, hbody, unsigned_decimal]
    exact Nat.le_trans (List.takeWhile_sublist _).length_le h
  unfold excess?
  rw [if_neg]
  rintro ⟨-, hlong, -⟩
  exact absurd (Nat.le_trans (List.length_filter_le _ _) hleading) (Nat.not_le.mpr hlong)

/-- It is so under a limit that admits the text. -/
theorem parse_decimal {limit : Option Nat} {n : Int} (h : Fits limit n) :
    parse limit 10 (.ofChars (decimal n)) = .ok n := by
  cases limit with
  | none => simp [parse, read?_decimal]
  | some l => simp [parse, excess?_decimal (h l rfl), read?_decimal]

theorem isWritable_of_fits {l : Nat} {n : Int} (h : Fits (some l) n) : isWritable l n = true := by
  have hlength := h l rfl
  have hpositive : 0 < l := Nat.lt_of_lt_of_le Nat.length_toDigits_pos hlength
  exact decide_eq_true ((Nat.length_toDigits_le_iff (by decide) hpositive).mp hlength)

/-! ## Hexadecimal texts of a number -/

/-- The hexadecimal digits of a number, each in either case, with any number of zeros in front. -/
def SpellsHex (n : Nat) (digits : List Char) : Prop :=
  ∃ zeros, digits.map Char.toUpper = List.replicate zeros '0' ++ hexDigits n

theorem capital_hex {c : Char} (h : c ∈ "0123456789ABCDEF".toList) : c ∈ hexSymbols ∧ c.toUpper = c := by
  have htable : ("0123456789ABCDEF".toList.all fun c => c ∈ hexSymbols ∧ c.toUpper = c) = true := by decide
  simpa using List.all_eq_true.mp htable c h

/-- Only hexadecimal digits have capitals that are such digits. -/
theorem mem_hexSymbols_of_toUpper {c : Char} (h : c.toUpper ∈ "0123456789ABCDEF".toList) :
    c ∈ hexSymbols := by
  by_cases hsmall : 'a'.val ≤ c.val ∧ c.val ≤ 'z'.val
  · have htable : ∀ k < 26, (Char.ofNat (97 + k)).toUpper ∈ "0123456789ABCDEF".toList →
        Char.ofNat (97 + k) ∈ hexSymbols := by decide
    have hlow : 97 ≤ c.toNat := UInt32.le_iff_toNat_le.mp hsmall.1
    have hhigh : c.toNat ≤ 122 := UInt32.le_iff_toNat_le.mp hsmall.2
    have hletter := htable (c.toNat - 97) (by omega)
    rw [Nat.add_sub_of_le hlow, Char.ofNat_toNat] at hletter
    exact hletter h
  · have hsame : c.toUpper = c := dif_neg hsmall
    rw [hsame] at h
    exact (capital_hex h).1

namespace SpellsHex

variable {n : Nat} {digits : List Char}

theorem mem_hexSymbols (h : SpellsHex n digits) : ∀ c ∈ digits, c ∈ hexSymbols := by
  intro c hmem
  obtain ⟨zeros, hzeros⟩ := h
  have hcapital : c.toUpper ∈ List.replicate zeros '0' ++ hexDigits n :=
    hzeros ▸ List.mem_map_of_mem hmem
  apply mem_hexSymbols_of_toUpper
  rcases List.mem_append.mp hcapital with hzero | hdigit
  · rw [List.eq_of_mem_replicate hzero]
    decide
  · exact mem_hexDigits hdigit

theorem ne_nil (h : SpellsHex n digits) : digits ≠ [] := by
  rintro rfl
  obtain ⟨zeros, hzeros⟩ := h
  exact hexDigits_ne_nil n (List.append_eq_nil_iff.mp hzeros.symm).2

theorem hexValue_eq (h : SpellsHex n digits) : hexValue (digits.map Char.toUpper) = n := by
  obtain ⟨zeros, hzeros⟩ := h
  rw [hzeros, hexValue_zeros, hexValue_hexDigits]

theorem read?_eq (h : SpellsHex n digits) : read? 16 digits = some (n : Int) := by
  rw [read?_hex h.ne_nil h.mem_hexSymbols, h.hexValue_eq]

theorem read?_marked_eq (h : SpellsHex n digits) {mark : Char} (hmark : mark = 'x' ∨ mark = 'X') :
    read? 16 ('0' :: mark :: digits) = some (n : Int) := by
  rw [read?_marked hmark h.ne_nil h.mem_hexSymbols, h.hexValue_eq]

/-- The digits are one word of a text. -/
theorem words_eq (h : SpellsHex n digits) : Text.words (.ofChars digits) = [.ofChars digits] := by
  apply Text.words_eq_singleton
  · intro hnil
    exact h.ne_nil (List.map_eq_nil_iff.mp hnil)
  · intro c hmem
    obtain ⟨d, hd, rfl⟩ := List.mem_map.mp hmem
    exact (hexSymbol_digit (h.mem_hexSymbols d hd)).2.2.1

end SpellsHex

/-- The padded hexadecimal text is one of them. -/
theorem spellsHex_hexPadded (width n : Nat) : SpellsHex n (hexPadded width n) := by
  have hfilled : hexPadded width n = zeroFill width (hexDigits n) :=
    if_neg (Int.not_lt.mpr (Int.natCast_nonneg n))
  refine ⟨width - (hexDigits n).length, ?_⟩
  rw [hfilled, List.map_congr_left fun c hmem => (capital_hex (mem_zeroFill_hexDigits hmem)).2, List.map_id']
  rfl

end Numeral

end EightBit
