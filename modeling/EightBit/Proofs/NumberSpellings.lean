import EightBit.Proofs.Reloading
set_option autoImplicit false

/-!
# Spellings of a number

A document may give a number as an integer, by its decimal text, or by its hexadecimal digits behind `0x`,
in either case and with zeros in front; the bytes of a program may also be one text of bare hexadecimal
words.  `Spells` and `SpellsBytes` are these forms.  All spellings of a number are read as the number
(`Spells.readInt_eq`), so that an address or a byte is judged by its value alone, and a refusal repeats the
spelling that was given.  The forms of a byte list are checked in different places, but each gives the same
program (`read_spelled`).

A number in decimal is one that the limit on decimal digits admits; without a limit every number is.
-/

namespace EightBit

/-! ## Words with blanks between them -/

/-- The text consists of the words, with blanks between them and, possibly, around them. -/
inductive Text.Separated : List (List Char) → List Char → Prop where
  | nil : Separated [] []
  | blank {b : Char} {list : List (List Char)} {s : List Char} (hb : isBlank b = true)
      (h : Separated list s) : Separated list (b :: s)
  | last (word : List Char) : Separated [word] word
  | word (word : List Char) {b : Char} {list : List (List Char)} {s : List Char} (hb : isBlank b = true)
      (h : Separated list s) : Separated (word :: list) (word ++ b :: s)

theorem Text.Separated.words_eq {list : List (List Char)} {s : List Char} (h : Separated list s)
    (hsolid : ∀ word ∈ list, words (ofChars word) = [ofChars word]) :
    words (ofChars s) = list.map ofChars := by
  induction h with
  | nil => rfl
  | blank hb _ ih =>
      rw [ofChars_cons, words_of_blank (b := .char _) hb, ih hsolid]
  | last word => exact hsolid word List.mem_cons_self
  | word word hb _ ih =>
      obtain ⟨hword, hrest⟩ := List.forall_mem_cons.mp hsolid
      rw [ofChars_append, ofChars_cons, words_append_blank (b := .char _) hb, hword, ih hrest, List.map_cons,
        List.singleton_append]

namespace Fixture

variable {limit : Option Nat} {n : Int} {d : Document} {s : List Char}

/-! ## One number -/

/-- The document gives or spells the integer, and is shown as the characters. -/
inductive Spells (limit : Option Nat) (n : Int) : Document → List Char → Prop where
  | given (h : Numeral.Fits limit n) : Spells limit n (.int n) (decimal n)
  | inDecimal (h : Numeral.Fits limit n) : Spells limit n (.text (.ofChars (decimal n))) (decimal n)
  | inHex {mark : Char} {digits : List Char} (hn : 0 ≤ n) (hmark : mark = 'x' ∨ mark = 'X')
      (h : Numeral.SpellsHex n.toNat digits) :
      Spells limit n (.text (.ofChars ('0' :: mark :: digits))) ('0' :: mark :: digits)

/-- No decimal text begins with `0x`. -/
theorem baseOf_decimal (n : Int) : Numeral.baseOf (decimal n) = 10 := by
  have hmark : ∀ mark : Char, mark ∉ numeralSymbols → ∀ rest, decimal n ≠ '0' :: mark :: rest := by
    intro mark hmark rest heq
    have hmem : mark ∈ decimal n := heq ▸ List.mem_cons_of_mem _ List.mem_cons_self
    exact hmark (mem_decimal hmem)
  have hmarked : Numeral.isMarked (decimal n) = false := by
    unfold Numeral.isMarked
    split
    · rename_i heq
      exact absurd heq (hmark 'x' (by decide) _)
    · rename_i heq
      exact absurd heq (hmark 'X' (by decide) _)
    · rfl
  rw [Numeral.baseOf, hmarked]
  rfl

namespace Spells

/-- Every spelling of an integer is read as the integer. -/
theorem readInt_eq (h : Spells limit n d s) : readInt limit d = .ok n := by
  cases h with
  | given => rfl
  | inDecimal hfits =>
      rw [readInt, Text.chars_ofChars, baseOf_decimal, readSpelling, Numeral.parse_decimal hfits]
  | inHex hn hmark hdigits =>
      rename_i mark digits
      have hbase : Numeral.baseOf ('0' :: mark :: digits) = 16 := by
        rcases hmark with rfl | rfl <;> rfl
      have hread : Numeral.read? 16 (Text.ofChars ('0' :: mark :: digits)).chars = some n := by
        rw [Text.chars_ofChars, hdigits.read?_marked_eq hmark, Int.toNat_of_nonneg hn]
      rw [readInt, Text.chars_ofChars, hbase, readSpelling, Numeral.parse_of_read? (by decide) hread]

theorem shown_eq (h : Spells limit n d s) : d.shown = .ofChars s := by
  cases h with
  | given => simp [Document.shown, Document.nested]
  | inDecimal => rfl
  | inHex => rfl

/-- A spelling is short enough for a message. -/
theorem refused_eq (h : Spells limit n d s) (fault : Document → LoadFault) : refused limit fault d = fault d := by
  cases limit with
  | none => rfl
  | some l =>
      have hwritable : d.isWritable l = true := by
        cases h with
        | given hfits => exact Numeral.isWritable_of_fits hfits
        | inDecimal => rfl
        | inHex => rfl
      exact if_pos hwritable

theorem readAddress_eq_error (h : Spells limit n d s) (hn : ¬ InRange n) :
    readAddress limit d = .error (.addressRange d) := by
  rw [readAddress, h.readInt_eq, ← h.refused_eq .addressRange]
  exact if_neg hn

theorem readByte_eq_error (h : Spells limit n d s) (hn : ¬ IsByte n) :
    readByte limit d = .error (.byteRange d) := by
  rw [readByte, h.readInt_eq, ← h.refused_eq .byteRange]
  exact if_neg hn

end Spells

/-! ## The bytes of a program -/

/-- The document gives the bytes one by one, in any spellings, or by one text of hexadecimal words. -/
inductive SpellsBytes (limit : Option Nat) : List UInt8 → Document → Prop where
  | each {entries : List (UInt8 × Document)}
      (h : ∀ entry ∈ entries, ∃ s, Spells limit entry.1.toNat entry.2 s) :
      SpellsBytes limit (entries.map Prod.fst) (.list (entries.map Prod.snd))
  | words {tokens : List (UInt8 × List Char)} {s : List Char}
      (h : ∀ token ∈ tokens, Numeral.SpellsHex token.1.toNat token.2)
      (hs : Text.Separated (tokens.map Prod.snd) s) :
      SpellsBytes limit (tokens.map Prod.fst) (.text (.ofChars s))

/-- Every form of a byte list is read as the list. -/
theorem SpellsBytes.readBytes_eq {bytes : List UInt8} (h : SpellsBytes limit bytes d) :
    readBytes limit d = .ok bytes := by
  cases h with
  | each h =>
      rename_i entries
      have hvalues : (entries.map Prod.snd).mapM (readByte limit) = .ok (imageOf (entries.map Prod.fst)) := by
        rw [List.mapM_map, imageOf, List.map_map]
        apply mapM_eq_ok_map
        intro entry hmem
        obtain ⟨s, hs⟩ := h entry hmem
        exact readByte_eq_ok_iff.mpr ⟨hs.readInt_eq, isByte_toNat entry.1⟩
      have hitems : items (.list (entries.map Prod.snd)) = .ok (entries.map Prod.snd) := rfl
      simp only [readBytes, hitems, ok_bind, hvalues, map_ofInt_imageOf, pure_eq_ok]
  | words h hs =>
      rename_i tokens s
      have hsolid : ∀ word ∈ tokens.map Prod.snd, Text.words (.ofChars word) = [.ofChars word] := by
        intro word hmem
        obtain ⟨token, htoken, rfl⟩ := List.mem_map.mp hmem
        exact (h token htoken).words_eq
      have hwords : Text.words (.ofChars s) = tokens.map fun token => .ofChars token.2 := by
        rw [hs.words_eq hsolid, List.map_map]
        rfl
      exact readWords_eq_ok hwords h

/-- How a number is spelled does not matter.  An address or a byte in range is read as the number, one out
of range is refused with the spelling in the message, and a program is read as its origin and its bytes. -/
theorem read_spelled (limit : Option Nat) :
    (∀ (n : Int) (d : Document) (s : List Char), Spells limit n d s →
      (InRange n → readAddress limit d = .ok n) ∧
      (¬ InRange n → readAddress limit d = .error (.addressRange d) ∧
        (LoadFault.addressRange d).message = .ofString "Address out of range: " ++ .ofChars s) ∧
      (IsByte n → readByte limit d = .ok n) ∧
      (¬ IsByte n → readByte limit d = .error (.byteRange d) ∧
        (LoadFault.byteRange d).message = .ofString "Byte value out of range: " ++ .ofChars s)) ∧
    ∀ (entries : List (Document × Document)) (origin : Int) (s : List Char) (bytes : List UInt8),
      Spells limit origin ((Document.get? entries "origin").getD (.int 0)) s → InRange origin →
      SpellsBytes limit bytes ((Document.get? entries "bytes").getD (.list [])) →
      readProgram limit (.mapping entries) = .ok (some { origin := origin, bytes := bytes }) := by
  constructor
  · intro n d s h
    refine ⟨?_, ?_, ?_, ?_⟩
    · intro hn
      exact readAddress_eq_ok_iff.mpr ⟨h.readInt_eq, hn⟩
    · intro hn
      exact ⟨h.readAddress_eq_error hn, congrArg (Text.ofString "Address out of range: " ++ ·) h.shown_eq⟩
    · intro hn
      exact readByte_eq_ok_iff.mpr ⟨h.readInt_eq, hn⟩
    · intro hn
      exact ⟨h.readByte_eq_error hn, congrArg (Text.ofString "Byte value out of range: " ++ ·) h.shown_eq⟩
  · intro entries origin s bytes horigin hrange hbytes
    have haddress := readAddress_eq_ok_iff.mpr ⟨horigin.readInt_eq, hrange⟩
    rw [readProgram, haddress, ok_bind, hbytes.readBytes_eq, ok_bind, pure_eq_ok]

/-- The document of a program whose origin is `0X0200`. -/
def atPageTwo (bytes : Document) : List (Document × Document) :=
  [(.text (.ofString "bytes"), bytes), (.text (.ofString "origin"), .text (.ofString "0X0200"))]

/-- One program with its bytes spelled in three ways and with its bytes as words, and an address that is
one too large. -/
theorem read_spelled_mixed :
    readProgram none (.mapping (atPageTwo (.list
      [.int 0xA9, .text (.ofString "1"), .text (.ofString "0x060")]))) =
        .ok (some { origin := 0x200, bytes := [0xA9, 0x01, 0x60] }) ∧
    readProgram none (.mapping (atPageTwo (.text (.ofString " a9\t1 \n0060")))) =
        .ok (some { origin := 0x200, bytes := [0xA9, 0x01, 0x60] }) ∧
    readAddress none (.text (.ofString "65536")) = .error (.addressRange (.text (.ofString "65536"))) := by
  have horigin : Spells none 0x200 (.text (.ofString "0X0200")) "0X0200".toList :=
    .inHex (by decide) (.inr rfl) ⟨1, by decide⟩
  have heach : ∀ entry ∈ [((0xA9 : UInt8), Document.int 0xA9), (0x01, .text (.ofString "1")),
      (0x60, .text (.ofString "0x060"))], ∃ s, Spells none entry.1.toNat entry.2 s := by
    simp only [List.forall_mem_cons]
    exact ⟨⟨_, .given (Numeral.fits_none _)⟩, ⟨_, .inDecimal (Numeral.fits_none _)⟩,
      ⟨_, .inHex (by decide) (.inl rfl) ⟨1, by decide⟩⟩, nofun⟩
  have hwords : ∀ token ∈ [((0xA9 : UInt8), "a9".toList), (0x01, "1".toList), (0x60, "0060".toList)],
      Numeral.SpellsHex token.1.toNat token.2 := by
    simp only [List.forall_mem_cons]
    exact ⟨⟨0, by decide⟩, ⟨0, by decide⟩, ⟨2, by decide⟩, nofun⟩
  have hseparated : Text.Separated ["a9".toList, "1".toList, "0060".toList] " a9\t1 \n0060".toList :=
    .blank (by decide) (.word _ (by decide) (.word _ (by decide) (.blank (by decide) (.last _))))
  obtain ⟨hnumbers, hprograms⟩ := read_spelled none
  refine ⟨?_, ?_, ?_⟩
  · exact hprograms _ _ _ _ horigin ⟨by decide, by decide⟩ (.each heach)
  · exact hprograms _ _ _ _ horigin ⟨by decide, by decide⟩ (.words hwords hseparated)
  · have hlarge : ¬ InRange 65536 := fun hrange => absurd hrange.2 (by decide)
    exact ((hnumbers 65536 _ _ (.inDecimal (Numeral.fits_none _))).2.1 hlarge).1

end Fixture

end EightBit
