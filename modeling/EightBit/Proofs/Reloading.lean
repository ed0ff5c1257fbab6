import EightBit.Proofs.Composition
import EightBit.Proofs.Loading
import EightBit.Proofs.Spelling
set_option autoImplicit false

/-!
# Listings loaded again

The hexadecimal columns of a listing, joined by blanks, are a text of hexadecimal words, and that is a form
in which a fixture may give the bytes of its program.  Instructions have columns of several bytes, data of
one, but the words of the joined columns are those of the columns, and the words of a column are its bytes
(`words_hexText`).  So loading reads the image back, whole and in order (`disassemble_reloads`).
-/

namespace EightBit

open InstructionSet

/-! ## The words of the columns -/

/-- The hexadecimal columns of rows, joined by blanks. -/
def hexText (rows : List ListingRow) : String :=
  String.intercalate " " (rows.map ListingRow.hex)

theorem words_joined (pieces : List (List Char)) :
    Text.words (.ofChars (List.intercalate [' '] pieces)) =
      pieces.flatMap fun piece => Text.words (.ofChars piece) := by
  have hblank : Text.isBlank (CodePoint.char ' ').toChar = true := by decide
  rw [Text.ofChars_intercalate]
  exact (Text.words_intercalate hblank _).trans (List.flatMap_map ..)

theorem words_hexColumn (bytes : List UInt8) :
    Text.words (.ofChars (hexColumn bytes)) = bytes.map fun byte => .ofChars (hexPadded 2 byte.toNat) := by
  rw [hexColumn, words_joined, List.flatMap_map, List.map_eq_flatMap]
  congr 1
  funext byte
  exact (Numeral.spellsHex_hexPadded 2 byte.toNat).words_eq

/-- The words of the joined columns are the bytes of the rows. -/
theorem words_hexText (rows : List ListingRow) :
    Text.words (.ofString (hexText rows)) =
      (bytesOf rows).map fun byte => .ofChars (hexPadded 2 byte.toNat) := by
  have hcolumns : (hexText rows).toList =
      List.intercalate [' '] (rows.map fun row => hexColumn row.bytes) := by
    rw [hexText, String.toList_intercalate, List.map_map]
    congr 1
    apply List.map_congr_left
    intro row _
    exact String.toList_ofList
  rw [Text.ofString, hcolumns, words_joined, List.flatMap_map, bytesOf, List.map_flatMap]
  congr 1
  funext row
  exact words_hexColumn row.bytes

/-! ## Reading them -/

theorem mapM_eq_ok_map {ε α β : Type} {f : α → Except ε β} {g : α → β} {l : List α}
    (h : ∀ a ∈ l, f a = .ok (g a)) : l.mapM f = .ok (l.map g) := by
  rw [mapM_congr_mem (g := fun a => .ok (g a)) h]
  exact List.mapM_pure

@[simp] theorem Document.get?_nil (wanted : String) : get? [] wanted = none := rfl

theorem Document.get?_cons (key : String) (value : Document) (entries : List (Document × Document))
    (wanted : String) :
    get? ((.text (.ofString key), value) :: entries) wanted =
      if key = wanted then some value else get? entries wanted := by
  have hkeys : Text.ofString key = Text.ofString wanted ↔ key = wanted := by
    rw [Text.ofString, Text.ofString, Text.ofChars_inj, String.toList_inj]
  rw [get?, List.findSome?_cons]
  simp only [hkeys]
  by_cases hkey : key = wanted
  · rw [if_pos hkey, if_pos hkey]
  · rw [if_neg hkey, if_neg hkey]
    rfl

namespace Fixture

variable {limit : Option Nat}

theorem readSpelling_of_spellsHex {n : Nat} {digits : List Char} (h : Numeral.SpellsHex n digits) :
    readSpelling limit 16 (.ofChars digits) = .ok (n : Int) := by
  have hread : Numeral.read? 16 (Text.ofChars digits).chars = some (n : Int) := by
    rw [Text.chars_ofChars, h.read?_eq]
  rw [readSpelling, Numeral.parse_of_read? (by decide) hread]

/-- A text whose words are bytes in hexadecimal is read as these bytes. -/
theorem readWords_eq_ok {text : Text} {tokens : List (UInt8 × List Char)}
    (hwords : Text.words text = tokens.map fun token => .ofChars token.2)
    (h : ∀ token ∈ tokens, Numeral.SpellsHex token.1.toNat token.2) :
    readWords limit text = .ok (tokens.map Prod.fst) := by
  have hvalues : (Text.words text).mapM (readSpelling limit 16) = .ok (imageOf (tokens.map Prod.fst)) := by
    rw [hwords, List.mapM_map, imageOf, List.map_map]
    apply mapM_eq_ok_map
    intro token hmem
    exact readSpelling_of_spellsHex (h token hmem)
  have hrange : (imageOf (tokens.map Prod.fst)).all (fun n => 0 ≤ n ∧ n ≤ 0xFF) = true := by
    rw [List.all_eq_true]
    intro n hmem
    exact decide_eq_true (isByte_of_mem_imageOf hmem)
  rw [readWords, hvalues, ok_bind, if_pos hrange, map_ofInt_imageOf]
  rfl

/-- The columns of rows are read as the bytes of the rows. -/
theorem readWords_hexText (rows : List ListingRow) :
    readWords limit (.ofString (hexText rows)) = .ok (bytesOf rows) := by
  let tokens := (bytesOf rows).map fun byte => (byte, hexPadded 2 byte.toNat)
  have hwords : Text.words (.ofString (hexText rows)) = tokens.map fun token => .ofChars token.2 := by
    rw [words_hexText, List.map_map]
    rfl
  have hbytes : tokens.map Prod.fst = bytesOf rows := by
    rw [List.map_map]
    exact List.map_id' _
  rw [← hbytes]
  apply readWords_eq_ok hwords
  intro token hmem
  obtain ⟨byte, -, rfl⟩ := List.mem_map.mp hmem
  exact Numeral.spellsHex_hexPadded 2 byte.toNat

theorem readArchitecture_name (a : Architecture) :
    readArchitecture limit (.text (.ofString a.name)) = .ok a := by
  have hname : String.ofList (Document.text (.ofString a.name)).shown.chars = a.name := by
    rw [Document.shown, Text.ofString, Text.chars_ofChars, String.ofList_toList]
  rw [readArchitecture, hname, Architecture.ofName?_name]

end Fixture

/-! ## The document of a listing -/

/-- The document that gives a program by its architecture, its origin and the columns of its listing. -/
def Document.ofListing (a : Architecture) (origin : Int) (rows : List ListingRow) : Document :=
  .mapping
    [(.text (.ofString "architecture"), .text (.ofString a.name)),
     (.text (.ofString "program"), .mapping
        [(.text (.ofString "origin"), .int origin),
         (.text (.ofString "bytes"), .text (.ofString (hexText rows)))])]

theorem Fixture.ofDocument_ofListing (limit : Option Nat) (a : Architecture) {origin : Int}
    (horigin : InRange origin) (rows : List ListingRow) :
    ofDocument limit (.ofListing a origin rows) =
      .ok { architecture := a, program := some { origin := origin, bytes := bytesOf rows } } := by
  have haddress : readAddress limit (.int origin) = .ok origin :=
    readAddress_eq_ok_iff.mpr ⟨rfl, horigin⟩
  have hbytes : readBytes limit (.text (.ofString (hexText rows))) = .ok (bytesOf rows) :=
    readWords_hexText rows
  have hsamples : readSamples limit .null = .ok [] := rfl
  simp [Document.ofListing, ofDocument, readProgram, Document.get?_cons, readArchitecture_name, hsamples,
    haddress, hbytes]

/-- The columns of a listing are loaded as the program that was listed, and so its listing is the same. -/
theorem disassemble_reloads (limit : Option Nat) (a : Architecture) (origin : Int) (image : List UInt8)
    (horigin : InRange origin) :
    ∃ rows fixture program,
      disassemble a origin (imageOf image) = .ok rows ∧
      Fixture.ofDocument limit (.ofListing a origin rows) = .ok fixture ∧
      fixture.architecture = a ∧ fixture.program = some program ∧
      program.origin = origin ∧ program.bytes = image ∧
      disassemble fixture.architecture program.origin (imageOf program.bytes) = .ok rows := by
  obtain ⟨rows, hlists⟩ := a.lawful.exists_lists origin image
  obtain ⟨instructions, data, rfl, hpartition⟩ := a.lawful.exists_partition hlists
  have hrows : disassemble a origin (imageOf image) = .ok (instructions ++ data) :=
    a.lawful.listFrom_eq hlists phase_initial
  have hload := Fixture.ofDocument_ofListing limit a horigin (instructions ++ data)
  rw [hpartition.bytes_eq] at hload
  exact ⟨_, _, _, hrows, hload, rfl, rfl, rfl, rfl, hrows⟩

/-- An image at the end of memory, with an instruction of two leading bytes and one that it breaks off. -/
theorem disassemble_reloads_broken_off :
    InRange 0xFFFE ∧
    ∃ rows fixture program,
      disassemble .z80 0xFFFE (imageOf [0xDD, 0xCB, 0x05, 0x46, 0x00, 0xFD, 0x21]) = .ok rows ∧
      Fixture.ofDocument Numeral.digitLimit (.ofListing .z80 0xFFFE rows) = .ok fixture ∧
      fixture.architecture = .z80 ∧ fixture.program = some program ∧
      program.origin = 0xFFFE ∧ program.bytes = [0xDD, 0xCB, 0x05, 0x46, 0x00, 0xFD, 0x21] ∧
      disassemble fixture.architecture program.origin (imageOf program.bytes) = .ok rows := by
  have horigin : InRange 0xFFFE := ⟨by decide, by decide⟩
  exact ⟨horigin, disassemble_reloads _ _ _ _ horigin⟩

end EightBit
