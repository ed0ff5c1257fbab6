import EightBit.Proofs.Digits
import EightBit.Trace
set_option autoImplicit false

/-!
# Lines of a trace

The columns of a line have no fixed width: address and data are whatever was on the bus, and take as many
digits and a sign as they need.  But a number has no blank (`mem_hexPadded`) and a blank follows it, so it is
seen where the column ends; the mark is a single symbol, and a line that goes on behind it has a text.  So a
line gives back its row (`TraceRow.line_inj`).
-/

namespace EightBit

/-! ## Columns -/

/-- The symbol that marks an instruction fetch, or a blank. -/
def fetchMark (fetch : Bool) : CodePoint :=
  .char (if fetch then 'F' else ' ')

/-- What stands behind the mark: nothing, or the text behind two blanks. -/
def textEnding (text : Text) : Text :=
  if text.isEmpty then [] else .ofString "  " ++ text

theorem TraceRow.line_eq (row : TraceRow) :
    row.line = Text.ofChars (hexPadded 4 row.sample.address) ++ Text.ofString "  " ++
      (Text.ofChars (hexPadded 2 row.sample.data) ++ Text.ofString "  " ++
        fetchMark row.sample.fetch :: textEnding row.text) := by
  cases htext : row.text.isEmpty <;> simp [line, textEnding, fetchMark, Text.ofString, htext]

/-- The end of a number can be seen if a blank follows. -/
theorem number_append_inj {width : Nat} {m n : Int} {s t : Text}
    (h : Text.ofChars (hexPadded width m) ++ Text.ofString "  " ++ s =
      Text.ofChars (hexPadded width n) ++ Text.ofString "  " ++ t) : m = n ∧ s = t := by
  have hsymbols : ∀ value : Int, ∀ c ∈ Text.ofChars (hexPadded width value), c ∈ Text.ofChars numeralSymbols := by
    intro value c hc
    obtain ⟨digit, hdigit, rfl⟩ := List.mem_map.mp hc
    exact List.mem_map_of_mem (mem_hexPadded hdigit)
  have hblank : ∀ rest : Text, ∀ c ∈ (Text.ofString "  " ++ rest).head?, c ∉ Text.ofChars numeralSymbols := by
    intro rest c hc
    obtain rfl : CodePoint.char ' ' = c := Option.some.inj hc
    decide
  rw [List.append_assoc, List.append_assoc] at h
  obtain ⟨hnumber, hrest⟩ := append_inj_of_setOff (hsymbols m) (hsymbols n) (hblank s) (hblank t) h
  exact ⟨hexPadded_injective (Text.ofChars_inj.mp hnumber), List.append_cancel_left hrest⟩

theorem fetchMark_injective {f g : Bool} (h : fetchMark f = fetchMark g) : f = g := by
  cases f <;> cases g
  case false.false | true.true => rfl
  all_goals exact absurd h (by decide)

theorem textEnding_injective {s t : Text} (h : textEnding s = textEnding t) : s = t := by
  -- Two blanks alone are no ending, so an empty text is told from any other.
  cases s with
  | nil =>
      cases t with
      | nil => rfl
      | cons c t => cases h
  | cons c s =>
      cases t with
      | nil => cases h
      | cons d t => exact List.append_cancel_left h

/-! ## Rows read off their lines -/

/-- No two rows have the same line, whatever their numbers are. -/
theorem TraceRow.line_inj (address address' data data' : Int) (fetch fetch' : Bool) (text text' : Text) :
    (TraceRow.mk ⟨address, data, fetch⟩ text).line = (TraceRow.mk ⟨address', data', fetch'⟩ text').line ↔
      address = address' ∧ data = data' ∧ fetch = fetch' ∧ text = text' := by
  constructor
  · intro h
    rw [line_eq, line_eq] at h
    obtain ⟨haddress, hbehind⟩ := number_append_inj h
    obtain ⟨hdata, hmarked⟩ := number_append_inj hbehind
    obtain ⟨hmark, hending⟩ := List.cons.inj hmarked
    exact ⟨haddress, hdata, fetchMark_injective hmark, textEnding_injective hending⟩
  · rintro ⟨rfl, rfl, rfl, rfl⟩
    rfl

example : (TraceRow.mk ⟨-1, 0x100, false⟩ (.ofString " F")).line = .ofString "-001  100      F" := by decide

end EightBit
