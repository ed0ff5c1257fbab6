import EightBit.Proofs.DataRows
set_option autoImplicit false

/-!
# Listings of joined images

An image whose listing ends with an instruction can be joined with any other: the listing of the whole is
the one listing behind the other.  If the listing ends with data, the bytes of the second image may
complete what the data began, but every instruction before that stays.  `disassemble_append` says both.

The relation `Lists` makes this an induction over the instructions of the first image, since it begins
each instruction with a new decoder; `listFrom_eq` brings the result back to the loop.
-/

namespace EightBit

namespace InstructionSet

variable {μ : Type} {s : InstructionSet μ} {longest opening : Nat} {r : Record μ} {address : Int}
  {bytes back : List UInt8} {n : Nat} {rows rest : List ListingRow}

namespace Lawful

/-- The loop gives the rows that list the image, and no others. -/
theorem listFrom_eq (law : s.Lawful longest opening) (h : s.Lists address bytes rows)
    (hr : r.phase ≠ .fetching) : s.listFrom r 0 address (imageOf bytes) = .ok rows := by
  induction h generalizing r with
  | tail hbelow => exact law.listFrom_of_fetching hr hbelow
  | instruction hcompletes _ ih =>
      have hcompletes' := law.completesAfter_congr phase_initial hr (inRange_wrap16 _) hcompletes rfl
      apply law.listFrom_of_completes hr hcompletes
      apply ih
      rw [hcompletes'.complete]
      intro hphase
      cases hphase

/-- An image has one listing. -/
theorem lists_unique (law : s.Lawful longest opening) (h : s.Lists address bytes rows)
    (h' : s.Lists address bytes rest) : rows = rest := by
  have heq := (law.listFrom_eq h phase_initial).symm.trans (law.listFrom_eq h' phase_initial)
  exact Except.ok.inj heq

theorem exists_lists (law : s.Lawful longest opening) (address : Int) (bytes : List UInt8) :
    ∃ rows, s.Lists address bytes rows := by
  have hlists : ∃ rows, s.listFrom {} 0 address (imageOf bytes) = .ok rows ∧ s.Lists address bytes rows :=
    law.listFrom_lists bytes phase_initial
  obtain ⟨rows, -, h⟩ := hlists
  exact ⟨rows, h⟩

/-- An instruction stays complete when bytes are put behind it. -/
theorem completesAfter_append (law : s.Lawful longest opening)
    (h : s.CompletesAfter {} (wrap16 address) bytes n) (back : List UInt8) :
    s.CompletesAfter {} (wrap16 address) (bytes ++ back) n := by
  apply law.completesAfter_congr phase_initial phase_initial (inRange_wrap16 address) h
  exact (List.take_append_of_le_length h.le_length).symm

/-- An instruction is completed by its own bytes. -/
theorem completesAfter_take (law : s.Lawful longest opening) (haddress : InRange address)
    (h : s.CompletesAfter {} address bytes n) :
    s.CompletesAfter {} address (bytes.take n) (bytes.take n).length := by
  rw [List.length_take_of_le h.le_length]
  apply law.completesAfter_congr phase_initial phase_initial haddress h
  rw [List.take_take, Nat.min_self]

/-- An instruction in front of an image is listed in front of it, and bytes may follow. -/
theorem lists_cons_append (law : s.Lawful longest opening)
    (h : s.CompletesAfter {} (wrap16 address) bytes n)
    (hrest : s.Lists (address + n) (bytes.drop n ++ back) rows) :
    s.Lists address (bytes ++ back) (s.freshRow address (bytes.take n) :: rows) := by
  have htake : (bytes ++ back).take n = bytes.take n := List.take_append_of_le_length h.le_length
  rw [← htake]
  apply Lists.instruction (law.completesAfter_append h back)
  rw [List.drop_append_of_le_length h.le_length]
  exact hrest

/-- A listing without data goes on with the listing of what follows. -/
theorem lists_append (law : s.Lawful longest opening) (h : s.Lists address bytes rows)
    (hdata : ∀ row ∈ rows, ¬ row.IsData) (hrest : s.Lists (address + bytes.length) back rest) :
    s.Lists address (bytes ++ back) (rows ++ rest) := by
  induction h with
  | @tail address bytes hbelow =>
      cases bytes with
      | nil =>
          rw [List.length_nil, Int.natCast_zero, Int.add_zero] at hrest
          exact hrest
      | cons byte bytes =>
          exact absurd (isData_dataRows address (byte :: bytes) _ List.mem_cons_self)
            (hdata _ List.mem_cons_self)
  | @instruction address bytes n rows hcompletes _ ih =>
      apply law.lists_cons_append hcompletes
      apply ih
      · intro row hmem
        exact hdata row (List.mem_cons_of_mem _ hmem)
      · have hle := hcompletes.le_length
        have hplace : address + n + (bytes.drop n).length = address + bytes.length := by
          rw [List.length_drop]
          omega
        rw [hplace]
        exact hrest

end Lawful

end InstructionSet

namespace Architecture

open InstructionSet

/-- The instructions of an image stay in front when bytes are put behind it. -/
theorem exists_lists_append (a : Architecture) {address : Int} {bytes : List UInt8} {rows : List ListingRow}
    (h : a.instructionSet.Lists address bytes rows) (back : List UInt8) :
    ∃ whole, a.instructionSet.Lists address (bytes ++ back) whole ∧
      rows.filter (fun row => ¬ row.IsData) <+: whole := by
  induction h with
  | @tail address bytes hbelow =>
      obtain ⟨whole, hwhole⟩ := a.lawful.exists_lists address (bytes ++ back)
      have hnone : (dataRows address bytes).filter (fun row => ¬ row.IsData) = [] := by
        rw [List.filter_eq_nil_iff]
        intro row hmem
        simpa using isData_dataRows address bytes row hmem
      rw [hnone]
      exact ⟨whole, hwhole, List.nil_prefix⟩
  | @instruction address bytes n rows hcompletes _ ih =>
      obtain ⟨whole, hwhole, hprefix⟩ := ih
      refine ⟨_, a.lawful.lists_cons_append hcompletes hwhole, ?_⟩
      rw [List.filter_cons_of_pos (by simpa using a.not_isData_freshRow hcompletes)]
      exact List.cons_prefix_cons.mpr ⟨rfl, hprefix⟩

end Architecture

/-- If the listing of an image has no data, the listing of another image goes on behind it, addresses
included; and in any case its instructions are the first rows of every longer image. -/
theorem disassemble_append (a : Architecture) (start : Int) (front back : List UInt8) :
    ∃ rows rest whole,
      disassemble a start (imageOf front) = .ok rows ∧
      disassemble a (start + front.length) (imageOf back) = .ok rest ∧
      disassemble a start (imageOf (front ++ back)) = .ok whole ∧
      ((∀ row ∈ rows, ¬ row.IsData) → whole = rows ++ rest) ∧
      rows.filter (fun row => ¬ row.IsData) <+: whole := by
  have hfresh : ({} : Record a.Mode).phase ≠ .fetching := InstructionSet.phase_initial
  obtain ⟨rows, hrows⟩ := a.lawful.exists_lists start front
  obtain ⟨rest, hrest⟩ := a.lawful.exists_lists (start + front.length) back
  obtain ⟨whole, hwhole, hprefix⟩ := a.exists_lists_append hrows back
  refine ⟨rows, rest, whole, a.lawful.listFrom_eq hrows hfresh, a.lawful.listFrom_eq hrest hfresh,
    a.lawful.listFrom_eq hwhole hfresh, ?_, hprefix⟩
  intro hdata
  exact a.lawful.lists_unique hwhole (a.lawful.lists_append hrows hdata hrest)

end EightBit
