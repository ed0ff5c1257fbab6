import EightBit.Proofs.Composition
import EightBit.Proofs.Session
set_option autoImplicit false

/-!
# Images that are refused

An image may be given by any integers.  The loop of a listing gives every one of them to the decoder, in
order and once: the first of an instruction by opening it, the others one after the other, and the ones
that become data are given to it too before they do.  So a value that is no byte is met whatever the
instructions around it are, and the values behind it are never looked at (`listFrom_of_not_isByte`).  The
addresses are wrapped and refuse nothing.
-/

namespace EightBit

namespace InstructionSet

variable {μ : Type} {s : InstructionSet μ} {longest opening : Nat} {r : Record μ} {address value : Int}
  {bytes : List UInt8} {rows : List ListingRow}

/-! ## The value that is no byte -/

theorem start_of_not_isByte (s : InstructionSet μ) (r : Record μ) (haddress : InRange address)
    (hvalue : ¬ IsByte value) : (s.start r address value).result = .error (.byteRange value) := by
  rcases s.start_cases r address value with ⟨hrange, -⟩ | ⟨-, -, heq⟩ | ⟨-, hbyte, -⟩ | ⟨-, hbyte, -⟩
  · exact absurd haddress hrange
  · rw [heq]
  · exact absurd hbyte hvalue
  · exact absurd hbyte hvalue

theorem next_of_not_isByte (s : InstructionSet μ) (r : Record μ) (hvalue : ¬ IsByte value) :
    (s.next r value).result = .error (.byteRange value) := by
  rcases s.next_cases r value with ⟨-, heq⟩ | ⟨hbyte, -⟩ | ⟨hbyte, -⟩
  · rw [heq]
  · exact absurd hbyte hvalue
  · exact absurd hbyte hvalue

namespace Lawful

/-- Behind bytes that complete no instruction, the value is given to the one in progress, or it opens one
if there are no bytes. -/
theorem decode_of_not_isByte (law : s.Lawful longest opening) (hr : r.phase ≠ .fetching)
    (haddress : InRange address) (h : s.FetchingBelow r address bytes (bytes.length + 1))
    (hvalue : ¬ IsByte value) (back : List Int) :
    s.decode r address (imageOf bytes ++ value :: back) = .error (.byteRange value) := by
  cases bytes with
  | nil =>
      change s.decode r address (value :: back) = _
      rw [decode, s.start_of_not_isByte r haddress hvalue]
  | cons first rest =>
      have hpos : 0 < (first :: rest).length := Nat.succ_pos _
      have hne : imageOf (first :: rest) ≠ [] := List.cons_ne_nil _ _
      have hphase := h _ (Nat.lt_succ_self _) hpos
      rw [List.take_length] at hphase
      rw [s.decode_append r address hne, law.decode_of_fetching hr haddress hpos h, ok_bind, nextAll,
        if_pos hphase, s.next_of_not_isByte _ hvalue]

/-- A listing ends with the first value that is no byte. -/
theorem listFrom_of_not_isByte (law : s.Lawful longest opening) (h : s.Lists address bytes rows)
    (hr : r.phase ≠ .fetching) (hvalue : ¬ IsByte value) (back : List Int) :
    s.listFrom r 0 address (imageOf bytes ++ value :: back) = .error (.byteRange value) := by
  -- The instructions in front of the value are listed one by one; data may stand right before it.
  induction h generalizing r with
  | @tail address bytes hbelow =>
      have haddress := inRange_wrap16 address
      have hdecode := law.decode_of_not_isByte hr haddress
        (law.fetchingBelow_congr phase_initial hr haddress hbelow) hvalue back
      obtain ⟨first, rest, hcons⟩ : ∃ first rest, imageOf bytes ++ value :: back = first :: rest :=
        List.exists_cons_of_ne_nil (List.append_ne_nil_of_right_ne_nil _ (List.cons_ne_nil _ _))
      rw [hcons] at hdecode ⊢
      rw [listFrom, hdecode]
  | @instruction address bytes n rows hcompletes _ ih =>
      have hcomplete := (law.completesAfter_congr phase_initial hr (inRange_wrap16 address) hcompletes rfl).complete
      rw [law.listFrom_round hr hcompletes, ih]
      · rfl
      · rw [hcomplete]
        decide

end Lawful

end InstructionSet

/-! ## Images of integers -/

/-- An image consists of bytes, or one of its values is the first that is no byte. -/
theorem image_cases (image : List Int) :
    (∃ bytes, image = imageOf bytes) ∨
      ∃ bytes value back, ¬ IsByte value ∧ image = imageOf bytes ++ value :: back := by
  induction image with
  | nil => exact .inl ⟨[], rfl⟩
  | cons first rest ih =>
      by_cases hfirst : IsByte first
      · obtain ⟨byte, rfl⟩ : ∃ byte : UInt8, first = byte.toNat := ⟨_, (toNat_ofInt hfirst).symm⟩
        rcases ih with ⟨bytes, rfl⟩ | ⟨bytes, value, back, hvalue, rfl⟩
        · exact .inl ⟨byte :: bytes, rfl⟩
        · exact .inr ⟨byte :: bytes, value, back, hvalue, rfl⟩
      · exact .inr ⟨[], first, rest, hfirst, rfl⟩

theorem exists_imageOf {image : List Int} (h : ∀ value ∈ image, IsByte value) :
    ∃ bytes, image = imageOf bytes := by
  rcases image_cases image with hbytes | ⟨bytes, value, back, hvalue, rfl⟩
  · exact hbytes
  · exact absurd (h value (List.mem_append_right _ List.mem_cons_self)) hvalue

theorem disassemble_of_not_isByte (a : Architecture) (start : Int) (bytes : List UInt8) {value : Int}
    (hvalue : ¬ IsByte value) (back : List Int) :
    disassemble a start (imageOf bytes ++ value :: back) = .error (.byteRange value) := by
  obtain ⟨rows, hlists⟩ := a.lawful.exists_lists start bytes
  exact a.lawful.listFrom_of_not_isByte hlists InstructionSet.phase_initial hvalue back

/-- An image of bytes is listed, so a fault comes from a value that is no byte. -/
theorem exists_of_disassemble_eq_error {a : Architecture} {start : Int} {image : List Int} {fault : Fault}
    (h : disassemble a start image = .error fault) :
    ∃ bytes value back, ¬ IsByte value ∧ image = imageOf bytes ++ value :: back ∧ fault = .byteRange value := by
  rcases image_cases image with ⟨bytes, rfl⟩ | ⟨bytes, value, back, hvalue, rfl⟩
  · obtain ⟨rows, hrows⟩ := exists_disassemble a start bytes
    rw [hrows] at h
    cases h
  · rw [disassemble_of_not_isByte a start bytes hvalue back] at h
    cases h
    exact ⟨bytes, value, back, hvalue, rfl, rfl⟩

/-- Wherever an image begins, it is refused exactly if one of its values is no byte, and the fault names
the first of these. -/
theorem disassemble_eq_error_iff (a : Architecture) (start : Int) (image : List Int) :
    ((∃ fault, disassemble a start image = .error fault) ↔ ∃ value ∈ image, ¬ IsByte value) ∧
    ∀ fault, disassemble a start image = .error fault ↔
      ∃ front value back, image = front ++ value :: back ∧ (∀ byte ∈ front, IsByte byte) ∧
        ¬ IsByte value ∧ fault = .byteRange value ∧
        fault.message = "Byte value out of range: " ++ toString value := by
  refine ⟨⟨?_, ?_⟩, fun fault => ⟨?_, ?_⟩⟩
  · rintro ⟨fault, h⟩
    obtain ⟨bytes, value, back, hvalue, rfl, -⟩ := exists_of_disassemble_eq_error h
    exact ⟨value, List.mem_append_right _ List.mem_cons_self, hvalue⟩
  · rintro ⟨value, hmem, hvalue⟩
    rcases image_cases image with ⟨bytes, rfl⟩ | ⟨bytes, first, back, hfirst, rfl⟩
    · exact absurd (isByte_of_mem_imageOf hmem) hvalue
    · exact ⟨_, disassemble_of_not_isByte a start bytes hfirst back⟩
  · intro h
    obtain ⟨bytes, value, back, hvalue, rfl, rfl⟩ := exists_of_disassemble_eq_error h
    exact ⟨_, value, back, rfl, fun _ => isByte_of_mem_imageOf, hvalue, rfl, rfl⟩
  · rintro ⟨front, value, back, rfl, hfront, hvalue, rfl, -⟩
    obtain ⟨bytes, rfl⟩ := exists_imageOf hfront
    exact disassemble_of_not_isByte a start bytes hvalue back

end EightBit
