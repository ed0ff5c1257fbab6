import EightBit.Proofs.Loading
import EightBit.Proofs.Spelling
set_option autoImplicit false

/-!
# The places of a document

Loading looks at the values of a document one after the other: the name of the architecture, the address
and the data of each sample, the origin of the program and its bytes.  `places` lists them in this order,
and `Place.Sound`, `Place.Fails` and `Place.Wide` say of each by itself whether it is in order, which fault
it has, and whether it is a word that spells more than a byte.

All of this is said on the constructors of documents and speaks of no reader.  What is taken for given is
the conversion of a text in a base (`Numeral.parse`), the names of architectures, and how a document is
shown.  The second half shows of each reader that it does what is said here.
-/

namespace EightBit

namespace Text

/-- The pieces of a text between its blanks, without the empty ones. -/
def pieces (s : Text) : List Text :=
  (s.splitOnP fun c => isBlank c.toChar).filter fun piece => !piece.isEmpty

/-- The base that a text is written in by its first two symbols. -/
def radix : Text → Nat
  | .char '0' :: .char 'x' :: _ => 16
  | .char '0' :: .char 'X' :: _ => 16
  | _ => 10

end Text

/-- The value of the first entry under a text key. -/
def Document.under (key : String) : List (Document × Document) → Option Document
  | [] => none
  | (.text k, value) :: rest => if k = .ofString key then some value else under key rest
  | _ :: rest => under key rest

namespace Fixture

/-! ## One value -/

/-- The document is an integer, or a text that spells it. -/
def Stands (limit : Option Nat) : Document → Int → Prop
  | .int m, n => m = n
  | .text s, n => Numeral.parse limit s.radix s = .ok n
  | _, _ => False

/-- What is reported of a document: the fault in its wording, or that the document is too long for it. -/
inductive Reported (limit : Option Nat) (fault : Document → LoadFault) (wording : String) (d : Document) :
    LoadFault → Prop where
  | shown (hlimit : ∀ l, limit = some l → d.isWritable l = true)
      (hmessage : (fault d).message = .ofString wording ++ d.shown) :
      Reported limit fault wording d (fault d)
  | unwritable {l : Nat} (hlimit : limit = some l) (hd : d.isWritable l = false) :
      Reported limit fault wording d (.numeral (.unwritable l))

/-- The document is refused as an integer from zero up to the bound, with a fault: it is neither an integer
nor a text, or its text spells no integer, or the integer is out of bounds. -/
inductive Refuses (limit : Option Nat) (bound : Int) (outside : Document → LoadFault) (wording : String) :
    Document → LoadFault → Prop where
  | format {d : Document} {fault : LoadFault} (hint : ∀ n, d ≠ .int n) (htext : ∀ s, d ≠ .text s)
      (hfault : Reported limit .integerFormat "Invalid integer format: " d fault) :
      Refuses limit bound outside wording d fault
  | spelling {s : Text} {e : Numeral.Fault} (hs : Numeral.parse limit s.radix s = .error e) :
      Refuses limit bound outside wording (.text s) (.numeral e)
  | range {d : Document} {n : Int} {fault : LoadFault} (hd : Stands limit d n) (hn : ¬ (0 ≤ n ∧ n ≤ bound))
      (hfault : Reported limit outside wording d fault) :
      Refuses limit bound outside wording d fault

/-- The architecture that a document names by its text. -/
def named (d : Document) : Option Architecture :=
  Architecture.ofName? (String.ofList d.shown.chars)

/-! ## Places -/

/-- A value that loading looks at. -/
inductive Place where
  /-- The name of the architecture. -/
  | name (given : Document)
  /-- The address of a sample, or the origin of the program. -/
  | address (given : Document)
  /-- The data of a sample, or an item of the program's bytes. -/
  | byte (given : Document)
  /-- A hexadecimal word of the program's bytes. -/
  | word (spelling : Text)
  /-- A part that has another form than loading asks for. -/
  | misfit (fault : LoadFault)

namespace Place

/-- The value is given or spelled properly, and it is in range. -/
def Sound (limit : Option Nat) : Place → Prop
  | .name given => ∃ a, named given = some a
  | .address given => ∃ n, Stands limit given n ∧ InRange n
  | .byte given => ∃ n, Stands limit given n ∧ IsByte n
  | .word spelling => ∃ n, Numeral.parse limit 16 spelling = .ok n ∧ IsByte n
  | .misfit _ => False

/-- The place has a fault by itself.  The range of a word is no matter of the word alone. -/
def Fails (limit : Option Nat) : Place → LoadFault → Prop
  | .name given, fault =>
      named given = none ∧ Reported limit .architecture "Unsupported architecture: " given fault
  | .address given, fault => Refuses limit 0xFFFF .addressRange "Address out of range: " given fault
  | .byte given, fault => Refuses limit 0xFF .byteRange "Byte value out of range: " given fault
  | .word spelling, fault => ∃ e, Numeral.parse limit 16 spelling = .error e ∧ fault = .numeral e
  | .misfit reason, fault => fault = reason

/-- The place has no fault by itself. -/
def Passes (limit : Option Nat) (p : Place) : Prop :=
  ∀ fault, ¬ p.Fails limit fault

/-- The place is a word that spells an integer which is no byte. -/
def Wide (limit : Option Nat) : Place → Prop
  | .word spelling => ∃ n, Numeral.parse limit 16 spelling = .ok n ∧ ¬ IsByte n
  | _ => False

end Place

/-- The places of a sample. -/
def samplePlaces : Document → List Place
  | .mapping entries =>
      [.address ((Document.under "address" entries).getD .null),
       .byte ((Document.under "data" entries).getD .null)]
  | _ => [.misfit .notKeyed]

/-- The places of the samples: those of the members of a list, and none where nothing is given.  A mapping
has its keys for members, and a text its symbols, which are no samples. -/
def samplesPlaces : Document → List Place
  | .null => []
  | .bool value => if value then [.misfit .notIterable] else []
  | .int value => if value = 0 then [] else [.misfit .notIterable]
  | .float value => if value.isZero then [] else [.misfit .notIterable]
  | .timestamp _ => [.misfit .notIterable]
  | .text s => s.map fun _ => .misfit .notKeyed
  | .list samples => samples.flatMap samplePlaces
  | .mapping entries => entries.flatMap fun entry => samplePlaces entry.1

/-- The places of the program's bytes. -/
def bytesPlaces : Document → List Place
  | .text s => s.pieces.map .word
  | .list given => given.map .byte
  | .mapping entries => entries.map fun entry => .byte entry.1
  | _ => [.misfit .notIterable]

/-- The places of the program. -/
def programPlaces : Document → List Place
  | .null => []
  | .mapping entries =>
      .address ((Document.under "origin" entries).getD (.int 0)) ::
        bytesPlaces ((Document.under "bytes" entries).getD (.list []))
  | _ => [.misfit .notKeyed]

/-- The places of a document, in the order in which loading looks at them. -/
def places : Document → List Place
  | .mapping entries =>
      match Document.under "architecture" entries with
      | none => [.misfit .noArchitecture]
      | some name =>
          .name name :: (samplesPlaces ((Document.under "samples" entries).getD .null) ++
            programPlaces ((Document.under "program" entries).getD .null))
  | _ => [.misfit .notMapping]

end Fixture

/-! ## The readers agree -/

/-- The words of a text are its pieces between blanks. -/
theorem Text.words_eq_pieces (s : Text) : words s = s.pieces := by
  unfold pieces
  induction s with
  | nil => rfl
  | cons c s ih =>
      rw [List.splitOnP_cons_eq_if_modifyHead]
      cases hc : isBlank c.toChar with
      | true =>
          rw [words_of_blank hc, ih, if_pos rfl]
          rfl
      | false =>
          rw [words_of_solid hc, if_neg Bool.false_ne_true]
          cases s with
          | nil => rfl
          | cons d s =>
              rw [ih, List.head?_cons, Option.any_some, List.splitOnP_cons_eq_if_modifyHead]
              cases hd : isBlank d.toChar with
              | true =>
                  rw [if_pos rfl]
                  exact consWord_false c _
              | false =>
                  -- The two symbols stand in one piece, which is the first of the rest and is not empty.
                  obtain ⟨piece, rest, hrest⟩ := List.exists_cons_of_ne_nil
                    (List.splitOnP_ne_nil (fun c => isBlank c.toChar) s)
                  rw [if_neg Bool.false_ne_true, hrest]
                  rfl

/-- A text whose characters begin with one that stands for no surrogate begins with it. -/
theorem Text.exists_of_chars_eq_cons {x : Char} (hx : x ≠ '\ufffd') {s : Text} {rest : List Char}
    (h : s.chars = x :: rest) : ∃ t : Text, s = .char x :: t ∧ t.chars = rest := by
  obtain ⟨c, t, rfl, hc, ht⟩ := List.map_eq_cons_iff.mp h
  cases c with
  | char y => exact ⟨t, by rw [← hc]; rfl, ht⟩
  | surrogate index => exact absurd hc.symm hx

theorem Numeral.baseOf_chars (s : Text) : baseOf s.chars = s.radix := by
  have hmark : ∀ {x : Char} {rest : List Char}, x ≠ '\ufffd' → s.chars = '0' :: x :: rest →
      ∃ t, s = .char '0' :: .char x :: t := by
    intro x rest hx h
    obtain ⟨tail, rfl, htail⟩ := Text.exists_of_chars_eq_cons (by decide) h
    obtain ⟨t, rfl, -⟩ := Text.exists_of_chars_eq_cons hx htail
    exact ⟨t, rfl⟩
  unfold Text.radix
  split
  · rfl
  · rfl
  · rename_i hlower hupper
    unfold baseOf isMarked
    split
    · rename_i rest h
      obtain ⟨t, ht⟩ := hmark (by decide) h
      exact (hlower t ht).elim
    · rename_i rest h
      obtain ⟨t, ht⟩ := hmark (by decide) h
      exact (hupper t ht).elim
    · rfl

theorem Document.get?_eq_under (entries : List (Document × Document)) (key : String) :
    get? entries key = under key entries := by
  induction entries with
  | nil => rfl
  | cons entry entries ih =>
      obtain ⟨k, value⟩ := entry
      rw [get?, List.findSome?_cons, ← get?, ih]
      cases k with
      | text k =>
          by_cases hk : k = .ofString key <;> simp [under, hk]
      | _ => rfl

namespace Fixture

variable {limit : Option Nat} {d : Document} {n : Int} {fault : LoadFault}

theorem reported_iff {wrap : Document → LoadFault} {wording : String}
    (hwording : ∀ d, (wrap d).message = .ofString wording ++ d.shown) :
    Reported limit wrap wording d fault ↔ refused limit wrap d = fault := by
  constructor
  · rintro (⟨hlimit, -⟩ | ⟨rfl, hd⟩)
    · cases limit with
      | none => rfl
      | some l => exact if_pos (hlimit l rfl)
    · exact if_neg (by rw [hd]; exact Bool.false_ne_true)
  · rintro rfl
    cases limit with
    | none => exact .shown (fun _ h => nomatch h) (hwording d)
    | some l =>
        cases hd : d.isWritable l with
        | true =>
            rw [refused, if_pos hd]
            exact .shown (fun _ h => Option.some.inj h ▸ hd) (hwording d)
        | false =>
            rw [refused, if_neg (by rw [hd]; exact Bool.false_ne_true)]
            exact .unwritable rfl hd

theorem readArchitecture_eq_ok_iff {a : Architecture} :
    readArchitecture limit d = .ok a ↔ named d = some a := by
  unfold readArchitecture named
  split <;> simp_all

theorem readArchitecture_eq_error_iff : readArchitecture limit d = .error fault ↔
    named d = none ∧ Reported limit .architecture "Unsupported architecture: " d fault := by
  rw [reported_iff fun _ => rfl]
  unfold readArchitecture named
  split <;> simp_all

theorem readSpelling_eq_ok_iff {base : Nat} {s : Text} :
    readSpelling limit base s = .ok n ↔ Numeral.parse limit base s = .ok n := by
  unfold readSpelling
  cases Numeral.parse limit base s <;> simp

theorem readSpelling_eq_error_iff {base : Nat} {s : Text} :
    readSpelling limit base s = .error fault ↔
      ∃ e, Numeral.parse limit base s = .error e ∧ fault = .numeral e := by
  unfold readSpelling
  cases Numeral.parse limit base s <;> simp [eq_comm]

theorem readInt_eq_ok_iff : readInt limit d = .ok n ↔ Stands limit d n := by
  cases d with
  | int m => simp [readInt, Stands]
  | text s => rw [readInt, Stands, readSpelling_eq_ok_iff, Numeral.baseOf_chars]
  | _ => simp [readInt, Stands]

/-- An integer is refused for its form or its spelling. -/
theorem readInt_eq_error_iff : readInt limit d = .error fault ↔
    ((∀ n, d ≠ .int n) ∧ (∀ s, d ≠ .text s) ∧
      Reported limit .integerFormat "Invalid integer format: " d fault) ∨
    ∃ s e, d = .text s ∧ Numeral.parse limit s.radix s = .error e ∧ fault = .numeral e := by
  have hreported : ∀ d, Reported limit .integerFormat "Invalid integer format: " d fault ↔
      refused limit .integerFormat d = fault := fun _ => reported_iff fun _ => rfl
  cases d with
  | int m => simp [readInt]
  | text s => simp [readInt, readSpelling_eq_error_iff, Numeral.baseOf_chars]
  | _ => simp [readInt, hreported]

/-- A check of the range behind the reading of an integer refuses what is refused as an integer in range. -/
theorem refuses_iff {bound : Int} {outside : Document → LoadFault} {wording : String}
    (hwording : ∀ d, (outside d).message = .ofString wording ++ d.shown) :
    (readInt limit d >>= fun n => if 0 ≤ n ∧ n ≤ bound then .ok n else .error (refused limit outside d)) =
        .error fault ↔
      Refuses limit bound outside wording d fault := by
  constructor
  · intro h
    cases hd : readInt limit d with
    | error e =>
        rw [hd] at h
        cases h
        rcases readInt_eq_error_iff.mp hd with ⟨hint, htext, hfault⟩ | ⟨s, e, rfl, hs, rfl⟩
        · exact .format hint htext hfault
        · exact .spelling hs
    | ok n =>
        rw [hd, ok_bind] at h
        split at h
        · cases h
        · rename_i hn
          exact .range (readInt_eq_ok_iff.mp hd) hn ((reported_iff hwording).mpr (Except.error.inj h))
  · intro h
    cases h with
    | format hint htext hfault => rw [readInt_eq_error_iff.mpr (.inl ⟨hint, htext, hfault⟩)]; rfl
    | spelling hs => rw [readInt_eq_error_iff.mpr (.inr ⟨_, _, rfl, hs, rfl⟩)]; rfl
    | range hd hn hfault =>
        rw [readInt_eq_ok_iff.mpr hd, ok_bind, if_neg hn, (reported_iff hwording).mp hfault]

theorem readAddress_eq_error_iff : readAddress limit d = .error fault ↔
    Refuses limit 0xFFFF .addressRange "Address out of range: " d fault := by
  rw [readAddress_eq_bind, refuses_iff fun _ => rfl]

theorem readByte_eq_error_iff : readByte limit d = .error fault ↔
    Refuses limit 0xFF .byteRange "Byte value out of range: " d fault := by
  rw [readByte_eq_bind, refuses_iff fun _ => rfl]

end Fixture

end EightBit
