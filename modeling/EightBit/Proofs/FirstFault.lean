import EightBit.Proofs.Places
set_option autoImplicit false

/-!
# The first fault of a document

What loading reports is the fault of the first place that has one, in the order of `places`, so the values
behind that place make no difference.  `faultOf_ofDocument` says this of the readers, which go through the
document on their own; what each of them does at one place is known from its agreement with `Place.Fails`.

Hexadecimal words are the exception.  They are all read before their range is looked at, so a word that is
no byte is no fault of its own: it is reported only if no word behind it fails to be read.
-/

namespace EightBit

/-! ## Computations and their faults -/

/-- The fault that a computation ends with. -/
def faultOf {ε α : Type} : Except ε α → Option ε
  | .ok _ => none
  | .error e => some e

section

variable {ε α β : Type} {x : Except ε α}

theorem faultOf_eq_none_iff : faultOf x = none ↔ ∃ a, x = .ok a := by
  cases x <;> simp [faultOf]

theorem faultOf_eq_some_iff {e : ε} : faultOf x = some e ↔ x = .error e := by
  cases x <;> simp [faultOf]

/-- A computation that goes on behind another one ends with the fault of the first, if that has one. -/
theorem faultOf_bind {f : α → Except ε β} {rest : Option ε} (h : ∀ a, x = .ok a → faultOf (f a) = rest) :
    faultOf (x >>= f) = (faultOf x).or rest := by
  cases x with
  | error e => rfl
  | ok a => exact h a rfl

/-- A computation that only goes on to a value has no other fault. -/
theorem faultOf_bind_pure (f : α → β) : faultOf (x >>= fun a => pure (f a)) = faultOf x := by
  cases x <;> rfl

theorem findSome?_cons_eq_or (f : α → Option β) (a : α) (l : List α) :
    (a :: l).findSome? f = (f a).or (l.findSome? f) := by
  rw [List.findSome?_cons]
  cases f a <;> rfl

theorem findSome?_flatMap {γ : Type} (f : β → Option γ) (g : α → List β) (l : List α) :
    (l.flatMap g).findSome? f = l.findSome? fun a => (g a).findSome? f := by
  induction l with
  | nil => rfl
  | cons a l ih => rw [List.flatMap_cons, List.findSome?_append, ih, findSome?_cons_eq_or]

/-- Reading a list ends with the fault of the first member that has one. -/
theorem faultOf_mapM (f : α → Except ε β) (l : List α) :
    faultOf (l.mapM f) = l.findSome? fun a => faultOf (f a) := by
  induction l with
  | nil => rfl
  | cons a l ih =>
      rw [List.mapM_cons, findSome?_cons_eq_or, ← ih]
      exact faultOf_bind fun _ _ => faultOf_bind_pure _

end

namespace Fixture

variable {limit : Option Nat}

/-! ## The fault of a place -/

namespace Place

/-- The fault that a reader ends with at a place. -/
def fault? (limit : Option Nat) : Place → Option LoadFault
  | .name given => faultOf (readArchitecture limit given)
  | .address given => faultOf (readAddress limit given)
  | .byte given => faultOf (readByte limit given)
  | .word spelling => faultOf (readSpelling limit 16 spelling)
  | .misfit fault => some fault

/-- The integer is read, but is no byte. -/
def isOversize : Except LoadFault Int → Bool
  | .ok n => !decide (0 ≤ n ∧ n ≤ 0xFF)
  | .error _ => false

/-- The place is a word that is read as an integer which is no byte. -/
def isWide (limit : Option Nat) : Place → Bool
  | .word spelling => isOversize (readSpelling limit 16 spelling)
  | _ => false

/-- The place is a word. -/
def isWord : Place → Bool
  | .word _ => true
  | _ => false

variable {p : Place}

theorem isWord_of_isWide (h : p.isWide limit = true) : p.isWord = true := by
  cases p with
  | word spelling => rfl
  | _ => cases h

theorem fails_iff {fault : LoadFault} : p.Fails limit fault ↔ p.fault? limit = some fault := by
  cases p with
  | name given => rw [Fails, fault?, faultOf_eq_some_iff, readArchitecture_eq_error_iff]
  | address given => rw [Fails, fault?, faultOf_eq_some_iff, readAddress_eq_error_iff]
  | byte given => rw [Fails, fault?, faultOf_eq_some_iff, readByte_eq_error_iff]
  | word spelling => rw [Fails, fault?, faultOf_eq_some_iff, readSpelling_eq_error_iff]
  | misfit reason => simp [Fails, fault?, eq_comm]

theorem passes_iff : p.Passes limit ↔ p.fault? limit = none := by
  simp only [Passes, fails_iff, Option.eq_none_iff_forall_ne_some, ne_eq]

theorem wide_iff : p.Wide limit ↔ p.isWide limit = true := by
  cases p with
  | word spelling =>
      simp only [Wide, isWide, ← readSpelling_eq_ok_iff]
      cases readSpelling limit 16 spelling with
      | error e => simp [isOversize]
      | ok n =>
          simp only [Except.ok.injEq, exists_eq_left', isOversize, Bool.not_eq_true', decide_eq_false_iff_not]
          rfl
  | _ => simp [Wide, isWide]

/-- A place is sound if it has no fault and is not wide. -/
theorem sound_iff : p.Sound limit ↔ p.fault? limit = none ∧ p.isWide limit = false := by
  cases p with
  | name given => simp [Sound, fault?, isWide, faultOf_eq_none_iff, readArchitecture_eq_ok_iff]
  | address given =>
      simp [Sound, fault?, isWide, faultOf_eq_none_iff, readAddress_eq_ok_iff, readInt_eq_ok_iff]
  | byte given => simp [Sound, fault?, isWide, faultOf_eq_none_iff, readByte_eq_ok_iff, readInt_eq_ok_iff]
  | word spelling =>
      simp only [Sound, fault?, isWide, ← readSpelling_eq_ok_iff, IsByte]
      cases readSpelling limit 16 spelling <;> simp [isOversize, faultOf]
  | misfit reason => simp [Sound, fault?]

theorem Sound.passes (h : p.Sound limit) : p.Passes limit :=
  passes_iff.mpr (sound_iff.mp h).1

theorem Wide.passes (h : p.Wide limit) : p.Passes limit := by
  cases p with
  | word spelling =>
      obtain ⟨n, hn, -⟩ := h
      rintro fault ⟨e, he, -⟩
      cases hn.symm.trans he
  | _ => exact h.elim

end Place

/-! ## Words come last -/

theorem any_isWord_samplePlaces (d : Document) : (samplePlaces d).any Place.isWord = false := by
  cases d <;> rfl

theorem any_isWord_samplesPlaces (d : Document) : (samplesPlaces d).any Place.isWord = false := by
  cases d with
  | list samples => simp [samplesPlaces, List.any_flatMap, any_isWord_samplePlaces]
  | mapping entries => simp [samplesPlaces, List.any_flatMap, any_isWord_samplePlaces]
  | text s => simp [samplesPlaces, Place.isWord]
  | bool value => cases value <;> rfl
  | int value =>
      rw [samplesPlaces]
      split <;> rfl
  | float value =>
      rw [samplesPlaces]
      split <;> rfl
  | _ => rfl

/-- Behind a word only words follow. -/
def WordsLast (places : List Place) : Prop :=
  places.Pairwise fun p q => p.isWord = true → q.isWord = true

theorem WordsLast.cons {p : Place} {back : List Place} (hp : p.isWord = false) (hback : WordsLast back) :
    WordsLast (p :: back) := by
  refine List.Pairwise.cons ?_ hback
  intro q _ hword
  rw [hp] at hword
  cases hword

theorem WordsLast.append {front back : List Place} (hfront : front.any Place.isWord = false)
    (hback : WordsLast back) : WordsLast (front ++ back) := by
  induction front with
  | nil => exact hback
  | cons p front ih =>
      rw [List.any_cons, Bool.or_eq_false_iff] at hfront
      exact (ih hfront.2).cons hfront.1

theorem WordsLast.of_wordless {places : List Place} (h : places.any Place.isWord = false) :
    WordsLast places := by
  have happend := WordsLast.append h .nil
  rwa [List.append_nil] at happend

theorem wordsLast_bytesPlaces (d : Document) : WordsLast (bytesPlaces d) := by
  cases d with
  | text s => exact List.pairwise_map.mpr (List.pairwise_of_forall fun _ _ _ => rfl)
  | list given => exact .of_wordless (by simp [bytesPlaces, Place.isWord])
  | mapping entries => exact .of_wordless (by simp [bytesPlaces, Place.isWord])
  | _ => exact .of_wordless rfl

theorem wordsLast_programPlaces (d : Document) : WordsLast (programPlaces d) := by
  cases d with
  | null => exact .nil
  | mapping entries => exact (wordsLast_bytesPlaces _).cons rfl
  | _ => exact .of_wordless rfl

theorem wordsLast_places (d : Document) : WordsLast (places d) := by
  cases d with
  | mapping entries =>
      cases hname : Document.under "architecture" entries with
      | none =>
          simp only [places, hname]
          exact .of_wordless rfl
      | some name =>
          simp only [places, hname]
          exact .cons rfl (.append (any_isWord_samplesPlaces _) (wordsLast_programPlaces _))
  | _ => exact .of_wordless rfl

/-- What stands behind a word is a word. -/
theorem exists_word_of_mem {d : Document} {front back : List Place} {p q : Place}
    (h : places d = front ++ p :: back) (hp : p.isWord = true) (hq : q ∈ back) :
    ∃ spelling, q = .word spelling := by
  have hlast := wordsLast_places d
  rw [h] at hlast
  have hword : q.isWord = true := List.rel_of_pairwise_cons (List.pairwise_append.mp hlast).2.1 hq hp
  cases q with
  | word spelling => exact ⟨spelling, rfl⟩
  | _ => cases hword

/-! ## The search for the first fault -/

/-- What loading reports of places: the first fault, or else that a word is no byte, if one is not. -/
def firstFault? (limit : Option Nat) (places : List Place) : Option LoadFault :=
  (places.findSome? (Place.fault? limit)).or
    (if places.any (Place.isWide limit) then some .imageRange else none)

theorem any_isWide_of_wordless {places : List Place} (h : places.any Place.isWord = false) :
    places.any (Place.isWide limit) = false := by
  rw [List.any_eq_false] at h ⊢
  intro p hp hwide
  exact h p hp (Place.isWord_of_isWide hwide)

/-- Places without words are gone through before the ones behind them. -/
theorem firstFault?_append {front back : List Place} (h : front.any Place.isWord = false) :
    firstFault? limit (front ++ back) =
      (front.findSome? (Place.fault? limit)).or (firstFault? limit back) := by
  rw [firstFault?, firstFault?, List.findSome?_append, List.any_append, any_isWide_of_wordless h,
    Bool.false_or, Option.or_assoc]

theorem firstFault?_cons {p : Place} (h : p.isWord = false) (back : List Place) :
    firstFault? limit (p :: back) = (p.fault? limit).or (firstFault? limit back) := by
  have hfront : [p].any Place.isWord = false := by rw [List.any_cons, h, List.any_nil, Bool.or_false]
  rw [← List.singleton_append, firstFault?_append hfront, findSome?_cons_eq_or, List.findSome?_nil,
    Option.or_none]

theorem firstFault?_of_wordless {places : List Place} (h : places.any Place.isWord = false) :
    firstFault? limit places = places.findSome? (Place.fault? limit) := by
  rw [firstFault?, any_isWide_of_wordless h, if_neg Bool.false_ne_true, Option.or_none]

theorem faultOf_readSample (d : Document) :
    faultOf (readSample limit d) = (samplePlaces d).findSome? (Place.fault? limit) := by
  cases d with
  | mapping entries =>
      rw [readSample, samplePlaces, Document.get?_eq_under, Document.get?_eq_under, findSome?_cons_eq_or,
        findSome?_cons_eq_or, List.findSome?_nil, Option.or_none]
      exact faultOf_bind fun _ _ => faultOf_bind_pure _
  | _ => rfl

/-- Samples that are read one after the other are places that are looked at one after the other. -/
theorem faultOf_readSamples_of_items {d : Document} {members : List Document} (h : items d = .ok members)
    (hempty : d.countsAsTrue = !members.isEmpty) :
    faultOf (readSamples limit d) = (members.flatMap samplePlaces).findSome? (Place.fault? limit) := by
  unfold readSamples
  cases members with
  | nil =>
      rw [hempty]
      rfl
  | cons member rest =>
      rw [hempty, List.isEmpty_cons, Bool.not_false, if_pos rfl, h, ok_bind, faultOf_mapM, findSome?_flatMap]
      congr 1
      funext member
      exact faultOf_readSample member

theorem faultOf_readSamples (d : Document) :
    faultOf (readSamples limit d) = (samplesPlaces d).findSome? (Place.fault? limit) := by
  cases d with
  | list samples => exact faultOf_readSamples_of_items rfl rfl
  | text s =>
      rw [faultOf_readSamples_of_items rfl (by simp [Document.countsAsTrue]), samplesPlaces, List.flatMap_map,
        List.map_eq_flatMap]
      rfl
  | mapping entries =>
      rw [faultOf_readSamples_of_items rfl (by simp [Document.countsAsTrue]), samplesPlaces, List.flatMap_map]
  | null => rfl
  | bool value => cases value <;> rfl
  | int value =>
      by_cases hvalue : value = 0 <;> simp [readSamples, samplesPlaces, Document.countsAsTrue, hvalue] <;> rfl
  | float value =>
      cases hvalue : value.isZero <;> simp [readSamples, samplesPlaces, Document.countsAsTrue, hvalue] <;> rfl
  | timestamp value => rfl

/-- Words that are all read are in range, or one of them is wide. -/
theorem any_isWide_words {words : List Text} {values : List Int}
    (h : words.mapM (readSpelling limit 16) = .ok values) :
    (words.map Place.word).any (Place.isWide limit) = !values.all fun n => 0 ≤ n ∧ n ≤ 0xFF := by
  calc
    (words.map Place.word).any (Place.isWide limit)
      = (words.map (readSpelling limit 16)).any Place.isOversize := by
        rw [List.any_map, List.any_map]
        rfl
    _ = (values.map Except.ok).any Place.isOversize := by rw [map_eq_of_mapM h]
    _ = values.any fun n => !decide (0 ≤ n ∧ n ≤ 0xFF) := by
        rw [List.any_map]
        rfl
    _ = !values.all fun n => 0 ≤ n ∧ n ≤ 0xFF := by rw [List.not_all_eq_any_not]

theorem faultOf_readWords (s : Text) :
    faultOf (readWords limit s) = firstFault? limit (s.pieces.map .word) := by
  have hrange : ∀ values, s.pieces.mapM (readSpelling limit 16) = .ok values →
      faultOf (if values.all fun n => 0 ≤ n ∧ n ≤ 0xFF then pure (values.map UInt8.ofInt)
        else .error LoadFault.imageRange) =
      if (s.pieces.map Place.word).any (Place.isWide limit) then some .imageRange else none := by
    intro values h
    rw [any_isWide_words h]
    cases values.all fun n => 0 ≤ n ∧ n ≤ 0xFF <;> rfl
  have hspelled : (s.pieces.map Place.word).findSome? (Place.fault? limit) =
      faultOf (s.pieces.mapM (readSpelling limit 16)) := by
    rw [faultOf_mapM, List.findSome?_map]
    rfl
  rw [firstFault?, hspelled, readWords, Text.words_eq_pieces]
  exact faultOf_bind hrange

/-- Bytes that are read one after the other are places that are looked at one after the other. -/
theorem faultOf_readByte_mapM (limit : Option Nat) (given : List Document) :
    faultOf (given.mapM (readByte limit) >>= fun values => pure (values.map UInt8.ofInt)) =
      firstFault? limit (given.map .byte) := by
  have hwordless : (given.map Place.byte).any Place.isWord = false := by simp [Place.isWord]
  rw [faultOf_bind_pure, firstFault?_of_wordless hwordless, faultOf_mapM, List.findSome?_map]
  rfl

theorem faultOf_readBytes (d : Document) :
    faultOf (readBytes limit d) = firstFault? limit (bytesPlaces d) := by
  cases d with
  | text s => exact faultOf_readWords s
  | list given => exact faultOf_readByte_mapM limit given
  | mapping entries =>
      have hkeys := faultOf_readByte_mapM limit (entries.map Prod.fst)
      rwa [List.map_map] at hkeys
  | _ => rfl

theorem faultOf_readProgram (d : Document) :
    faultOf (readProgram limit d) = firstFault? limit (programPlaces d) := by
  cases d with
  | mapping entries =>
      rw [readProgram, programPlaces, Document.get?_eq_under, Document.get?_eq_under, firstFault?_cons rfl,
        ← faultOf_readBytes]
      exact faultOf_bind fun _ _ => faultOf_bind_pure _
  | _ => rfl

/-- Loading a document ends with the first fault of its places. -/
theorem faultOf_ofDocument (d : Document) : faultOf (ofDocument limit d) = firstFault? limit (places d) := by
  cases d with
  | mapping entries =>
      cases hname : Document.under "architecture" entries with
      | none =>
          simp only [ofDocument, places, Document.get?_eq_under, hname]
          rfl
      | some name =>
          simp only [ofDocument, places, Document.get?_eq_under, hname]
          rw [firstFault?_cons rfl, firstFault?_append (any_isWord_samplesPlaces _), ← faultOf_readSamples,
            ← faultOf_readProgram]
          exact faultOf_bind fun _ _ => faultOf_bind fun _ _ => faultOf_bind_pure _
  | _ => rfl

/-! ## What loading reports -/

theorem firstFault?_eq_none_iff {places : List Place} :
    firstFault? limit places = none ↔ ∀ p ∈ places, p.Sound limit := by
  have hwide : (if places.any (Place.isWide limit) then some LoadFault.imageRange else none) = none ↔
      ∀ p ∈ places, p.isWide limit = false := by
    simp
  rw [firstFault?, Option.or_eq_none_iff, List.findSome?_eq_none_iff, hwide]
  constructor
  · rintro ⟨hfault, hnarrow⟩ p hp
    exact Place.sound_iff.mpr ⟨hfault p hp, hnarrow p hp⟩
  · intro h
    exact ⟨fun p hp => (Place.sound_iff.mp (h p hp)).1, fun p hp => (Place.sound_iff.mp (h p hp)).2⟩

theorem firstFault?_of_first {front back : List Place} {p : Place} {fault : LoadFault}
    (hfront : ∀ q ∈ front, q.fault? limit = none) (hp : p.fault? limit = some fault) :
    firstFault? limit (front ++ p :: back) = some fault := by
  rw [firstFault?, List.findSome?_append, List.findSome?_eq_none_iff.mpr hfront, findSome?_cons_eq_or, hp]
  rfl

/-- Behind a wide word, the first word that is not read is reported, if there is one. -/
theorem firstFault?_of_wide {front : List Place} {p : Place} (hfront : ∀ q ∈ front, q.fault? limit = none)
    (hp : p.fault? limit = none) (hwide : p.isWide limit = true) (back : List Place) :
    firstFault? limit (front ++ p :: back) =
      (back.findSome? (Place.fault? limit)).or (some .imageRange) := by
  have hany : (front ++ p :: back).any (Place.isWide limit) = true :=
    List.any_eq_true.mpr ⟨p, List.mem_append_right front List.mem_cons_self, hwide⟩
  rw [firstFault?, hany, if_pos rfl, List.findSome?_append, List.findSome?_eq_none_iff.mpr hfront,
    findSome?_cons_eq_or, hp, Option.none_or, Option.none_or]

theorem ofDocument_eq_error_iff {d : Document} {fault : LoadFault} :
    ofDocument limit d = .error fault ↔ firstFault? limit (places d) = some fault := by
  rw [← faultOf_ofDocument, faultOf_eq_some_iff]

/-- What loading reports: the fault of the first place that has one, or the range of the words. -/
theorem firstFault?_eq_some_iff {places : List Place} {fault : LoadFault} :
    firstFault? limit places = some fault ↔
      (∃ front p back, places = front ++ p :: back ∧ p.Fails limit fault ∧ ∀ q ∈ front, q.Passes limit) ∨
      ((∀ p ∈ places, p.Passes limit) ∧ (∃ p ∈ places, p.Wide limit) ∧ fault = .imageRange) := by
  have hrange : (if places.any (Place.isWide limit) then some LoadFault.imageRange else none) = some fault ↔
      (∃ p ∈ places, p.isWide limit = true) ∧ fault = .imageRange := by
    rw [← List.any_eq_true, Option.ite_none_right_eq_some, Option.some.injEq, eq_comm (a := fault)]
  simp only [Place.fails_iff, Place.passes_iff, Place.wide_iff]
  rw [firstFault?, Option.or_eq_some_iff, List.findSome?_eq_some_iff, List.findSome?_eq_none_iff, hrange]

/-- What stands behind the first fault makes no difference. -/
theorem ofDocument_congr_of_first {d other : Document} {front back rest : List Place} {p : Place}
    (hd : places d = front ++ p :: back) (hother : places other = front ++ p :: rest)
    (hfront : ∀ q ∈ front, q.Passes limit) (hp : ¬ p.Passes limit) :
    ofDocument limit other = ofDocument limit d := by
  simp only [Place.passes_iff] at hfront hp
  obtain ⟨fault, hfault⟩ := Option.ne_none_iff_exists'.mp hp
  have hreport : ∀ e tail, places e = front ++ p :: tail → ofDocument limit e = .error fault := by
    intro e tail he
    rw [ofDocument_eq_error_iff, he, firstFault?_of_first hfront hfault]
  rw [hreport d back hd, hreport other rest hother]

/-- What stands behind a wide word makes a difference only if it is a word that cannot be read. -/
theorem ofDocument_behind_wide {d other : Document} {front back rest : List Place} {p : Place}
    (hd : places d = front ++ p :: back) (hother : places other = front ++ p :: rest)
    (hall : ∀ q ∈ places d, q.Passes limit) (hwide : p.Wide limit) :
    ofDocument limit other = ofDocument limit d ∨
    ∃ spelling fault, .word spelling ∈ rest ∧ (Place.word spelling).Fails limit fault ∧
      ofDocument limit other = .error fault := by
  rw [hd] at hall
  simp only [Place.passes_iff] at hall
  rw [Place.wide_iff] at hwide
  obtain ⟨hfront, hback⟩ := List.forall_mem_append.mp hall
  obtain ⟨hp, hback⟩ := List.forall_mem_cons.mp hback
  have hrange : ofDocument limit d = .error .imageRange := by
    rw [ofDocument_eq_error_iff, hd, firstFault?_of_wide hfront hp hwide back,
      List.findSome?_eq_none_iff.mpr hback, Option.none_or]
  have hreport := firstFault?_of_wide hfront hp hwide rest
  cases hrest : rest.findSome? (Place.fault? limit) with
  | none =>
      left
      rw [hrange, ofDocument_eq_error_iff, hother, hreport, hrest, Option.none_or]
  | some fault =>
      right
      obtain ⟨q, hq, hfault⟩ := List.exists_of_findSome?_eq_some hrest
      obtain ⟨spelling, rfl⟩ := exists_word_of_mem hother (Place.isWord_of_isWide hwide) hq
      refine ⟨spelling, fault, hq, Place.fails_iff.mpr hfault, ?_⟩
      rw [ofDocument_eq_error_iff, hother, hreport, hrest, Option.some_or]

/-- A document loads exactly if all of its values are in range.  Otherwise loading reports the fault of the
first value that has one, and the values behind that one make no difference.  Hexadecimal words have to be
read all before one of them is reported to be no byte, so behind such a word another may be reported that
cannot be read. -/
theorem ofDocument_first_fault (limit : Option Nat) (d : Document) :
    ((∃ c, ofDocument limit d = .ok c) ↔ ∀ p ∈ places d, p.Sound limit) ∧
    (∀ fault, ofDocument limit d = .error fault ↔
      (∃ front p back, places d = front ++ p :: back ∧ p.Fails limit fault ∧ ∀ q ∈ front, q.Passes limit) ∨
      ((∀ p ∈ places d, p.Passes limit) ∧ (∃ p ∈ places d, p.Wide limit) ∧
        fault = .imageRange ∧ fault.message = .ofString "bytes must be in range(0, 256)")) ∧
    (∀ front p back, places d = front ++ p :: back → (∀ q ∈ front, q.Passes limit) →
      ¬ p.Passes limit → ∀ other rest, places other = front ++ p :: rest →
        ofDocument limit other = ofDocument limit d) ∧
    ∀ front p back, places d = front ++ p :: back → (∀ q ∈ places d, q.Passes limit) →
      p.Wide limit → ∀ other rest, places other = front ++ p :: rest →
        ofDocument limit other = ofDocument limit d ∨
        ∃ spelling fault, .word spelling ∈ rest ∧ (Place.word spelling).Fails limit fault ∧
          ofDocument limit other = .error fault := by
  refine ⟨?_, ?_, ?_, ?_⟩
  · rw [← faultOf_eq_none_iff, faultOf_ofDocument, firstFault?_eq_none_iff]
  · intro fault
    rw [ofDocument_eq_error_iff, firstFault?_eq_some_iff]
    refine or_congr_right (and_congr_right fun _ => and_congr_right fun _ => ⟨?_, And.left⟩)
    rintro rfl
    exact ⟨rfl, rfl⟩
  · intro front p back hd hfront hp other rest hother
    exact ofDocument_congr_of_first hd hother hfront hp
  · intro front p back hd hall hwide other rest hother
    exact ofDocument_behind_wide hd hother hall hwide

/-- An entry under a text key. -/
def entry (key : String) (value : Document) : Document × Document :=
  (.text (.ofString key), value)

/-- A sample with an integer and a decimal text, a second sample, and hexadecimal words. -/
def mixed (second : List (Document × Document)) (words : String) : Document :=
  .mapping
    [entry "architecture" (.text (.ofString "Z80")),
     entry "samples" (.list
       [.mapping [entry "address" (.int 0x1234), entry "data" (.text (.ofString "18"))], .mapping second]),
     entry "program" (.mapping [entry "bytes" (.text (.ofString words))])]

/-- The places of the architecture and of the first sample. -/
def mixedFront : List Place :=
  [.name (.text (.ofString "Z80")), .address (.int 0x1234), .byte (.text (.ofString "18"))]

/-- The places of a second sample with an address spelled and a byte given, of the origin that stands for
one left out, and of a word. -/
def mixedMiddle : List Place :=
  [.address (.text (.ofString "7")), .byte (.int 9), .address (.int 0), .word (.ofString "FF")]

theorem passes_mixedFront : ∀ p ∈ mixedFront, p.Passes Numeral.digitLimit := by
  simp only [mixedFront, List.forall_mem_cons]
  exact ⟨Place.Sound.passes ⟨.z80, rfl⟩, Place.Sound.passes ⟨0x1234, rfl, by decide, by decide⟩,
    Place.Sound.passes ⟨18, rfl, by decide, by decide⟩, fun _ h => nomatch h⟩

theorem passes_mixedMiddle : ∀ p ∈ mixedMiddle, p.Passes Numeral.digitLimit := by
  simp only [mixedMiddle, List.forall_mem_cons]
  exact ⟨Place.Sound.passes ⟨7, rfl, by decide, by decide⟩, Place.Sound.passes ⟨9, rfl, by decide, by decide⟩,
    Place.Sound.passes ⟨0, rfl, by decide, by decide⟩, Place.Sound.passes ⟨0xFF, rfl, by decide, by decide⟩,
    fun _ h => nomatch h⟩

/-- A truth value is no address and a key that is missing gives no byte, whatever follows them; a word that
is no byte is reported unless another one cannot be read. -/
theorem ofDocument_first_fault_mixed :
    let limit := Numeral.digitLimit
    let flagged := mixed [entry "address" (.bool true)] "00"
    let bare := mixed [entry "address" (.text (.ofString "7"))] "00"
    let wide := mixed [entry "address" (.text (.ofString "7")), entry "data" (.int 9)] "FF 100 5"
    let unread := mixed [entry "address" (.text (.ofString "7")), entry "data" (.int 9)] "FF 100 GG"
    ofDocument limit flagged = .error (.integerFormat (.bool true)) ∧
    ofDocument limit (mixed [entry "address" (.bool true), entry "data" (.int 300)] "GG") =
      ofDocument limit flagged ∧
    ofDocument limit bare = .error (.integerFormat .null) ∧
    ofDocument limit (mixed [entry "address" (.text (.ofString "7"))] "GG") = ofDocument limit bare ∧
    ofDocument limit wide = .error .imageRange ∧
    ofDocument limit unread = .error (.numeral (.spelling 16 (.ofString "GG"))) ∧
    (ofDocument limit unread = ofDocument limit wide ∨
      ∃ spelling fault, .word spelling ∈ [Place.word (.ofString "GG")] ∧
        (Place.word spelling).Fails limit fault ∧ ofDocument limit unread = .error fault) := by
  intro limit flagged bare wide unread
  have hflag : (Place.address (.bool true)).Fails limit (.integerFormat (.bool true)) :=
    .format (fun _ h => nomatch h) (fun _ h => nomatch h) (.shown (fun _ _ => rfl) rfl)
  have hmissing : (Place.byte .null).Fails limit (.integerFormat .null) :=
    .format (fun _ h => nomatch h) (fun _ h => nomatch h) (.shown (fun _ _ => rfl) rfl)
  have hspelling : (Place.word (.ofString "GG")).Fails limit (.numeral (.spelling 16 (.ofString "GG"))) :=
    ⟨_, rfl, rfl⟩
  have hwide : (Place.word (.ofString "100")).Wide limit := ⟨0x100, rfl, fun h => absurd h.2 (by decide)⟩
  have hseven : ∀ p ∈ mixedFront ++ [.address (.text (.ofString "7"))], p.Passes limit :=
    List.forall_mem_append.mpr
      ⟨passes_mixedFront, List.forall_mem_singleton.mpr (passes_mixedMiddle _ List.mem_cons_self)⟩
  have hread : ∀ p ∈ mixedFront ++ mixedMiddle ++ [.word (.ofString "100")], p.Passes limit :=
    List.forall_mem_append.mpr ⟨List.forall_mem_append.mpr ⟨passes_mixedFront, passes_mixedMiddle⟩,
      List.forall_mem_singleton.mpr hwide.passes⟩
  have hall : ∀ p ∈ mixedFront ++ mixedMiddle ++ [.word (.ofString "100")] ++ [.word (.ofString "5")],
      p.Passes limit :=
    List.forall_mem_append.mpr
      ⟨hread, List.forall_mem_singleton.mpr (Place.Sound.passes ⟨5, rfl, by decide, by decide⟩)⟩
  have hplaces : places wide = mixedFront ++ mixedMiddle ++ .word (.ofString "100") :: [.word (.ofString "5")] :=
    rfl
  have hmem : Place.word (.ofString "100") ∈ places wide :=
    hplaces ▸ List.mem_append_right _ List.mem_cons_self
  obtain ⟨-, hflagged, hbehindFlag, -⟩ := ofDocument_first_fault limit flagged
  obtain ⟨-, hbare, hbehindBare, -⟩ := ofDocument_first_fault limit bare
  obtain ⟨-, hrange, -, hbehindWide⟩ := ofDocument_first_fault limit wide
  obtain ⟨-, hunread, -, -⟩ := ofDocument_first_fault limit unread
  exact ⟨(hflagged _).mpr (.inl ⟨mixedFront, _, _, rfl, hflag, passes_mixedFront⟩),
    hbehindFlag mixedFront _ _ rfl passes_mixedFront (fun h => h _ hflag) _ _ rfl,
    (hbare _).mpr (.inl ⟨_, _, _, rfl, hmissing, hseven⟩),
    hbehindBare (mixedFront ++ [.address (.text (.ofString "7"))]) _ _ rfl hseven (fun h => h _ hmissing) _ _ rfl,
    (hrange _).mpr (.inr ⟨hall, ⟨_, hmem, hwide⟩, rfl, rfl⟩),
    (hunread _).mpr (.inl ⟨_, _, [], rfl, hspelling, hread⟩),
    hbehindWide (mixedFront ++ mixedMiddle) _ _ hplaces hall hwide _ _ rfl⟩

end Fixture

end EightBit
