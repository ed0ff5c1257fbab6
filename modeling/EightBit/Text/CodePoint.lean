set_option autoImplicit false

/-!
# Code points

A text is a list of code points.  A code point is a character or one of the 2048 surrogates, which are
no characters but can be written by escapes.  Where a text is read as a number or a name, a surrogate
counts as the replacement character, which no number and no name has.

A function that only copies symbols works over any alphabet that has the characters.
-/

namespace EightBit

/-- A symbol of a text. -/
inductive CodePoint where
  | char (c : Char)
  | surrogate (index : Fin 0x800)
  deriving DecidableEq, Repr

namespace CodePoint

/-- The number of a code point. -/
def toNat : CodePoint → Nat
  | .char c => c.toNat
  | .surrogate index => 0xD800 + index

/-- The code point of a number below `0x110000`. -/
def ofNat (n : Nat) : CodePoint :=
  if 0xD800 ≤ n ∧ n < 0xE000 then .surrogate (Fin.ofNat 0x800 (n - 0xD800)) else .char (Char.ofNat n)

/-- The character of a code point; the replacement character for a surrogate. -/
def toChar : CodePoint → Char
  | .char c => c
  | .surrogate _ => '\ufffd'

example : ofNat 0xD800 = .surrogate 0 := by decide
example : ofNat 0xDFFF = .surrogate 0x7FF := by decide
example : ofNat 0x1F600 = .char (Char.ofNat 0x1F600) := by decide

end CodePoint

/-- A list of code points. -/
abbrev Text : Type := List CodePoint

namespace Text

/-- The text of characters. -/
def ofChars (s : List Char) : Text :=
  s.map .char

/-- The text of a string. -/
def ofString (s : String) : Text :=
  ofChars s.toList

/-- The characters of a text, with the replacement character in the place of a surrogate. -/
def chars (s : Text) : List Char :=
  s.map CodePoint.toChar

@[simp] theorem ofChars_nil : ofChars [] = [] := rfl

@[simp] theorem ofChars_cons (c : Char) (s : List Char) :
    ofChars (c :: s) = .char c :: ofChars s := rfl

@[simp] theorem ofChars_append (s t : List Char) : ofChars (s ++ t) = ofChars s ++ ofChars t := by
  simp [ofChars]

@[simp] theorem length_ofChars (s : List Char) : (ofChars s).length = s.length := by
  simp [ofChars]

@[simp] theorem chars_ofChars (s : List Char) : (ofChars s).chars = s := by
  induction s with
  | nil => rfl
  | cons c s ih => simpa [ofChars, chars, CodePoint.toChar] using ih

@[simp] theorem ofChars_inj {s t : List Char} : ofChars s = ofChars t ↔ s = t :=
  ⟨fun h => by rw [← chars_ofChars s, h, chars_ofChars], fun h => h ▸ rfl⟩

end Text

/-- A type of symbols that has all characters. -/
class Alphabet (α : Type) where
  ofChar : Char → α

instance : Alphabet Char where
  ofChar := id

instance : Alphabet CodePoint where
  ofChar := .char

end EightBit
