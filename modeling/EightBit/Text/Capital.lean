set_option autoImplicit false

/-!
# Capital letters

Names are compared in capitals.  Only the letters `A` to `Z` occur in them, so the map has to be right
for the characters whose capital is one of these: the small letters, the dotless `i` and the long `s`.
-/

namespace EightBit.Text

/-- The capital of a character whose capital is one of `A` to `Z`; any other character stays. -/
def capital (c : Char) : Char :=
  if c = 'ı' then 'I' else if c = 'ſ' then 'S' else c.toUpper

example : "mos65c02".toList.map capital = "MOS65C02".toList := by decide

end EightBit.Text
