import EightBit.Yaml.Structure
set_option autoImplicit false

/-!
# Reading YAML

A text of one YAML document is read as a `Document`.  The structure of the whole text is found before any
scalar in it is looked at, so a text that breaks the rules of YAML is refused for that first.
-/

namespace EightBit.Yaml

/-- The code point may stand in a YAML text.  A surrogate is only written there, by an escape. -/
def isAllowedPoint : CodePoint → Bool
  | .char c => isAllowed c
  | .surrogate _ => false

/-- The document of a YAML text, integers being read under a limit on decimal digits.  A text without
content is nothing. -/
def read (limit : Option Nat) (text : Text) : Except Fault Document :=
  if text.all isAllowedPoint then
    match readNode text.chars with
    | .ok (some node) => node.document limit
    | .ok none => .ok .null
    | .error e => .error e
  else .error .malformed

end EightBit.Yaml
