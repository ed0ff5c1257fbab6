import EightBit.Text.Blank
import EightBit.Text.Capital
set_option autoImplicit false

/-!
# Architectures

The processors whose instructions are decoded, the families that share a decoding, and the names by
which a processor is asked for.  A name is matched in capitals and without surrounding blanks.
-/

namespace EightBit

/-- Processors that are decoded in one way. -/
inductive Family where
  | mos6502
  | mc6800
  | mc6809
  | z80
  deriving DecidableEq, Repr

/-- The written name of a family. -/
def Family.name : Family → String
  | .mos6502 => "MOS6502"
  | .mc6800 => "MC6800"
  | .mc6809 => "MC6809"
  | .z80 => "Z80"

/-- A processor. -/
inductive Architecture where
  | mos6502
  | mos65c02
  | mc6800
  | mc6809
  | mc6809e
  | z80
  deriving DecidableEq, Repr

namespace Architecture

/-- All processors. -/
def all : List Architecture :=
  [.mos6502, .mos65c02, .mc6800, .mc6809, .mc6809e, .z80]

/-- The family of a processor. -/
def family : Architecture → Family
  | .mos6502 | .mos65c02 => .mos6502
  | .mc6800 => .mc6800
  | .mc6809 | .mc6809e => .mc6809
  | .z80 => .z80

/-- The written name of a processor. -/
def name : Architecture → String
  | .mos6502 => "MOS6502"
  | .mos65c02 => "MOS65C02"
  | .mc6800 => "MC6800"
  | .mc6809 => "MC6809"
  | .mc6809e => "MC6809E"
  | .z80 => "Z80"

/-- The second name under which a processor is known. -/
def alternateName : Architecture → String
  | .mos6502 => "6502"
  | .mos65c02 => "65C02"
  | .mc6800 => "6800"
  | .mc6809 => "6809"
  | .mc6809e => "6809E"
  | .z80 => "ZILOGZ80"

/-- The processor of a name or second name, in any case and with blanks around it. -/
def ofName? (text : String) : Option Architecture :=
  let key := String.ofList ((Text.trim text.toList).map Text.capital)
  all.find? fun a => key == a.name || key == a.alternateName

theorem ofName?_name (a : Architecture) : ofName? a.name = some a := by
  cases a <;> decide +kernel

theorem ofName?_alternateName (a : Architecture) : ofName? a.alternateName = some a := by
  cases a <;> decide +kernel

end Architecture

end EightBit
