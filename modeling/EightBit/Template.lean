import EightBit.Fault
set_option autoImplicit false

/-!
# Instruction templates

A template is the text of an instruction with placeholders where operands go.  `Template.parse` cuts it
from the left into literals and placeholders; at each position the first placeholder of the list whose
text stands there is taken, so a longer one has to come before its own beginning.  `Template.fill` puts
values in the places of the placeholders and never looks at them again.  The symbols of the text may be
of any type.
-/

namespace EightBit

/-- How an operand is read and shown. -/
inductive OperandKind where
  /-- A byte, in hexadecimal. -/
  | u8
  /-- A word, in hexadecimal. -/
  | u16
  /-- A signed branch distance, in decimal. -/
  | rel8
  /-- A signed index displacement. -/
  | disp8
  /-- A signed distance from the instruction's own address. -/
  | pcrel8
  deriving DecidableEq, Repr

/-- The written name of an operand kind. -/
def OperandKind.name : OperandKind → String
  | .u8 => "u8"
  | .u16 => "u16"
  | .rel8 => "rel8"
  | .disp8 => "disp8"
  | .pcrel8 => "pcrel8"

/-- All operand kinds. -/
def OperandKind.all : List OperandKind :=
  [.u8, .u16, .rel8, .disp8, .pcrel8]

/-- A text that stands for an operand of `size` bytes. -/
structure Placeholder (α : Type) where
  text : List α
  kind : OperandKind
  size : Nat
  deriving DecidableEq, Repr

/-- The placeholder's text stands at the beginning of `s`.  An empty text stands nowhere. -/
def Placeholder.standsAt {α : Type} [DecidableEq α] (p : Placeholder α) (s : List α) : Bool :=
  !p.text.isEmpty && p.text.isPrefixOf s

/-- A piece of a template. -/
inductive Segment (α : Type) where
  | literal (text : List α)
  | operand (placeholder : Placeholder α)
  deriving DecidableEq, Repr

/-- The text that a segment covers in its template. -/
def Segment.source {α : Type} : Segment α → List α
  | .literal text => text
  | .operand p => p.text

namespace Template

variable {α : Type}

/-- Puts a symbol in front of the segments, into the first literal if they begin with one. -/
def consSymbol (c : α) : List (Segment α) → List (Segment α)
  | .literal text :: rest => .literal (c :: text) :: rest
  | segments => .literal [c] :: segments

/-- Cuts a text into segments, its first `skip` symbols being covered already. -/
def parseFrom [DecidableEq α] (placeholders : List (Placeholder α)) : Nat → List α → List (Segment α)
  | _, [] => []
  | skip + 1, _ :: rest => parseFrom placeholders skip rest
  | 0, c :: rest =>
      match placeholders.find? (·.standsAt (c :: rest)) with
      | some p => .operand p :: parseFrom placeholders (p.text.length - 1) rest
      | none => consSymbol c (parseFrom placeholders 0 rest)

/-- Cuts a template into literals and placeholders. -/
def parse [DecidableEq α] (placeholders : List (Placeholder α)) (template : List α) :
    List (Segment α) :=
  parseFrom placeholders 0 template

/-- The placeholders of a segment list, in order. -/
def operands : List (Segment α) → List (Placeholder α)
  | [] => []
  | .literal _ :: rest => operands rest
  | .operand p :: rest => p :: operands rest

/-- The number of bytes that operands take. -/
def operandBytes : List (Placeholder α) → Nat
  | [] => 0
  | p :: rest => p.size + operandBytes rest

/-- The text with the `k`-th placeholder replaced by the `k`-th value; values must not run out. -/
def fill : List (Segment α) → List (List α) → Except Fault (List α)
  | [], _ => .ok []
  | .literal text :: rest, values =>
      match fill rest values with
      | .ok tail => .ok (text ++ tail)
      | .error e => .error e
  | .operand _ :: _, [] => .error .position
  | .operand _ :: rest, value :: values =>
      match fill rest values with
      | .ok tail => .ok (value ++ tail)
      | .error e => .error e

/-- The placeholders with the positions of their bytes, which follow one another from `i` on. -/
def placed : Int → List (Placeholder α) → List (Int × Placeholder α)
  | _, [] => []
  | i, p :: rest => (i, p) :: placed (i + p.size) rest

end Template

end EightBit
