import EightBit.Buffer
import EightBit.Number.SignExtend
import EightBit.Text.CodePoint
set_option autoImplicit false

/-!
# Decoding records

A record is what is known about the instruction that a stream of bytes is in: how far its decoding
has come, where it began, which bytes have been fetched, how many it takes, and, when it is complete,
its text.  A required length of zero means that the length is not decided yet.  Records are used again
for one instruction after the other.
-/

namespace EightBit

/-- How far the decoding of an instruction has come. -/
inductive Phase where
  | idle
  | fetching
  | complete
  deriving DecidableEq, Repr

/-- The written name of a phase. -/
def Phase.name : Phase → String
  | .idle => "IDLE"
  | .fetching => "FETCHING"
  | .complete => "COMPLETE"

/-- All phases. -/
def Phase.all : List Phase :=
  [.idle, .fetching, .complete]

/-- The instruction in progress, with addressing modes in `μ`. -/
structure Record (μ : Type) where
  phase : Phase := .idle
  /-- The address of the first byte. -/
  address : Int := 0
  /-- The address that the instruction refers to, when it is known.  The value that stands in the place of an address
  which is not valid is not kept: nothing reads it, and records that differ in it alone are one record here. -/
  target : Option Int := none
  /-- The length of the instruction, or zero while it is not decided. -/
  required : Int := 0
  /-- The addressing mode, once it is decided. -/
  mode : Option μ := none
  buffer : Buffer := .blank
  text : Text := []
  deriving DecidableEq

namespace Record

variable {μ : Type}

/-- The number of bytes fetched. -/
def count (r : Record μ) : Nat :=
  r.buffer.count

/-- The record of a new instruction without bytes; the buffer keeps what its cells hold. -/
def clear (r : Record μ) (address : Int) : Record μ where
  phase := .fetching
  address := address
  buffer := r.buffer.rewind

/-- Fetches a byte.  The value is looked at before the room in the buffer. -/
def append (r : Record μ) (byte : Int) : Except Fault (Record μ) :=
  if byte < 0 ∨ 0xFF < byte then .error .storeRange
  else
    match r.buffer.push? (UInt8.ofInt byte) with
    | some buffer => .ok { r with buffer := buffer }
    | none => .error .position

/-- Notes the address that the instruction refers to. -/
def resolve (r : Record μ) (target : Int) : Record μ :=
  { r with target := some (wrap16 target) }

/-- Completes the instruction with its text. -/
def finish (r : Record μ) (text : Text) : Record μ :=
  { r with phase := .complete, text := text }

/-- The text of a complete instruction; nothing while it is in progress. -/
def completeText (r : Record μ) : Text :=
  if r.phase = .complete then r.text else []

end Record

end EightBit
