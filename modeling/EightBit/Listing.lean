import EightBit.Decoder
import EightBit.Processor
set_option autoImplicit false

/-!
# Linear listings

A byte image is listed from its first byte on: instruction after instruction, each at the address where
its bytes begin, addresses wrapping at sixteen bits.  Bytes at the end that do not complete an
instruction are listed one by one as data.
-/

namespace EightBit

/-- A line of a listing. -/
structure ListingRow where
  address : Int
  bytes : List UInt8
  text : Text
  deriving DecidableEq, Repr

/-- The bytes of a row in hexadecimal. -/
def ListingRow.hex (row : ListingRow) : String :=
  String.ofList (hexColumn row.bytes)

namespace InstructionSet

variable {μ : Type}

/-- Gives an instruction bytes until it is complete or there are no more. -/
def nextAll (s : InstructionSet μ) (r : Record μ) : List Int → Except Fault (Record μ)
  | [] => .ok r
  | byte :: rest =>
      if r.phase = .fetching then
        match (s.next r byte).result with
        | .ok _ => s.nextAll (s.next r byte).record rest
        | .error e => .error e
      else .ok r

/-- Decodes the instruction that begins with the first of the bytes, in the record of the one before. -/
def decode (s : InstructionSet μ) (r : Record μ) (address : Int) :
    List Int → Except Fault (Record μ)
  | [] => .ok r
  | byte :: rest =>
      match (s.start r address byte).result with
      | .ok _ => s.nextAll (s.start r address byte).record rest
      | .error e => .error e

end InstructionSet

/-- The row of a complete instruction. -/
def instructionRow {μ : Type} (r : Record μ) : ListingRow where
  address := r.address
  bytes := r.buffer.fetched
  text := r.completeText

/-- The rows of bytes that are listed as data, the first of them at `address`. -/
def dataRows : Int → List UInt8 → List ListingRow
  | _, [] => []
  | address, byte :: rest =>
      { address := wrap16 address
        bytes := [byte]
        text := .ofChars ("DB $".toList ++ hexPadded 2 byte.toNat) } ::
      dataRows (address + 1) rest

namespace InstructionSet

variable {μ : Type}

/-- The listing of an image at `address` whose first `skip` bytes belong to the instruction listed
last, which `r` is the record of. -/
def listFrom (s : InstructionSet μ) : (r : Record μ) → (skip : Nat) → (address : Int) → List Int →
    Except Fault (List ListingRow)
  | _, _, _, [] => .ok []
  | r, skip + 1, address, _ :: rest => s.listFrom r skip (address + 1) rest
  | r, 0, address, byte :: rest =>
      match s.decode r (wrap16 address) (byte :: rest) with
      | .error e => .error e
      | .ok r =>
          if r.phase = .complete then
            match s.listFrom r (r.count - 1) (address + 1) rest with
            | .ok rows => .ok (instructionRow r :: rows)
            | .error e => .error e
          else .ok (dataRows address r.buffer.fetched)

end InstructionSet

/-- The listing of an image that begins at an address. -/
def disassemble (a : Architecture) (start : Int) (image : List Int) :
    Except Fault (List ListingRow) :=
  a.instructionSet.listFrom {} 0 start image

end EightBit
