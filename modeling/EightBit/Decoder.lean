import EightBit.InstructionSet
import EightBit.Number.Digits
import EightBit.Text.Quoted
set_option autoImplicit false

/-!
# The incremental decoder

Bytes come one at a time.  `start` opens an instruction at an address, `next` gives it a further byte;
after each byte the instruction set decides whether the instruction is complete.  On completion the
text gets the resolved address appended and is cut to 32 characters.  A call that comes at the wrong
moment changes nothing and leaves a notice; a call with a value out of range is a fault and changes
nothing either.
-/

namespace EightBit

/-- Something worth telling the owner of the stream. -/
inductive Notice where
  /-- An instruction was opened while another one was in progress. -/
  | startIgnored (address byte : Int)
  /-- A byte came while no instruction was in progress. -/
  | nextIgnored (byte : Int) (phase : Phase)
  /-- The buffer was full before the instruction was complete. -/
  | overflow (address : Int) (bytes : List UInt8)
  /-- A text was too long. -/
  | truncated (text : Text)
  deriving DecidableEq, Repr

/-- Bytes in hexadecimal with blanks between them. -/
def hexColumn (bytes : List UInt8) : List Char :=
  List.intercalate [' '] (bytes.map fun byte => hexPadded 2 byte.toNat)

namespace Notice

/-- The weight of a notice. -/
def level : Notice → String
  | .startIgnored .. | .nextIgnored .. => "DEBUG"
  | .overflow .. | .truncated .. => "WARNING"

/-- The wording of a notice. -/
def message : Notice → String
  | .startIgnored address byte =>
      let a := String.ofList (hexPadded 4 address)
      let b := String.ofList (hexPadded 2 byte)
      s!"begin({a}, {b}) ignored while fetching"
  | .nextIgnored byte phase =>
      let b := String.ofList (hexPadded 2 byte)
      s!"continue_({b}) ignored in state {phase.name}"
  | .overflow address bytes =>
      let a := String.ofList (hexPadded 4 address)
      s!"Decode overflow at {a}: {String.ofList (hexColumn bytes)}"
  | .truncated text =>
      s!"Decoded text truncated to 32 characters: {String.ofList (Text.quoted text)}"

end Notice

/-- What a call leaves behind: the record, the result, and the notices. -/
structure Response (μ α : Type) where
  record : Record μ
  result : Except Fault α
  notices : List Notice := []

/-- The text shown behind an instruction for the address it refers to. -/
def targetSuffix (address : Int) : List Char :=
  " <".toList ++ hex16 address ++ ['>']

/-- The longest text of an instruction. -/
def maxText : Nat := 32

/-- The text cut to `maxText` code points, with a notice if that changes it. -/
def bounded (text : Text) : Text × List Notice :=
  if maxText < text.length then (text.take maxText, [.truncated text])
  else (text, [])

namespace Record

variable {μ : Type}

/-- Opens an instruction: a cleared record with its first byte, if that byte can be stored. -/
def reset (r : Record μ) (address byte : Int) : Response μ Unit :=
  match (r.clear address).append byte with
  | .ok opened => { record := opened, result := .ok () }
  | .error e => { record := r.clear address, result := .error e }

/-- The text of a record with the address that it refers to. -/
def fullText (r : Record μ) : Text :=
  match r.target with
  | some target => r.text ++ .ofChars (targetSuffix target)
  | none => r.text

end Record

namespace InstructionSet

variable {μ : Type}

/-- The record with mode and length decided, or `none` while the bytes do not decide them. -/
def measure (s : InstructionSet μ) (r : Record μ) : Except Fault (Option (Record μ)) :=
  if r.required = 0 then do
    match ← s.layout r.buffer.code r.count with
    | none => return none
    | some (mode, length) => return some { r with mode := some mode, required := length }
  else .ok (some r)

/-- The record completed with its text. -/
def complete (s : InstructionSet μ) (r : Record μ) : Except Fault (Record μ) := do
  let shown ← s.render r
  let resolved := match shown.target with
    | some target => r.resolve target
    | none => r
  return resolved.finish (.ofChars shown.text)

/-- One step of decoding: decides mode and length if they are open, and completes the instruction if
its bytes are all there. -/
def advance (s : InstructionSet μ) (r : Record μ) : Except Fault (Record μ) :=
  if r.phase = .fetching ∧ r.count ≠ 0 then do
    match ← s.measure r with
    | none => return r
    | some measured =>
        if (measured.count : Int) = measured.required then s.complete measured else return measured
  else .ok r

/-- One step of decoding with the text finished when it completes the instruction.  The result says
whether an instruction was in progress. -/
def step (s : InstructionSet μ) (r : Record μ) : Response μ Bool :=
  match s.advance r with
  | .error e => { record := r, result := .error e }
  | .ok advanced =>
      if r.phase ≠ .fetching then { record := advanced, result := .ok false }
      else if advanced.phase = .complete then
        let cut := bounded advanced.fullText
        { record := { advanced with text := cut.1 }, result := .ok true, notices := cut.2 }
      else { record := advanced, result := .ok true }

/-- Opens an instruction at an address with its first byte. -/
def start (s : InstructionSet μ) (r : Record μ) (address byte : Int) : Response μ Bool :=
  if address < 0 ∨ 0xFFFF < address then { record := r, result := .error (.addressRange address) }
  else if byte < 0 ∨ 0xFF < byte then { record := r, result := .error (.byteRange byte) }
  else if r.phase = .fetching then
    { record := r, result := .ok false, notices := [.startIgnored address byte] }
  else
    match (r.clear address).append byte with
    | .ok opened => s.step opened
    | .error e => { record := r.clear address, result := .error e }

/-- Gives the instruction in progress its next byte.  If the buffer has no room for it, the instruction
is completed as overflown. -/
def next (s : InstructionSet μ) (r : Record μ) (byte : Int) : Response μ Bool :=
  if byte < 0 ∨ 0xFF < byte then { record := r, result := .error (.byteRange byte) }
  else if r.phase ≠ .fetching then
    { record := r, result := .ok false, notices := [.nextIgnored byte r.phase] }
  else if r.buffer.isFull then
    { record := r.finish (.ofString "<decode overflow>"), result := .ok false,
      notices := [.overflow r.address r.buffer.fetched] }
  else
    match r.append byte with
    | .ok appended => s.step appended
    | .error e => { record := r, result := .error e }

end InstructionSet

end EightBit
