import EightBit.Trace
import EightBit.Yaml.Reader
set_option autoImplicit false

/-!
# Fixtures

A fixture is a mapping that names an architecture and gives bus samples, a program image, or both.
Numbers may be written as integers or as texts, in hexadecimal behind `0x`; the bytes of a program may
also be one text of hexadecimal words.  Loading stops at the first fault, in the order architecture,
samples one by one with the address before the data, origin of the program, bytes of the program.  A
limit on decimal digits, if there is one, holds for texts that are read and for integers in messages.
-/

namespace EightBit

/-- A program in memory. -/
structure Image where
  origin : Int
  bytes : List UInt8
  deriving DecidableEq, Repr

/-- What a fixture text describes. -/
structure Fixture where
  architecture : Architecture
  samples : List BusSample := []
  program : Option Image := none
  deriving DecidableEq, Repr

/-- Why a document is not a fixture. -/
inductive LoadFault where
  /-- The document is not a mapping. -/
  | notMapping
  /-- The document names no architecture. -/
  | noArchitecture
  /-- The name is not one of an architecture. -/
  | architecture (given : Document)
  /-- The value is neither an integer nor a text. -/
  | integerFormat (given : Document)
  /-- A text and an integer are not converted into one another. -/
  | numeral (fault : Numeral.Fault)
  /-- An address outside `0 .. 0xFFFF`. -/
  | addressRange (given : Document)
  /-- A byte outside `0 .. 0xFF`. -/
  | byteRange (given : Document)
  /-- A hexadecimal word outside `0 .. 0xFF`. -/
  | imageRange
  /-- A sample or a program that is not a mapping. -/
  | notKeyed
  /-- A value that has no items. -/
  | notIterable
  /-- A text that gives no document. -/
  | yaml (fault : Yaml.Fault)

/-- The wording of a fault. -/
def LoadFault.message : LoadFault → Text
  | .notMapping => .ofString "Trace fixture must be a mapping"
  | .noArchitecture => .ofString "Trace fixture requires 'architecture'"
  | .architecture given => .ofString "Unsupported architecture: " ++ given.shown
  | .integerFormat given => .ofString "Invalid integer format: " ++ given.shown
  | .numeral fault => .ofString fault.message
  | .addressRange given => .ofString "Address out of range: " ++ given.shown
  | .byteRange given => .ofString "Byte value out of range: " ++ given.shown
  | .imageRange => .ofString "bytes must be in range(0, 256)"
  | .notKeyed => .ofString "not a mapping"
  | .notIterable => .ofString "not a sequence"
  | .yaml fault => .ofString fault.message

namespace Fixture

/-- The fault of a document, or that an integer in it is too long for the message. -/
def refused (limit : Option Nat) (fault : Document → LoadFault) (d : Document) : LoadFault :=
  match limit with
  | none => fault d
  | some l => if d.isWritable l then fault d else .numeral (.unwritable l)

/-- The architecture that a document names by its text. -/
def readArchitecture (limit : Option Nat) (d : Document) : Except LoadFault Architecture :=
  match Architecture.ofName? (String.ofList d.shown.chars) with
  | some a => .ok a
  | none => .error (refused limit .architecture d)

/-- The integer that a text spells in a base. -/
def readSpelling (limit : Option Nat) (base : Nat) (text : Text) : Except LoadFault Int :=
  match Numeral.parse limit base text with
  | .ok n => .ok n
  | .error e => .error (.numeral e)

/-- The integer that a document gives or spells. -/
def readInt (limit : Option Nat) : Document → Except LoadFault Int
  | .int n => .ok n
  | .text s => readSpelling limit (Numeral.baseOf s.chars) s
  | d => .error (refused limit .integerFormat d)

/-- The address that a document gives or spells. -/
def readAddress (limit : Option Nat) (d : Document) : Except LoadFault Int :=
  match readInt limit d with
  | .error e => .error e
  | .ok n => if 0 ≤ n ∧ n ≤ 0xFFFF then .ok n else .error (refused limit .addressRange d)

/-- The byte that a document gives or spells. -/
def readByte (limit : Option Nat) (d : Document) : Except LoadFault Int :=
  match readInt limit d with
  | .error e => .error e
  | .ok n => if 0 ≤ n ∧ n ≤ 0xFF then .ok n else .error (refused limit .byteRange d)

/-- The items of a document: those of a list, the code points of a text, the keys of a mapping. -/
def items : Document → Except LoadFault (List Document)
  | .list items => .ok items
  | .text s => .ok (s.map fun c => .text [c])
  | .mapping entries => .ok (entries.map Prod.fst)
  | _ => .error .notIterable

/-- The bus sample that a document describes. -/
def readSample (limit : Option Nat) : Document → Except LoadFault BusSample
  | .mapping entries => do
      let address ← readAddress limit ((Document.get? entries "address").getD .null)
      let data ← readByte limit ((Document.get? entries "data").getD .null)
      let fetch := ((Document.get? entries "fetch").getD (.bool false)).countsAsTrue
      return { address := address, data := data, fetch := fetch }
  | _ => .error .notKeyed

/-- The samples of a fixture; anything that counts as false means none. -/
def readSamples (limit : Option Nat) (d : Document) : Except LoadFault (List BusSample) :=
  if d.countsAsTrue then do (← items d).mapM (readSample limit) else .ok []

/-- The bytes that hexadecimal words spell.  Their range is looked at when all of them are read. -/
def readWords (limit : Option Nat) (s : Text) : Except LoadFault (List UInt8) := do
  let values ← (Text.words s).mapM (readSpelling limit 16)
  if values.all fun n => 0 ≤ n ∧ n ≤ 0xFF then return values.map UInt8.ofInt
  else .error .imageRange

/-- The bytes of a program. -/
def readBytes (limit : Option Nat) : Document → Except LoadFault (List UInt8)
  | .text s => readWords limit s
  | d => do return (← (← items d).mapM (readByte limit)).map UInt8.ofInt

/-- The program of a fixture; null means none. -/
def readProgram (limit : Option Nat) : Document → Except LoadFault (Option Image)
  | .null => .ok none
  | .mapping entries => do
      let origin ← readAddress limit ((Document.get? entries "origin").getD (.int 0))
      let bytes ← readBytes limit ((Document.get? entries "bytes").getD (.list []))
      return some { origin := origin, bytes := bytes }
  | _ => .error .notKeyed

/-- The fixture that a document describes, under a limit on decimal digits. -/
def ofDocument (limit : Option Nat) : Document → Except LoadFault Fixture
  | .mapping entries =>
      match Document.get? entries "architecture" with
      | none => .error .noArchitecture
      | some name => do
          let architecture ← readArchitecture limit name
          let samples ← readSamples limit ((Document.get? entries "samples").getD .null)
          let program ← readProgram limit ((Document.get? entries "program").getD .null)
          return { architecture := architecture, samples := samples, program := program }
  | _ => .error .notMapping

/-- The fixture that a YAML text describes, under a limit on decimal digits. -/
def ofYaml (limit : Option Nat) (text : Text) : Except LoadFault Fixture :=
  match Yaml.read limit text with
  | .ok d => ofDocument limit d
  | .error e => .error (.yaml e)

end Fixture

end EightBit
