import EightBit.Decoder
import EightBit.Processor
set_option autoImplicit false

/-!
# Bus traces

A trace is a list of bus cycles.  A cycle that is marked as an instruction fetch opens an instruction,
unless one is in progress: then every cycle, marked or not, brings its next byte.  Replaying a trace
gives a row for each cycle, and the row that opened an instruction gets its text once it is complete.
-/

namespace EightBit

/-- What is seen on the bus in one cycle. -/
structure BusSample where
  address : Int
  data : Int
  fetch : Bool := false
  deriving DecidableEq, Repr

/-- A line of a replayed trace. -/
structure TraceRow where
  sample : BusSample
  text : Text := []
  deriving DecidableEq, Repr

/-- The line of a row: address, data, a mark for a fetch, and the text if there is one. -/
def TraceRow.line (row : TraceRow) : Text :=
  let head := Text.ofChars (hexPadded 4 row.sample.address ++ "  ".toList ++
    hexPadded 2 row.sample.data ++ "  ".toList ++ [if row.sample.fetch then 'F' else ' '])
  if row.text.isEmpty then head else head ++ .ofString "  " ++ row.text

namespace InstructionSet

variable {μ : Type}

/-- The rows of a trace from a record on, and the text of the instruction that the record is in, which
is empty if the trace does not complete it. -/
def replayFrom (s : InstructionSet μ) (r : Record μ) :
    List BusSample → Except Fault (Text × List TraceRow)
  | [] => .ok ([], [])
  | sample :: rest =>
      if r.phase = .fetching then
        let response := s.next r sample.data
        match response.result with
        | .error e => .error e
        | .ok _ =>
            match s.replayFrom response.record rest with
            | .error e => .error e
            | .ok (pending, rows) =>
                let text := if response.record.phase = .complete
                  then response.record.completeText else pending
                .ok (text, { sample := sample } :: rows)
      else if sample.fetch then
        let response := s.start r sample.address sample.data
        match response.result with
        | .error e => .error e
        | .ok _ =>
            match s.replayFrom response.record rest with
            | .error e => .error e
            | .ok (pending, rows) =>
                let text := if response.record.phase = .complete
                  then response.record.completeText else pending
                .ok ([], { sample := sample, text := text } :: rows)
      else
        match s.replayFrom r rest with
        | .error e => .error e
        | .ok (_, rows) => .ok ([], { sample := sample } :: rows)

end InstructionSet

/-- The rows of a trace. -/
def replay (a : Architecture) (samples : List BusSample) : Except Fault (List TraceRow) :=
  match a.instructionSet.replayFrom {} samples with
  | .ok (_, rows) => .ok rows
  | .error e => .error e

end EightBit
