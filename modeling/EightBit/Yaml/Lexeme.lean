import EightBit.Yaml.Cursor
import EightBit.Yaml.Scalar
set_option autoImplicit false

/-!
# Lexemes of YAML

Each function here reads one lexeme at a cursor and returns what it says with the place behind it: a
plain scalar, a quoted scalar, the scalar of a block, a name, a tag, or a directive.  Where a line of a
scalar ends, the line end becomes a space unless empty lines follow, which are kept; a line or paragraph
separator is always kept.
-/

namespace EightBit.Yaml

/-- The text that a line end inside a scalar leaves, with the empty lines behind it. -/
def folded (lineEnd : Char) (empty : List Char) : List Char :=
  (if lineEnd ≠ '\n' then [lineEnd] else if empty.isEmpty then [' '] else []) ++ empty

/-! ## Plain scalars -/

/-- The character ends a plain scalar between brackets. -/
def isFlowChar (c : Char) : Bool :=
  c = ',' || c = '?' || c = '[' || c = ']' || c = '\x7b' || c = '\x7d'

/-- A colon before this character ends a plain scalar. -/
def endsKey (flow : Bool) (c : Option Char) : Bool :=
  isGap c || (flow && c.any fun d => d ≠ '?' && isFlowChar d)

/-- The characters that cannot begin a plain scalar. -/
def indicators : List Char :=
  "-?:,[]\x7b\x7d#&*!|>'\"%@`".toList

/-- A plain scalar begins here.  A dash, and outside of brackets also a question mark or a colon, begins
one before a character that is no gap. -/
def startsPlain (flow : Bool) : List Char → Bool
  | [] => false
  | c :: rest =>
      (!isGap (some c) && !indicators.contains c) ||
        (!isGap rest.head? && (c = '-' || (!flow && (c = '?' || c = ':'))))

/-- The part of a plain scalar up to the next gap. -/
def plainChunk (flow : Bool) : List Char → List Char
  | [] => []
  | c :: rest =>
      if isGap (some c) || (c = ':' && endsKey flow rest.head?) || (flow && isFlowChar c) then []
      else c :: plainChunk flow rest

/-- The empty lines behind a line end in a plain scalar, or `none` if a mark between documents stands
there, with the place that is reached.  Every round takes a character. -/
def emptyLinesFrom : (fuel : Nat) → List Char → Cursor → Option (List Char) × Cursor
  | 0, acc, c => (some acc, c)
  | fuel + 1, acc, c =>
      if c.head? = some ' ' then emptyLinesFrom fuel acc c.next
      else
        match c.lineBreak? with
        | none => (some acc, c)
        | some (lineEnd, c) =>
            if isMark c.rest then (none, c) else emptyLinesFrom fuel (acc ++ [lineEnd]) c

/-- The gap behind a part of a plain scalar: the text it leaves, whether a line ends in it, and the
place behind it. -/
def plainGap (c : Cursor) : List Char × Bool × Cursor :=
  let spaces := c.run (· = ' ')
  let c := c.skip spaces.length
  match c.lineBreak? with
  | none => (spaces, false, c)
  | some (lineEnd, c) =>
      if isMark c.rest then ([], true, c)
      else
        match emptyLinesFrom c.left [] c with
        | (none, c) => ([], true, c)
        | (some empty, c) => (folded lineEnd empty, true, c)

/-- The parts of a plain scalar from a gap on, with whether it ends behind a line end.  Every round but
the last takes a character. -/
def plainFrom (flow : Bool) (indent : Int) :
    (fuel : Nat) → (gap : List Char) → (crossed : Bool) → Cursor → List Char × Bool × Cursor
  | 0, _, crossed, c => ([], crossed, c)
  | fuel + 1, gap, crossed, c =>
      let chunk := plainChunk flow c.rest
      if chunk.isEmpty then ([], crossed, c)
      else
        let (after, crossed, c) := plainGap (c.skip chunk.length)
        let (rest, crossed, c) :=
          if after.isEmpty || c.head? = some '#' || (!flow && (c.column : Int) < indent) then
            ([], crossed, c)
          else plainFrom flow indent fuel after crossed c
        (gap ++ chunk ++ rest, crossed, c)

/-- A plain scalar whose lines after the first stand at least at the column `indent`. -/
def plain (flow : Bool) (indent : Int) (c : Cursor) : List Char × Bool × Cursor :=
  plainFrom flow indent (c.left + 1) [] false c

/-! ## Quoted scalars -/

/-- The character that a short escape stands for. -/
def escape? (c : Char) : Option Char :=
  match c with
  | '0' => some '\x00'
  | 'a' => some '\x07'
  | 'b' => some '\x08'
  | 't' | '\t' => some '\t'
  | 'n' => some '\n'
  | 'v' => some '\x0b'
  | 'f' => some '\x0c'
  | 'r' => some '\r'
  | 'e' => some '\x1b'
  | ' ' => some ' '
  | '"' => some '"'
  | '\\' => some '\\'
  | '/' => some '/'
  | 'N' => some '\u0085'
  | '_' => some '\u00a0'
  | 'L' => some '\u2028'
  | 'P' => some '\u2029'
  | _ => none

/-- The number of digits behind the letter of an escape by code point. -/
def codeDigits? (c : Char) : Option Nat :=
  match c with
  | 'x' => some 2
  | 'u' => some 4
  | 'U' => some 8
  | _ => none

/-- The code point whose number hexadecimal digits give. -/
def codePoint (digits : List Char) : Except Fault CodePoint :=
  let n := digits.foldl (fun n c => n * 16 + ((Numeral.digit? 16 c).getD 0)) 0
  if 0x7FFFFFFF < n then .error .overflow
  else if 0x10FFFF < n then .error .codePoint
  else .ok (.ofNat n)

/-- The empty lines behind a line end in a quoted scalar, and the place of the next content, which is no
mark between documents.  Every round but the last takes a line end. -/
def quotedLinesFrom : (fuel : Nat) → List Char → Cursor → Except Fault (List Char × Cursor)
  | 0, _, _ => .error .malformed
  | fuel + 1, acc, c =>
      if isMark c.rest then .error .malformed
      else
        let c := c.skipWhile isBlank
        match c.lineBreak? with
        | some (lineEnd, c) => quotedLinesFrom fuel (acc ++ [lineEnd]) c
        | none => .ok (acc, c)

/-- The empty lines behind a line end in a quoted scalar, and the place of the next content. -/
def quotedLines (c : Cursor) : Except Fault (List Char × Cursor) :=
  quotedLinesFrom (c.left + 1) [] c

/-- The text that an escape behind a backslash stands for, and the place behind it.  An escaped line end
stands for nothing. -/
def escape (c : Cursor) : Except Fault (Text × Cursor) :=
  match c.rest with
  | [] => .error .malformed
  | d :: rest =>
      match escape? d, codeDigits? d with
      | some e, _ => .ok ([.char e], c.next)
      | none, some count => do
          let digits := rest.take count
          if digits.length = count && digits.all (fun e => e.toNat < 0x80 && (Numeral.digit? 16 e).isSome)
          then return ([← codePoint digits], c.skip (count + 1))
          else .error .malformed
      | none, none =>
          match c.lineBreak? with
          | some (_, c) => do
              let (empty, c) ← quotedLines c
              return (.ofChars empty, c)
          | none => .error .malformed

/-- The rest of a quoted scalar behind the text `acc`, which is kept last code point first.  Every round
takes a character. -/
def quotedFrom (quote : Char) : (fuel : Nat) → Text → Cursor → Except Fault (Text × Cursor)
  | 0, _, _ => .error .malformed
  | fuel + 1, acc, c =>
      match c.rest with
      | [] => .error .malformed
      | d :: rest =>
          if d = quote then
            if quote = '\'' ∧ rest.head? = some '\'' then quotedFrom quote fuel (.char '\'' :: acc) (c.skip 2)
            else .ok (acc.reverse, c.next)
          else if d = '\\' ∧ quote = '"' then do
            let (text, c) ← escape c.next
            quotedFrom quote fuel (text.reverse ++ acc) c
          else if isBlank d || isBreak d then do
            let blanks := c.run isBlank
            let c := c.skip blanks.length
            match c.lineBreak? with
            | none => quotedFrom quote fuel (Text.ofChars blanks.reverse ++ acc) c
            | some (lineEnd, c) => do
                let (empty, c) ← quotedLines c
                quotedFrom quote fuel (Text.ofChars (folded lineEnd empty).reverse ++ acc) c
          else quotedFrom quote fuel (.char d :: acc) c.next

/-- A quoted scalar, whose opening quote stands at the cursor. -/
def quoted (quote : Char) (c : Cursor) : Except Fault (Text × Cursor) :=
  quotedFrom quote (c.left + 1) [] c.next

/-! ## Scalars of a block -/

/-- What becomes of the line ends at the end of a block: one stays, none does, or all do. -/
inductive Chomping where
  | clip
  | strip
  | keep
  deriving DecidableEq, Repr

/-- What the first line of a block says. -/
structure BlockHeader where
  chomping : Chomping := .clip
  increment : Option Nat := none
  deriving DecidableEq, Repr

/-- The chomping that a sign stands for. -/
def chomping? (c : Option Char) : Option Chomping :=
  match c with
  | some '+' => some .keep
  | some '-' => some .strip
  | _ => none

/-- The indentation that a digit stands for. -/
def increment? (c : Option Char) : Option Nat :=
  (c.filter Char.isDigit).map fun d => d.toNat - '0'.toNat

/-- The signs behind the mark of a block, in either order, and the place behind them. -/
def blockSigns (c : Cursor) : BlockHeader × Cursor :=
  match chomping? c.head? with
  | some chomping =>
      let c := c.next
      match increment? c.head? with
      | some n => (⟨chomping, some n⟩, c.next)
      | none => (⟨chomping, none⟩, c)
  | none =>
      match increment? c.head? with
      | some n =>
          let c := c.next
          match chomping? c.head? with
          | some chomping => (⟨chomping, some n⟩, c.next)
          | none => (⟨.clip, some n⟩, c)
      | none => (⟨.clip, none⟩, c)

/-- The first line of a block behind its mark, and the place of the next line.  Signs are divided from a
comment by a space, and an indentation is not zero. -/
def blockHeader (c : Cursor) : Except Fault (BlockHeader × Cursor) :=
  let (header, c) := blockSigns c
  if header.increment = some 0 || c.head? = some '\t' || !isGap c.head? then .error .malformed
  else
    match c.toNextLine? with
    | some c => .ok (header, c)
    | none => .error .malformed

/-- The empty lines at the beginning of a block, the largest column that spaces reach in them and in the
line behind them, and the place that is reached.  Every round takes a character. -/
def blockStartFrom : (fuel : Nat) → List Char → Nat → Cursor → List Char × Nat × Cursor
  | 0, acc, column, c => (acc, column, c)
  | fuel + 1, acc, column, c =>
      if c.head? = some ' ' then blockStartFrom fuel acc (max column c.next.column) c.next
      else
        match c.lineBreak? with
        | some (lineEnd, c) => blockStartFrom fuel (acc ++ [lineEnd]) column c
        | none => (acc, column, c)

/-- The place behind the spaces before the column `indent`. -/
def toIndent (indent : Nat) (c : Cursor) : Cursor :=
  c.skip (min (indent - c.column) (c.run (· = ' ')).length)

/-- The empty lines of a block, and the place of its next line at the column `indent`.  Every round but
the last takes a line end. -/
def blockGapFrom (indent : Nat) : (fuel : Nat) → List Char → Cursor → List Char × Cursor
  | 0, acc, c => (acc, c)
  | fuel + 1, acc, c =>
      let c := toIndent indent c
      match c.lineBreak? with
      | some (lineEnd, c) => blockGapFrom indent fuel (acc ++ [lineEnd]) c
      | none => (acc, c)

/-- The empty lines of a block, and the place of its next line. -/
def blockGap (indent : Nat) (c : Cursor) : List Char × Cursor :=
  blockGapFrom indent (c.left + 1) [] c

/-- The text between two lines of a block.  In a folded block a line feed between two lines that begin
with no blank becomes a space, or nothing before empty lines. -/
def betweenLines (fold : Bool) (first second : Option Char) (lineEnd : List Char) (empty : List Char) :
    List Char :=
  if fold && lineEnd = ['\n'] && !first.any isBlank && !second.any isBlank then
    if empty.isEmpty then [' '] else []
  else lineEnd

/-- The lines of a block from a place on, behind a line end and empty lines.  Every round but the last
takes a character. -/
def blockLinesFrom (fold : Bool) (chomping : Chomping) (indent : Nat) :
    (fuel : Nat) → (lineEnd empty : List Char) → Cursor → List Char × Cursor
  | 0, _, _, c => ([], c)
  | fuel + 1, lineEnd, empty, c =>
      if c.column = indent && !c.rest.isEmpty then
        let line := c.run (!isBreak ·)
        let first := c.head?
        let c := c.skip line.length
        let (lineEnd, c) := match c.lineBreak? with
          | some (d, c) => ([d], c)
          | none => ([], c)
        let (after, c) := blockGap indent c
        let between := if c.column = indent && !c.rest.isEmpty then
            betweenLines fold first c.head? lineEnd after
          else []
        let (rest, c) := blockLinesFrom fold chomping indent fuel lineEnd after c
        (empty ++ line ++ between ++ rest, c)
      else
        match chomping with
        | .clip => (lineEnd, c)
        | .strip => ([], c)
        | .keep => (lineEnd ++ empty, c)

/-- The scalar of a block whose mark stands at the cursor, inside a block at the column `outer`. -/
def blockScalar (fold : Bool) (outer : Int) (c : Cursor) : Except Fault (List Char × Cursor) := do
  let (header, c) ← blockHeader c.next
  let least := (max (outer + 1) 1).toNat
  let (indent, empty, c) := match header.increment with
    | none =>
        let (empty, column, c) := blockStartFrom c.left [] 0 c
        (max least column, empty, c)
    | some n =>
        let indent := least + n - 1
        let (empty, c) := blockGap indent c
        (indent, empty, c)
  return blockLinesFrom fold header.chomping indent (c.left + 1) [] empty c

/-! ## Names, tags, directives -/

/-- The character may stand in a name. -/
def isNameChar (c : Char) : Bool :=
  c.isAlphanum || c = '-' || c = '_'

/-- The name of an anchor behind its mark. -/
def anchorName (c : Cursor) : Except Fault (List Char × Cursor) :=
  let name := c.next.run isNameChar
  let c := c.next.skip name.length
  if !name.isEmpty && (isGap c.head? || c.head?.any fun d => "?:,]\x7d%@`".toList.contains d) then
    .ok (name, c)
  else .error .malformed

/-- The character may stand in the name of a tag. -/
def isTagChar (c : Char) : Bool :=
  c.isAlphanum || "-;/?:@&=+$,_.!~*'()[]".toList.contains c

/-- The handle of a tag: an exclamation mark, or a name between two of them. -/
def tagHandle (c : Cursor) : Except Fault (List Char × Cursor) :=
  if c.head? ≠ some '!' then .error .malformed
  else
    let c := c.next
    if c.head? = some ' ' then .ok (['!'], c)
    else
      let name := c.run isNameChar
      let c := c.skip name.length
      if c.head? = some '!' then .ok ('!' :: name ++ ['!'], c.next) else .error .malformed

/-- The name of a tag, which has a character. -/
def tagName (c : Cursor) : Except Fault (List Char × Cursor) :=
  let name := c.run isTagChar
  if name.isEmpty then .error .malformed else .ok (name, c.skip name.length)

/-- A tag as it is written: the handle, if there is one, and the name. -/
structure WrittenTag where
  handle : Option (List Char)
  name : List Char
  deriving DecidableEq, Repr

/-- A tag at its exclamation mark. -/
def writtenTag (c : Cursor) : Except Fault (WrittenTag × Cursor) := do
  let after := c.next.head?
  let (tag, c) ←
    if after = some '<' then do
      let (name, c) ← tagName (c.skip 2)
      if c.head? = some '>' then pure (⟨none, name⟩, c.next) else .error .malformed
    else if isGap after then pure ((⟨none, ['!']⟩ : WrittenTag), c.next)
    else if (c.next.run fun d => d ≠ ' ' && !isBreak d).contains '!' then do
      let (handle, c) ← tagHandle c
      let (name, c) ← tagName c
      pure (⟨some handle, name⟩, c)
    else do
      let (name, c) ← tagName c.next
      pure (⟨some ['!'], name⟩, c)
  if isGap c.head? && c.head? ≠ some '\t' then return (tag, c) else .error .malformed

/-- A line that speaks of the document behind it. -/
inductive Directive where
  /-- The version of YAML, by its first number. -/
  | version (major : Nat)
  /-- The name that a handle of tags stands for. -/
  | handle (name stands : List Char)
  | other
  deriving DecidableEq, Repr

/-- A gap other than a tab stands here. -/
def endsField (c : Cursor) : Bool :=
  isGap c.head? && c.head? ≠ some '\t'

/-- The version behind the name of its directive. -/
def version (c : Cursor) : Except Fault (Directive × Cursor) :=
  let c := c.skipWhile (· = ' ')
  let major := c.run Char.isDigit
  let c := c.skip major.length
  let minor := c.next.run Char.isDigit
  let behind := c.next.skip minor.length
  if !major.isEmpty && c.head? = some '.' && !minor.isEmpty && endsField behind then
    .ok (.version (decimalValue major), behind)
  else .error .malformed

/-- The handle and the name behind the name of their directive. -/
def handle (c : Cursor) : Except Fault (Directive × Cursor) := do
  let (name, c) ← tagHandle (c.skipWhile (· = ' '))
  if c.head? ≠ some ' ' then .error .malformed
  else
    let (stands, c) ← tagName (c.skipWhile (· = ' '))
    if endsField c then return (.handle name stands, c) else .error .malformed

/-- A directive at its percent sign, with the rest of its line. -/
def directive (c : Cursor) : Except Fault (Directive × Cursor) := do
  let name := c.next.run isNameChar
  let c := c.next.skip name.length
  if name.isEmpty || !endsField c then .error .malformed
  else
    let (directive, c) ← match String.ofList name with
      | "YAML" => version c
      | "TAG" => handle c
      | _ => pure (.other, c.skipWhile (!isBreak ·))
    match c.toNextLine? with
    | some c => return (directive, c)
    | none => .error .malformed

end EightBit.Yaml
