import EightBit.Yaml.Lexeme
set_option autoImplicit false

/-!
# Tokens of YAML

A text is cut into tokens that make its structure plain.  In a block the columns of its parts show where
a sequence or a mapping begins and ends, and there tokens without a text of their own are put in.  That a
scalar or a collection is the key of a mapping shows only at the colon behind it, so a lexer remembers
where a key may have begun: on the same line, and at most `maxKey` characters back.
-/

namespace EightBit.Yaml

/-- A part of a text with a meaning of its own. -/
inductive Token where
  | directive (line : Directive)
  | documentStart
  | documentEnd
  /-- A sequence or a mapping of a block begins, or ends. -/
  | blockSequence
  | blockMapping
  | blockEnd
  /-- Brackets open and close. -/
  | openSequence
  | closeSequence
  | openMapping
  | closeMapping
  /-- The dash before an item of a block. -/
  | dash
  /-- The comma between brackets. -/
  | comma
  /-- A key and its value begin. -/
  | key
  | value
  | reference (name : List Char)
  | anchor (name : List Char)
  | tag (written : WrittenTag)
  | scalar (plain : Bool) (text : Text)
  | textEnd
  /-- No token can be read here. -/
  | fault (cause : Fault)
  deriving DecidableEq, Repr

/-- The longest distance from the beginning of a key to its colon. -/
def maxKey : Nat := 1024

/-- A place where a key may have begun. -/
structure KeyStart where
  /-- The number of tokens before the place. -/
  tokens : Nat
  /-- The column asks for a key. -/
  required : Bool
  place : Cursor
  deriving DecidableEq, Repr

/-- The state of cutting a text into tokens. -/
structure Lexer where
  cursor : Cursor
  /-- The tokens that are found, the last of them first, and their number. -/
  found : List Token := []
  count : Nat := 0
  /-- The column of the innermost block, and those of the blocks around it. -/
  indent : Int := -1
  outerIndents : List Int := []
  /-- A key may begin here. -/
  keyAllowed : Bool := true
  /-- Where a key may have begun between the innermost brackets, and between those around them. -/
  keyStart : Option KeyStart := none
  outerKeyStarts : List (Option KeyStart) := []
  deriving Repr

namespace Lexer

/-- The text stands between brackets. -/
def inFlow (s : Lexer) : Bool :=
  !s.outerKeyStarts.isEmpty

/-- The lexer with a further token. -/
def push (s : Lexer) (t : Token) : Lexer :=
  { s with found := t :: s.found, count := s.count + 1 }

/-- The lexer with a further token of `n` characters. -/
def take (s : Lexer) (n : Nat) (t : Token) : Lexer :=
  { s.push t with cursor := s.cursor.skip n }

/-- The lexer with a token put in where a key began. -/
def insertAt (s : Lexer) (k : KeyStart) (t : Token) : Lexer :=
  { s with found := s.found.insertIdx (s.count - k.tokens) t, count := s.count + 1 }

/-- The lexer without the place where a key may have begun.  A key that had to follow did not. -/
def dropKeyStart (s : Lexer) : Except Fault Lexer :=
  if s.keyStart.any KeyStart.required then .error .malformed else .ok { s with keyStart := none }

/-- The lexer that remembers this place as one where a key may begin. -/
def saveKeyStart (s : Lexer) : Except Fault Lexer :=
  if s.keyAllowed then do
    let required := !s.inFlow && s.indent = s.cursor.column
    return { ← s.dropKeyStart with keyStart := some ⟨s.count, required, s.cursor⟩ }
  else .ok s

/-- No key that began there ends here. -/
def isStale (c : Cursor) (k : KeyStart) : Bool :=
  k.place.line ≠ c.line || maxKey < k.place.left - c.left

/-- The lexer without the places from which no key ends here. -/
def dropStale (s : Lexer) : Except Fault Lexer :=
  let stale (k : Option KeyStart) := k.any (isStale s.cursor)
  if (s.keyStart :: s.outerKeyStarts).any fun k => stale k && k.any KeyStart.required then
    .error .malformed
  else
    let fresh (k : Option KeyStart) := if stale k then none else k
    .ok { s with keyStart := fresh s.keyStart, outerKeyStarts := s.outerKeyStarts.map fresh }

/-- The lexer behind the ends of the blocks to the right of a column, the columns of the blocks around
the innermost being given. -/
def closeBlocksFrom (column : Int) : List Int → Lexer → Lexer
  | [], s => s
  | outer :: rest, s =>
      if column < s.indent then
        closeBlocksFrom column rest { s.push .blockEnd with indent := outer, outerIndents := rest }
      else s

/-- The lexer behind the ends of the blocks to the right of a column.  Brackets hold no block. -/
def closeBlocks (s : Lexer) (column : Int) : Lexer :=
  if s.inFlow then s else closeBlocksFrom column s.outerIndents s

/-- A block begins at a column: the lexer inside it, or `none` if that column is not further right. -/
def openBlock? (s : Lexer) (column : Nat) : Option Lexer :=
  if s.indent < column then
    some { s with indent := column, outerIndents := s.indent :: s.outerIndents }
  else none

/-! ## One token -/

/-- At the end of the text all blocks end. -/
def finish (s : Lexer) : Except Fault Lexer := do
  let s ← (s.closeBlocks (-1)).dropKeyStart
  return s.push .textEnd

/-- A directive. -/
def lexDirective (s : Lexer) : Except Fault Lexer := do
  let s ← (s.closeBlocks (-1)).dropKeyStart
  let (line, c) ← directive s.cursor
  return { s.push (.directive line) with cursor := c, keyAllowed := false }

/-- A mark between documents. -/
def lexMark (s : Lexer) (t : Token) : Except Fault Lexer := do
  let s ← (s.closeBlocks (-1)).dropKeyStart
  return { s.take 3 t with keyAllowed := false }

/-- An opening bracket, which may begin a key. -/
def lexOpen (s : Lexer) (t : Token) : Except Fault Lexer := do
  let s ← s.saveKeyStart
  return { s.take 1 t with
    keyAllowed := true, keyStart := none, outerKeyStarts := s.keyStart :: s.outerKeyStarts }

/-- A closing bracket, which needs an opening one. -/
def lexClose (s : Lexer) (t : Token) : Except Fault Lexer := do
  let s ← s.dropKeyStart
  match s.outerKeyStarts with
  | [] => .error .malformed
  | outer :: rest =>
      return { s.take 1 t with keyAllowed := false, keyStart := outer, outerKeyStarts := rest }

/-- A comma between brackets. -/
def lexComma (s : Lexer) : Except Fault Lexer := do
  let s ← s.dropKeyStart
  return { s.take 1 .comma with keyAllowed := true }

/-- The dash of an item, which may begin a sequence. -/
def lexDash (s : Lexer) : Except Fault Lexer := do
  if !s.inFlow && !s.keyAllowed then .error .malformed
  else
    let s := if s.inFlow then s else ((s.openBlock? s.cursor.column).map (·.push .blockSequence)).getD s
    let s ← s.dropKeyStart
    return { s.take 1 .dash with keyAllowed := true }

/-- The question mark of a key, which may begin a mapping. -/
def lexKey (s : Lexer) : Except Fault Lexer := do
  if !s.inFlow && !s.keyAllowed then .error .malformed
  else
    let s := if s.inFlow then s else ((s.openBlock? s.cursor.column).map (·.push .blockMapping)).getD s
    let s ← s.dropKeyStart
    return { s.take 1 .key with keyAllowed := !s.inFlow }

/-- The colon of a value.  If a key may have begun before it, it did, and perhaps a mapping with it. -/
def lexValue (s : Lexer) : Except Fault Lexer :=
  match s.keyStart with
  | some k =>
      let s := { s with keyStart := none }.insertAt k .key
      let s := if s.inFlow then s
        else ((s.openBlock? k.place.column).map (·.insertAt k .blockMapping)).getD s
      .ok { s.take 1 .value with keyAllowed := false }
  | none =>
      if !s.inFlow && !s.keyAllowed then .error .malformed
      else
        let s := if s.inFlow then s
          else ((s.openBlock? s.cursor.column).map (·.push .blockMapping)).getD s
        .ok { s.take 1 .value with keyAllowed := !s.inFlow }

/-- A lexeme that may begin a key, and behind which no key begins. -/
def lexNode (s : Lexer) (read : Cursor → Except Fault (Token × Cursor)) : Except Fault Lexer := do
  let s ← s.saveKeyStart
  let (t, c) ← read s.cursor
  return { s.push t with cursor := c, keyAllowed := false }

/-- The scalar of a block, behind which a key may begin. -/
def lexBlock (s : Lexer) (fold : Bool) : Except Fault Lexer := do
  let s ← s.dropKeyStart
  let (text, c) ← blockScalar fold s.indent s.cursor
  return { s.push (.scalar false (.ofChars text)) with cursor := c, keyAllowed := true }

/-- A plain scalar, behind which a key may begin only on a new line. -/
def lexPlain (s : Lexer) : Except Fault Lexer := do
  let s ← s.saveKeyStart
  let (text, crossed, c) := plain s.inFlow (s.indent + 1) s.cursor
  return { s.push (.scalar true (.ofChars text)) with cursor := c, keyAllowed := crossed }

/-- The lexer behind its next token, and behind the tokens that its column puts before that. -/
def step (s : Lexer) : Except Fault Lexer := do
  let (crossed, c) := s.cursor.toContent
  let s := { s with cursor := c, keyAllowed := s.keyAllowed || (crossed && !s.inFlow) }
  let s := (← s.dropStale).closeBlocks s.cursor.column
  match s.cursor.rest with
  | [] => s.finish
  | first :: rest =>
      let gap := isGap rest.head?
      if first = '%' && s.cursor.column = 0 then s.lexDirective
      else if s.cursor.atMark '-' then s.lexMark .documentStart
      else if s.cursor.atMark '.' then s.lexMark .documentEnd
      else match first with
        | '[' => s.lexOpen .openSequence
        | '\x7b' => s.lexOpen .openMapping
        | ']' => s.lexClose .closeSequence
        | '\x7d' => s.lexClose .closeMapping
        | ',' => s.lexComma
        | '*' => s.lexNode fun c => do let (name, c) ← anchorName c; return (.reference name, c)
        | '&' => s.lexNode fun c => do let (name, c) ← anchorName c; return (.anchor name, c)
        | '!' => s.lexNode fun c => do let (tag, c) ← writtenTag c; return (.tag tag, c)
        | '\'' | '"' => s.lexNode fun c => do
            let (text, c) ← quoted first c
            return (.scalar false text, c)
        | _ =>
            if first = '-' && gap then s.lexDash
            else if first = '?' && (s.inFlow || gap) then s.lexKey
            else if first = ':' && (s.inFlow || gap) then s.lexValue
            else if first = '|' && !s.inFlow then s.lexBlock false
            else if first = '>' && !s.inFlow then s.lexBlock true
            else if startsPlain s.inFlow s.cursor.rest then s.lexPlain
            else .error .malformed

/-- The tokens that stand before any place where a key may have begun. -/
def settled (s : Lexer) : List Token :=
  let starts := (s.keyStart :: s.outerKeyStarts).filterMap fun k => k.map KeyStart.tokens
  s.found.reverse.take (starts.foldl min s.count)

/-- The tokens of a text.  Every round but the last takes a character. -/
def tokensFrom : (fuel : Nat) → Lexer → List Token
  | 0, s => s.settled ++ [.fault .malformed]
  | fuel + 1, s =>
      match s.step with
      | .error e => s.settled ++ [.fault e]
      | .ok next =>
          if next.found.head? = some .textEnd then next.found.reverse else tokensFrom fuel next

end Lexer

/-- The tokens of a text, up to its end or to the first fault.  A byte order mark may begin the text. -/
def tokens (text : List Char) : List Token :=
  Lexer.tokensFrom (text.length + 2) { cursor := (Cursor.ofText text).skipOrderMark }

end EightBit.Yaml
