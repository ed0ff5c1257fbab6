set_option autoImplicit false

/-!
# Places in a YAML text

A cursor is a place in a text: what is left of the text, the number of its characters, the line, and the
column in that line.  The structure of a block shows in the columns of its parts.  Five
characters end a line; a carriage return and a line feed behind it end one line.
-/

namespace EightBit.Yaml

/-- The character may stand in a YAML text. -/
def isAllowed (c : Char) : Bool :=
  let n := c.toNat
  n = 0x09 || n = 0x0A || n = 0x0D || (0x20 ≤ n && n ≤ 0x7E) || n = 0x85 ||
    (0xA0 ≤ n && n ≤ 0xFFFD) || 0x10000 ≤ n

/-- The character ends a line. -/
def isBreak (c : Char) : Bool :=
  c = '\n' || c = '\r' || c = '\u0085' || c = '\u2028' || c = '\u2029'

/-- The character is a space or a tab. -/
def isBlank (c : Char) : Bool :=
  c = ' ' || c = '\t'

/-- The character, if there is one, separates what stands on its two sides. -/
def isGap (c : Option Char) : Bool :=
  c.all fun d => isBlank d || isBreak d

/-- A mark between documents stands here. -/
def isMark (s : List Char) : Bool :=
  ("---".toList.isPrefixOf s || "...".toList.isPrefixOf s) && isGap (s.drop 3).head?

/-- A place in a text. -/
structure Cursor where
  rest : List Char
  left : Nat
  line : Nat := 0
  column : Nat := 0
  deriving DecidableEq, Repr

namespace Cursor

/-- The beginning of a text. -/
def ofText (text : List Char) : Cursor where
  rest := text
  left := text.length

/-- The character at a place. -/
def head? (c : Cursor) : Option Char :=
  c.rest.head?

/-- The place behind one character.  A byte order mark takes no column. -/
def next (c : Cursor) : Cursor :=
  match c.rest with
  | [] => c
  | d :: rest =>
      if isBreak d && !(d = '\r' && rest.head? = some '\n') then
        { rest := rest, left := c.left - 1, line := c.line + 1, column := 0 }
      else
        { rest := rest, left := c.left - 1, line := c.line,
          column := if d = '\ufeff' then c.column else c.column + 1 }

/-- The place `n` characters further. -/
def skip (c : Cursor) : Nat → Cursor
  | 0 => c
  | n + 1 => c.next.skip n

/-- The characters from a place on that have a property. -/
def run (c : Cursor) (p : Char → Bool) : List Char :=
  c.rest.takeWhile p

/-- The place behind the characters that have a property. -/
def skipWhile (c : Cursor) (p : Char → Bool) : Cursor :=
  c.skip (c.run p).length

/-- The end of a line that stands at a place, as a text holds it, and the place behind it. -/
def lineBreak? (c : Cursor) : Option (Char × Cursor) :=
  match c.rest with
  | '\r' :: '\n' :: _ => some ('\n', c.skip 2)
  | d :: _ =>
      if isBreak d then some (if d = '\r' || d = '\u0085' then '\n' else d, c.next) else none
  | [] => none

/-- The place behind a comment, if one stands here. -/
def skipComment (c : Cursor) : Cursor :=
  if c.head? = some '#' then c.skipWhile (!isBreak ·) else c

/-- The place where content goes on, behind spaces, comments and line ends, and whether a line ended
before it.  Every round but the last takes a line end. -/
def toContentFrom : (fuel : Nat) → (crossed : Bool) → Cursor → Bool × Cursor
  | 0, crossed, c => (crossed, c)
  | fuel + 1, crossed, c =>
      let c := (c.skipWhile (· = ' ')).skipComment
      match c.lineBreak? with
      | some (_, c) => toContentFrom fuel true c
      | none => (crossed, c)

/-- The place where content goes on, and whether a line ended before it. -/
def toContent (c : Cursor) : Bool × Cursor :=
  toContentFrom (c.left + 1) false c

/-- The place behind a byte order mark, if one stands here. -/
def skipOrderMark (c : Cursor) : Cursor :=
  if c.head? = some '\ufeff' then c.next else c

/-- The place behind the rest of a line that may hold only a comment. -/
def toNextLine? (c : Cursor) : Option Cursor :=
  let c := (c.skipWhile (· = ' ')).skipComment
  match c.lineBreak? with
  | some (_, c) => some c
  | none => if c.rest.isEmpty then some c else none

/-- A mark of the given kind between documents stands at the beginning of a line. -/
def atMark (c : Cursor) (first : Char) : Bool :=
  c.column = 0 && c.head? = some first && isMark c.rest

end Cursor

end EightBit.Yaml
