import EightBit.Document
set_option autoImplicit false

/-!
# Scalars of YAML

A scalar is a text with a tag that says what the text stands for.  A plain scalar without a tag is what
its spelling says: nothing, a truth value, an integer in one of five spellings, a floating-point number,
which needs a point, a timestamp, the mark of a merged mapping, the mark of a default value, or else a
text.  `Tag.ofPlain` finds the tag, and `Tag.read` the document.
-/

namespace EightBit.Yaml

/-- Why a YAML text gives no document. -/
inductive Fault where
  /-- The text breaks the rules of YAML. -/
  | malformed
  /-- A text is not converted into an integer. -/
  | numeral (fault : Numeral.Fault)
  /-- Numbers lie outside the calendar. -/
  | calendar (fault : Timestamp.Fault)
  /-- The text spells no floating-point number. -/
  | float (text : Text)
  /-- A number has no text at all. -/
  | emptyNumber
  /-- The text spells no truth value. -/
  | notBool
  /-- The text is not the form of a timestamp. -/
  | notTimestamp
  /-- An escape gives the number of no character. -/
  | codePoint
  /-- A number is too large for its use. -/
  | overflow
  deriving DecidableEq, Repr

/-- The wording of a fault. -/
def Fault.message : Fault → String
  | .malformed => "not a document"
  | .numeral fault => fault.message
  | .calendar fault => fault.message
  | .float text => s!"could not convert string to float: {String.ofList (Text.quoted text)}"
  | .emptyNumber => "number without text"
  | .notBool => "not a truth value"
  | .notTimestamp => "not a timestamp"
  | .codePoint => "chr() arg not in range(0x110000)"
  | .overflow => "number too large"

/-- What a scalar, a sequence or a mapping stands for. -/
inductive Tag where
  | null
  | bool
  | int
  | float
  | timestamp
  | text
  /-- The key of a mapping whose entries belong to the mapping around it. -/
  | merge
  /-- The key of a default value. -/
  | default
  | sequence
  | mapping
  /-- A tag without meaning here. -/
  | other
  deriving DecidableEq, Repr

/-- The name before the names of the common tags. -/
def commonTags : String := "tag:yaml.org,2002:"

/-- The tag of a full name. -/
def Tag.ofName (name : List Char) : Tag :=
  if commonTags.toList.isPrefixOf name then
    match String.ofList (name.drop commonTags.length) with
    | "null" => .null
    | "bool" => .bool
    | "int" => .int
    | "float" => .float
    | "timestamp" => .timestamp
    | "str" => .text
    | "merge" => .merge
    | "value" => .default
    | "seq" => .sequence
    | "map" => .mapping
    | _ => .other
  else .other

/-! ## Spellings -/

/-- The spellings of nothing. -/
def nullWords : List String :=
  ["", "~", "null", "Null", "NULL"]

/-- The spellings of true. -/
def trueWords : List String :=
  ["yes", "Yes", "YES", "true", "True", "TRUE", "on", "On", "ON"]

/-- The spellings of false. -/
def falseWords : List String :=
  ["no", "No", "NO", "false", "False", "FALSE", "off", "Off", "OFF"]

/-- The text is made of underscores and of digits of the base. -/
def areDigits (base : Nat) (s : List Char) : Bool :=
  s.all fun c => c = '_' || (c.toNat < 0x80 && (Numeral.digit? base c).isSome)

/-- The text is made of decimal digits and underscores and begins with a digit. -/
def isGrouped (s : List Char) : Bool :=
  s.head?.any Char.isDigit && areDigits 10 s

section

variable {α : Type} [Alphabet α] [DecidableEq α]

/-- The parts of a text between colons. -/
def colonParts : List α → List (List α)
  | [] => [[]]
  | c :: rest =>
      if c = Alphabet.ofChar ':' then [] :: colonParts rest
      else
        match colonParts rest with
        | part :: parts => (c :: part) :: parts
        | [] => [[c]]

/-- The sign in front of a number, and the text behind it. -/
def signed (s : List α) : Bool × List α :=
  match s with
  | [] => (false, [])
  | c :: rest =>
      if c = Alphabet.ofChar '-' then (true, rest)
      else if c = Alphabet.ofChar '+' then (false, rest)
      else (false, s)

end

/-- A part behind a colon is one digit, or two of which the first is at most five. -/
def isSixtieth (s : List Char) : Bool :=
  match s with
  | [a] => a.isDigit
  | [a, b] => '0' ≤ a && a ≤ '5' && b.isDigit
  | _ => false

/-- A plain scalar is spelled like an integer: binary, octal, hexadecimal, decimal, or in base sixty
with colons. -/
def isInt (s : List Char) : Bool :=
  match (signed s).2 with
  | ['0'] => true
  | '0' :: 'b' :: digits => !digits.isEmpty && areDigits 2 digits
  | '0' :: 'x' :: digits => !digits.isEmpty && areDigits 16 digits
  | '0' :: digits => areDigits 8 digits
  | body =>
      match colonParts body with
      | first :: parts => isGrouped first && parts.all isSixtieth
      | [] => false

/-- An exponent stands behind the digits of a number: nothing, or a mark, a sign and digits. -/
def isExponent (s : List Char) : Bool :=
  match s with
  | [] => true
  | mark :: sign :: digits =>
      (mark = 'e' || mark = 'E') && (sign = '+' || sign = '-') && !digits.isEmpty &&
        digits.all Char.isDigit
  | _ => false

/-- A plain scalar is spelled like a floating-point number: with a point and perhaps an exponent, with a
point in base sixty, or as infinite or as no number. -/
def isFloat (s : List Char) : Bool :=
  let body := (signed s).2
  let whole := body.takeWhile (· ≠ '.')
  match body.dropWhile (· ≠ '.') with
  | [] => false
  | _ :: rest =>
      let isGroupChar (c : Char) := c.isDigit || c = '_'
      let tail := rest.dropWhile isGroupChar
      if whole.isEmpty then
        ["inf", "Inf", "INF"].contains (String.ofList rest) ||
          (s = body && (["nan", "NaN", "NAN"].contains (String.ofList rest) ||
            (rest.head?.any Char.isDigit && isExponent tail)))
      else
        match colonParts whole with
        | [_] => isGrouped whole && isExponent tail
        | first :: parts => isGrouped first && parts.all isSixtieth && tail.isEmpty
        | [] => false

/-- The tag of a plain scalar by its spelling. -/
def Tag.ofPlain (s : List Char) : Tag :=
  let text := String.ofList s
  if nullWords.contains text then .null
  else if trueWords.contains text || falseWords.contains text then .bool
  else if text = "<<" then .merge
  else if text = "=" then .default
  else if isFloat s then .float
  else if isInt s then .int
  else if Timestamp.isWritten s then .timestamp
  else .text

/-! ## Documents of scalars -/

/-- The integer that a text spells in a base. -/
def numeral (limit : Option Nat) (base : Nat) (s : Text) : Except Fault Int :=
  match Numeral.parse limit base s with
  | .ok n => .ok n
  | .error e => .error (.numeral e)

/-- The integer that a text without sign and underscores spells; its beginning tells the base. -/
def readNatural (limit : Option Nat) (s : Text) : Except Fault Int :=
  match s with
  | [] => .error .emptyNumber
  | [.char '0'] => .ok 0
  | .char '0' :: .char 'b' :: digits => numeral limit 2 digits
  | .char '0' :: .char 'x' :: digits => numeral limit 16 digits
  | .char '0' :: _ => numeral limit 8 s
  | _ =>
      if s.contains (.char ':') then do
        let parts ← (colonParts s).mapM (numeral limit 10)
        return parts.foldl (fun n part => n * 60 + part) 0
      else numeral limit 10 s

/-- The integer that a scalar spells. -/
def readInt (limit : Option Nat) (s : Text) : Except Fault Int := do
  let (negative, body) := signed (s.filter (· ≠ .char '_'))
  let n ← readNatural limit body
  return if negative then -n else n

/-- The number that decimal digits spell. -/
def decimalValue (digits : List Char) : Nat :=
  digits.foldl (fun n c => n * 10 + (c.toNat - '0'.toNat)) 0

/-- The floating-point number that digits with a point and an exponent spell. -/
def fraction? (negative : Bool) (s : List Char) : Option Double :=
  let whole := s.takeWhile Char.isDigit
  let (part, tail) := match s.dropWhile Char.isDigit with
    | '.' :: rest => (rest.takeWhile Char.isDigit, rest.dropWhile Char.isDigit)
    | rest => ([], rest)
  let value (exponent : Int) : Double :=
    Double.ofDecimal negative (decimalValue (whole ++ part)) (exponent - part.length)
  if whole.isEmpty && part.isEmpty then none
  else
    match tail with
    | [] => some (value 0)
    | mark :: rest =>
        let (down, digits) := signed rest
        if (mark = 'e' || mark = 'E') && !digits.isEmpty && digits.all Char.isDigit then
          some (value (if down then -(decimalValue digits : Int) else decimalValue digits))
        else none

/-- The floating-point number that a text spells. -/
def readDouble (s : Text) : Except Fault Double :=
  let (negative, body) := signed (Numeral.body s.chars)
  let found := match String.ofList (body.map Char.toLower) with
    | "inf" | "infinity" => some (.infinite negative)
    | "nan" => some .nan
    | _ => fraction? negative body
  match found with
  | some x => .ok x
  | none => .error (.float s)

/-- The sum of parts in base sixty, the last of them first.  `unit` is what one of the next part counts
for, and it has to be finite. -/
def sixtiethsFrom (unit : Nat) (sum : Double) : List Double → Except Fault Double
  | [] => .ok sum
  | part :: parts =>
      match Double.ofScaled false unit 0 with
      | .infinite _ => .error .overflow
      | weight => sixtiethsFrom (unit * 60) (sum.addMagnitudes (part.mulMagnitudes weight)) parts

/-- A code point with a Latin letter made small. -/
def small : CodePoint → CodePoint
  | .char c => .char c.toLower
  | c => c

/-- The floating-point number that a scalar spells.  In base sixty every step is rounded. -/
def readFloat (s : Text) : Except Fault Double :=
  let text := (s.filter (· ≠ .char '_')).map small
  let (negative, body) := signed text
  if text.isEmpty then .error .emptyNumber
  else if body = Text.ofString ".inf" then .ok (.infinite negative)
  else if body = Text.ofString ".nan" then .ok .nan
  else if body.contains (.char ':') then do
    let parts ← (colonParts body).mapM readDouble
    return (← sixtiethsFrom 1 (.finite false 0 0) parts.reverse).withSign negative
  else do
    let x ← readDouble body
    return if negative then x.withSign true else x

/-- The truth value that a scalar spells. -/
def readBool (s : List Char) : Except Fault Bool :=
  match String.ofList (s.map Char.toLower) with
  | "yes" | "true" | "on" => .ok true
  | "no" | "false" | "off" => .ok false
  | _ => .error .notBool

/-- The timestamp that a scalar spells. -/
def readTimestamp (s : List Char) : Except Fault Timestamp :=
  match Timestamp.read? s with
  | none => .error .notTimestamp
  | some t =>
      match t.fault? with
      | some fault => .error (.calendar fault)
      | none => .ok t

/-- The document that a text stands for under a tag. -/
def Tag.read (limit : Option Nat) (tag : Tag) (s : Text) : Except Fault Document :=
  match tag with
  | .null => .ok .null
  | .bool => do return .bool (← readBool s.chars)
  | .int => do return .int (← readInt limit s)
  | .float => do return .float (← readFloat s)
  | .timestamp => do return .timestamp (← readTimestamp s.chars)
  | .text => .ok (.text s)
  | .merge | .default | .sequence | .mapping | .other => .error .malformed

end EightBit.Yaml
