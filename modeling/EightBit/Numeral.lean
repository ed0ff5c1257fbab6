import EightBit.Text.Blank
import EightBit.Text.DecimalDigit
import EightBit.Text.Quoted
set_option autoImplicit false

/-!
# Integers as text

An integer is written as an optional sign and digits of its base, with blanks around it.  Single
underscores may stand between digits.  In the bases two, eight and sixteen the digits may follow a mark
such as `0x`, and then also an underscore.  Decimal digits of any script count.

Between decimal text and integers there may be a limit on the number of digits, in both directions.
`read?` knows no limit; `parse` is `read?` under a limit.
-/

namespace EightBit.Numeral

/-- The character may stand around a number: a blank, but not an information separator. -/
def isMargin (c : Char) : Bool :=
  Text.isBlank c && !(0x1C ≤ c.toNat && c.toNat ≤ 0x1F)

/-- The text without the blanks around it. -/
def body (s : List Char) : List Char :=
  ((s.dropWhile isMargin).reverse.dropWhile isMargin).reverse

/-- The value of a Latin letter as a digit. -/
def letterValue? (c : Char) : Option Nat :=
  if 'a' ≤ c ∧ c ≤ 'z' then some (c.toNat - 'a'.toNat + 10)
  else if 'A' ≤ c ∧ c ≤ 'Z' then some (c.toNat - 'A'.toNat + 10)
  else none

/-- The value of a digit in a base. -/
def digit? (base : Nat) (c : Char) : Option Nat :=
  match (Text.decimalValue? c).or (letterValue? c) with
  | some d => if d < base then some d else none
  | none => none

/-- The number that digits spell behind the number `acc`. -/
def digitsFrom? (base acc : Nat) : List Char → Option Nat
  | [] => some acc
  | '_' :: c :: rest =>
      match digit? base c with
      | some d => digitsFrom? base (acc * base + d) rest
      | none => none
  | c :: rest =>
      match digit? base c with
      | some d => digitsFrom? base (acc * base + d) rest
      | none => none

/-- The number that a nonempty digit text spells. -/
def digits? (base : Nat) : List Char → Option Nat
  | [] => none
  | c :: rest =>
      match digit? base c with
      | some d => digitsFrom? base d rest
      | none => none

/-- The letter that marks a base. -/
def isMarkOf (base : Nat) (c : Char) : Bool :=
  match base with
  | 2 => c = 'b' || c = 'B'
  | 8 => c = 'o' || c = 'O'
  | 16 => c = 'x' || c = 'X'
  | _ => false

/-- The text behind the mark of a base, if it has one. -/
def unmarked (base : Nat) (s : List Char) : List Char :=
  match s with
  | zero :: mark :: rest =>
      if Text.decimalValue? zero = some 0 ∧ isMarkOf base mark then
        match rest with
        | '_' :: digits => digits
        | digits => digits
      else s
  | _ => s

/-- The number that a text without sign spells. -/
def magnitude? (base : Nat) (s : List Char) : Option Nat :=
  digits? base (unmarked base s)

/-- The integer that a text spells in a base. -/
def read? (base : Nat) (s : List Char) : Option Int :=
  match body s with
  | '-' :: rest => (magnitude? base rest).map fun n => -(n : Int)
  | '+' :: rest => (magnitude? base rest).map fun n => (n : Int)
  | rest => (magnitude? base rest).map fun n => (n : Int)

/-- The text begins with `0x`, in either case. -/
def isMarked : List Char → Bool
  | '0' :: 'x' :: _ | '0' :: 'X' :: _ => true
  | _ => false

/-- The base that a number text is read in: sixteen if it begins with `0x`, ten otherwise. -/
def baseOf (s : List Char) : Nat :=
  if isMarked s then 16 else 10

example : read? 16 "0x_1F".toList = some 31 := by decide
example : read? 10 " -1_0 ".toList = some (-10) := by decide
example : read? 10 "1__0".toList = none := by decide
example : read? 16 "0x-1".toList = none := by decide

/-! ## The limit on decimal digits -/

/-- Why a text and an integer are not converted into one another. -/
inductive Fault where
  /-- The text spells no integer in the base. -/
  | spelling (base : Nat) (text : Text)
  /-- The text has more decimal digits than are read. -/
  | overlong (limit digits : Nat)
  /-- The integer has more decimal digits than are written. -/
  | unwritable (limit : Nat)
  deriving DecidableEq, Repr

/-- The longest quotation of a text in a message. -/
def maxQuotation : Nat := 200

/-- The wording of a fault. -/
def Fault.message : Fault → String
  | .spelling base text =>
      let quotation := String.ofList ((Text.quoted text).take maxQuotation)
      s!"invalid literal for int() with base {base}: {quotation}"
  | .overlong limit digits =>
      s!"Exceeds the limit ({limit} digits) for integer string conversion: value has {digits} digits; " ++
        "use sys.set_int_max_str_digits() to increase the limit"
  | .unwritable limit =>
      s!"Exceeds the limit ({limit} digits) for integer string conversion; " ++
        "use sys.set_int_max_str_digits() to increase the limit"

/-- The limit on decimal digits that configurations are read and reported with. -/
def digitLimit : Option Nat := some 4300

/-- The text behind a sign, if it has one. -/
def unsigned : List Char → List Char
  | '-' :: rest => rest
  | '+' :: rest => rest
  | s => s

/-- The digits and underscores that a text begins with behind blanks and a sign. -/
def leadingDigits (base : Nat) (s : List Char) : List Char :=
  (unsigned (body s)).takeWhile fun c => c = '_' || (digit? base c).isSome

/-- The number of digits that a text begins with, if that is over the limit.  Only decimal digits are
counted, and only if underscores stand between them properly; what follows them is not looked at. -/
def excess? (limit base : Nat) (s : List Char) : Option Nat :=
  let digits := leadingDigits base s
  let count := (digits.filter (· ≠ '_')).length
  if base = 10 ∧ limit < count ∧ (digits? base digits).isSome then some count else none

/-- The integer that a text spells in a base, under a limit on decimal digits. -/
def parse (limit : Option Nat) (base : Nat) (s : Text) : Except Fault Int :=
  match limit.bind fun l => (excess? l base s.chars).map (Fault.overlong l) with
  | some fault => .error fault
  | none =>
      match read? base s.chars with
      | some n => .ok n
      | none => .error (.spelling base s)

/-- The integer has no more decimal digits than the limit. -/
def isWritable (limit : Nat) (n : Int) : Bool :=
  n.natAbs < Nat.pow 10 limit

end EightBit.Numeral
