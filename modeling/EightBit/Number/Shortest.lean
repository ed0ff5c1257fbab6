import EightBit.Number.Digits
import EightBit.Number.Double
set_option autoImplicit false

/-!
# Shortest decimals

A floating-point number is written with the fewest decimal digits that stand for it and for no other
number, and with the digits nearest to it among those.  Numbers from `10 ^ -4` up to `10 ^ 16` are
written by place, with at least one digit behind the point; others with an exponent of at least two
digits.
-/

namespace EightBit.Double

/-- A decimal `digits * 10 ^ exponent`. -/
structure Decimal where
  digits : Nat
  exponent : Int
  deriving DecidableEq, Repr

/-- The numbers that round to a double lie between `low / den` and `high / den`, the ends included if
`closed`; the double itself is `mid / den`. -/
structure Interval where
  low : Nat
  mid : Nat
  high : Nat
  den : Nat
  closed : Bool

/-- The interval of a positive finite number. -/
def interval (significand : Nat) (exponent : Int) : Interval :=
  let below := if significand = Nat.pow 2 52 ∧ -1074 < exponent then 1 else 2
  let power := Nat.pow 2 (exponent - 2).natAbs
  let up := if 0 ≤ exponent - 2 then power else 1
  { low := (4 * significand - below) * up
    mid := 4 * significand * up
    high := (4 * significand + 2) * up
    den := if 0 ≤ exponent - 2 then 1 else power
    closed := significand % 2 = 0 }

/-- The decimal rounds to the number of the interval. -/
def Interval.holds (i : Interval) (d : Decimal) : Bool :=
  let up := if 0 ≤ d.exponent then Nat.pow 10 d.exponent.toNat else 1
  let down := if 0 ≤ d.exponent then 1 else Nat.pow 10 (-d.exponent).toNat
  let value := d.digits * up * i.den
  if i.closed then i.low * down ≤ value && value ≤ i.high * down
  else i.low * down < value && value < i.high * down

/-- The largest `e` with `10 ^ e` not above the middle of the interval. -/
def Interval.floorLog10 (i : Interval) : Int :=
  ((Nat.toDigits 10 (i.mid * Nat.pow 10 330 / i.den)).length : Int) - 331

/-- The decimal with the exponent that is nearest to the middle, among those in the interval: of the two
neighbours the nearer, and the even one of two that are equally near. -/
def Interval.nearest? (i : Interval) (exponent : Int) : Option Decimal :=
  let num := if 0 ≤ exponent then i.mid else i.mid * Nat.pow 10 (-exponent).toNat
  let den := if 0 ≤ exponent then i.den * Nat.pow 10 exponent.toNat else i.den
  let lower : Decimal := ⟨num / den, exponent⟩
  let upper : Decimal := ⟨num / den + 1, exponent⟩
  let r := 2 * (num % den)
  let upperNearer := den < r || (den == r && lower.digits % 2 == 1)
  let (first, second) := if upperNearer then (upper, lower) else (lower, upper)
  if i.holds first then some first else if i.holds second then some second else none

/-- The shortest decimal of a positive finite number. -/
def shortest (significand : Nat) (exponent : Int) : Decimal :=
  let i := interval significand exponent
  let e := i.floorLog10
  let found := (List.range 17).findSome? fun k => i.nearest? (e - (k : Nat))
  found.getD ⟨0, 0⟩

/-- Digits with a point behind the first `places` of them; missing places are zeros. -/
def byPlace (digits : List Char) (places : Int) : List Char :=
  if places ≤ 0 then "0.".toList ++ List.replicate (-places).toNat '0' ++ digits
  else
    let whole := digits.take places.toNat
    let padded := whole ++ List.replicate (places.toNat - whole.length) '0'
    let part := digits.drop places.toNat
    padded ++ '.' :: (if part.isEmpty then ['0'] else part)

/-- Digits with a point behind the first one, and an exponent. -/
def byExponent (digits : List Char) (exponent : Int) : List Char :=
  let part := digits.drop 1
  let sign := if exponent < 0 then '-' else '+'
  digits.take 1 ++ (if part.isEmpty then [] else '.' :: part) ++
    'e' :: sign :: zeroFill 2 (Nat.toDigits 10 exponent.natAbs)

/-- The text of a positive finite number. -/
def magnitudeText (significand : Nat) (exponent : Int) : List Char :=
  let d := shortest significand exponent
  let written := Nat.toDigits 10 d.digits
  let digits := (written.reverse.dropWhile (· = '0')).reverse
  let e : Int := d.exponent + written.length - 1
  if -4 ≤ e ∧ e < 16 then byPlace digits (e + 1) else byExponent digits e

/-- The text of a number. -/
def text : Double → List Char
  | .finite negative significand exponent =>
      let magnitude := if significand = 0 then "0.0".toList else magnitudeText significand exponent
      if negative then '-' :: magnitude else magnitude
  | .infinite negative => if negative then "-inf".toList else "inf".toList
  | .nan => "nan".toList

end EightBit.Double
