set_option autoImplicit false

/-!
# Binary floating-point numbers

Numbers with a significand below `2 ^ 53` and a power of two, as a document may hold them.  A decimal
fraction stands for the nearest such number, a half going to the even significand.
-/

namespace EightBit

/-- A floating-point number of 64 bits; a finite one is `significand * 2 ^ exponent` with its sign. -/
inductive Double where
  | finite (negative : Bool) (significand : Nat) (exponent : Int)
  | infinite (negative : Bool)
  | nan
  deriving DecidableEq, Repr

namespace Double

/-- The quotient rounded to the nearest integer, a half going to the even one. -/
def roundDiv (num den : Nat) : Nat :=
  let q := num / den
  let r := 2 * (num % den)
  if r < den then q else if den < r then q + 1 else q + q % 2

/-- The fraction `num / den` times two to the power `-e`, as a fraction. -/
def scaleDown (num den : Nat) (e : Int) : Nat × Nat :=
  if 0 ≤ e then (num, den * Nat.pow 2 e.toNat) else (num * Nat.pow 2 (-e).toNat, den)

/-- The largest `e` with `2 ^ e ≤ num / den`, for a positive fraction. -/
def floorLog2 (num den : Nat) : Int :=
  let e : Int := (num.log2 : Int) - den.log2
  let scaled := scaleDown num den e
  if scaled.2 ≤ scaled.1 then e else e - 1

/-- The number nearest to a positive fraction. -/
def ofFraction (negative : Bool) (num den : Nat) : Double :=
  let exponent := max (floorLog2 num den - 52) (-1074)
  let scaled := scaleDown num den exponent
  let significand := roundDiv scaled.1 scaled.2
  let carried := significand == Nat.pow 2 53
  let significand := if carried then Nat.pow 2 52 else significand
  let exponent := if carried then exponent + 1 else exponent
  if 971 < exponent then .infinite negative else .finite negative significand exponent

/-- The number nearest to `digits * 10 ^ exponent`. -/
def ofDecimal (negative : Bool) (digits : Nat) (exponent : Int) : Double :=
  let magnitude : Int := (Nat.toDigits 10 digits).length + exponent
  if digits = 0 ∨ magnitude < -340 then .finite negative 0 0
  else if 340 < magnitude then .infinite negative
  else if 0 ≤ exponent then ofFraction negative (digits * Nat.pow 10 exponent.toNat) 1
  else ofFraction negative digits (Nat.pow 10 (-exponent).toNat)

/-- The number is zero, of either sign. -/
def isZero : Double → Bool
  | .finite _ significand _ => significand == 0
  | _ => false

/-- The number nearest to `n * 2 ^ exponent`. -/
def ofScaled (negative : Bool) (n : Nat) (exponent : Int) : Double :=
  if n = 0 then .finite negative 0 0
  else if 0 ≤ exponent then ofFraction negative (n * Nat.pow 2 exponent.toNat) 1
  else ofFraction negative n (Nat.pow 2 (-exponent).toNat)

/-- The sum of two magnitudes; the signs are not looked at. -/
def addMagnitudes : Double → Double → Double
  | .finite _ m e, .finite _ n f =>
      let common := min e f
      ofScaled false (m * Nat.pow 2 (e - common).toNat + n * Nat.pow 2 (f - common).toNat) common
  | .nan, _ => .nan
  | _, .nan => .nan
  | _, _ => .infinite false

/-- The product of two magnitudes; the signs are not looked at. -/
def mulMagnitudes : Double → Double → Double
  | .finite _ m e, .finite _ n f => ofScaled false (m * n) (e + f)
  | .nan, _ => .nan
  | _, .nan => .nan
  | x, y => if x.isZero || y.isZero then .nan else .infinite false

/-- The magnitude of a number with a sign. -/
def withSign (negative : Bool) : Double → Double
  | .finite _ significand exponent => .finite negative significand exponent
  | .infinite _ => .infinite negative
  | .nan => .nan

/-- The number is the given integer. -/
def isInteger (x : Double) (n : Int) : Bool :=
  match x with
  | .finite negative significand exponent =>
      let signed : Int := if negative then -(significand : Int) else significand
      if 0 ≤ exponent then signed * (Nat.pow 2 exponent.toNat : Nat) == n
      else signed == n * (Nat.pow 2 (-exponent).toNat : Nat)
  | _ => false

/-- The two numbers are the same key of a mapping: zeros of either sign are, and so is what is not a
number. -/
def same (x y : Double) : Bool :=
  (x.isZero && y.isZero) || x == y

end Double

end EightBit
