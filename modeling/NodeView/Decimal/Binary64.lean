/-!
# NodeView.Decimal.Binary64

Finite binary64 numbers, held as what they are: a sign, a whole significand and a power of two.

The arithmetic is exact and in whole numbers. A quotient of natural numbers is rounded once, to
the nearest number of the format and from half-way to the even significand; products and
quotients of two numbers of the format are such quotients. What lies beyond the largest finite
number has no value here.
-/

namespace NodeView

-- A power of a whole number is the one of the language, also where a library has another.
attribute [instance (20000), default_instance 20000] instPowNat

/-- The significand and the exponent of a number of the format: 53 bits, as many of them used
as the smallest exponent allows. -/
def Binary64.Canonical (significand : Nat) (exponent : Int) : Prop :=
  significand < 2 ^ 53 ∧ -1074 ≤ exponent ∧ exponent ≤ 971
    ∧ (exponent = -1074 ∨ 2 ^ 52 ≤ significand)

instance (significand : Nat) (exponent : Int) :
    Decidable (Binary64.Canonical significand exponent) :=
  inferInstanceAs (Decidable (_ ∧ _))

/-- The finite number `± significand · 2 ^ exponent`. -/
structure Binary64 where
  negative : Bool
  significand : Nat
  exponent : Int
  canonical : Binary64.Canonical significand exponent
  deriving DecidableEq

/-- The quotient of two natural numbers, rounded to the nearest whole number and from half-way
to the even one. -/
def roundDiv (num den : Nat) : Nat :=
  let quotient := num / den
  let twice := 2 * (num % den)
  if twice < den then quotient
  else if den < twice then quotient + 1
  else quotient + quotient % 2

namespace Binary64

/-- Zero with a sign. -/
def zero (negative : Bool) : Binary64 := ⟨negative, 0, -1074, by decide⟩

instance : Inhabited Binary64 := ⟨zero false⟩

/-- Whether a number is zero, of either sign. -/
def isZero (x : Binary64) : Bool := x.significand = 0

/-- The number of the format with this significand and exponent, if there is one. -/
def ofParts? (negative : Bool) (significand : Nat) (exponent : Int) : Option Binary64 :=
  if h : Canonical significand exponent then some ⟨negative, significand, exponent, h⟩ else none

/-- The quotient `num / den / 2 ^ exponent` as a numerator and a denominator. -/
def scaled (num den : Nat) (exponent : Int) : Nat × Nat :=
  if 0 ≤ exponent then (num, den * 2 ^ exponent.toNat) else (num * 2 ^ (-exponent).toNat, den)

/-- The exponent with which the quotient `num / den` has a significand of 53 bits, or the
smallest one if it cannot have so many. -/
def exponentFor (num den : Nat) : Int :=
  let estimate := max ((Nat.log2 num : Int) - (Nat.log2 den : Int) - 53) (-1074)
  let (n, d) := scaled num den estimate
  if 2 ^ 53 * d ≤ n then estimate + 1 else estimate

/-- The number of the format nearest to `± num / den`, unless that is too large. -/
def ofQuotient? (negative : Bool) (num den : Nat) : Option Binary64 :=
  if num = 0 then some (zero negative)
  else
    let exponent := exponentFor num den
    let (n, d) := scaled num den exponent
    let significand := roundDiv n d
    if significand = 2 ^ 53 then ofParts? negative (2 ^ 52) (exponent + 1)
    else ofParts? negative significand exponent

/-- The magnitude of a number as a numerator and a denominator. -/
def quotient (x : Binary64) : Nat × Nat :=
  if 0 ≤ x.exponent then (x.significand * 2 ^ x.exponent.toNat, 1)
  else (x.significand, 2 ^ (-x.exponent).toNat)

/-- The number of the format nearest to a product, unless that is too large. -/
def mul? (x y : Binary64) : Option Binary64 :=
  let (xn, xd) := x.quotient
  let (yn, yd) := y.quotient
  ofQuotient? (x.negative != y.negative) (xn * yn) (xd * yd)

/-- The number of the format nearest to a quotient by a number other than zero, unless that is
too large. -/
def div? (x y : Binary64) : Option Binary64 :=
  let (xn, xd) := x.quotient
  let (yn, yd) := y.quotient
  ofQuotient? (x.negative != y.negative) (xn * yd) (xd * yn)

/-- The number of the format nearest to `10 ^ k`, or zero where there is none. -/
def powerOfTen (k : Nat) : Binary64 := (ofQuotient? false (10 ^ k) 1).getD (zero false)

/-- The number of the format nearest to a whole number, or zero where there is none. -/
def ofInt (n : Int) : Binary64 := (ofQuotient? (n < 0) n.natAbs 1).getD (zero false)

/-! ### Whole numbers and the order -/

/-- A natural number with the sign of a number. -/
def signed (x : Binary64) (n : Nat) : Int := if x.negative then -n else n

/-- Whether a number has no fraction. -/
def isWhole (x : Binary64) : Bool := x.quotient.1 % x.quotient.2 = 0

/-- A number without its fraction. -/
def truncate (x : Binary64) : Int := x.signed (x.quotient.1 / x.quotient.2)

/-- The order is that of the quotients, so both zeros are in the same place. -/
instance : LE Binary64 where
  le x y := x.signed x.quotient.1 * y.quotient.2 ≤ y.signed y.quotient.1 * x.quotient.2

instance : LT Binary64 where
  lt x y := x.signed x.quotient.1 * y.quotient.2 < y.signed y.quotient.1 * x.quotient.2

instance (x y : Binary64) : Decidable (x ≤ y) := inferInstanceAs (Decidable (_ ≤ (_ : Int)))

instance (x y : Binary64) : Decidable (x < y) := inferInstanceAs (Decidable (_ < (_ : Int)))

/-- A number without its fraction as an integer of 64 bits, or the end of the range that it is
beyond. -/
def toInt64 (x : Binary64) : Int64 := Int64.ofInt (max (-2 ^ 63) (min (2 ^ 63 - 1) x.truncate))

/-- A number without its fraction as a natural number of 64 bits, or the end of the range that it
is beyond. -/
def toUInt64 (x : Binary64) : UInt64 :=
  UInt64.ofNat (max 0 (min (2 ^ 64 - 1) x.truncate)).toNat

end Binary64

end NodeView
