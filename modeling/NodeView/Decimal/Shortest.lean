import NodeView.Decimal.Binary64
/-!
# NodeView.Decimal.Shortest

Decimal text of binary64 numbers.

The digits are the fewest that read back as the same number; of several such decimals the one
nearest to the number, and from half-way the even one. They come from the interval of reals
that round to the number, whose ends belong to it exactly if the significand is even: for one
digit, two, and so on, the two neighbours of the number on that decimal grid are tried.

How the digits are laid out is a decision of the format that uses them: `Layout` records it.
-/

namespace NodeView

/-- The decimal number `digits · 10 ^ exponent`. -/
structure Decimal where
  digits : Nat
  exponent : Int
  deriving DecidableEq, Repr

namespace Decimal

/-- The magnitude as a numerator and a denominator. -/
def quotient (d : Decimal) : Nat × Nat :=
  if 0 ≤ d.exponent then (d.digits * 10 ^ d.exponent.toNat, 1)
  else (d.digits, 10 ^ (-d.exponent).toNat)

/-- The decimal digits of a natural number. -/
def digitsOf (n : Nat) : List Char := Nat.toDigits 10 n

/-- The exponent of the first digit of `num / den`: the largest power of ten that is not
greater. -/
def magnitude (num den : Nat) : Int :=
  if den ≤ num then ((digitsOf (num / den)).length : Int) - 1
  else -((digitsOf ((den + num - 1) / num - 1)).length : Int)

end Decimal

namespace Binary64

/-- The ends of the interval of reals that round to a number, in quarters of its last place. -/
def roundingEnds (x : Binary64) : Nat × Nat :=
  let low := if x.significand = 2 ^ 52 ∧ -1074 < x.exponent then 4 * x.significand - 1
    else 4 * x.significand - 2
  (low, 4 * x.significand + 2)

/-- The real number of so many quarters of the last place, as a numerator and a denominator. -/
def quarters (x : Binary64) (n : Nat) : Nat × Nat :=
  if 2 ≤ x.exponent then (n * 2 ^ (x.exponent - 2).toNat, 1)
  else (n, 2 ^ (2 - x.exponent).toNat)

/-- Whether a decimal rounds to the magnitude of a number. -/
def roundsFrom (x : Binary64) (d : Decimal) : Bool :=
  let (low, high) := x.roundingEnds
  let (ln, ld) := x.quarters low
  let (hn, hd) := x.quarters high
  let (n, den) := d.quotient
  if x.significand % 2 = 0 then ln * den ≤ n * ld && n * hd ≤ hn * den
  else ln * den < n * ld && n * hd < hn * den

/-- Among the decimals with `count` digits the one that rounds to a number and lies nearest. -/
def nearestWith? (x : Binary64) (count : Nat) : Option Decimal :=
  let (num, den) := x.quotient
  let step := Decimal.magnitude num den + 1 - (count : Int)
  let (n, d) := if 0 ≤ step then (num, den * 10 ^ step.toNat) else (num * 10 ^ (-step).toNat, den)
  let below : Decimal := ⟨n / d, step⟩
  let above : Decimal := ⟨n / d + 1, step⟩
  match x.roundsFrom below, x.roundsFrom above with
  | true, true => some ⟨roundDiv n d, step⟩
  | true, false => some below
  | false, true => some above
  | false, false => none

/-- Drops the zeros at the end of the digits; at most `fuel` of them. -/
def trimZeros : (fuel : Nat) → Decimal → Decimal
  | 0, d => d
  | fuel + 1, d =>
    if d.digits ≠ 0 ∧ d.digits % 10 = 0 then trimZeros fuel ⟨d.digits / 10, d.exponent + 1⟩ else d

/-- The shortest decimal that rounds to the magnitude of a number. Seventeen digits always
suffice. -/
def shortest (x : Binary64) : Decimal :=
  if x.significand = 0 then ⟨0, 0⟩
  else
    match (List.range 17).findSome? fun k => x.nearestWith? (k + 1) with
    | some d => trimZeros 17 d
    | none => ⟨0, 0⟩

end Binary64

/-- How a shortest decimal is laid out. -/
structure Layout where
  /-- The least exponent of the first digit that is written without an exponent mark. -/
  leastPlain : Int
  /-- The exponent of the first digit from which on an exponent mark is written. -/
  firstMarked : Int
  /-- Whether a whole number written without a mark ends in `.0`. -/
  pointZero : Bool

namespace Layout

/-- An exponent mark: the letter, the sign and the digits. -/
def mark (exponent : Int) : List Char :=
  'e' :: (if exponent < 0 then '-' else '+') :: Decimal.digitsOf exponent.natAbs

/-- A decimal without exponent mark. -/
def plain (layout : Layout) (d : Decimal) : List Char :=
  let ds := Decimal.digitsOf d.digits
  if 0 ≤ d.exponent then
    ds ++ List.replicate d.exponent.toNat '0' ++ (if layout.pointZero then ['.', '0'] else [])
  else
    let places := (-d.exponent).toNat
    let padded := List.replicate (places + 1 - ds.length) '0' ++ ds
    padded.take (padded.length - places) ++ '.' :: padded.drop (padded.length - places)

/-- A decimal with exponent mark. -/
def marked (d : Decimal) : List Char :=
  let ds := Decimal.digitsOf d.digits
  match ds with
  | first :: second :: rest =>
    first :: '.' :: second :: rest ++ mark (d.exponent + (ds.length : Int) - 1)
  | _ => ds ++ mark d.exponent

/-- The text of a number. -/
def chars (layout : Layout) (x : Binary64) : List Char :=
  let d := x.shortest
  let first := d.exponent + ((Decimal.digitsOf d.digits).length : Int) - 1
  (if x.negative then ['-'] else [])
    ++ (if layout.leastPlain ≤ first && first < layout.firstMarked then layout.plain d
        else marked d)

/-- The text of a number. -/
def text (layout : Layout) (x : Binary64) : String := String.ofList (layout.chars x)

end Layout

end NodeView
