import NodeView.Decimal.Shortest
import NodeView.Text.Scan
/-!
# NodeView.Decimal.Extended

The binary64 numbers with the two infinities and the value that is no number, and the decimal
texts that are rounded to them.

A text is rounded once, to the nearest number; what lies beyond the largest finite number
becomes infinite.
-/

namespace NodeView

/-- A binary64 number, an infinity, or no number. -/
inductive Extended where
  | finite (x : Binary64)
  | infinite (negative : Bool)
  | notANumber
  deriving DecidableEq

namespace Extended

/-- More powers of ten than any finite number has, and fewer than any other than zero has. -/
def farAway : Int := 400

/-- The number nearest to `± digits · 10 ^ exponent`. -/
def ofDecimal (negative : Bool) (digits : Nat) (exponent : Int) : Extended :=
  let magnitude := ((Decimal.digitsOf digits).length : Int) + exponent
  -- A power of ten that decides by itself is not computed, as it may be of any size.
  if digits = 0 ∨ magnitude < -farAway then .finite (.zero negative)
  else if farAway < magnitude then .infinite negative
  else
    let (num, den) := Decimal.quotient ⟨digits, exponent⟩
    match Binary64.ofQuotient? negative num den with
    | some x => .finite x
    | none => .infinite negative

/-- How such numbers are shown: always without an exponent mark. -/
def layout : Layout := ⟨-farAway, farAway, false⟩

/-- The text of a number. -/
def text : Extended → String
  | .finite x => layout.text x
  | .infinite negative => if negative then "-inf" else "inf"
  | .notANumber => "NaN"

/-! ### Reading -/

/-- Splits a sign off; a missing one is positive. -/
def splitSign : List Char → Bool × List Char
  | '-' :: rest => (true, rest)
  | '+' :: rest => (false, rest)
  | text => (false, text)

/-- The exponent that a text writes behind its letter, or zero for no text. -/
def exponentOf? : List Char → Option Int
  | [] => some 0
  | letter :: rest =>
    let (negative, digits) := splitSign rest
    if (letter = 'e' ∨ letter = 'E') ∧ digits ≠ [] ∧ digits.all Char.isDigit then
      some (if negative then -(Text.decimalValue digits : Int) else Text.decimalValue digits)
    else none

/-- The number nearest to what a text writes: a sign, digits with a point at any place, and an
exponent; all but one digit may be missing. -/
def ofChars? (text : List Char) : Option Extended :=
  let (negative, text) := splitSign text
  let whole := text.takeWhile Char.isDigit
  let text := text.dropWhile Char.isDigit
  let (places, text) :=
    match text with
    | '.' :: rest => (rest.takeWhile Char.isDigit, rest.dropWhile Char.isDigit)
    | _ => ([], text)
  if whole ++ places = [] then none
  else
    (exponentOf? text).map fun exponent =>
      ofDecimal negative (Text.decimalValue (whole ++ places)) (exponent - (places.length : Int))

end Extended

end NodeView
