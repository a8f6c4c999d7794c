import NodeView.Json.Fault
import NodeView.Json.Value
import NodeView.Text.Scan
/-!
# NodeView.Json.Number

Numbers in a JSON text.

An integer that fits 64 bits, signed or unsigned, is kept as it is. Every other number becomes
a binary64 number in two steps that are each rounded: the digits are gathered into a 64-bit
significand, and that is scaled by a power of ten.

* Digits are gathered as long as the significand does not overflow. From the first integer
  digit that would overflow it, integer digits only count as powers of ten, while each digit of
  the fraction is still tried; the first fraction digit that would overflow ends the gathering.
* Powers of ten beyond 10^308 are taken off in steps of that size.

So the result is not always the nearest number of the format.
-/

namespace NodeView.Json

open Text (decimalValue digitValue)

/-- What a number in a text stands for. -/
inductive Number where
  | integer (n : Int)
  | float (x : Binary64)
  deriving DecidableEq

/-- The value that a number is. -/
def Number.toJson : Number → Json
  | .integer n => .integer n
  | .float x => .float x

/-- Whether one more digit still fits a 64-bit significand. -/
def fits (significand : Nat) (c : Char) : Bool :=
  10 * significand + digitValue c < 2 ^ 64

/-! ### Gathering digits -/

/-- Gathers the digits of the integer part. Yields the significand, how many digits only count
as powers of ten, and the text behind the digits. -/
def gatherInteger (significand dropped : Nat) : List Char → Nat × Nat × List Char
  | [] => (significand, dropped, [])
  | c :: rest =>
    if c.isDigit then
      if dropped = 0 && fits significand c then
        gatherInteger (10 * significand + digitValue c) 0 rest
      else gatherInteger significand (dropped + 1) rest
    else (significand, dropped, c :: rest)

/-- Gathers the digits of the fraction. Yields the significand, how many digits it took, and
the text behind all the digits. -/
def gatherFraction (significand taken : Nat) : List Char → Nat × Nat × List Char
  | [] => (significand, taken, [])
  | c :: rest =>
    if c.isDigit then
      if fits significand c then
        gatherFraction (10 * significand + digitValue c) (taken + 1) rest
      else (significand, taken, rest.dropWhile Char.isDigit)
    else (significand, taken, c :: rest)

/-! ### Scaling -/

/-- The largest power of ten in the format. -/
def maxPower : Nat := 308

/-- Divides a number by another, so many times or until it is zero. -/
def divideTimes (divisor : Binary64) : (times : Nat) → Binary64 → Option Binary64
  | 0, x => some x
  | times + 1, x =>
    if x.isZero then some x
    else
      match x.div? divisor with
      | none => none
      | some y => divideTimes divisor times y

/-- Scales a number by `10 ^ -k`, in steps of at most `maxPower`. -/
def scaleDown (x : Binary64) (k : Nat) : Option Binary64 :=
  let times := (k - 1) / maxPower
  match divideTimes (Binary64.powerOfTen maxPower) times x with
  | none => none
  | some y => y.div? (Binary64.powerOfTen (k - maxPower * times))

/-- The number `significand · 10 ^ exponent`, rounded after each step, with a sign. -/
def scale (negative : Bool) (significand : Nat) (exponent : Int) : Except Fault Number :=
  let start := (Binary64.ofQuotient? negative significand 1).getD (Binary64.zero negative)
  let result :=
    if exponent < 0 then scaleDown start exponent.natAbs
    else if exponent ≤ maxPower then start.mul? (Binary64.powerOfTen exponent.natAbs)
    else if start.isZero then some start
    else none
  match result with
  | none => .error .numberOutOfRange
  | some x => .ok (.float x)

/-! ### Reading -/

/-- Reads an exponent behind its letter and scales the number by it. -/
def readExponent (negative : Bool) (significand : Nat) (exponent : Int) (text : List Char) :
    Reading Number :=
  let (down, text) :=
    match text with
    | '+' :: rest => (false, rest)
    | '-' :: rest => (true, rest)
    | _ => (false, text)
  let digits := text.takeWhile Char.isDigit
  let rest := text.dropWhile Char.isDigit
  if digits = [] then
    if text = [] then .error .endInValue else .error .invalidNumber
  else
    let written := decimalValue digits
    if 2 ^ 31 ≤ written then
      if significand ≠ 0 ∧ ¬ down then .error .numberOutOfRange
      else .ok (.float (Binary64.zero negative), rest)
    else
      (scale negative significand (exponent + (if down then -(written : Int) else written))).map
        (·, rest)

/-- Reads what follows the digits of a number that is not an integer. -/
def readScale (negative : Bool) (significand : Nat) (exponent : Int) (text : List Char) :
    Reading Number :=
  match text with
  | 'e' :: rest | 'E' :: rest => readExponent negative significand exponent rest
  | _ => (scale negative significand exponent).map (·, text)

/-- The number that an integer without fraction and exponent is. -/
def integerNumber (negative : Bool) (significand : Nat) : Number :=
  if negative then
    if 0 < significand && significand ≤ 2 ^ 63 then .integer (-(significand : Int))
    else .float ((Binary64.ofQuotient? true significand 1).getD (Binary64.zero true))
  else .integer significand

/-- Reads what follows the integer part of a number. -/
def readFraction (negative : Bool) (significand dropped : Nat) (text : List Char) :
    Reading Number :=
  match text with
  | '.' :: rest =>
    match rest with
    | [] => .error .endInValue
    | c :: _ =>
      if c.isDigit then
        let (significand, taken, rest) := gatherFraction significand 0 rest
        readScale negative significand ((dropped : Int) - taken) rest
      else .error .invalidNumber
  | 'e' :: _ | 'E' :: _ => readScale negative significand dropped text
  | _ =>
    if dropped = 0 then .ok (integerNumber negative significand, text)
    else readScale negative significand dropped text

/-- Reads a number behind its sign. -/
def readUnsigned (negative : Bool) : List Char → Reading Number
  | [] => .error .endInValue
  | '0' :: rest =>
    match rest with
    | c :: _ => if c.isDigit then .error .invalidNumber else readFraction negative 0 0 rest
    | [] => readFraction negative 0 0 rest
  | c :: rest =>
    if c.isDigit then
      let (significand, dropped, rest) := gatherInteger (digitValue c) 0 rest
      readFraction negative significand dropped rest
    else .error .invalidNumber

/-- Reads a number that starts with a sign or a digit. -/
def readNumber : List Char → Reading Number
  | '-' :: rest => readUnsigned true rest
  | text => readUnsigned false text

end NodeView.Json
