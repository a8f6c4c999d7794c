import NodeView.Toml.Text
import NodeView.Toml.Value
/-!
# NodeView.Toml.Number

Numbers, dates and times in a TOML document.

* Single underscores may stand between digits.
* Whole numbers fit 64 bits with a sign; they are decimal without needless zeros, or
  hexadecimal, octal or binary behind `0x`, `0o` and `0b`, and then without a sign.
* A number with places or an exponent is rounded to the nearest one; only towards minus
  infinity may it get out of range.
* Dates are days of the calendar, times have hours, minutes and seconds.
-/

namespace NodeView.Toml

/-! ### Digits -/

/-- Reads more digits, each with at most one underscore before it; `done` holds those read so
far, the last one first. -/
def readMoreDigits (isDigit : Char → Bool) (done : List Char) :
    List Char → Option (List Char × List Char)
  | [] => some (done.reverse, [])
  | '_' :: rest =>
    match rest with
    | c :: rest => if isDigit c then readMoreDigits isDigit (c :: done) rest else none
    | [] => none
  | c :: rest =>
    if isDigit c then readMoreDigits isDigit (c :: done) rest else some (done.reverse, c :: rest)

/-- Reads one or more digits with single underscores between them. -/
def readDigits (isDigit : Char → Bool) : List Char → Option (List Char × List Char)
  | [] => none
  | c :: rest => if isDigit c then readMoreDigits isDigit [c] rest else none

/-- Reads the digits of a decimal whole number without needless zeros. -/
def readWhole : List Char → Option (List Char × List Char)
  | '0' :: rest => some (['0'], rest)
  | text => readDigits Char.isDigit text

/-- The number that digits write in a base. -/
def valueIn (base : Nat) (digits : List Char) : Nat :=
  Text.ofDigitValues base (digits.map fun c => (Text.hexValue? c).getD 0)

/-! ### Whole numbers -/

/-- Whether a character is a digit in a base of at most sixteen. -/
def isDigitIn (base : Nat) (c : Char) : Bool := (Text.digitIn? base c).isSome

/-- Reads the digits of a whole number in a base. -/
def readBased (base : Nat) (text : List Char) : Option (Toml × List Char) := do
  let (digits, rest) ← readDigits (isDigitIn base) text
  let n := valueIn base digits
  if n < 2 ^ 63 then some (.integer n, rest) else none

/-- Reads a decimal whole number. -/
def readDecimal (text : List Char) : Option (Toml × List Char) := do
  let (negative, unsigned) := Extended.splitSign text
  let (digits, rest) ← readWhole unsigned
  let n := valueIn 10 digits
  if negative then
    if n ≤ 2 ^ 63 then some (.integer (-(n : Int)), rest) else none
  else if n < 2 ^ 63 then some (.integer n, rest) else none

/-- Reads a whole number. -/
def readInteger : List Char → Option (Toml × List Char)
  | '0' :: 'x' :: rest => readBased 16 rest
  | '0' :: 'o' :: rest => readBased 8 rest
  | '0' :: 'b' :: rest => readBased 2 rest
  | text => readDecimal text

/-! ### Numbers with places or an exponent -/

/-- Reads an exponent, if its letter is there. -/
def readExponent? : List Char → Option (Option Int × List Char)
  | [] => some (none, [])
  | c :: rest =>
    if c = 'e' ∨ c = 'E' then do
      let (negative, unsigned) := Extended.splitSign rest
      let (digits, rest) ← readDigits Char.isDigit unsigned
      let n := valueIn 10 digits
      return (some (if negative then -(n : Int) else n), rest)
    else some (none, c :: rest)

/-- Reads the places behind a point, if the point is there. -/
def readPlaces? : List Char → Option (Option (List Char) × List Char)
  | '.' :: rest => (readDigits Char.isDigit rest).map fun (digits, rest) => (some digits, rest)
  | text => some (none, text)

/-- Reads a number with places or an exponent. -/
def readReal (text : List Char) : Option (Toml × List Char) := do
  let (negative, unsigned) := Extended.splitSign text
  let (whole, rest) ← readWhole unsigned
  let (places, rest) ← readPlaces? rest
  let (exponent, rest) ← readExponent? rest
  if places.isNone ∧ exponent.isNone then none
  let places := places.getD []
  let x := Extended.ofDecimal negative (valueIn 10 (whole ++ places))
    (exponent.getD 0 - (places.length : Int))
  if x = .infinite false then none else some (.float x, rest)

/-- Reads an infinity, or the value that is no number. -/
def readSpecial (text : List Char) : Option (Toml × List Char) :=
  match Extended.splitSign text with
  | (negative, 'i' :: 'n' :: 'f' :: rest) => some (.float (.infinite negative), rest)
  | (_, 'n' :: 'a' :: 'n' :: rest) => some (.float .notANumber, rest)
  | _ => none

/-! ### Dates and times -/

/-- Reads exactly so many decimal digits. -/
def readFixed (count : Nat) (text : List Char) : Option (Nat × List Char) :=
  let digits := text.take count
  if digits.length = count ∧ digits.all Char.isDigit then
    some (valueIn 10 digits, text.drop count)
  else none

/-- Reads a number of two digits in a range. -/
def readTwo (first last : Nat) (text : List Char) : Option (Nat × List Char) :=
  match readFixed 2 text with
  | some (n, rest) => if first ≤ n ∧ n ≤ last then some (n, rest) else none
  | none => none

/-- How many days a month has. -/
def daysIn (year month : Nat) : Nat :=
  if month = 2 then
    if year % 4 = 0 ∧ (year % 100 ≠ 0 ∨ year % 400 = 0) then 29 else 28
  else if month = 4 ∨ month = 6 ∨ month = 9 ∨ month = 11 then 30
  else 31

/-- Passes over a date. -/
def readDate (text : List Char) : Option (List Char) := do
  let (year, text) ← readFixed 4 text
  let (month, text) ← readTwo 1 12 (← Text.readChar '-' text)
  let (_, text) ← readTwo 1 (daysIn year month) (← Text.readChar '-' text)
  return text

/-- Passes over the places of a second, if they are there. -/
def skipFraction : List Char → List Char
  | '.' :: c :: rest => if c.isDigit then rest.dropWhile Char.isDigit else '.' :: c :: rest
  | text => text

/-- Passes over a time; a minute may have one second more. -/
def readTime (text : List Char) : Option (List Char) := do
  let (_, text) ← readTwo 0 23 text
  let (_, text) ← readTwo 0 59 (← Text.readChar ':' text)
  let (_, text) ← readTwo 0 60 (← Text.readChar ':' text)
  return skipFraction text

/-- Passes over the distance from a zone, if it is there. -/
def skipOffset (text : List Char) : List Char :=
  match text with
  | 'Z' :: rest | 'z' :: rest => rest
  | '+' :: rest | '-' :: rest =>
    let offset := do
      let (_, rest) ← readTwo 0 23 rest
      let (_, rest) ← readTwo 0 59 (← Text.readChar ':' rest)
      return rest
    offset.getD text
  | _ => text

/-- Passes over a time behind a date, if it is there. -/
def skipTime : List Char → List Char
  | c :: rest =>
    if c = 'T' ∨ c = 't' ∨ c = ' ' then
      match readTime rest with
      | some rest => skipOffset rest
      | none => c :: rest
    else c :: rest
  | [] => []

/-- Reads a date, a time or both. -/
def readMoment (text : List Char) : Option (Toml × List Char) :=
  match ((readDate text).map skipTime).or (readTime text) with
  | some rest => some (.moment (String.ofList (text.take (text.length - rest.length))), rest)
  | none => none

/-! ### Any of them -/

/-- Reads a number, a date or a time. -/
def readNumber (text : List Char) : Option (Toml × List Char) :=
  (readMoment text).or ((readReal text).or ((readSpecial text).or (readInteger text)))

end NodeView.Toml
