import NodeView.Text.Scan
/-!
# NodeView.Text.Escape

Texts between double quotes, with escapes behind backslashes.

A quote, a backslash and a few control characters have escapes of one letter; any character has
one by its number, with four or eight hexadecimal digits. No control character but the tab
stands for itself.
-/

namespace NodeView.Text

/-- Whether a character other than the tab is a control character of ASCII. -/
def isControl (c : Char) : Bool := (c.toNat < 0x20 && c ≠ '\t') || c.toNat = 0x7f

/-- The character that some hexadecimal digits name, if there is one. -/
def charOfHex? (digits : List Char) : Option Char := do
  let values ← digits.mapM hexValue?
  let n := ofDigitValues 16 values
  if n.isValidChar then some (Char.ofNat n) else none

/-- The character that a letter stands for behind a backslash. -/
def simpleEscape? : Char → Option Char
  | '"' => some '"'
  | '\\' => some '\\'
  | 'b' => some '\x08'
  | 'f' => some '\x0c'
  | 'n' => some '\n'
  | 'r' => some '\r'
  | 't' => some '\t'
  | _ => none

/-- How many hexadecimal digits follow a letter behind a backslash. -/
def hexEscape? : Char → Option Nat
  | 'u' => some 4
  | 'U' => some 8
  | _ => none

/-- Reads an escape behind its backslash. -/
def readEscape : List Char → Option (Char × List Char)
  | [] => none
  | letter :: rest =>
    match simpleEscape? letter, hexEscape? letter with
    | some c, _ => some (c, rest)
    | none, some count =>
      if rest.length < count then none
      else (charOfHex? (rest.take count)).map (·, rest.drop count)
    | none, none => none

/-- Reads a text up to its closing quote; `done` holds its characters so far, the last one
first. Each of them takes something of the text and one item of `bound`, so that a bound as long
as the text lasts. -/
def readQuotedFrom (done : List Char) : (bound text : List Char) → Option (String × List Char)
  | [], _ => none
  | _ :: bound, text =>
    match text with
    | [] => none
    | '"' :: rest => some (String.ofList done.reverse, rest)
    | '\\' :: rest =>
      match readEscape rest with
      | none => none
      | some (c, rest) => readQuotedFrom (c :: done) bound rest
    | c :: rest => if isControl c then none else readQuotedFrom (c :: done) bound rest

/-- Reads a text behind its opening quote. -/
def readQuoted (text : List Char) : Option (String × List Char) := readQuotedFrom [] text text

end NodeView.Text
