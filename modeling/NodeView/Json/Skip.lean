import NodeView.Json.Parser
/-!
# NodeView.Json.Skip

Passing over a JSON value that nobody asks for.

The value is checked less strictly than one that is read: the halves of a surrogate pair need
not fit, numbers may be of any size, keys may be given twice, and there is no limit to the depth.
What is open is kept in a list, the innermost array or object first.
-/

namespace NodeView.Json

/-- What can be open around a value. -/
inductive Enclosure where
  | list
  | object
  deriving DecidableEq, Repr

namespace Enclosure

/-- The character that closes it. -/
def closing : Enclosure → Char
  | .list => ']'
  | .object => '\x7d'

/-- The fault where the text ends inside it. -/
def atEnd : Enclosure → Fault
  | .list => .endInList
  | .object => .endInObject

/-- The fault where an item is followed by neither a comma nor the end. -/
def notContinued : Enclosure → Fault
  | .list => .expectedListEnd
  | .object => .expectedObjectEnd

end Enclosure

/-! ### Strings and numbers -/

/-- Passes over an escape behind its backslash. -/
def skipEscape : List Char → Except Fault (List Char)
  | [] => .error .endInString
  | 'u' :: rest => (readHex rest).map Prod.snd
  | c :: rest => if c ∈ ['"', '\\', '/', 'b', 'f', 'n', 'r', 't'] then .ok rest
    else .error .invalidEscape

/-- Passes over a string up to its closing quote. Each character takes something of the text and
one item of `bound`, so that a bound as long as the text lasts. -/
def skipStringFrom : (bound text : List Char) → Except Fault (List Char)
  | [], _ => .error .endInString
  | _ :: bound, text =>
    match text with
    | [] => .error .endInString
    | '"' :: rest => .ok rest
    | '\\' :: rest =>
      match skipEscape rest with
      | .error fault => .error fault
      | .ok rest => skipStringFrom bound rest
    | c :: rest => if c.toNat < 0x20 then .error .controlCharacter else skipStringFrom bound rest

/-- Passes over a string behind its opening quote. -/
def skipString (text : List Char) : Except Fault (List Char) := skipStringFrom text text

/-- Passes over one or more digits. -/
def skipDigits : List Char → Except Fault (List Char)
  | [] => .error .invalidNumber
  | c :: rest => if c.isDigit then .ok (rest.dropWhile Char.isDigit) else .error .invalidNumber

/-- Passes over an exponent, if there is one. -/
def skipExponent : List Char → Except Fault (List Char)
  | 'e' :: rest | 'E' :: rest =>
    match rest with
    | '+' :: digits | '-' :: digits => skipDigits digits
    | digits => skipDigits digits
  | text => .ok text

/-- Passes over a number behind its sign. -/
def skipUnsigned (text : List Char) : Except Fault (List Char) := do
  let rest ←
    match text with
    | '0' :: c :: rest => if c.isDigit then .error .invalidNumber else .ok (c :: rest)
    | _ => skipDigits text
  match rest with
  | '.' :: digits => skipExponent (← skipDigits digits)
  | _ => skipExponent rest

/-! ### Values -/

/-- Passes over a value without parts, or opens one with parts. -/
def skipStart : List Char → Except Fault (Option Enclosure × List Char)
  | [] => .error .endInValue
  | '[' :: rest => .ok (some .list, rest)
  | '\x7b' :: rest => .ok (some .object, rest)
  | '"' :: rest => (skipString rest).map (none, ·)
  | '-' :: rest => (skipUnsigned rest).map (none, ·)
  | c :: rest =>
    if c.isDigit then (skipUnsigned (c :: rest)).map (none, ·)
    else
      (readValueWith (fun _ => .error .expectedValue) (fun _ => .error .expectedValue)
        (c :: rest)).map fun (_, rest) => (none, rest)

/-- Closes what ends here, up to the comma behind an item; `behindItem` says whether an item
precedes. Yields what is still open, with the text of the next item. -/
def skipEnds : (behindItem : Bool) → List Enclosure → List Char →
    Except Fault (List Enclosure × List Char)
  | _, [], text => .ok ([], text)
  | behindItem, enclosure :: outer, text =>
    match skipBlanks text with
    | [] => .error enclosure.atEnd
    | c :: rest =>
      if c = enclosure.closing then skipEnds true outer rest
      else if ¬ behindItem then .ok (enclosure :: outer, c :: rest)
      else if c = ',' then .ok (enclosure :: outer, rest)
      else .error enclosure.notContinued

/-- Passes over the key of a member with its colon. -/
def skipKey (text : List Char) : Except Fault (List Char) :=
  match skipBlanks text with
  | [] => .error .endInObject
  | '"' :: rest => do
    match skipBlanks (← skipString rest) with
    | [] => .error .endInObject
    | ':' :: rest => .ok rest
    | _ => .error .expectedColon
  | _ => .error .keyNotString

/-- Passes over a value and what follows it inside all that is open. Each value takes something
of the text and one item of `bound`, so that a bound as long as the text lasts. -/
def skipWithin (enclosures : List Enclosure) : (bound text : List Char) → Except Fault (List Char)
  | [], _ => .error .endInValue
  | _ :: bound, text =>
    match skipStart (skipBlanks text) with
    | .error fault => .error fault
    | .ok (opened, rest) =>
      match skipEnds opened.isNone (opened.toList ++ enclosures) rest with
      | .error fault => .error fault
      | .ok ([], rest) => .ok rest
      | .ok (enclosure :: outer, rest) =>
        match if enclosure = .object then skipKey rest else .ok rest with
        | .error fault => .error fault
        | .ok rest => skipWithin (enclosure :: outer) bound rest

/-- Passes over a value. -/
def skipValue (text : List Char) : Except Fault (List Char) := skipWithin [] text text

end NodeView.Json
