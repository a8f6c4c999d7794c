import NodeView.Json.Fault
import NodeView.Text.Scan
/-!
# NodeView.Json.Text

Strings in a JSON text: characters, and escapes for those that cannot stand for themselves.

A character outside the basic plane may be escaped as a pair of surrogates; a surrogate alone
is no character and is refused.
-/

namespace NodeView.Json

open Text (hexValue?)

/-- Reads four hexadecimal digits. A text of less than four bytes ends too early, whatever it
holds. -/
def readHex (text : List Char) : Reading Nat :=
  match text with
  | a :: b :: c :: d :: rest =>
    match hexValue? a, hexValue? b, hexValue? c, hexValue? d with
    | some a, some b, some c, some d => .ok (((a * 16 + b) * 16 + c) * 16 + d, rest)
    | _, _, _, _ => .error .invalidEscape
  | _ =>
    if (String.ofList text).utf8ByteSize < 4 then .error .endInString else .error .invalidEscape

/-- Whether a code unit is the first half of a surrogate pair. -/
def isHighSurrogate (n : Nat) : Bool := 0xD800 ≤ n && n ≤ 0xDBFF

/-- Whether a code unit is the second half of a surrogate pair. -/
def isLowSurrogate (n : Nat) : Bool := 0xDC00 ≤ n && n ≤ 0xDFFF

/-- The code point of a surrogate pair. -/
def joinSurrogates (high low : Nat) : Nat := (high - 0xD800) * 0x400 + (low - 0xDC00) + 0x10000

/-- Reads an escape by number behind its letter. -/
def readUnicodeEscape (text : List Char) : Reading Char :=
  match readHex text with
  | .error fault => .error fault
  | .ok (n, rest) =>
    if isLowSurrogate n then .error .loneSurrogate
    else if isHighSurrogate n then
      match rest with
      | [] => .error .endInString
      | ['\\'] => .error .endInString
      | '\\' :: 'u' :: rest =>
        match readHex rest with
        | .error fault => .error fault
        | .ok (m, rest) =>
          if isLowSurrogate m then .ok (Char.ofNat (joinSurrogates n m), rest)
          else .error .loneSurrogate
      | _ => .error .halfSurrogatePair
    else .ok (Char.ofNat n, rest)

/-- Reads an escape behind its backslash. -/
def readEscape : List Char → Reading Char
  | [] => .error .endInString
  | '"' :: rest => .ok ('"', rest)
  | '\\' :: rest => .ok ('\\', rest)
  | '/' :: rest => .ok ('/', rest)
  | 'b' :: rest => .ok ('\x08', rest)
  | 'f' :: rest => .ok ('\x0c', rest)
  | 'n' :: rest => .ok ('\n', rest)
  | 'r' :: rest => .ok ('\r', rest)
  | 't' :: rest => .ok ('\t', rest)
  | 'u' :: rest => readUnicodeEscape rest
  | _ => .error .invalidEscape

/-- Reads a string up to its closing quote; `done` holds its characters so far, the last one
first. Each of them takes something of the text and one item of `bound`, so that a bound as long
as the text lasts. -/
def readStringFrom (done : List Char) : (bound text : List Char) → Reading String
  | [], _ => .error .endInString
  | _ :: bound, text =>
    match text with
    | [] => .error .endInString
    | '"' :: rest => .ok (String.ofList done.reverse, rest)
    | '\\' :: rest =>
      match readEscape rest with
      | .error fault => .error fault
      | .ok (c, rest) => readStringFrom (c :: done) bound rest
    | c :: rest =>
      if c.toNat < 0x20 then .error .controlCharacter else readStringFrom (c :: done) bound rest

/-- Reads a string behind its opening quote. -/
def readString (text : List Char) : Reading String := readStringFrom [] text text

end NodeView.Json
