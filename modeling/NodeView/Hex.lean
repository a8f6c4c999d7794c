import NodeView.Text.Quoted
import NodeView.Text.Scan
/-!
# NodeView.Hex

Byte strings written as hexadecimal text, two digits a byte and the high one first.

* Writing uses lower-case digits; reading takes either case and nothing else: no blanks, no
  sign, no separators.
* Reading looks at the *bytes* of the text. An odd number of them is reported before any
  digit is looked at; a byte that is no digit is reported with its offset, and shown as the
  character that has its value as code point.
-/

namespace NodeView.Hex

/-- Why a text is not a byte string in hexadecimal. -/
inductive Fault where
  /-- The text cannot be cut into pairs of digits. -/
  | oddLength
  /-- The byte at this offset is no hexadecimal digit. -/
  | notADigit (byte : UInt8) (position : Nat)
  deriving DecidableEq, Repr

/-- The wording of a fault. -/
def Fault.message : Fault → String
  | .oddLength => "Odd number of digits"
  | .notADigit byte position =>
    "Invalid character " ++ Text.quotedSingle (Char.ofNat byte.toNat) ++ " at position "
      ++ toString position

/-- The value of a hexadecimal digit, given as its ASCII code. -/
def digitValue? (byte : UInt8) : Option Nat := Text.hexValue? (Char.ofNat byte.toNat)

/-- The digit of a value below sixteen. -/
def digit (n : Nat) : Char := Nat.digitChar n

theorem digitValue?_digit {n : Nat} (h : n < 16) :
    digitValue? (digit n).toNat.toUInt8 = some n := by
  have all : ∀ m : Fin 16, digitValue? (digit m.val).toNat.toUInt8 = some m.val := by decide
  exact all ⟨n, h⟩

/-- Reads pairs of digits; `position` is the offset of the first of them, and `done` holds the
bytes read so far, the last one first. -/
def decodePairs (position : Nat) (done : List UInt8) : List UInt8 → Except Fault (List UInt8)
  | [] => .ok done.reverse
  | [_] => .error .oddLength
  | high :: low :: rest =>
    match digitValue? high with
    | none => .error (.notADigit high position)
    | some h =>
      match digitValue? low with
      | none => .error (.notADigit low (position + 1))
      | some l => decodePairs (position + 2) ((16 * h + l).toUInt8 :: done) rest

/-- Reads a hexadecimal text, given as its bytes. -/
def decodeBytes (text : List UInt8) : Except Fault (List UInt8) :=
  if text.length % 2 = 1 then .error .oddLength else decodePairs 0 [] text

/-- Reads a hexadecimal text. -/
def decode (text : String) : Except Fault (List UInt8) :=
  decodeBytes text.toUTF8.data.toList

/-- Writes a byte string with two lower-case digits a byte. -/
def encode (bytes : List UInt8) : String :=
  String.ofList (bytes.flatMap fun b => [digit (b.toNat / 16), digit (b.toNat % 16)])

end NodeView.Hex
