import NodeView.Decimal.Shortest
import NodeView.Text.Scan
/-!
# NodeView.Settings.SocketAddress

Where a server listens: an Internet address of either version with a port.

* Reading takes the usual texts: four decimal octets without needless zeros, or up to eight
  hexadecimal groups between brackets, where `::` stands for one run of zero groups, the last
  two groups may be written as octets, and a numeric scope may follow a `%`.
* Writing has one text for each address: lower-case groups without needless zeros, the longest
  run of two or more zero groups (the first of equals) as `::`, octets for the addresses that
  stand for one of the older version, and no scope if it is zero.
-/

namespace NodeView

/-- An Internet address with a port. -/
inductive SocketAddress where
  /-- Four octets. -/
  | v4 (octets : Vector UInt8 4) (port : UInt16)
  /-- Eight groups, and the scope in which they are meant. -/
  | v6 (groups : Vector UInt16 8) (scope : UInt32) (port : UInt16)
  deriving DecidableEq

namespace SocketAddress

open Text (digitIn? ofDigitValues readChar)

/-! ### Numbers -/

/-- The digits at the front of a text. -/
def digitsOf (base : Nat) (text : List Char) : List Nat × List Char :=
  ((text.takeWhile fun c => (digitIn? base c).isSome).filterMap (digitIn? base),
   text.dropWhile fun c => (digitIn? base c).isSome)

/-- Reads a number of at most `bound`, and yields it with the text behind it; `accepts` judges
its digits. -/
def readNumber (base bound : Nat) (accepts : List Nat → Bool) (text : List Char) :
    Option (Nat × List Char) :=
  let (digits, rest) := digitsOf base text
  let value := ofDigitValues base digits
  if digits ≠ [] ∧ accepts digits ∧ value ≤ bound then some (value, rest) else none

/-- Reads one octet: up to three digits, without a needless zero in front. -/
def readOctet : List Char → Option (Nat × List Char) :=
  readNumber 10 255 fun digits =>
    digits.length ≤ 3 && (digits.length ≤ 1 || digits.head? != some 0)

/-- Reads one group: up to four hexadecimal digits. -/
def readGroup : List Char → Option (Nat × List Char) :=
  readNumber 16 65535 fun digits => digits.length ≤ 4

/-- Reads a port behind its colon. -/
def readPort (text : List Char) : Option (Nat × List Char) := do
  readNumber 10 65535 (fun _ => true) (← readChar ':' text)

/-! ### Addresses of the older version -/

/-- Reads four octets with points between them. -/
def readOctets (text : List Char) : Option (Vector Nat 4 × List Char) := do
  let (a, text) ← readOctet text
  let (b, text) ← readOctet (← readChar '.' text)
  let (c, text) ← readOctet (← readChar '.' text)
  let (d, text) ← readOctet (← readChar '.' text)
  return (#v[a, b, c, d], text)

/-! ### Addresses of the newer version -/

/-- Reads up to `limit` groups with colons between them, behind `index` groups that were read
before; the last two may be written as four octets. Yields the groups, whether they end in
octets, and the rest. -/
def readGroups : (limit : Nat) → (index : Nat) → List Char → List Nat × Bool × List Char
  | 0, _, text => ([], false, text)
  | limit + 1, index, text =>
    let start := if index = 0 then some text else readChar ':' text
    let octets := if limit = 0 then none else start.bind readOctets
    match octets with
    | some (octets, rest) =>
      ([256 * octets[0] + octets[1], 256 * octets[2] + octets[3]], true, rest)
    | none =>
      match start.bind readGroup with
      | none => ([], false, text)
      | some (group, rest) =>
        let (groups, inOctets, rest) := readGroups limit (index + 1) rest
        (group :: groups, inOctets, rest)

/-- The eight groups that a list of numbers gives; missing ones are zero. -/
def groupsOfList (groups : List Nat) : Vector UInt16 8 :=
  Vector.ofFn fun i => UInt16.ofNat (groups.getD i.val 0)

/-- Reads eight groups, of which one run of zeros may be left out. -/
def readV6 (text : List Char) : Option (Vector UInt16 8 × List Char) := do
  let (front, inOctets, rest) := readGroups 8 0 text
  if front.length = 8 then return (groupsOfList front, rest)
  if inOctets then none
  let rest ← readChar ':' rest
  let rest ← readChar ':' rest
  let (back, _, rest) := readGroups (7 - front.length) 0 rest
  return (groupsOfList (front ++ List.replicate (8 - front.length - back.length) 0 ++ back), rest)

/-- Reads a scope behind its percent sign. -/
def readScope (text : List Char) : Option (Nat × List Char) := do
  readNumber 10 (2 ^ 32 - 1) (fun _ => true) (← readChar '%' text)

/-! ### Reading -/

/-- Reads an address of the older version with its port. -/
def readSocketV4 (text : List Char) : Option (SocketAddress × List Char) := do
  let (octets, text) ← readOctets text
  let (port, text) ← readPort text
  return (.v4 (octets.map UInt8.ofNat) (UInt16.ofNat port), text)

/-- Reads an address of the newer version with its port. -/
def readSocketV6 (text : List Char) : Option (SocketAddress × List Char) := do
  let (groups, text) ← readV6 (← readChar '[' text)
  let (scope, text) := (readScope text).getD (0, text)
  let (port, text) ← readPort (← readChar ']' text)
  return (.v6 groups (UInt32.ofNat scope) (UInt16.ofNat port), text)

/-- The address that a text writes. -/
def ofChars? (text : List Char) : Option SocketAddress :=
  match (readSocketV4 text).or (readSocketV6 text) with
  | some (address, []) => some address
  | _ => none

/-- The address that a text writes. -/
def ofText? (text : String) : Option SocketAddress := ofChars? text.toList

/-! ### Writing -/

/-- The length of the run of zeros at the front. -/
def zeroRun (groups : List UInt16) : Nat := (groups.takeWhile (· = 0)).length

/-- The longest run of zero groups, as its start and its length; the first of equals. -/
def longestZeroRun (groups : List UInt16) : Nat × Nat :=
  (List.range groups.length).foldl
    (fun best start =>
      let length := zeroRun (groups.drop start)
      if best.2 < length then (start, length) else best)
    (0, 0)

/-- Some texts with a separator between them. -/
def separated (separator : Char) : List (List Char) → List Char
  | [] => []
  | [piece] => piece
  | piece :: pieces => piece ++ separator :: separated separator pieces

/-- Groups with colons between them. -/
def groupChars (groups : List UInt16) : List Char :=
  separated ':' (groups.map fun group => Nat.toDigits 16 group.toNat)

/-- Octets with points between them. -/
def octetChars (octets : List Nat) : List Char :=
  separated '.' (octets.map Decimal.digitsOf)

/-- The octets of an address that stands for one of the older version. -/
def mappedOctets? (groups : List UInt16) : Option (List Nat) :=
  match groups with
  | [0, 0, 0, 0, 0, 0xffff, high, low] =>
    some [high.toNat / 256, high.toNat % 256, low.toNat / 256, low.toNat % 256]
  | _ => none

/-- The text of eight groups. -/
def v6Chars (groups : List UInt16) : List Char :=
  match mappedOctets? groups with
  | some octets => [':', ':', 'f', 'f', 'f', 'f', ':'] ++ octetChars octets
  | none =>
    let (start, length) := longestZeroRun groups
    if 2 ≤ length then
      groupChars (groups.take start) ++ [':', ':'] ++ groupChars (groups.drop (start + length))
    else groupChars groups

/-- The text of an address. -/
def chars : SocketAddress → List Char
  | .v4 octets port =>
    octetChars (octets.toList.map UInt8.toNat) ++ ':' :: Decimal.digitsOf port.toNat
  | .v6 groups scope port =>
    '[' :: v6Chars groups.toList
      ++ (if scope = 0 then [] else '%' :: Decimal.digitsOf scope.toNat)
      ++ ']' :: ':' :: Decimal.digitsOf port.toNat

/-- The text of an address. -/
def text (address : SocketAddress) : String := String.ofList address.chars

end SocketAddress

end NodeView
