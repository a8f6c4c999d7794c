import NodeView.Wire.Field
/-!
# NodeView.Wire.Reader

From bytes to the fields of a message.

* A nested message is not cut out before it is read. Its length is compared with all the input
  that is left, and its fields are read until they reach the point where it should end; a field
  that runs past that point is found out only afterwards (`overrun`). So what lies behind a
  nested message can decide *which* fault is reported, and never whether there is one.
* Reading a message spends one unit of a budget for every message, map entry or group it
  enters, and one for every field it skips; what has none left fails (`tooDeep`).
* The wire type of a declared field is checked against its kind, except for maps: whatever the
  key of a map says, a length and an entry are read.
-/

namespace NodeView.Wire

/-- The nesting that the fields of a message may use. -/
def nestingBudget : Nat := 100

/-! ### Lists of items -/

/-- Reads items until at most `stop` bytes are left; `done` holds those read so far, the last
one first. An item that takes no bytes would be read for ever and counts as missing. -/
def readUntil {α : Type} (item : Input → Except Fault (α × Input)) (stop : Nat) (done : List α)
    (input : Input) : Except Fault (List α × Input) :=
  if input.size ≤ stop then .ok (done.reverse, input)
  else
    match item input with
    | .error fault => .error fault
    | .ok (value, rest) =>
      if rest.size < input.size then readUntil item stop (value :: done) rest
      else fail .underflow
termination_by input.size

/-- Reads a length and then items until that many bytes are used up. -/
def readDelimited {α : Type} (item : Input → Except Fault (α × Input)) (input : Input) :
    Except Fault (List α × Input) :=
  match readNumber input with
  | .error fault => .error fault
  | .ok (length, body) =>
    if body.size < length then fail .underflow
    else
      match readUntil item (body.size - length) [] body with
      | .error fault => .error fault
      | .ok (items, rest) =>
        if rest.size = body.size - length then .ok (items, rest) else fail .overrun

/-! ### Skipping -/

/-- Passes over the next `n` bytes. -/
def skipBytes (n : Nat) (input : Input) : Except Fault Input :=
  if input.size < n then fail .underflow else .ok (input.drop n)

/-- Passes over the rest of the group with this number; `skip` passes over one payload. -/
def skipGroup (skip : WireType → Nat → Input → Except Fault Input) (number : Nat)
    (input : Input) : Except Fault Input :=
  match readKey input with
  | .error fault => .error fault
  | .ok (key, rest) =>
    if key.wire = .endGroup then
      if key.number = number then .ok rest else fail .unexpectedEndGroup
    else
      match skip key.wire key.number rest with
      | .error fault => .error fault
      | .ok rest =>
        if rest.size < input.size then skipGroup skip number rest else fail .underflow
termination_by input.size

/-- Passes over a payload of the given wire type, which the field with this number has. -/
def skip : (budget : Nat) → WireType → (number : Nat) → Input → Except Fault Input
  | 0, _, _, _ => fail .tooDeep
  | budget + 1, wire, number, input =>
    match wire with
    | .varint => (readNumber input).map (·.2)
    | .fixed64 => skipBytes 8 input
    | .fixed32 => skipBytes 4 input
    | .delimited => (readNumber input).bind fun (length, rest) => skipBytes length rest
    | .startGroup => skipGroup (skip budget) number input
    | .endGroup => fail .unexpectedEndGroup

/-! ### Payloads -/

/-- Refuses a wire type other than the expected one. -/
def expect (found expected : WireType) : Except Fault Unit :=
  if found = expected then .ok () else fail (.wrongWireType found expected)

/-- Reads a payload of the wire type `varint`. -/
def readInteger (wire : WireType) (input : Input) : Except Fault (Nat × Input) :=
  match expect wire .varint with
  | .error fault => .error fault
  | .ok () => readNumber input

/-- Reads a text. -/
def readText (wire : WireType) (input : Input) : Except Fault (String × Input) :=
  match expect wire .delimited with
  | .error fault => .error fault
  | .ok () =>
    match readNumber input with
    | .error fault => .error fault
    | .ok (length, rest) =>
      if rest.size < length then fail .underflow
      else
        match String.fromUTF8? (rest.take length).toByteArray with
        | none => fail .notUtf8
        | some s => .ok (s, rest.drop length)

/-- One field of a map entry. -/
inductive EntryField where
  /-- The key of the entry. -/
  | key (s : String)
  /-- The flag of the entry. -/
  | flag (b : Bool)
  /-- A field that no entry has. -/
  | unknown
  deriving Repr

/-- Reads one field of a map entry. -/
def readEntryField (budget : Nat) (input : Input) : Except Fault (EntryField × Input) :=
  match readKey input with
  | .error fault => .error fault
  | .ok (key, rest) =>
    match key.number with
    | 1 => (readText key.wire rest).map fun (s, rest) => (.key s, rest)
    | 2 => (readInteger key.wire rest).map fun (n, rest) => (.flag (n != 0), rest)
    | number => (skip budget key.wire number rest).map fun rest => (.unknown, rest)

/-- The entry so far, after one more of its fields. -/
def absorbEntry (entry : String × Bool) : EntryField → String × Bool
  | .key s => (s, entry.2)
  | .flag b => (entry.1, b)
  | .unknown => entry

/-- The entry that a list of fields makes; the key is empty and the flag false when unset. -/
def entryOfFields (fields : List EntryField) : String × Bool :=
  fields.foldl absorbEntry ("", false)

/-- Reads a map entry. -/
def readEntry : (budget : Nat) → Input → Except Fault ((String × Bool) × Input)
  | 0, _ => fail .tooDeep
  | budget + 1, input =>
    (readDelimited (readEntryField budget) input).map fun (fields, rest) =>
      (entryOfFields fields, rest)

/-! ### Fields -/

/-- Reads the value of a declared field; `nested` reads the fields of a message behind its
length. -/
def readValue (budget : Nat) (nested : MessageType → Input → Except Fault (List Field × Input))
    (spec : FieldSpec) (wire : WireType) (input : Input) : Except Fault (Field × Input) :=
  match spec.kind with
  | .text => (readText wire input).map fun (s, rest) => (.text spec.number s, rest)
  | .int64 =>
    (readInteger wire input).map fun (n, rest) =>
      (.int64 spec.number (UInt64.ofNat n).toInt64, rest)
  | .uint64 =>
    (readInteger wire input).map fun (n, rest) => (.uint64 spec.number (UInt64.ofNat n), rest)
  | .uint32 =>
    (readInteger wire input).map fun (n, rest) => (.uint32 spec.number (UInt32.ofNat n), rest)
  | .flags =>
    (readEntry budget input).map fun ((key, flag), rest) => (.entry spec.number key flag, rest)
  | .message type | .repeated type =>
    match expect wire .delimited with
    | .error fault => .error fault
    | .ok () => (nested type input).map fun (fields, rest) => (.message spec.number fields, rest)

/-- Reads a field of a message; `nested` reads the fields of a message behind its length. -/
def readFieldWith (budget : Nat)
    (nested : MessageType → Input → Except Fault (List Field × Input)) (type : MessageType)
    (input : Input) : Except Fault (Field × Input) :=
  match readKey input with
  | .error fault => .error fault
  | .ok (key, rest) =>
    match type.declaredField? key.number with
    | none => (skip budget key.wire key.number rest).map fun rest => (.unknown key.number, rest)
    | some spec =>
      (readValue budget nested spec key.wire rest).mapError fun fault => fault.within type spec.name

/-- Reads a field of a message of the given type. -/
def readField : (budget : Nat) → MessageType → Input → Except Fault (Field × Input)
  | 0, type, input => readFieldWith 0 (fun _ _ => fail .tooDeep) type input
  | budget + 1, type, input =>
    readFieldWith (budget + 1) (fun inner => readDelimited (readField budget inner)) type input

/-- The fields of a binary message of the given type. -/
def readFields (type : MessageType) (bytes : List UInt8) : Except Fault (List Field) :=
  (readUntil (readField nestingBudget type) 0 [] (Input.ofList bytes)).map (·.1)

end NodeView.Wire
