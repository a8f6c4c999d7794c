import NodeView.Wire.Key
/-!
# NodeView.Wire.Field

The fields of a message in the order in which the binary form lists them.

A binary message is nothing but a list of fields, each a number and a payload; the message it
stands for is what the fields make of the empty message one after the other. `Field` is one
such occurrence, already read according to the declared kind of its number. A field under an
undeclared number keeps that number only: its payload is passed over.

`Field.write` and `Field.size` are two separate recursions over the same data; that they agree
is `length_write`.
-/

namespace NodeView.Wire

/-- One occurrence of a field. -/
inductive Field where
  /-- A text. -/
  | text (number : Nat) (value : String)
  /-- A signed 64-bit integer. -/
  | int64 (number : Nat) (value : Int64)
  /-- An unsigned 64-bit integer. -/
  | uint64 (number : Nat) (value : UInt64)
  /-- An unsigned 32-bit integer. -/
  | uint32 (number : Nat) (value : UInt32)
  /-- One entry of a map from text to truth values. -/
  | entry (number : Nat) (key : String) (flag : Bool)
  /-- A nested message, as its own list of fields. -/
  | message (number : Nat) (fields : List Field)
  /-- A field under a number that the message does not declare. -/
  | unknown (number : Nat)
  deriving Repr

namespace Field

/-- The number of a field. -/
def number : Field → Nat
  | .text n _ | .int64 n _ | .uint64 n _ | .uint32 n _ | .entry n _ _ | .message n _
  | .unknown n => n

end Field

/-! ### Pieces of the binary form -/

/-- The bytes of a text. -/
def textBytes (s : String) : List UInt8 := s.toUTF8.data.toList

@[simp] theorem length_textBytes (s : String) : (textBytes s).length = s.utf8ByteSize := by
  simp [textBytes]

/-- A delimited payload: its length, then its bytes. -/
def delimited (payload : List UInt8) : List UInt8 := writeVarint payload.length ++ payload

/-- The size of a delimited payload of `n` bytes. -/
def delimitedSize (n : Nat) : Nat := varintSize n + n

@[simp] theorem length_delimited (payload : List UInt8) :
    (delimited payload).length = delimitedSize payload.length := by
  simp [delimited, delimitedSize]

/-- The number that a signed integer is written as: itself modulo 2^64. -/
def int64Bits (value : Int64) : Nat := value.toUInt64.toNat

/-- The payload of a map entry: the key unless it is empty, the flag unless it is false. -/
def entryBytes (key : String) (flag : Bool) : List UInt8 :=
  (if key = "" then [] else (Key.mk 1 .delimited).write ++ delimited (textBytes key))
    ++ (if flag then (Key.mk 2 .varint).write ++ writeVarint 1 else [])

/-- The size of the payload of a map entry. -/
def entrySize (key : String) (flag : Bool) : Nat :=
  (if key = "" then 0 else varintSize (Key.mk 1 .delimited).toNat + delimitedSize key.utf8ByteSize)
    + (if flag then varintSize (Key.mk 2 .varint).toNat + varintSize 1 else 0)

@[simp] theorem length_entryBytes (key : String) (flag : Bool) :
    (entryBytes key flag).length = entrySize key flag := by
  unfold entryBytes entrySize Key.write
  split <;> split <;> simp [Nat.add_assoc]

/-! ### Writing fields -/

mutual

/-- The binary form of one field; an undeclared field is not written. -/
def Field.write : Field → List UInt8
  | .text n s => (Key.mk n .delimited).write ++ delimited (textBytes s)
  | .int64 n v => (Key.mk n .varint).write ++ writeVarint (int64Bits v)
  | .uint64 n v => (Key.mk n .varint).write ++ writeVarint v.toNat
  | .uint32 n v => (Key.mk n .varint).write ++ writeVarint v.toNat
  | .entry n key flag => (Key.mk n .delimited).write ++ delimited (entryBytes key flag)
  | .message n fields => (Key.mk n .delimited).write ++ delimited (writeFields fields)
  | .unknown _ => []

/-- The binary form of a list of fields. -/
def writeFields : List Field → List UInt8
  | [] => []
  | field :: fields => field.write ++ writeFields fields

end

mutual

/-- The size of the binary form of one field. -/
def Field.size : Field → Nat
  | .text n s => varintSize (Key.mk n .delimited).toNat + delimitedSize s.utf8ByteSize
  | .int64 n v => varintSize (Key.mk n .varint).toNat + varintSize (int64Bits v)
  | .uint64 n v => varintSize (Key.mk n .varint).toNat + varintSize v.toNat
  | .uint32 n v => varintSize (Key.mk n .varint).toNat + varintSize v.toNat
  | .entry n key flag =>
    varintSize (Key.mk n .delimited).toNat + delimitedSize (entrySize key flag)
  | .message n fields =>
    varintSize (Key.mk n .delimited).toNat + delimitedSize (sizeFields fields)
  | .unknown _ => 0

/-- The size of the binary form of a list of fields. -/
def sizeFields : List Field → Nat
  | [] => 0
  | field :: fields => field.size + sizeFields fields

end

mutual

/-- The size says how many bytes a field takes. -/
@[simp] theorem Field.length_write (field : Field) : field.write.length = field.size := by
  cases field with
  | message n fields =>
    simp [Field.write, Field.size, Key.write, length_writeFields fields]
  | _ => simp [Field.write, Field.size, Key.write]

/-- The size says how many bytes a list of fields takes. -/
@[simp] theorem length_writeFields (fields : List Field) :
    (writeFields fields).length = sizeFields fields := by
  cases fields with
  | nil => rfl
  | cons field fields =>
    simp [writeFields, sizeFields, Field.length_write field, length_writeFields fields]

end

@[simp] theorem writeFields_append (as bs : List Field) :
    writeFields (as ++ bs) = writeFields as ++ writeFields bs := by
  induction as with
  | nil => rfl
  | cons a as ih => simp [writeFields, ih]

@[simp] theorem sizeFields_append (as bs : List Field) :
    sizeFields (as ++ bs) = sizeFields as + sizeFields bs := by
  induction as with
  | nil => simp [sizeFields]
  | cons a as ih => simp [sizeFields, ih, Nat.add_assoc]

end NodeView.Wire
