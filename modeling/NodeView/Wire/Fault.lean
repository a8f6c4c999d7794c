import NodeView.Schema
/-!
# NodeView.Wire.Fault

Why a byte string is not a message.

A fault has a cause and the trail of fields it was found in, the innermost first. Only the
fields that a message declares leave a mark on the trail; the parts of a map entry and
everything inside a skipped field do not.
-/

namespace NodeView.Wire

/-- How the payload of a field is delimited. -/
inductive WireType where
  | varint
  | fixed64
  | delimited
  | startGroup
  | endGroup
  | fixed32
  deriving DecidableEq, Repr

namespace WireType

/-- The wire type that the low three bits of a key stand for; 6 and 7 stand for none. -/
def ofNat? : Nat → Option WireType
  | 0 => some .varint
  | 1 => some .fixed64
  | 2 => some .delimited
  | 3 => some .startGroup
  | 4 => some .endGroup
  | 5 => some .fixed32
  | _ => none

/-- The low three bits of the keys with this wire type. -/
def toNat : WireType → Nat
  | .varint => 0
  | .fixed64 => 1
  | .delimited => 2
  | .startGroup => 3
  | .endGroup => 4
  | .fixed32 => 5

@[simp] theorem ofNat?_toNat (wire : WireType) : ofNat? wire.toNat = some wire := by
  cases wire <;> rfl

theorem toNat_lt (wire : WireType) : wire.toNat < 8 := by
  cases wire <;> decide

/-- The name shown to a user. -/
def name : WireType → String
  | .varint => "Varint"
  | .fixed64 => "SixtyFourBit"
  | .delimited => "LengthDelimited"
  | .startGroup => "StartGroup"
  | .endGroup => "EndGroup"
  | .fixed32 => "ThirtyTwoBit"

end WireType

/-- What is wrong at one place of the input. -/
inductive Cause where
  /-- A variable-length integer does not end in time, or does not fit 64 bits. -/
  | invalidVarint
  /-- A key does not fit 32 bits. -/
  | invalidKey (key : Nat)
  /-- The low three bits of a key stand for no wire type. -/
  | invalidWireType (bits : Nat)
  /-- A key names field number 0. -/
  | zeroNumber
  /-- A declared field comes with a wire type that its kind does not have. -/
  | wrongWireType (found expected : WireType)
  /-- A length asks for more bytes than are left. -/
  | underflow
  /-- A nested message ends inside one of its fields. -/
  | overrun
  /-- A group ends that was not open, or under another number. -/
  | unexpectedEndGroup
  /-- A text is not UTF-8. -/
  | notUtf8
  /-- Messages, entries or groups are nested too deeply. -/
  | tooDeep
  deriving DecidableEq, Repr

/-- The wording of a cause. -/
def Cause.message : Cause → String
  | .invalidVarint => "invalid varint"
  | .invalidKey key => "invalid key value: " ++ toString key
  | .invalidWireType bits => "invalid wire type value: " ++ toString bits
  | .zeroNumber => "invalid tag value: 0"
  | .wrongWireType found expected =>
    "invalid wire type: " ++ found.name ++ " (expected " ++ expected.name ++ ")"
  | .underflow => "buffer underflow"
  | .overrun => "delimited length exceeded"
  | .unexpectedEndGroup => "unexpected end group tag"
  | .notUtf8 => "invalid string value: data is not UTF-8 encoded"
  | .tooDeep => "recursion limit reached"

/-- A cause and where it was found. -/
structure Fault where
  /-- What is wrong. -/
  cause : Cause
  /-- The declared fields around it, the innermost first. -/
  trail : List (MessageType × String) := []
  deriving DecidableEq, Repr

/-- Marks that a fault was found in the value of a declared field. -/
def Fault.within (fault : Fault) (type : MessageType) (field : String) : Fault :=
  { fault with trail := fault.trail ++ [(type, field)] }

/-- The wording of a fault. -/
def Fault.message (fault : Fault) : String :=
  "failed to decode Protobuf message: "
    ++ String.join (fault.trail.map fun (type, field) => type.name ++ "." ++ field ++ ": ")
    ++ fault.cause.message

/-- A reading that ends at a cause with no trail yet. -/
def fail {α : Type} (cause : Cause) : Except Fault α := .error ⟨cause, []⟩

end NodeView.Wire
