import NodeView.Json.Value
import NodeView.Schema
/-!
# NodeView.Message.Normal

Two liberties that a JSON value may take, and the value without them.

A member that is `null` is as good as absent, and an integer may be written with a fraction or
an exponent as long as it is whole. Normalising a value removes the first and rewrites the
second, in every object that stands for a message. What a key unknown to the message holds is
left alone, and so are the contents of maps.
-/

namespace NodeView.Message

/-- The integer that a whole number stands for in a field of this kind, or nothing if it is out of
range. The ends of the range are compared as numbers of the format. An unsigned field of 32 bits is
given the range of 64 bits here; a number too large for it is refused by whoever reads the
integer. -/
def wholeNumber? (kind : FieldKind) (x : Binary64) : Option Int :=
  if x.isWhole then
    match kind with
    | .int64 =>
      if .ofInt (-2 ^ 63) ≤ x ∧ x < .ofInt (2 ^ 63 - 1) then some x.toInt64.toInt else none
    | .uint64 | .uint32 =>
      if .zero false ≤ x ∧ x < .ofInt (2 ^ 64 - 1) then some x.toUInt64.toNat else none
    | _ => none
  else none

/-- The value of a field of this kind, with a whole floating-point number as an integer. -/
def normalScalar (kind : FieldKind) (value : Json) : Json :=
  match value with
  | .float x =>
    match wholeNumber? kind x with
    | some n => .integer n
    | none => value
  | _ => value

mutual

/-- The normal form of a value that stands for a message of this type. -/
def normal (type : MessageType) : Json → Json
  | .object members => .object (normalMembers type members)
  | value => value

/-- The normal form of the members of a message of this type. -/
def normalMembers (type : MessageType) : List (String × Json) → List (String × Json)
  | [] => []
  | (key, value) :: members =>
    if value.isNull then normalMembers type members
    else
      match type.fieldByKey? key with
      | none => (key, value) :: normalMembers type members
      | some spec => (key, normalValue spec.kind value) :: normalMembers type members

/-- The normal form of the value of a field of this kind. -/
def normalValue (kind : FieldKind) : Json → Json
  | .object members =>
    match kind with
    | .message type => .object (normalMembers type members)
    | _ => .object members
  | .array items =>
    match kind with
    | .repeated type => .array (normalItems type items)
    | _ => .array items
  | value => normalScalar kind value

/-- The normal form of some values that stand for messages of this type. -/
def normalItems (type : MessageType) : List Json → List Json
  | [] => []
  | item :: items => normal type item :: normalItems type items

end

end NodeView.Message
