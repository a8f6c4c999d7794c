import NodeView.Json.Value
import NodeView.Schema
/-!
# NodeView.Message.UnknownKey

The first key of a JSON value that names no field, if there is one.

Only objects that stand for messages are looked into: the value itself, and under a key that
names a message or a sequence of messages, the value or the elements. What such a key names is
looked into before the next key; the keys of a map are data and are not looked at. Whether the
values fit their fields does not matter here.
-/

namespace NodeView.Message

mutual

/-- The first unknown key of a value that stands for a message of this type, with the type of
the message it stands in. -/
def unknownKey? (type : MessageType) : Json → Option (MessageType × String)
  | .object members => unknownKeyOfMembers? type members
  | _ => none

/-- The first unknown key in the members of a message of this type. -/
def unknownKeyOfMembers? (type : MessageType) :
    List (String × Json) → Option (MessageType × String)
  | [] => none
  | (key, value) :: members =>
    match type.fieldByKey? key with
    | none => some (type, key)
    | some spec =>
      (unknownKeyOfValue? spec.kind value).or (unknownKeyOfMembers? type members)

/-- The first unknown key in the value of a field of this kind. -/
def unknownKeyOfValue? (kind : FieldKind) : Json → Option (MessageType × String)
  | .object members =>
    match kind with
    | .message type => unknownKeyOfMembers? type members
    | _ => none
  | .array items =>
    match kind with
    | .repeated type => unknownKeyOfItems? type items
    | _ => none
  | _ => none

/-- The first unknown key in some values that stand for messages of this type. -/
def unknownKeyOfItems? (type : MessageType) : List Json → Option (MessageType × String)
  | [] => none
  | item :: items => (unknownKey? type item).or (unknownKeyOfItems? type items)

end

end NodeView.Message
