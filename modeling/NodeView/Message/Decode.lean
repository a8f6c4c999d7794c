import NodeView.Json.Parser
import NodeView.Message.Basic
import NodeView.Message.Normal
import NodeView.Message.OfJson
import NodeView.Message.UnknownKey
import NodeView.Wire.Reader
/-!
# NodeView.Message.Decode

Reading messages from their two forms, and writing the binary one.

Reading JSON takes four steps: the text becomes a value, a strict reading refuses keys that
name no field, the value is brought into normal form, and its members become fields. Reading
the binary form checks the size against a limit and then reads fields. Either way the message
is what the fields make of the empty one.
-/

namespace NodeView

/-- Why JSON is not a message. -/
inductive JsonError where
  /-- The text is not JSON. -/
  | text (fault : Json.Fault)
  /-- The value does not fit the message. -/
  | data (fault : Message.DataFault)

namespace JsonError

/-- The wording of an error. -/
def message : JsonError → String
  | .text fault => fault.message
  | .data fault => fault.message

/-- The class of an error: a text that is wrong, a text that ends too early, or a value that
does not fit. -/
def category : JsonError → String
  | .text fault => if fault.isEnd then "eof" else "syntax"
  | .data _ => "data"

end JsonError

/-- Why an input is not a message. -/
inductive DecodeError where
  /-- The bytes are not the binary form of a message. -/
  | binary (fault : Wire.Fault)
  /-- The JSON does not write a message. -/
  | json (error : JsonError)
  /-- A strict reading came across a key that names no field. -/
  | unknownField (type : MessageType) (key : String)
  /-- There are more bytes than the limit allows. -/
  | tooLarge (size limit : Nat)

namespace DecodeError

/-- The wording of an error. -/
def message : DecodeError → String
  | .binary fault => "Invalid binary encoding: " ++ fault.message
  | .json error => "Invalid JSON encoding: " ++ error.message
  | .unknownField type key => "Unknown field `" ++ key ++ "` in " ++ type.fullName
  | .tooLarge size limit =>
    "Message of " ++ toString size ++ " bytes exceeds limit of " ++ toString limit ++ " bytes"

/-- The wording of what an error was caused by, if that is told apart from the error. -/
def source? : DecodeError → Option String
  | .binary fault => some fault.message
  | .json error => some error.message
  | .unknownField _ _ | .tooLarge _ _ => none

end DecodeError

/-- How keys that name no field are treated. -/
inductive KeyPolicy where
  /-- They are passed over. -/
  | lenient
  /-- They are refused. -/
  | strict
  deriving DecidableEq, Repr

namespace Message

/-- The limit on the size of a binary message where none is given: 4 MiB. -/
def defaultLimit : Nat := 4 * 1024 * 1024

/-! ### Binary form -/

/-- The binary form of a message. -/
def encode (message : Message) : List UInt8 := Wire.writeFields message.fields

/-- The size of the binary form of a message, found without writing it. -/
def encodedSize (message : Message) : Nat := Wire.sizeFields message.fields

@[simp] theorem length_encode (message : Message) :
    message.encode.length = message.encodedSize :=
  Wire.length_writeFields message.fields

/-- Reads the binary form of a message of at most `limit` bytes. -/
def decode (type : MessageType) (bytes : List UInt8) (limit : Nat := defaultLimit) :
    Except DecodeError Message :=
  if limit < bytes.length then .error (.tooLarge bytes.length limit)
  else
    match Wire.readFields type bytes with
    | .error fault => .error (.binary fault)
    | .ok fields => .ok (ofFields type fields)

/-! ### JSON form -/

/-- Reads a JSON value, with keys that name no field passed over. -/
def ofJsonLenient (type : MessageType) (value : Json) : Except DecodeError Message :=
  match fieldsOfJson type (normal type value) with
  | .error fault => .error (.json (.data fault))
  | .ok fields => .ok (ofFields type fields)

/-- Reads a JSON value. -/
def ofJson (type : MessageType) (policy : KeyPolicy) (value : Json) :
    Except DecodeError Message :=
  match policy with
  | .lenient => ofJsonLenient type value
  | .strict =>
    match unknownKey? type value with
    | some (inner, key) => .error (.unknownField inner key)
    | none => ofJsonLenient type value

/-- Reads a JSON text. -/
def ofJsonText (type : MessageType) (policy : KeyPolicy) (text : String) :
    Except DecodeError Message :=
  match Json.parse text with
  | .error fault => .error (.json (.text fault))
  | .ok value => ofJson type policy value

end Message

/-- Reads a transaction from a JSON value, with keys that name no field passed over. -/
def TransactionRecord.ofJson (value : Json) : Except DecodeError TransactionRecord :=
  match Message.fieldsOfJson .transactionRecord (Message.normal .transactionRecord value) with
  | .error fault => .error (.json (.data fault))
  | .ok fields => .ok (fields.foldl TransactionRecord.absorb {})

end NodeView
