import NodeView.Client
/-!
# NodeView.Message.Kind

Messages by name: turning one form of a message into the other where only a name says which
message it is.
-/

namespace NodeView

namespace MessageType

/-- The name that stands for a message type where a user chooses one. -/
def kindName : MessageType → String
  | .nodeTypeRequest => "node-type-request"
  | .nodeTypeResponse => "node-type-response"
  | .mempoolRequest => "full-mempool-request"
  | .mempoolResponse => "full-mempool-response"
  | .transactionRecord => "transaction-record"
  | .token => "token"

/-- The message type that a name stands for. -/
def ofKindName? (name : String) : Option MessageType := all.find? (·.kindName = name)

@[simp] theorem ofKindName?_kindName (type : MessageType) :
    ofKindName? type.kindName = some type := by
  cases type <;> decide

/-- The JSON form of the message that some bytes are. -/
def binaryToJson (type : MessageType) (bytes : List UInt8) : Except ClientError Json :=
  match Message.decode type bytes with
  | .ok message => .ok message.toJson
  | .error error => .error (.decode error)

/-- The bytes of the message that a JSON text writes. -/
def jsonToBinary (type : MessageType) (policy : KeyPolicy) (text : String) :
    Except ClientError (List UInt8) :=
  match Message.ofJsonText type policy text with
  | .ok message => .ok message.encode
  | .error error => .error (.decode error)

end MessageType

end NodeView
