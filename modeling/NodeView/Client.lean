import NodeView.Endpoint
import NodeView.Hex
import NodeView.Message.ToJson
import NodeView.Node
/-!
# NodeView.Client

Reading from a node over a connection.

A connection carries messages in their binary form. The node does not send a message that is
longer than its limit, and the client does not take one that is longer than its own; either
way the call ends with a status and no part of the message arrives. Which node answers at an
endpoint, if any, is a parameter, so that what a client sees is a function of it.
-/

namespace NodeView

/-- Why a client has no answer. -/
inductive ClientError where
  /-- Nobody answers at the endpoint. -/
  | connectionFailed
  /-- The text is no endpoint. -/
  | invalidEndpoint (endpoint : String)
  /-- The call ended with a status. -/
  | status (status : Status)
  /-- A message could not be read. -/
  | decode (error : DecodeError)
  /-- A text is not hexadecimal. -/
  | hex (fault : Hex.Fault)

namespace ClientError

/-- The wording of what a connection that is not made was caused by. -/
def transportError : String := "transport error"

/-- The wording of an error. -/
def message : ClientError → String
  | .connectionFailed => "Connection failed: " ++ transportError
  | .invalidEndpoint endpoint => "Invalid endpoint: " ++ endpoint
  | .status ended => "gRPC error: " ++ ended.describe
  | .decode error => "Decode error: " ++ error.message
  | .hex fault => "Hex decode error: " ++ fault.message

/-- What an error was caused by, the nearest cause first. -/
def causes : ClientError → List String
  | .connectionFailed => [transportError]
  | .invalidEndpoint _ => []
  | .status ended => [ended.describe]
  | .decode error => error.message :: error.source?.toList
  | .hex fault => [fault.message]

end ClientError

/-! ### Messages on a connection -/

/-- The status where a message of `size` bytes is longer than `limit`; `direction` says on
which side. -/
def lengthStatus (direction : String) (size limit : Nat) : Status :=
  ⟨.outOfRange,
    "Error, " ++ direction ++ " message length too large: found " ++ toString size
      ++ " bytes, the limit is: " ++ toString limit ++ " bytes"⟩

/-- The size from which on a message does not fit a frame, which gives its length in 32 bits. -/
def frameLimit : Nat := 2 ^ 32

/-- The status where a message of `size` bytes does not fit a frame. -/
def frameStatus (size : Nat) : Status :=
  ⟨.resourceExhausted,
    "Cannot return body with more than 4GB of data but got " ++ toString size ++ " bytes"⟩

/-- What arrives where a side with the limit `sent` sends the binary form of a message of this
type to one with the limit `taken`. -/
def deliver (sent taken : Nat) (type : MessageType) (bytes : List UInt8) :
    Except Status Message :=
  if sent < bytes.length then .error (lengthStatus "encoded" bytes.length sent)
  else if frameLimit ≤ bytes.length then .error (frameStatus bytes.length)
  else if taken < bytes.length then .error (lengthStatus "decoded" bytes.length taken)
  else
    match Wire.readFields type bytes with
    | .error fault => .error ⟨.internal, fault.message⟩
    | .ok fields => .ok (Message.ofFields type fields)

/-! ### Calls -/

/-- Which node answers at an endpoint. -/
abbrev Reach := String → Option Node

/-- Reaches no node anywhere. -/
def Reach.nowhere : Reach := fun _ => none

/-- A client that is connected to a node. -/
structure Client where
  node : Node
  /-- The size of the largest message that is taken, in bytes. -/
  limit : Nat := Message.defaultLimit

namespace Client

/-- The endpoint where none is given. -/
def defaultEndpoint : String := "http://localhost:50051"

/-- Connects to the node at an endpoint. -/
def connect (reach : Reach) (endpoint : String) (limit : Nat := Message.defaultLimit) :
    Except ClientError Client :=
  if ¬ Endpoint.isValid endpoint then .error (.invalidEndpoint endpoint)
  else
    match reach endpoint with
    | none => .error .connectionFailed
    | some node => .ok ⟨node, limit⟩

/-- Takes a response of this type, unless the call ends with a status. -/
def take (client : Client) (type : MessageType) (bytes : List UInt8) :
    Except ClientError Message :=
  (deliver client.node.limit client.limit type bytes).mapError .status

/-- Takes a response that says who the node is and which role it plays. -/
def takeNodeType (client : Client) (bytes : List UInt8) : Except ClientError NodeTypeResponse :=
  (client.take .nodeTypeResponse bytes).map fun
    | .nodeTypeResponse response => response
    | _ => {}

/-- Asks who the node is and which role it plays. -/
def nodeType (client : Client) : Except ClientError NodeTypeResponse :=
  client.takeNodeType (Message.nodeTypeResponse client.node.nodeType).encode

/-- Takes a response with everything that is pending. -/
def takeMempool (client : Client) (bytes : List UInt8) :
    Except ClientError (List TransactionRecord) :=
  (client.take .mempoolResponse bytes).map fun
    | .mempoolResponse response => response.transactionRecords
    | _ => []

/-- Asks for everything that is pending. -/
def mempool (client : Client) : Except ClientError (List TransactionRecord) :=
  match client.node.mempoolResponse with
  | .error refusal => .error (.status refusal.status)
  | .ok response => client.takeMempool (Message.mempoolResponse response).encode

end Client

end NodeView
