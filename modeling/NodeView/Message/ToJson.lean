import NodeView.Json.Printer
import NodeView.Message.Basic
/-!
# NodeView.Message.ToJson

Messages as JSON.

Fields go under their camel-case spelling. 64-bit integers are written as strings, since a
reader of JSON may not keep all their digits; what is at its default is left out, but a token
that is present is written even if nothing in it is set.

`document` lists the members of an object in the order of declaration; `toJson` is the same
value with its keys in ascending order, which is what reading the document's text gives back.
-/

namespace NodeView

/-! ### Members, left out at their default -/

/-- A text as a member, unless it is empty. -/
def textMember (key : String) (s : String) : List (String × Json) :=
  if s = "" then [] else [(key, .string s)]

/-- A signed 64-bit integer as a member, unless it is zero. -/
def int64Member (key : String) (n : Int64) : List (String × Json) :=
  if n = 0 then [] else [(key, .string (String.ofList (Json.integerChars n.toInt)))]

/-- An unsigned 64-bit integer as a member, unless it is zero. -/
def uint64Member (key : String) (n : UInt64) : List (String × Json) :=
  if n = 0 then [] else [(key, .string (String.ofList (Json.integerChars n.toNat)))]

/-- An unsigned 32-bit integer as a member, unless it is zero. -/
def uint32Member (key : String) (n : UInt32) : List (String × Json) :=
  if n = 0 then [] else [(key, .integer n.toNat)]

/-! ### Documents -/

/-- A token as a document. -/
def Token.document (token : Token) : Json :=
  .object
    (textMember "name" token.name ++ textMember "symbol" token.symbol
      ++ uint32Member "decimals" token.decimals)

/-- A transaction as a document, with its votes in the given order. -/
def TransactionRecord.documentWith (record : TransactionRecord) (votes : List (String × Bool)) :
    Json :=
  .object
    (textMember "id" record.id ++ int64Member "timestamp" record.timestamp
      ++ textMember "senderAddress" record.senderAddress
      ++ textMember "senderPublicKey" record.senderPublicKey
      ++ textMember "receiverAddress" record.receiverAddress
      ++ (record.token.toList.map fun token => ("token", token.document))
      ++ uint64Member "amount" record.amount
      ++ textMember "signature" record.signature
      ++ (if votes = [] then []
          else [("validators", .object (votes.map fun (address, vote) => (address, .bool vote)))])
      ++ uint64Member "nonce" record.nonce)

/-- A transaction as a document, with its votes in ascending order of addresses. -/
def TransactionRecord.document (record : TransactionRecord) : Json :=
  record.documentWith record.validators.entries

/-- A response with a node's role as a document. -/
def NodeTypeResponse.document (response : NodeTypeResponse) : Json :=
  .object (textMember "id" response.id ++ textMember "result" response.result)

/-- A response with pending transactions as a document. -/
def MempoolResponse.document (response : MempoolResponse) : Json :=
  .object
    (if response.transactionRecords = [] then []
     else [("transactionRecords",
            .array (response.transactionRecords.map TransactionRecord.document))])

namespace Message

/-- A message as a document, its members in the order of declaration. -/
def document : Message → Json
  | .nodeTypeRequest => .object []
  | .nodeTypeResponse response => response.document
  | .mempoolRequest => .object []
  | .mempoolResponse response => response.document
  | .transactionRecord record => record.document
  | .token t => t.document

/-- A message as a JSON value. -/
def toJson (message : Message) : Json := message.document.sortKeys

/-- A message as a JSON text. -/
def toJsonText (message : Message) : String := message.document.compact

end Message

/-- A transaction as a JSON value. -/
def TransactionRecord.toJson (record : TransactionRecord) : Json := record.document.sortKeys

end NodeView
