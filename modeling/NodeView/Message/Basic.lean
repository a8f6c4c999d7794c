import NodeView.Message.Validators
import NodeView.Wire.Field
/-!
# NodeView.Message.Basic

The messages as values, and how they arise from fields.

* A value starts out as the empty message and absorbs fields one after the other: a later
  scalar replaces an earlier one, a later token is merged into an earlier one, records keep
  their order, and a later vote replaces an earlier one of the same address. What a message does
  not declare leaves no trace.
* `fields` goes the other way: the fields of a value, in the order of their numbers and without
  those that would only say what is so anyway. An absent token and an empty one differ: the
  second is written.
-/

namespace NodeView

open Wire (Field)

/-! ### Values -/

/-- What is known of the asset that a transaction moves. -/
structure Token where
  name : String := ""
  symbol : String := ""
  decimals : UInt32 := 0
  deriving DecidableEq, Repr, Inhabited

/-- A pending transaction. -/
structure TransactionRecord where
  id : String := ""
  timestamp : Int64 := 0
  senderAddress : String := ""
  senderPublicKey : String := ""
  receiverAddress : String := ""
  token : Option Token := none
  amount : UInt64 := 0
  signature : String := ""
  validators : Validators := ∅
  nonce : UInt64 := 0
  deriving DecidableEq, Inhabited

/-- The identity and the role of a node. -/
structure NodeTypeResponse where
  id : String := ""
  result : String := ""
  deriving DecidableEq, Repr, Inhabited

/-- The pending transactions of a node. -/
structure MempoolResponse where
  transactionRecords : List TransactionRecord := []
  deriving DecidableEq, Inhabited

/-- The addresses of the validators that approved a transaction, in ascending order. -/
def TransactionRecord.approvingValidators (record : TransactionRecord) : List String :=
  record.validators.approving

/-! ### Absorbing fields -/

/-- A token after one more field. -/
def Token.absorb (token : Token) : Field → Token
  | .text 1 s => { token with name := s }
  | .text 2 s => { token with symbol := s }
  | .uint32 3 n => { token with decimals := n }
  | _ => token

/-- A transaction after one more field. -/
def TransactionRecord.absorb (record : TransactionRecord) : Field → TransactionRecord
  | .text 1 s => { record with id := s }
  | .int64 2 n => { record with timestamp := n }
  | .text 3 s => { record with senderAddress := s }
  | .text 4 s => { record with senderPublicKey := s }
  | .text 5 s => { record with receiverAddress := s }
  | .message 6 fields =>
    { record with token := some (fields.foldl Token.absorb (record.token.getD {})) }
  | .uint64 7 n => { record with amount := n }
  | .text 8 s => { record with signature := s }
  | .entry 9 address vote => { record with validators := record.validators.insert address vote }
  | .uint64 10 n => { record with nonce := n }
  | _ => record

/-- A response with a node's role after one more field. -/
def NodeTypeResponse.absorb (response : NodeTypeResponse) : Field → NodeTypeResponse
  | .text 1 s => { response with id := s }
  | .text 2 s => { response with result := s }
  | _ => response

/-- The transaction that a field of a response with pending transactions holds. -/
def MempoolResponse.record? : Field → Option TransactionRecord
  | .message 1 fields => some (fields.foldl TransactionRecord.absorb {})
  | _ => none

/-! ### Fields of a value -/

/-- A text as a field, unless it is empty. -/
def textField (number : Nat) (s : String) : List Field :=
  if s = "" then [] else [.text number s]

/-- A signed integer as a field, unless it is zero. -/
def int64Field (number : Nat) (n : Int64) : List Field :=
  if n = 0 then [] else [.int64 number n]

/-- An unsigned integer as a field, unless it is zero. -/
def uint64Field (number : Nat) (n : UInt64) : List Field :=
  if n = 0 then [] else [.uint64 number n]

/-- A short unsigned integer as a field, unless it is zero. -/
def uint32Field (number : Nat) (n : UInt32) : List Field :=
  if n = 0 then [] else [.uint32 number n]

/-- The fields of a token. -/
def Token.fields (token : Token) : List Field :=
  textField 1 token.name ++ textField 2 token.symbol ++ uint32Field 3 token.decimals

/-- The fields of a transaction, with its votes in the given order. -/
def TransactionRecord.fieldsWith (record : TransactionRecord) (votes : List (String × Bool)) :
    List Field :=
  textField 1 record.id ++ int64Field 2 record.timestamp
    ++ textField 3 record.senderAddress ++ textField 4 record.senderPublicKey
    ++ textField 5 record.receiverAddress
    ++ (record.token.toList.map fun token => .message 6 token.fields)
    ++ uint64Field 7 record.amount ++ textField 8 record.signature
    ++ (votes.map fun (address, vote) => .entry 9 address vote)
    ++ uint64Field 10 record.nonce

/-- The fields of a transaction, with its votes in ascending order of addresses. -/
def TransactionRecord.fields (record : TransactionRecord) : List Field :=
  record.fieldsWith record.validators.entries

/-- The fields of a response with a node's role. -/
def NodeTypeResponse.fields (response : NodeTypeResponse) : List Field :=
  textField 1 response.id ++ textField 2 response.result

/-- The fields of a response with pending transactions. -/
def MempoolResponse.fields (response : MempoolResponse) : List Field :=
  response.transactionRecords.map fun record => .message 1 record.fields

/-! ### Any message -/

/-- A message of any type. -/
inductive Message where
  | nodeTypeRequest
  | nodeTypeResponse (response : NodeTypeResponse)
  | mempoolRequest
  | mempoolResponse (response : MempoolResponse)
  | transactionRecord (record : TransactionRecord)
  | token (token : Token)
  deriving DecidableEq

namespace Message

/-- The type of a message. -/
def type : Message → MessageType
  | .nodeTypeRequest => .nodeTypeRequest
  | .nodeTypeResponse _ => .nodeTypeResponse
  | .mempoolRequest => .mempoolRequest
  | .mempoolResponse _ => .mempoolResponse
  | .transactionRecord _ => .transactionRecord
  | .token _ => .token

/-- The message of a type in which nothing is set. -/
def empty : MessageType → Message
  | .nodeTypeRequest => .nodeTypeRequest
  | .nodeTypeResponse => .nodeTypeResponse {}
  | .mempoolRequest => .mempoolRequest
  | .mempoolResponse => .mempoolResponse {}
  | .transactionRecord => .transactionRecord {}
  | .token => .token {}

/-- The message that a list of fields makes. -/
def ofFields (type : MessageType) (fields : List Field) : Message :=
  match type with
  | .nodeTypeRequest => .nodeTypeRequest
  | .nodeTypeResponse => .nodeTypeResponse (fields.foldl NodeTypeResponse.absorb {})
  | .mempoolRequest => .mempoolRequest
  | .mempoolResponse => .mempoolResponse ⟨fields.filterMap MempoolResponse.record?⟩
  | .transactionRecord => .transactionRecord (fields.foldl TransactionRecord.absorb {})
  | .token => .token (fields.foldl Token.absorb {})

/-- The fields of a message. -/
def fields : Message → List Field
  | .nodeTypeRequest => []
  | .nodeTypeResponse response => response.fields
  | .mempoolRequest => []
  | .mempoolResponse response => response.fields
  | .transactionRecord record => record.fields
  | .token t => t.fields

@[simp] theorem type_empty (type : MessageType) : (empty type).type = type := by
  cases type <;> rfl

@[simp] theorem type_ofFields (type : MessageType) (fields : List Field) :
    (ofFields type fields).type = type := by
  cases type <;> rfl

@[simp] theorem ofFields_nil (type : MessageType) : ofFields type [] = empty type := by
  cases type <;> rfl

end Message

end NodeView
