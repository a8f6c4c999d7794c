/-!
# NodeView.Schema

What the messages of the service look like: six message types, and for each the fields it
declares.

A field has a number, by which the binary form names it, and two spellings, by which the JSON
form does: the one it is declared under and a camel-case one. Its kind fixes both forms of its
value. A kind refers to another message by its *type*, so the tables are finite data although
messages nest.

The fields stand in two tables. The service *declares* them (`MessageType.declarations`), and the
readers of both forms go by that; the program keeps *descriptions* of its own beside it
(`MessageType.fields`), by which it brings JSON into normal form and looks for unknown keys. The
two are the same (`MessageType.declared_eq_fields`).
-/

namespace NodeView

/-- The messages of the service. -/
inductive MessageType where
  | nodeTypeRequest
  | nodeTypeResponse
  | mempoolRequest
  | mempoolResponse
  | transactionRecord
  | token
  deriving DecidableEq, Repr

/-- The shape of one field. -/
inductive FieldKind where
  /-- Text, empty when unset. -/
  | text
  /-- A signed 64-bit integer, zero when unset. -/
  | int64
  /-- An unsigned 64-bit integer, zero when unset. -/
  | uint64
  /-- An unsigned 32-bit integer, zero when unset. -/
  | uint32
  /-- A message, absent when unset. -/
  | message (type : MessageType)
  /-- A sequence of messages, in order. -/
  | repeated (type : MessageType)
  /-- A map from text to truth values, with unique keys. -/
  | flags
  deriving DecidableEq, Repr

/-- The description of one field. -/
structure FieldSpec where
  /-- The number that names the field in the binary form. -/
  number : Nat
  /-- The declared spelling. -/
  name : String
  /-- The camel-case spelling, which the JSON form is written with. -/
  jsonName : String
  /-- The shape of the value. -/
  kind : FieldKind
  deriving DecidableEq, Repr

/-- Whether a key of a JSON object names the field. -/
def FieldSpec.matchesKey (spec : FieldSpec) (key : String) : Bool :=
  key = spec.jsonName || key = spec.name

/-! ### Message types -/

namespace MessageType

/-- Every message type, in the order of declaration. -/
def all : List MessageType :=
  [.nodeTypeRequest, .nodeTypeResponse, .mempoolRequest, .mempoolResponse, .transactionRecord,
   .token]

/-- The declared name. -/
def name : MessageType → String
  | .nodeTypeRequest => "GetNodeTypeRequest"
  | .nodeTypeResponse => "GetNodeTypeResponse"
  | .mempoolRequest => "GetFullMempoolRequest"
  | .mempoolResponse => "GetFullMempoolResponse"
  | .transactionRecord => "TransactionRecord"
  | .token => "Token"

/-- The name with its package in front. -/
def fullName (type : MessageType) : String := "node_read_service.v1." ++ type.name

/-- The message type of a declared name. -/
def ofName? (name : String) : Option MessageType := all.find? (·.name = name)

end MessageType

/-! ### Declarations -/

/-- The declaration of one field. Its camel-case spelling is not part of it. -/
structure FieldDeclaration where
  /-- The number that names the field in the binary form. -/
  number : Nat
  /-- The declared spelling. -/
  name : String
  /-- The shape of the value. -/
  kind : FieldKind
  deriving DecidableEq, Repr

/-- The fields that the service declares for a message. -/
def MessageType.declarations : MessageType → List FieldDeclaration
  | .nodeTypeRequest => []
  | .nodeTypeResponse =>
    [⟨1, "id", .text⟩,
     ⟨2, "result", .text⟩]
  | .mempoolRequest => []
  | .mempoolResponse =>
    [⟨1, "transaction_records", .repeated .transactionRecord⟩]
  | .transactionRecord =>
    [⟨1, "id", .text⟩,
     ⟨2, "timestamp", .int64⟩,
     ⟨3, "sender_address", .text⟩,
     ⟨4, "sender_public_key", .text⟩,
     ⟨5, "receiver_address", .text⟩,
     ⟨6, "token", .message .token⟩,
     ⟨7, "amount", .uint64⟩,
     ⟨8, "signature", .text⟩,
     ⟨9, "validators", .flags⟩,
     ⟨10, "nonce", .uint64⟩]
  | .token =>
    [⟨1, "name", .text⟩,
     ⟨2, "symbol", .text⟩,
     ⟨3, "decimals", .uint32⟩]

/-- The characters of a spelling in camel case: an underscore is left out and the character
behind it raised, as `raise` says for the first one. -/
def camelCaseChars (raise : Bool) : List Char → List Char
  | [] => []
  | c :: rest =>
    if c = '_' then camelCaseChars true rest
    else (if raise then c.toUpper else c) :: camelCaseChars false rest

/-- A spelling in camel case. -/
def camelCase (name : String) : String := String.ofList (camelCaseChars false name.toList)

/-- What a declaration says of its field, with the camel-case spelling it gives rise to. -/
def FieldDeclaration.spec (declaration : FieldDeclaration) : FieldSpec :=
  ⟨declaration.number, declaration.name, camelCase declaration.name, declaration.kind⟩

namespace MessageType

/-- The declared fields of a message. -/
def declared (type : MessageType) : List FieldSpec := type.declarations.map FieldDeclaration.spec

/-- The declared field that a number names. -/
def declaredField? (type : MessageType) (number : Nat) : Option FieldSpec :=
  type.declared.find? (·.number = number)

/-- The declared field that a key of a JSON object names, in either spelling. -/
def declaredFieldByKey? (type : MessageType) (key : String) : Option FieldSpec :=
  type.declared.find? (·.matchesKey key)

/-! ### Descriptions -/

/-- The descriptions of the fields of a message, in the order of their numbers. -/
def fields : MessageType → List FieldSpec
  | .nodeTypeRequest => []
  | .nodeTypeResponse =>
    [⟨1, "id", "id", .text⟩,
     ⟨2, "result", "result", .text⟩]
  | .mempoolRequest => []
  | .mempoolResponse =>
    [⟨1, "transaction_records", "transactionRecords", .repeated .transactionRecord⟩]
  | .transactionRecord =>
    [⟨1, "id", "id", .text⟩,
     ⟨2, "timestamp", "timestamp", .int64⟩,
     ⟨3, "sender_address", "senderAddress", .text⟩,
     ⟨4, "sender_public_key", "senderPublicKey", .text⟩,
     ⟨5, "receiver_address", "receiverAddress", .text⟩,
     ⟨6, "token", "token", .message .token⟩,
     ⟨7, "amount", "amount", .uint64⟩,
     ⟨8, "signature", "signature", .text⟩,
     ⟨9, "validators", "validators", .flags⟩,
     ⟨10, "nonce", "nonce", .uint64⟩]
  | .token =>
    [⟨1, "name", "name", .text⟩,
     ⟨2, "symbol", "symbol", .text⟩,
     ⟨3, "decimals", "decimals", .uint32⟩]

/-- The described field that a number names. -/
def field? (type : MessageType) (number : Nat) : Option FieldSpec :=
  type.fields.find? (·.number = number)

/-- The described field that a key of a JSON object names, in either spelling. -/
def fieldByKey? (type : MessageType) (key : String) : Option FieldSpec :=
  type.fields.find? (·.matchesKey key)

end MessageType

/-- How a kind is written in a description of the schema. -/
def FieldKind.describe : FieldKind → String
  | .text => "string"
  | .int64 => "int64"
  | .uint64 => "uint64"
  | .uint32 => "uint32"
  | .message type => "message " ++ type.fullName
  | .repeated type => "repeated " ++ type.fullName
  | .flags => "map<string,bool>"

/-! ### What the tables promise -/

@[simp] theorem MessageType.ofName?_name (type : MessageType) :
    MessageType.ofName? type.name = some type := by
  cases type <;> decide

/-- **The descriptions are the declarations**: no number, no spelling and no kind of a field has
drifted. -/
theorem MessageType.declared_eq_fields (type : MessageType) : type.declared = type.fields := by
  cases type <;> decide

theorem MessageType.declaredField?_eq (type : MessageType) (number : Nat) :
    type.declaredField? number = type.field? number := by
  rw [declaredField?, declared_eq_fields, field?]

theorem MessageType.declaredFieldByKey?_eq (type : MessageType) (key : String) :
    type.declaredFieldByKey? key = type.fieldByKey? key := by
  rw [declaredFieldByKey?, declared_eq_fields, fieldByKey?]

/-- No two fields of a message share a number. -/
theorem MessageType.numbers_nodup (type : MessageType) :
    (type.fields.map (·.number)).Nodup := by
  cases type <;> decide

/-- No spelling of one field of a message is a spelling of another. -/
theorem MessageType.spellings_disjoint (type : MessageType) :
    type.fields.Pairwise fun a b => ¬ a.matchesKey b.name ∧ ¬ a.matchesKey b.jsonName := by
  cases type <;> decide

end NodeView
