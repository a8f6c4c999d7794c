import NodeView.Message.Decode
import NodeView.Proofs.Message.Canonical
import NodeView.Proofs.Message.Document
import NodeView.Proofs.Message.Merge
/-!
# NodeView.Proofs.Message.JsonForm

The JSON forms of a message, and that each of them is read back.

A message as a JSON value is canonical (`Message.canonicalMembers`), so reading it finds no
unknown key and normalises nothing away. Its members come in ascending order of their keys and
not in the order of declaration, which is of no consequence for what their fields make of the
empty message (`Message.ofFields_sortedFields`). Together with the parsing of texts this closes
the circle (`Message.jsonForm_reads_back`).
-/

namespace NodeView

open Message (Canonical CanonicalMembers canonicalMembers_unless canonical_text canonical_int64
  canonical_uint64 canonical_uint32 canonical_flags canonical_message canonical_repeated)
open Wire (Field)

/-! ### Fields in the order of their keys -/

/-- The fields of a token in the order of its keys. -/
def Token.sortedFields (token : Token) : List Field :=
  uint32Field 3 token.decimals ++ textField 1 token.name ++ textField 2 token.symbol

/-- The fields of a transaction in the order of its keys. -/
def TransactionRecord.sortedFields (record : TransactionRecord) : List Field :=
  uint64Field 7 record.amount ++ textField 1 record.id ++ uint64Field 10 record.nonce
    ++ textField 5 record.receiverAddress ++ textField 3 record.senderAddress
    ++ textField 4 record.senderPublicKey ++ textField 8 record.signature
    ++ int64Field 2 record.timestamp
    ++ (record.token.toList.map fun token => .message 6 token.sortedFields)
    ++ (if record.validators.entries = [] then []
        else record.validators.entries.map fun (address, vote) => .entry 9 address vote)

/-- The fields of a message in the order of its keys. -/
def Message.sortedFields : Message → List Field
  | .nodeTypeRequest | .mempoolRequest => []
  | .nodeTypeResponse response => response.fields
  | .mempoolResponse response =>
    if response.transactionRecords = [] then []
    else response.transactionRecords.map fun record => .message 1 record.sortedFields
  | .transactionRecord record => record.sortedFields
  | .token t => t.sortedFields

theorem Token.foldl_absorb_sortedFields (token earlier : Token) :
    token.sortedFields.foldl absorb earlier = earlier.merge token := by
  simp only [sortedFields, List.foldl_append, foldl_absorb_name, foldl_absorb_symbol,
    foldl_absorb_decimals, merge]

theorem TransactionRecord.foldl_absorb_sortedFields (record earlier : TransactionRecord) :
    record.sortedFields.foldl absorb earlier = earlier.merge record := by
  have hvotes : (if record.validators.entries = [] then []
      else record.validators.entries.map fun (address, vote) => Field.entry 9 address vote)
      = record.validators.entries.map fun (address, vote) => Field.entry 9 address vote := by
    -- A map without votes is left out, and would have given no fields either.
    split
    · rename_i hnone
      rw [hnone, List.map_nil]
    · rfl
  simp only [sortedFields, List.foldl_append, foldl_absorb_id, foldl_absorb_timestamp,
    foldl_absorb_senderAddress, foldl_absorb_senderPublicKey, foldl_absorb_receiverAddress,
    foldl_absorb_token Token.foldl_absorb_sortedFields, foldl_absorb_amount,
    foldl_absorb_signature, hvotes, foldl_absorb_votes, foldl_absorb_nonce]
  rfl

theorem MempoolResponse.filterMap_sortedFields (records : List TransactionRecord) :
    (if records = [] then []
      else records.map fun record => Field.message 1 record.sortedFields).filterMap record?
      = records := by
  have hrecord : ∀ record : TransactionRecord,
      record? (.message 1 record.sortedFields) = some record := fun record => by
    rw [record?, record.foldl_absorb_sortedFields, TransactionRecord.merge_empty]
  split
  · rename_i hnone
    exact hnone.symm
  · simp only [List.filterMap_map, Function.comp_def, hrecord, List.filterMap_some]

/-- The order of the keys has no part in the message that the fields make. -/
theorem Message.ofFields_sortedFields (message : Message) :
    ofFields message.type message.sortedFields = message := by
  cases message with
  | nodeTypeRequest => rfl
  | mempoolRequest => rfl
  | nodeTypeResponse response =>
      simp only [type, sortedFields, ofFields, NodeTypeResponse.foldl_absorb_fields,
        NodeTypeResponse.merge_empty]
  | token token =>
      simp only [type, sortedFields, ofFields, Token.foldl_absorb_sortedFields, Token.merge_empty]
  | transactionRecord record =>
      simp only [type, sortedFields, ofFields, TransactionRecord.foldl_absorb_sortedFields,
        TransactionRecord.merge_empty]
  | mempoolResponse response =>
      simp only [type, sortedFields, ofFields, MempoolResponse.filterMap_sortedFields]

/-! ### Canonical values -/

section

variable {type : MessageType} {number : Nat} {name key : String}

theorem canonicalMembers_text
    (hspec : type.fieldByKey? key = some ⟨number, name, key, .text⟩) (s : String) :
    CanonicalMembers type (textMember key s) (textField number s) :=
  canonicalMembers_unless ⟨number, name, key, .text⟩ hspec (canonical_text rfl s)

theorem canonicalMembers_int64
    (hspec : type.fieldByKey? key = some ⟨number, name, key, .int64⟩) (n : Int64) :
    CanonicalMembers type (int64Member key n) (int64Field number n) :=
  canonicalMembers_unless ⟨number, name, key, .int64⟩ hspec (canonical_int64 rfl n)

theorem canonicalMembers_uint64
    (hspec : type.fieldByKey? key = some ⟨number, name, key, .uint64⟩) (n : UInt64) :
    CanonicalMembers type (uint64Member key n) (uint64Field number n) :=
  canonicalMembers_unless ⟨number, name, key, .uint64⟩ hspec (canonical_uint64 rfl n)

theorem canonicalMembers_uint32
    (hspec : type.fieldByKey? key = some ⟨number, name, key, .uint32⟩) (n : UInt32) :
    CanonicalMembers type (uint32Member key n) (uint32Field number n) :=
  canonicalMembers_unless ⟨number, name, key, .uint32⟩ hspec (canonical_uint32 rfl n)

end

theorem Token.canonicalMembers (token : Token) :
    CanonicalMembers .token token.sortedMembers token.sortedFields :=
  ((canonicalMembers_uint32 rfl _).append (canonicalMembers_text rfl _)).append
    (canonicalMembers_text rfl _)

theorem NodeTypeResponse.canonicalMembers (response : NodeTypeResponse) :
    CanonicalMembers .nodeTypeResponse response.sortedMembers response.fields :=
  (canonicalMembers_text rfl _).append (canonicalMembers_text rfl _)

theorem TransactionRecord.canonicalMembers (record : TransactionRecord) :
    CanonicalMembers .transactionRecord record.sortedMembers record.sortedFields := by
  have htoken : CanonicalMembers .transactionRecord
      (record.token.toList.map fun token => ("token", .object token.sortedMembers))
      (record.token.toList.map fun token => .message 6 token.sortedFields) := by
    cases record.token with
    | none => exact .nil
    | some token =>
        have hvalue : Canonical ⟨6, "token", "token", .message .token⟩
            (.object token.sortedMembers) [.message 6 token.sortedFields] :=
          canonical_message rfl token.canonicalMembers
            token.sorted_sortedMembers.nodup_keys
        exact .cons rfl hvalue .nil
  exact (((((((((canonicalMembers_uint64 rfl _).append (canonicalMembers_text rfl _)).append
    (canonicalMembers_uint64 rfl _)).append (canonicalMembers_text rfl _)).append
    (canonicalMembers_text rfl _)).append (canonicalMembers_text rfl _)).append
    (canonicalMembers_text rfl _)).append (canonicalMembers_int64 rfl _)).append htoken).append
    (canonicalMembers_unless ⟨9, "validators", "validators", .flags⟩ rfl
      (canonical_flags rfl _))

theorem MempoolResponse.canonicalMembers (response : MempoolResponse) :
    CanonicalMembers .mempoolResponse response.sortedMembers
      (Message.mempoolResponse response).sortedFields :=
  canonicalMembers_unless
    ⟨1, "transaction_records", "transactionRecords", .repeated .transactionRecord⟩ rfl
    (canonical_repeated rfl TransactionRecord.canonicalMembers
      (fun record => record.sorted_sortedMembers.nodup_keys) _)

/-- A message as a JSON value is canonical. -/
theorem Message.canonicalMembers (message : Message) :
    CanonicalMembers message.type message.sortedMembers message.sortedFields := by
  cases message with
  | nodeTypeRequest | mempoolRequest => exact .nil
  | nodeTypeResponse response => exact response.canonicalMembers
  | mempoolResponse response => exact response.canonicalMembers
  | transactionRecord record => exact record.canonicalMembers
  | token token => exact token.canonicalMembers

theorem Message.sorted_sortedMembers (message : Message) : Keyed.Sorted message.sortedMembers := by
  cases message with
  | nodeTypeRequest | mempoolRequest => exact Keyed.sorted_nil
  | nodeTypeResponse response => exact response.sorted_sortedMembers
  | mempoolResponse response =>
      exact Keyed.sorted_of_sublist (keys_unless _ _) (List.pairwise_singleton _ _)
  | transactionRecord record => exact record.sorted_sortedMembers
  | token token => exact token.sorted_sortedMembers

/-! ### Reading back -/

namespace Message

/-- Canonical members are read as their fields, with or without unknown keys being refused. -/
theorem CanonicalMembers.ofJson {type : MessageType} {members : List (String × Json)}
    {fields : List Field} (h : CanonicalMembers type members fields)
    (hkeys : (members.map (·.1)).Nodup) (policy : KeyPolicy) :
    ofJson type policy (.object members) = .ok (ofFields type fields) := by
  have hlenient : ofJsonLenient type (.object members) = .ok (ofFields type fields) := by
    simp only [ofJsonLenient, normal, h.normalMembers, fieldsOfJson,
      h.fieldsOfMembers hkeys noneSeen]
  cases policy with
  | lenient => exact hlenient
  | strict => simp only [Message.ofJson, unknownKey?, h.unknownKey, hlenient]

theorem ofJson_toJson (message : Message) (policy : KeyPolicy) :
    ofJson message.type policy message.toJson = .ok message := by
  rw [toJson_eq, message.canonicalMembers.ofJson message.sorted_sortedMembers.nodup_keys,
    ofFields_sortedFields]

/-- A JSON form of a message, whatever the order of its votes, is the text of the message as a
JSON value, and text and value are both read as the message, with or without unknown keys being
refused. -/
theorem jsonForm_reads_back {message : Message} {text : String} (h : message.JsonForm text)
    (policy : KeyPolicy) :
    Json.parse text = .ok message.toJson
      ∧ ofJson message.type policy message.toJson = .ok message
      ∧ ofJsonText message.type policy text = .ok message := by
  have hparse := h.parse_eq
  have hvalue := message.ofJson_toJson policy
  exact ⟨hparse, hvalue, by simp only [ofJsonText, hparse, hvalue]⟩

/-- The pretty text of a message as a JSON value is read as the message, too. -/
theorem ofJsonText_pretty (message : Message) (policy : KeyPolicy) :
    ofJsonText message.type policy message.toJson.pretty = .ok message := by
  have hprintable : message.toJson.Printable Json.maxDepth :=
    Json.printable_sortKeys message.documents_document.printable
  have hparse : Json.parse message.toJson.pretty = .ok message.toJson := by
    rw [Json.parse_pretty hprintable, toJson, Json.sortKeys_sortKeys]
  simp only [ofJsonText, hparse, message.ofJson_toJson policy]

/-- A quote, a control character, the lowest time, an empty token and a refusal under a key that
looks like a field survive, here with the votes in descending order of their addresses. -/
theorem jsonForm_reads_back_descending :
    let record : TransactionRecord :=
      { id := "\"\x01", timestamp := Int64.minValue, token := some {},
        validators := .ofList [("id", false), ("a", true)] }
    let text := (record.documentWith [("id", false), ("a", true)]).compact
    text = "\x7b\"id\":\"\\\"\\u0001\",\"timestamp\":\"-9223372036854775808\",\"token\":\x7b\x7d,"
        ++ "\"validators\":\x7b\"id\":false,\"a\":true\x7d\x7d"
      ∧ (Message.transactionRecord record).JsonForm text
      ∧ ofJsonText .transactionRecord .strict text = .ok (.transactionRecord record) := by
  intro record text
  have hform : (Message.transactionRecord record).JsonForm text :=
    ⟨_, ⟨[("id", false), ("a", true)], by decide, rfl⟩, rfl⟩
  exact ⟨by decide +kernel, hform, (jsonForm_reads_back hform .strict).2.2⟩

end Message

end NodeView
