import Mathlib.Algebra.Order.Group.Multiset
import Mathlib.Data.List.Forall2
import NodeView.Message.ToJson
import NodeView.Proofs.Json.Printed
import NodeView.Proofs.Keyed
/-!
# NodeView.Proofs.Message.Document

The documents of a message, and the one value that all of them are read as.

A document lists the votes of each transaction in some order, and its members in the order of
declaration. Both orders are gone once its keys are in ascending order
(`Message.Documents.sortKeys_eq`): what is left is the message as a JSON value.
-/

namespace NodeView

open Json (Printable PrintableItems PrintableMembers)

/-! ### Orders of votes -/

/-- A transaction as a document with its votes in some order. -/
def TransactionRecord.Documents (record : TransactionRecord) (document : Json) : Prop :=
  ∃ votes : List (String × Bool),
    votes.Perm record.validators.entries ∧ document = record.documentWith votes

namespace Message

/-- A message as a document with the votes of each transaction in some order. -/
def Documents : Message → Json → Prop
  | .mempoolResponse response, document =>
    ∃ items, List.Forall₂ TransactionRecord.Documents response.transactionRecords items
      ∧ document = .object (if items = [] then [] else [("transactionRecords", .array items)])
  | .transactionRecord record, document => record.Documents document
  | message, document => document = message.document

/-- A text that writes a message with the votes of each transaction in some order. -/
def JsonForm (message : Message) (text : String) : Prop :=
  ∃ document, message.Documents document ∧ document.compact = text

end Message

theorem TransactionRecord.documents_document (record : TransactionRecord) :
    record.Documents record.document :=
  ⟨record.validators.entries, .refl _, rfl⟩

namespace Message

theorem documents_document (message : Message) : message.Documents message.document := by
  cases message with
  | mempoolResponse response =>
      refine ⟨response.transactionRecords.map TransactionRecord.document, ?_, ?_⟩
      · exact List.forall₂_map_right_iff.mpr
          (List.forall₂_same.mpr fun record _ => record.documents_document)
      · simp only [document, MempoolResponse.document, List.map_eq_nil_iff]
  | transactionRecord record => exact record.documents_document
  | _ => rfl

/-- Ascending order of the addresses is one order of the votes. -/
theorem jsonForm_toJsonText (message : Message) : message.JsonForm message.toJsonText :=
  ⟨message.document, message.documents_document, rfl⟩

end Message

/-! ### Documents are read back from their texts -/

theorem printableMembers_append {as bs : List (String × Json)} {depth : Nat} :
    PrintableMembers (as ++ bs) depth ↔ PrintableMembers as depth ∧ PrintableMembers bs depth := by
  simp only [Json.printableMembers_iff, List.mem_append, or_imp, forall_and]

/-- A member that is left out at its default is read back if it is where it is there. -/
theorem printableMembers_unless {isDefault : Prop} [Decidable isDefault] {key : String}
    {value : Json} {depth : Nat} (h : value.Printable depth) :
    PrintableMembers (if isDefault then [] else [(key, value)]) depth := by
  split
  · trivial
  · exact ⟨h, trivial⟩

theorem printable_string (text : String) (depth : Nat) : (Json.string text).Printable depth := by
  simp only [Printable]

theorem Token.printable_document (token : Token) (depth : Nat) :
    token.document.Printable (depth + 1) := by
  have hdecimals := token.decimals.toNat_lt
  simp only [document, Printable, printableMembers_append]
  exact ⟨⟨printableMembers_unless (printable_string _ _),
    printableMembers_unless (printable_string _ _)⟩,
    printableMembers_unless (Json.printable_natCast (by omega) _)⟩

/-- A vote is a truth value, and nests nothing. -/
theorem printable_votes (votes : List (String × Bool)) (depth : Nat) :
    (Json.object (votes.map fun (address, vote) => (address, .bool vote))).Printable
      (depth + 1) := by
  refine Json.printableMembers_iff.mpr fun member hmember => ?_
  obtain ⟨vote, -, rfl⟩ := List.mem_map.mp hmember
  simp only [Printable]

theorem TransactionRecord.Documents.printable {record : TransactionRecord} {document : Json}
    (h : record.Documents document) (depth : Nat) : document.Printable (depth + 2) := by
  obtain ⟨votes, -, rfl⟩ := h
  have htoken : PrintableMembers (record.token.toList.map fun token => ("token", token.document))
      (depth + 1) := by
    refine Json.printableMembers_iff.mpr fun member hmember => ?_
    obtain ⟨token, -, rfl⟩ := List.mem_map.mp hmember
    exact token.printable_document depth
  simp only [documentWith, Printable, printableMembers_append, and_assoc]
  refine ⟨?_, ?_, ?_, ?_, ?_, htoken, ?_, ?_, printableMembers_unless (printable_votes _ _), ?_⟩
  all_goals exact printableMembers_unless (printable_string _ _)

theorem MempoolResponse.printableItems {records : List TransactionRecord} {items : List Json}
    (h : List.Forall₂ TransactionRecord.Documents records items) (depth : Nat) :
    PrintableItems items (depth + 2) := by
  induction h with
  | nil => trivial
  | cons hrecord _ ih => exact ⟨hrecord.printable depth, ih⟩

theorem Message.Documents.printable {message : Message} {document : Json}
    (h : message.Documents document) : document.Printable Json.maxDepth := by
  cases message with
  | nodeTypeRequest | mempoolRequest =>
      obtain rfl : document = .object [] := h
      trivial
  | nodeTypeResponse response =>
      obtain rfl : document = response.document := h
      exact printableMembers_append.mpr ⟨printableMembers_unless (printable_string _ _),
        printableMembers_unless (printable_string _ _)⟩
  | token token =>
      obtain rfl : document = token.document := h
      exact token.printable_document _
  | transactionRecord record => exact TransactionRecord.Documents.printable h _
  | mempoolResponse response =>
      obtain ⟨items, hitems, rfl⟩ := h
      exact printableMembers_unless (MempoolResponse.printableItems hitems _)

/-! ### Members in the order of their keys -/

/-- The members of a token as a JSON value. -/
def Token.sortedMembers (token : Token) : List (String × Json) :=
  uint32Member "decimals" token.decimals ++ textMember "name" token.name
    ++ textMember "symbol" token.symbol

/-- The members of a response with a node's role as a JSON value. -/
def NodeTypeResponse.sortedMembers (response : NodeTypeResponse) : List (String × Json) :=
  textMember "id" response.id ++ textMember "result" response.result

/-- The members of a transaction as a JSON value. -/
def TransactionRecord.sortedMembers (record : TransactionRecord) : List (String × Json) :=
  uint64Member "amount" record.amount ++ textMember "id" record.id
    ++ uint64Member "nonce" record.nonce
    ++ textMember "receiverAddress" record.receiverAddress
    ++ textMember "senderAddress" record.senderAddress
    ++ textMember "senderPublicKey" record.senderPublicKey
    ++ textMember "signature" record.signature ++ int64Member "timestamp" record.timestamp
    ++ (record.token.toList.map fun token => ("token", .object token.sortedMembers))
    ++ (if record.validators.entries = [] then []
        else [("validators", .object
          (record.validators.entries.map fun (address, vote) => (address, .bool vote)))])

/-- The members of a response with pending transactions as a JSON value. -/
def MempoolResponse.sortedMembers (response : MempoolResponse) : List (String × Json) :=
  if response.transactionRecords = [] then []
  else [("transactionRecords",
    .array (response.transactionRecords.map fun record => .object record.sortedMembers))]

/-- The members of a message as a JSON value, in ascending order of their keys. -/
def Message.sortedMembers : Message → List (String × Json)
  | .nodeTypeRequest | .mempoolRequest => []
  | .nodeTypeResponse response => response.sortedMembers
  | .mempoolResponse response => response.sortedMembers
  | .transactionRecord record => record.sortedMembers
  | .token t => t.sortedMembers

@[simp] theorem Json.sortMembers_append (as bs : List (String × Json)) :
    sortMembers (as ++ bs) = sortMembers as ++ sortMembers bs := by
  induction as with
  | nil => rfl
  | cons member as ih =>
      simp only [List.cons_append, sortMembers, ih]

@[simp] theorem Json.sortMembers_unless {isDefault : Prop} [Decidable isDefault] (key : String)
    (value : Json) :
    sortMembers (if isDefault then [] else [(key, value)])
      = if isDefault then [] else [(key, value.sortKeys)] := by
  split <;> rfl

/-- Members whose values are in order need only be listed in the order of their keys. -/
theorem Json.sortKeys_object_eq {members sorted : List (String × Json)}
    (hperm : (sortMembers members).Perm sorted) (h : Keyed.Sorted sorted) :
    (Json.object members).sortKeys = .object sorted :=
  congrArg Json.object (Keyed.ofList_eq_of_perm hperm h)

theorem keys_unless {isDefault : Prop} [Decidable isDefault] (key : String) (value : Json) :
    ((if isDefault then [] else [(key, value)]).map (·.1)).Sublist [key] := by
  split
  · exact List.nil_sublist _
  · exact List.Sublist.refl _

theorem keys_append {as bs : List (String × Json)} {key : String} {names : List String}
    (ha : (as.map (·.1)).Sublist [key]) (hb : (bs.map (·.1)).Sublist names) :
    ((as ++ bs).map (·.1)).Sublist (key :: names) := by
  rw [List.map_append]
  exact ha.append hb

theorem Token.sorted_sortedMembers (token : Token) : Keyed.Sorted token.sortedMembers := by
  have hnames : ["decimals", "name", "symbol"].Pairwise (· < ·) := by decide
  refine Keyed.sorted_of_sublist ?_ hnames
  simp only [sortedMembers, uint32Member, textMember, List.append_assoc]
  exact keys_append (keys_unless _ _) (keys_append (keys_unless _ _) (keys_unless _ _))

theorem NodeTypeResponse.sorted_sortedMembers (response : NodeTypeResponse) :
    Keyed.Sorted response.sortedMembers := by
  have hnames : ["id", "result"].Pairwise (· < ·) := by decide
  refine Keyed.sorted_of_sublist ?_ hnames
  exact keys_append (keys_unless _ _) (keys_unless _ _)

theorem TransactionRecord.sorted_sortedMembers (record : TransactionRecord) :
    Keyed.Sorted record.sortedMembers := by
  have hnames : ["amount", "id", "nonce", "receiverAddress", "senderAddress", "senderPublicKey",
      "signature", "timestamp", "token", "validators"].Pairwise (· < ·) := by decide
  have htoken : ((record.token.toList.map fun token =>
      ("token", Json.object token.sortedMembers)).map (·.1)).Sublist ["token"] := by
    cases record.token with
    | none => exact List.nil_sublist _
    | some token => exact List.Sublist.refl _
  simp only [sortedMembers, uint64Member, int64Member, textMember, List.append_assoc]
  refine Keyed.sorted_of_sublist ?_ hnames
  refine keys_append ?_ (keys_append ?_ (keys_append ?_ (keys_append ?_ (keys_append ?_
    (keys_append ?_ (keys_append ?_ (keys_append ?_ (keys_append htoken ?_))))))))
  all_goals exact keys_unless _ _

theorem Token.sortKeys_document (token : Token) :
    token.document.sortKeys = .object token.sortedMembers := by
  refine Json.sortKeys_object_eq ?_ token.sorted_sortedMembers
  simp only [textMember, uint32Member, Json.sortMembers_append, Json.sortMembers_unless,
    Json.sortKeys, sortedMembers]
  -- As multisets both sides are sums of the same members.
  rw [← Multiset.coe_eq_coe]
  simp only [← Multiset.coe_add]
  ac_rfl

theorem NodeTypeResponse.sortKeys_document (response : NodeTypeResponse) :
    response.document.sortKeys = .object response.sortedMembers := by
  refine Json.sortKeys_object_eq ?_ response.sorted_sortedMembers
  simp only [textMember, Json.sortMembers_append, Json.sortMembers_unless, Json.sortKeys,
    sortedMembers]
  exact .refl _

theorem sortMembers_votes (votes : List (String × Bool)) :
    Json.sortMembers (votes.map fun (address, vote) => (address, .bool vote))
      = votes.map fun (address, vote) => (address, .bool vote) := by
  induction votes with
  | nil => rfl
  | cons vote votes ih => simp only [List.map_cons, Json.sortMembers, Json.sortKeys, ih]

/-- Votes as members are in order once their addresses are. -/
theorem sortKeys_votes {votes : List (String × Bool)} {map : Validators}
    (h : votes.Perm map.entries) :
    (Json.object (votes.map fun (address, vote) => (address, .bool vote))).sortKeys
      = .object (map.entries.map fun (address, vote) => (address, .bool vote)) := by
  refine Json.sortKeys_object_eq ?_ (List.pairwise_map.mpr map.sorted)
  rw [sortMembers_votes]
  exact h.map _

/-- The order of the votes and the order of declaration are gone. -/
theorem TransactionRecord.Documents.sortKeys_eq {record : TransactionRecord} {document : Json}
    (h : record.Documents document) : document.sortKeys = .object record.sortedMembers := by
  obtain ⟨votes, hvotes, rfl⟩ := h
  have htoken : Json.sortMembers (record.token.toList.map fun token => ("token", token.document))
      = record.token.toList.map fun token => ("token", .object token.sortedMembers) := by
    cases record.token with
    | none => rfl
    | some token =>
        simp only [Option.toList_some, List.map_cons, List.map_nil, Json.sortMembers,
          token.sortKeys_document]
  have hnone : votes = [] ↔ record.validators.entries = [] := by
    rw [← List.length_eq_zero_iff, ← List.length_eq_zero_iff, hvotes.length_eq]
  refine Json.sortKeys_object_eq ?_ record.sorted_sortedMembers
  -- The votes have to be sorted as an object before the other values lose their `sortKeys`.
  simp only [textMember, int64Member, uint64Member, Json.sortMembers_append,
    Json.sortMembers_unless, htoken, sortKeys_votes hvotes, hnone, sortedMembers]
  simp only [Json.sortKeys]
  -- As multisets both sides are sums of the same members.
  rw [← Multiset.coe_eq_coe]
  simp only [← Multiset.coe_add]
  ac_rfl

theorem MempoolResponse.sortItems_eq {records : List TransactionRecord} {items : List Json}
    (h : List.Forall₂ TransactionRecord.Documents records items) :
    Json.sortItems items = records.map fun record => .object record.sortedMembers := by
  induction h with
  | nil => rfl
  | cons hrecord _ ih => rw [Json.sortItems, hrecord.sortKeys_eq, ih, List.map_cons]

/-- Whatever the order of its votes, a message is one JSON value. -/
theorem Message.Documents.sortKeys_eq {message : Message} {document : Json}
    (h : message.Documents document) : document.sortKeys = .object message.sortedMembers := by
  cases message with
  | nodeTypeRequest | mempoolRequest =>
      obtain rfl : document = .object [] := h
      rfl
  | nodeTypeResponse response =>
      obtain rfl : document = response.document := h
      exact response.sortKeys_document
  | token token =>
      obtain rfl : document = token.document := h
      exact token.sortKeys_document
  | transactionRecord record => exact TransactionRecord.Documents.sortKeys_eq h
  | mempoolResponse response =>
      obtain ⟨items, hitems, rfl⟩ := h
      have hnone : items = [] ↔ response.transactionRecords = [] := by
        rw [← List.length_eq_zero_iff, ← List.length_eq_zero_iff, hitems.length_eq]
      simp only [Json.sortKeys, Json.sortMembers_unless, MempoolResponse.sortItems_eq hitems, hnone,
        sortedMembers, MempoolResponse.sortedMembers]
      split <;> rfl

theorem Message.toJson_eq (message : Message) : message.toJson = .object message.sortedMembers :=
  message.documents_document.sortKeys_eq

/-- A text that writes a message is read as the message's JSON value. -/
theorem Message.JsonForm.parse_eq {message : Message} {text : String} (h : message.JsonForm text) :
    Json.parse text = .ok message.toJson := by
  obtain ⟨document, hdocument, rfl⟩ := h
  rw [Json.parse_compact hdocument.printable, hdocument.sortKeys_eq, message.toJson_eq]

end NodeView
