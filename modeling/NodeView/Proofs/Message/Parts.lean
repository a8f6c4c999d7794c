import NodeView.Proofs.Message.Absorbing
import NodeView.Proofs.Message.LastWins
import NodeView.Proofs.Message.UnknownKey
/-!
# NodeView.Proofs.Message.Parts

The objects of a value that stand for messages, and the messages that they stand for.

Each of these objects has a place, and so has each message inside a message (`Message.part?`). A
value that is read as a message has each of its objects read as the message at the same place
(`ObjectAt.exists_part`), as if that object were all there is. So what is refused in a message of
its own is refused at every place, and what is known of reading one message is known of all its
parts.
-/

namespace NodeView

open Wire (Field)

namespace Message

/-- The message at a place in a message. -/
def part? (message : Message) : List Step → Option Message
  | [] => some message
  | step :: path =>
    match message with
    | .transactionRecord record =>
      if step = ⟨"token", 0⟩ then record.token.bind fun inner => (token inner).part? path
      else none
    | .mempoolResponse response =>
      if step.key = "transactionRecords" ∨ step.key = "transaction_records" then
        response.transactionRecords[step.index]?.bind fun record =>
          (transactionRecord record).part? path
      else none
    | _ => none

/-! ### The fields that make a part -/

theorem token_absorb {field : Field} (h : field.number ≠ 6) (record : TransactionRecord) :
    (record.absorb field).token = record.token := by
  cases field with
  | text => rw [TransactionRecord.absorb_text]
  | int64 => rw [TransactionRecord.absorb_int64]
  | uint64 => rw [TransactionRecord.absorb_uint64]
  | uint32 => rw [TransactionRecord.absorb_uint32]
  | entry => rw [TransactionRecord.absorb_entry]
  | message n =>
      have hn : n ≠ 6 := h
      simp only [TransactionRecord.absorb_message, if_neg hn]
  | unknown => rw [TransactionRecord.absorb_unknown]

theorem token_foldl_absorb {fields : List Field} (h : ∀ field ∈ fields, field.number ≠ 6)
    (record : TransactionRecord) :
    (fields.foldl TransactionRecord.absorb record).token = record.token := by
  induction fields generalizing record with
  | nil => rfl
  | cons field fields ih =>
      obtain ⟨hfield, hfields⟩ := List.forall_mem_cons.mp h
      rw [List.foldl_cons, ih hfields, token_absorb hfield]

/-- A token that is given once is made of its own fields. -/
theorem token_of_split {front back inside : List Field}
    (hfront : ∀ field ∈ front, field.number ≠ 6) (hback : ∀ field ∈ back, field.number ≠ 6) :
    ((front ++ ([Field.message 6 inside] ++ back)).foldl TransactionRecord.absorb {}).token
      = some (inside.foldl Token.absorb {}) := by
  rw [List.foldl_append, List.foldl_append, token_foldl_absorb hback]
  show some (inside.foldl Token.absorb
    ((front.foldl TransactionRecord.absorb {}).token.getD {})) = _
  rw [token_foldl_absorb hfront]
  rfl

theorem exists_of_map_eq_ok {ε α β : Type} {outcome : Except ε α} {f : α → β} {b : β}
    (h : outcome.map f = .ok b) : ∃ a, outcome = .ok a ∧ b = f a := by
  cases outcome with
  | error fault => cases h
  | ok a =>
      cases h
      exact ⟨a, rfl, rfl⟩

theorem exists_error {ε α : Type} {outcome : Except ε α} (h : ∀ a, outcome ≠ .ok a) :
    ∃ fault, outcome = .error fault := by
  cases outcome with
  | error fault => exact ⟨fault, rfl⟩
  | ok a => exact absurd rfl (h a)

/-- What is read from a member that names a field, among what is read from the others. -/
theorem exists_of_member {type : MessageType} {members : List (String × Json)} {message : Message}
    (h : ofJsonLenient type (.object members) = .ok message) {key : String} {value : Json}
    {spec : FieldSpec} (hmember : (key, value) ∈ members)
    (hspec : type.fieldByKey? key = some spec) (hnull : value.isNull = false) :
    ∃ front mine back, message = ofFields type (front ++ (mine ++ back))
      ∧ fieldsOfValue spec (normalValue spec.kind value) = .ok mine
      ∧ (∀ field ∈ front, field.number ≠ spec.number)
      ∧ ∀ field ∈ back, field.number ≠ spec.number := by
  obtain ⟨fields, hfields, rfl⟩ := ofJsonLenient_ok h
  obtain ⟨-, front, mine, back, rfl, hmine, hfront, hback⟩ :=
    fieldsOfMembers_split hfields (mem_normalMembers hmember hspec hnull) hspec
  exact ⟨front, mine, back, rfl, hmine, hfront, hback⟩

theorem ofJsonLenient_of_fieldsOfJson {type : MessageType} {value : Json} {fields : List Field}
    (h : fieldsOfJson type (normal type value) = .ok fields) :
    ofJsonLenient type value = .ok (ofFields type fields) := by
  rw [ofJsonLenient, h]

theorem ObjectAt.exists_object {type inner : MessageType} {value : Json} {path : List Step}
    {members : List (String × Json)} (h : ObjectAt type value path inner members) :
    ∃ own, value = .object own := by
  cases h <;> exact ⟨_, rfl⟩

/-- **An object of a value is read as the part of the message at its place.** -/
theorem ObjectAt.exists_part {type inner : MessageType} {value : Json} {path : List Step}
    {members : List (String × Json)} (h : ObjectAt type value path inner members)
    {message : Message} (hread : ofJsonLenient type value = .ok message) :
    ∃ part, message.part? path = some part
      ∧ ofJsonLenient inner (.object members) = .ok part := by
  induction h generalizing message with
  | root => exact ⟨message, rfl, hread⟩
  | token hmember hvalue ih =>
      obtain ⟨own, rfl⟩ := hvalue.exists_object
      have hspec : MessageType.fieldByKey? .transactionRecord "token"
          = some ⟨6, "token", "token", .message .token⟩ := rfl
      obtain ⟨front, mine, back, rfl, hmine, hfront, hback⟩ :=
        exists_of_member hread hmember hspec rfl
      obtain ⟨inside, hinside, rfl⟩ := exists_of_map_eq_ok hmine
      -- The fields around it are no tokens, so the token is made of these fields alone.
      have htoken := @token_of_split _ _ inside hfront hback
      obtain ⟨part, hpart, hown⟩ := ih (ofJsonLenient_of_fieldsOfJson hinside)
      refine ⟨part, ?_, hown⟩
      simp only [ofFields, part?, if_true, htoken, Option.bind_some]
      exact hpart
  | @record members _ key items index item path _ hkey hmember hitem hvalue ih =>
      have hspec := fieldByKey?_transactionRecords hkey
      obtain ⟨front, mine, back, rfl, hmine, hfront, hback⟩ :=
        exists_of_member hread hmember hspec rfl
      have hitem' : (normalItems .transactionRecord items)[index]?
          = some (normal .transactionRecord item) := by
        rw [normalItems_eq_map, List.getElem?_map, hitem]
        rfl
      obtain ⟨inside, hinside, hrecord⟩ := exists_of_fieldsOfItems hmine hitem'
      obtain ⟨part, hpart, hown⟩ := ih (ofJsonLenient_of_fieldsOfJson hinside)
      refine ⟨part, ?_, hown⟩
      simp only [ofFields, part?, hkey, if_true, List.filterMap_append,
        filterMap_record?_eq_nil hfront, filterMap_record?_eq_nil hback, List.nil_append,
        List.append_nil, hrecord, Option.bind_some]
      exact hpart

end Message

end NodeView
