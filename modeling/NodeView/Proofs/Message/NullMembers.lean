import NodeView.Proofs.Message.Parts
import NodeView.Proofs.Message.Retained
/-!
# NodeView.Proofs.Message.NullMembers

A member that is `null` under a key that names a field is as good as none.

Neither the search for unknown keys nor the reading sees such members, so a value without them is
read alike at every depth and under either policy (`ofJson_without_nulls`). What a field is left
at then is told by what would be written for it: nothing (`Message.Unset`). A message that is made
of fields other than some one field has that one unset (`unset_ofFields`), and where every member
that names a field is `null`, no such field is read (`exists_member_of_fieldsOfMembers`).
-/

namespace NodeView

open Wire (Field)

theorem Validators.entries_eq_nil_iff {map : Validators} : map.entries = [] ↔ map = ∅ := by
  constructor
  · intro h
    ext address
    rw [get?, h]
    rfl
  · intro h
    rw [h]
    rfl

namespace Message

/-! ### Fields that are not set -/

/-- Nothing is written for the field of this number: a text is empty, a number zero, a token
absent, and a sequence or a map without entries. -/
def Unset (message : Message) (number : Nat) : Prop :=
  ∀ field ∈ message.fields, field.number ≠ number

section

variable {n : Nat}

theorem forall_textField {k : Nat} {s : String} :
    (∀ field ∈ textField k s, field.number ≠ n) ↔ (n = k → s = "") := by
  unfold textField
  split <;> simp_all [Field.number, eq_comm]

theorem forall_int64Field {k : Nat} {v : Int64} :
    (∀ field ∈ int64Field k v, field.number ≠ n) ↔ (n = k → v = 0) := by
  unfold int64Field
  split <;> simp_all [Field.number, eq_comm]

theorem forall_uint64Field {k : Nat} {v : UInt64} :
    (∀ field ∈ uint64Field k v, field.number ≠ n) ↔ (n = k → v = 0) := by
  unfold uint64Field
  split <;> simp_all [Field.number, eq_comm]

theorem forall_uint32Field {k : Nat} {v : UInt32} :
    (∀ field ∈ uint32Field k v, field.number ≠ n) ↔ (n = k → v = 0) := by
  unfold uint32Field
  split <;> simp_all [Field.number, eq_comm]

theorem forall_tokenField {token : Option Token} :
    (∀ field ∈ token.toList.map fun token => Field.message 6 token.fields, field.number ≠ n)
      ↔ (n = 6 → token = none) := by
  cases token <;> simp [Field.number, eq_comm]

theorem forall_voteFields {votes : List (String × Bool)} :
    (∀ field ∈ votes.map fun (address, vote) => Field.entry 9 address vote, field.number ≠ n)
      ↔ (n = 9 → votes = []) := by
  rw [List.forall_mem_map]
  constructor
  · intro h hn
    cases votes with
    | nil => rfl
    | cons vote votes => exact absurd hn.symm (h vote List.mem_cons_self)
  · intro h vote hvote hn
    rw [h hn.symm] at hvote
    cases hvote

theorem unset_token_iff {token : Token} :
    (Message.token token).Unset n
      ↔ (n = 1 → token.name = "") ∧ (n = 2 → token.symbol = "") ∧ (n = 3 → token.decimals = 0) := by
  simp only [Unset, fields, Token.fields, List.forall_mem_append, forall_textField,
    forall_uint32Field, and_assoc]

theorem unset_nodeTypeResponse_iff {response : NodeTypeResponse} :
    (nodeTypeResponse response).Unset n
      ↔ (n = 1 → response.id = "") ∧ (n = 2 → response.result = "") := by
  simp only [Unset, fields, NodeTypeResponse.fields, List.forall_mem_append, forall_textField]

theorem unset_transactionRecord_iff {record : TransactionRecord} :
    (transactionRecord record).Unset n
      ↔ (n = 1 → record.id = "") ∧ (n = 2 → record.timestamp = 0)
        ∧ (n = 3 → record.senderAddress = "") ∧ (n = 4 → record.senderPublicKey = "")
        ∧ (n = 5 → record.receiverAddress = "") ∧ (n = 6 → record.token = none)
        ∧ (n = 7 → record.amount = 0) ∧ (n = 8 → record.signature = "")
        ∧ (n = 9 → record.validators = ∅) ∧ (n = 10 → record.nonce = 0) := by
  simp only [Unset, fields, TransactionRecord.fields, TransactionRecord.fieldsWith,
    List.forall_mem_append, forall_textField, forall_int64Field, forall_uint64Field,
    forall_tokenField, forall_voteFields, Validators.entries_eq_nil_iff, and_assoc]

theorem Unset.absorb_token {token : Token} {field : Field} (hn : field.number ≠ n)
    (h : (Message.token token).Unset n) : (Message.token (token.absorb field)).Unset n := by
  rw [unset_token_iff] at h ⊢
  cases field with
  | text k s =>
      rw [Token.absorb_text]
      have hk : k ≠ n := hn
      grind
  | uint32 k v =>
      rw [Token.absorb_uint32]
      have hk : k ≠ n := hn
      grind
  | _ => exact h

theorem Unset.absorb_nodeTypeResponse {response : NodeTypeResponse} {field : Field}
    (hn : field.number ≠ n) (h : (nodeTypeResponse response).Unset n) :
    (nodeTypeResponse (response.absorb field)).Unset n := by
  rw [unset_nodeTypeResponse_iff] at h ⊢
  cases field with
  | text k s =>
      rw [NodeTypeResponse.absorb_text]
      have hk : k ≠ n := hn
      grind
  | _ => exact h

theorem Unset.absorb_transactionRecord {record : TransactionRecord} {field : Field}
    (hn : field.number ≠ n) (h : (transactionRecord record).Unset n) :
    (transactionRecord (record.absorb field)).Unset n := by
  rw [unset_transactionRecord_iff] at h ⊢
  cases field with
  | text k s =>
      rw [TransactionRecord.absorb_text]
      have hk : k ≠ n := hn
      grind
  | int64 k v =>
      rw [TransactionRecord.absorb_int64]
      have hk : k ≠ n := hn
      grind
  | uint64 k v =>
      rw [TransactionRecord.absorb_uint64]
      have hk : k ≠ n := hn
      grind
  | message k inside =>
      rw [TransactionRecord.absorb_message]
      have hk : k ≠ n := hn
      grind
  | entry k address vote =>
      rw [TransactionRecord.absorb_entry]
      have hk : k ≠ n := hn
      grind
  | _ => exact h

/-- What fields make has none of the others set. -/
theorem unset_ofFields {type : MessageType} {fields : List Field}
    (h : ∀ field ∈ fields, field.number ≠ n) : (ofFields type fields).Unset n := by
  cases type with
  | nodeTypeRequest => exact List.forall_mem_nil _
  | mempoolRequest => exact List.forall_mem_nil _
  | nodeTypeResponse =>
      refine List.foldlRecOn (motive := fun response => (nodeTypeResponse response).Unset n)
        fields _ (unset_nodeTypeResponse_iff.mpr (by simp)) ?_
      intro response hresponse field hfield
      exact hresponse.absorb_nodeTypeResponse (h field hfield)
  | token =>
      refine List.foldlRecOn (motive := fun token => (Message.token token).Unset n) fields _
        (unset_token_iff.mpr (by simp)) ?_
      intro token htoken field hfield
      exact htoken.absorb_token (h field hfield)
  | transactionRecord =>
      refine List.foldlRecOn (motive := fun record => (transactionRecord record).Unset n) fields _
        (unset_transactionRecord_iff.mpr (by simp)) ?_
      intro record hrecord field hfield
      exact hrecord.absorb_transactionRecord (h field hfield)
  | mempoolResponse =>
      intro field hfield
      obtain ⟨record, hrecord, rfl⟩ := List.mem_map.mp hfield
      obtain ⟨source, hsource, hsame⟩ := List.mem_filterMap.mp hrecord
      unfold MempoolResponse.record? at hsame
      split at hsame
      · have hn : 1 ≠ n := h _ hsource
        exact hn
      · cases hsame

end

/-! ### What is read at all -/

/-- The fields of a message are read from members that name them. -/
theorem exists_member_of_fieldsOfMembers {type : MessageType} {seen : List Nat}
    {members : List (String × Json)} {fields : List Field}
    (h : fieldsOfMembers type seen members = .ok fields) :
    ∀ field ∈ fields, ∃ member ∈ members, ∃ spec, type.fieldByKey? member.1 = some spec
      ∧ field.number = spec.number := by
  induction members generalizing seen fields with
  | nil =>
      cases h
      exact List.forall_mem_nil _
  | cons member members ih =>
      intro field hfield
      rcases fieldsOfMembers_cons_ok h with ⟨-, hmore⟩ | ⟨spec, mine, others, hspec, -, hvalue,
        hmore, rfl⟩
      · obtain ⟨other, hother, hnames⟩ := ih hmore field hfield
        exact ⟨other, List.mem_cons_of_mem _ hother, hnames⟩
      · rcases List.mem_append.mp hfield with hfield | hfield
        · exact ⟨member, List.mem_cons_self, spec, hspec,
            number_of_fieldsOfValue hvalue field hfield⟩
        · obtain ⟨other, hother, hnames⟩ := ih hmore field hfield
          exact ⟨other, List.mem_cons_of_mem _ hother, hnames⟩

/-- A field is at its default where every member that names it is `null`. -/
theorem unset_of_null {type : MessageType} {members : List (String × Json)} {message : Message}
    (h : ofJsonLenient type (.object members) = .ok message) {spec : FieldSpec}
    (hspec : spec ∈ type.fields)
    (hnull : ∀ member ∈ members, type.fieldByKey? member.1 = some spec →
      member.2.isNull = true) : message.Unset spec.number := by
  obtain ⟨fields, hfields, rfl⟩ := ofJsonLenient_ok h
  -- A field with the number would have been read from a member that names it.
  refine unset_ofFields fun field hfield hnumber => ?_
  obtain ⟨normed, hnormed, other, hother, hsame⟩ :=
    exists_member_of_fieldsOfMembers hfields field hfield
  obtain ⟨member, hmember, hkey, hvalue⟩ := exists_of_mem_normalMembers hnormed
  obtain rfl : other = spec := MessageType.eq_of_number_eq (List.mem_of_find?_eq_some hother) hspec
    (hsame.symm.trans hnumber)
  rw [hnull member hmember (hkey ▸ hother)] at hvalue
  cases hvalue

/-! ### Where a `null` is not excused -/

/-- The value of a field holds a `null` that stands for no member of a message: a vote, or an
element of a sequence. -/
inductive HoldsNull : FieldKind → Json → Prop where
  | vote {address : String} {votes : List (String × Json)} (h : (address, .null) ∈ votes) :
      HoldsNull .flags (.object votes)
  | element {inner : MessageType} {items : List Json} (h : .null ∈ items) :
      HoldsNull (.repeated inner) (.array items)

theorem entriesOfMembers_ne_ok {number : Nat} {address : String} {votes : List (String × Json)}
    (h : (address, .null) ∈ votes) (fields : List Field) :
    entriesOfMembers number votes ≠ .ok fields := by
  induction votes generalizing fields with
  | nil => cases h
  | cons vote votes ih =>
      intro hread
      unfold entriesOfMembers at hread
      split at hread
      · rename_i heq
        cases heq
      · rename_i heq
        cases heq
        obtain ⟨others, hothers, -⟩ := exists_of_map_eq_ok hread
        rcases List.mem_cons.mp h with hvote | hvote
        · cases hvote
        · exact ih hvote others hothers
      · cases hread

theorem fieldsOfItems_ne_ok {number : Nat} {type : MessageType} {items : List Json}
    (h : .null ∈ items) (fields : List Field) :
    fieldsOfItems number type (normalItems type items) ≠ .ok fields := by
  induction items generalizing fields with
  | nil => cases h
  | cons item items ih =>
      intro hread
      unfold normalItems fieldsOfItems at hread
      split at hread
      · cases hread
      · rename_i hitem
        split at hread
        · cases hread
        · rename_i others hothers
          rcases List.mem_cons.mp h with rfl | hmore
          · cases hitem
          · exact ih hmore others hothers

theorem HoldsNull.fieldsOfValue_ne_ok {spec : FieldSpec} {value : Json}
    (h : HoldsNull spec.kind value) (fields : List Field) :
    fieldsOfValue spec (normalValue spec.kind value) ≠ .ok fields := by
  obtain ⟨number, name, jsonName, kind⟩ := spec
  cases h with
  | vote hvote => exact entriesOfMembers_ne_ok hvote fields
  | element hitem => exact fieldsOfItems_ne_ok hitem fields

theorem HoldsNull.isNull {kind : FieldKind} {value : Json} (h : HoldsNull kind value) :
    value.isNull = false := by
  cases h <;> rfl

/-! ### Without nulls -/

/-- All members of messages but those that are `null` under a key that names a field. -/
def exceptNulls : MemberTest := fun type key value =>
  !(value.isNull && (type.fieldByKey? key).isSome)

theorem exceptNulls_keepsSearched : exceptNulls.KeepsSearched := by
  intro type key value h
  have hboth : value.isNull = true ∧ (type.fieldByKey? key).isSome = true := by
    simpa [exceptNulls] using h
  exact ⟨Option.isSome_iff_exists.mp hboth.2, hboth.1⟩

/-- **A `null` under a key that names a field is as good as no member, in every message.** A value
without such members is read alike under either policy, as the same message or with the same
error; and in a message that is read, a field is at its default if no member but a `null` names
it, in either spelling. A `null` among votes or as an element of a sequence is refused. -/
theorem ofJson_without_nulls (type : MessageType) (policy : KeyPolicy) (value : Json) :
    ofJson type policy (retained exceptNulls type value) = ofJson type policy value
      ∧ (∀ message, ofJson type policy value = .ok message →
        ∀ path inner members, ObjectAt type value path inner members →
          ∃ part, message.part? path = some part ∧ part.type = inner
            ∧ ∀ spec ∈ inner.fields,
              (∀ member ∈ members, inner.fieldByKey? member.1 = some spec →
                member.2.isNull = true) →
              part.Unset spec.number)
      ∧ ∀ path inner members key found spec, ObjectAt type value path inner members →
        (key, found) ∈ members → inner.fieldByKey? key = some spec →
        HoldsNull spec.kind found → ∃ error, ofJson type policy value = .error error := by
  refine ⟨ofJson_retained exceptNulls_keepsSearched type policy value, ?_, ?_⟩
  · intro message h path inner members hobject
    obtain ⟨part, hpart, hread⟩ := hobject.exists_part (ofJson_ok h)
    have hlenient : ofJson inner .lenient (.object members) = .ok part := hread
    refine ⟨part, hpart, type_of_ofJson hlenient, ?_⟩
    intro spec hspec hnull
    exact unset_of_null hread hspec hnull
  · intro path inner members key found spec hobject hmember hspec hholds
    refine exists_error fun message h => ?_
    obtain ⟨part, -, hread⟩ := hobject.exists_part (ofJson_ok h)
    obtain ⟨front, mine, back, -, hmine, -⟩ := exists_of_member hread hmember hspec hholds.isNull
    exact hholds.fieldsOfValue_ne_ok mine hmine

/-- A `null` under the second spelling of a field does not conflict with a value under the first,
and a token that is `null` is absent; a vote that is `null` is refused. -/
theorem ofJson_without_nulls_spellings :
    ofJson .transactionRecord .strict
        (.object [("senderAddress", .string "a"), ("sender_address", .null), ("token", .null)])
      = ofJson .transactionRecord .strict (.object [("senderAddress", .string "a")])
      ∧ (∃ part, part? (.transactionRecord { senderAddress := "a" }) [] = some part
        ∧ part.type = .transactionRecord ∧ part.Unset 6)
      ∧ ∃ error, ofJson .transactionRecord .strict
          (.object [("validators", .object [("v", .null)])]) = .error error := by
  refine ⟨?_, ?_, ?_⟩
  · exact (ofJson_without_nulls .transactionRecord .strict _).1.symm
  · obtain ⟨part, hpart, htype, hunset⟩ :=
      (ofJson_without_nulls .transactionRecord .strict
        (.object [("senderAddress", .string "a"), ("sender_address", .null), ("token", .null)])).2.1
        (.transactionRecord { senderAddress := "a" }) rfl [] .transactionRecord _ .root
    refine ⟨part, hpart, htype, hunset ⟨6, "token", "token", .message .token⟩ (by decide) ?_⟩
    decide
  · exact (ofJson_without_nulls .transactionRecord .strict _).2.2 [] .transactionRecord _
      "validators" (.object [("v", .null)]) ⟨9, "validators", "validators", .flags⟩ .root
      List.mem_cons_self rfl (.vote List.mem_cons_self)

end Message

end NodeView
