import NodeView.Message.Basic
import NodeView.Proofs.Keyed
/-!
# NodeView.Proofs.Message.Merge

What the fields of a message do to a message that other fields made before them.

The fields of a value leave out what is at its default, so behind other fields they do not give
the value back but merge it into what is there: a scalar that is not at its default takes the
place of the earlier one, a token is merged in turn, and votes replace those of the same
addresses (`TransactionRecord.foldl_absorb_fieldsWith`). Nothing is there at first, and merged
into nothing a value is itself (`TransactionRecord.merge_empty`).
-/

namespace NodeView

open Wire (Field)

/-! ### Merging values -/

/-- The later value, unless it is the default and so leaves no field behind. -/
def lastSet {α : Type} [DecidableEq α] (default earlier later : α) : α :=
  if later = default then earlier else later

/-- Votes over earlier ones. -/
def Validators.merge (earlier later : Validators) : Validators :=
  later.entries.foldl (fun map vote => map.insert vote.1 vote.2) earlier

/-- A token over an earlier one. -/
def Token.merge (earlier later : Token) : Token where
  name := lastSet "" earlier.name later.name
  symbol := lastSet "" earlier.symbol later.symbol
  decimals := lastSet 0 earlier.decimals later.decimals

/-- A transaction over an earlier one. -/
def TransactionRecord.merge (earlier later : TransactionRecord) : TransactionRecord where
  id := lastSet "" earlier.id later.id
  timestamp := lastSet 0 earlier.timestamp later.timestamp
  senderAddress := lastSet "" earlier.senderAddress later.senderAddress
  senderPublicKey := lastSet "" earlier.senderPublicKey later.senderPublicKey
  receiverAddress := lastSet "" earlier.receiverAddress later.receiverAddress
  token :=
    match later.token with
    | none => earlier.token
    | some token => some ((earlier.token.getD {}).merge token)
  amount := lastSet 0 earlier.amount later.amount
  signature := lastSet "" earlier.signature later.signature
  validators := earlier.validators.merge later.validators
  nonce := lastSet 0 earlier.nonce later.nonce

/-- A response with a node's role over an earlier one. -/
def NodeTypeResponse.merge (earlier later : NodeTypeResponse) : NodeTypeResponse where
  id := lastSet "" earlier.id later.id
  result := lastSet "" earlier.result later.result

/-- Pending transactions behind earlier ones. -/
def MempoolResponse.merge (earlier later : MempoolResponse) : MempoolResponse where
  transactionRecords := earlier.transactionRecords ++ later.transactionRecords

/-- A message over an earlier one of the same type. -/
def Message.merge : (earlier later : Message) → Message
  | .nodeTypeResponse earlier, .nodeTypeResponse later => .nodeTypeResponse (earlier.merge later)
  | .mempoolResponse earlier, .mempoolResponse later => .mempoolResponse (earlier.merge later)
  | .transactionRecord earlier, .transactionRecord later =>
    .transactionRecord (earlier.merge later)
  | .token earlier, .token later => .token (earlier.merge later)
  | _, later => later

@[simp] theorem lastSet_default {α : Type} [DecidableEq α] (default later : α) :
    lastSet default default later = later := by
  unfold lastSet
  split
  · rename_i h
    exact h.symm
  · rfl

@[simp] theorem Token.merge_empty (token : Token) : Token.merge {} token = token := by
  simp [Token.merge]

@[simp] theorem NodeTypeResponse.merge_empty (response : NodeTypeResponse) :
    NodeTypeResponse.merge {} response = response := by
  simp [NodeTypeResponse.merge]

/-! ### Votes in any order -/

theorem Validators.get?_foldl_insert (votes : List (String × Bool)) (map : Validators)
    (address : String) :
    (votes.foldl (fun map vote => map.insert vote.1 vote.2) map).get? address
      = (Keyed.lookup? address votes.reverse).or (map.get? address) := by
  have hentries : (votes.foldl (fun map vote => map.insert vote.1 vote.2) map).entries
      = votes.foldl (fun sorted vote => Keyed.insert vote.1 vote.2 sorted) map.entries := by
    induction votes generalizing map with
    | nil => rfl
    | cons vote votes ih => exact ih (map.insert vote.1 vote.2)
  rw [Validators.get?, hentries, Keyed.lookup?_foldl_insert]
  rfl

/-- Votes may be cast in any order, as long as no address votes twice. -/
theorem Validators.foldl_insert_of_perm {votes : List (String × Bool)} {later : Validators}
    (h : votes.Perm later.entries) (earlier : Validators) :
    votes.foldl (fun map vote => map.insert vote.1 vote.2) earlier = earlier.merge later := by
  ext1 address
  have hback : later.entries.Perm votes.reverse := h.symm.trans (List.reverse_perm votes).symm
  rw [Validators.merge, get?_foldl_insert, get?_foldl_insert, later.sorted.lookup?_reverse,
    Keyed.lookup?_eq_of_perm hback later.sorted.nodup_keys]

/-- An address keeps its later vote if it cast one, and its earlier one otherwise. -/
theorem Validators.get?_merge (earlier later : Validators) (address : String) :
    (earlier.merge later).get? address = (later.get? address).or (earlier.get? address) := by
  rw [Validators.merge, get?_foldl_insert, later.sorted.lookup?_reverse]
  rfl

@[simp] theorem Validators.merge_empty (map : Validators) :
    (∅ : Validators).merge map = map := by
  ext1 address
  rw [Validators.merge, get?_foldl_insert, map.sorted.lookup?_reverse]
  exact Option.or_none

@[simp] theorem TransactionRecord.merge_empty (record : TransactionRecord) :
    TransactionRecord.merge {} record = record := by
  obtain ⟨_, _, _, _, _, token, _, _, _, _⟩ := record
  cases token <;> simp [TransactionRecord.merge]

/-! ### Fields over a message -/

/-- A field that is left out at its default keeps what is there in that case. -/
theorem foldl_unless {σ α : Type} [DecidableEq α] (absorb : σ → Field → σ) (field : α → Field)
    (default : α) (get : σ → α) (set : σ → α → σ) (habsorb : ∀ s v, absorb s (field v) = set s v)
    (hsame : ∀ s, set s (get s) = s) (state : σ) (value : α) :
    (if value = default then [] else [field value]).foldl absorb state
      = set state (lastSet default (get state) value) := by
  unfold lastSet
  split
  · exact (hsame state).symm
  · exact habsorb state value

namespace Token

theorem foldl_absorb_name (token : Token) (value : String) :
    (textField 1 value).foldl absorb token
      = { token with name := lastSet "" token.name value } :=
  foldl_unless absorb (.text 1) "" (·.name) (fun token v => { token with name := v })
    (fun _ _ => rfl) (fun _ => rfl) token value

theorem foldl_absorb_symbol (token : Token) (value : String) :
    (textField 2 value).foldl absorb token
      = { token with symbol := lastSet "" token.symbol value } :=
  foldl_unless absorb (.text 2) "" (·.symbol) (fun token v => { token with symbol := v })
    (fun _ _ => rfl) (fun _ => rfl) token value

theorem foldl_absorb_decimals (token : Token) (value : UInt32) :
    (uint32Field 3 value).foldl absorb token
      = { token with decimals := lastSet 0 token.decimals value } :=
  foldl_unless absorb (.uint32 3) 0 (·.decimals) (fun token v => { token with decimals := v })
    (fun _ _ => rfl) (fun _ => rfl) token value

/-- The fields of a token merge it into what is there. -/
theorem foldl_absorb_fields (token earlier : Token) :
    token.fields.foldl absorb earlier = earlier.merge token := by
  simp only [fields, List.foldl_append, foldl_absorb_name, foldl_absorb_symbol,
    foldl_absorb_decimals, merge]

end Token

namespace NodeTypeResponse

theorem foldl_absorb_id (response : NodeTypeResponse) (value : String) :
    (textField 1 value).foldl absorb response
      = { response with id := lastSet "" response.id value } :=
  foldl_unless absorb (.text 1) "" (·.id) (fun response v => { response with id := v })
    (fun _ _ => rfl) (fun _ => rfl) response value

theorem foldl_absorb_result (response : NodeTypeResponse) (value : String) :
    (textField 2 value).foldl absorb response
      = { response with result := lastSet "" response.result value } :=
  foldl_unless absorb (.text 2) "" (·.result) (fun response v => { response with result := v })
    (fun _ _ => rfl) (fun _ => rfl) response value

/-- The fields of a response with a node's role merge it into what is there. -/
theorem foldl_absorb_fields (response earlier : NodeTypeResponse) :
    response.fields.foldl absorb earlier = earlier.merge response := by
  simp only [fields, List.foldl_append, foldl_absorb_id, foldl_absorb_result, merge]

end NodeTypeResponse

namespace TransactionRecord

theorem foldl_absorb_id (record : TransactionRecord) (value : String) :
    (textField 1 value).foldl absorb record
      = { record with id := lastSet "" record.id value } :=
  foldl_unless absorb (.text 1) "" (·.id) (fun r v => { r with id := v })
    (fun _ _ => rfl) (fun _ => rfl) record value

theorem foldl_absorb_timestamp (record : TransactionRecord) (value : Int64) :
    (int64Field 2 value).foldl absorb record
      = { record with timestamp := lastSet 0 record.timestamp value } :=
  foldl_unless absorb (.int64 2) 0 (·.timestamp) (fun r v => { r with timestamp := v })
    (fun _ _ => rfl) (fun _ => rfl) record value

theorem foldl_absorb_senderAddress (record : TransactionRecord) (value : String) :
    (textField 3 value).foldl absorb record
      = { record with senderAddress := lastSet "" record.senderAddress value } :=
  foldl_unless absorb (.text 3) "" (·.senderAddress) (fun r v => { r with senderAddress := v })
    (fun _ _ => rfl) (fun _ => rfl) record value

theorem foldl_absorb_senderPublicKey (record : TransactionRecord) (value : String) :
    (textField 4 value).foldl absorb record
      = { record with senderPublicKey := lastSet "" record.senderPublicKey value } :=
  foldl_unless absorb (.text 4) "" (·.senderPublicKey) (fun r v => { r with senderPublicKey := v })
    (fun _ _ => rfl) (fun _ => rfl) record value

theorem foldl_absorb_receiverAddress (record : TransactionRecord) (value : String) :
    (textField 5 value).foldl absorb record
      = { record with receiverAddress := lastSet "" record.receiverAddress value } :=
  foldl_unless absorb (.text 5) "" (·.receiverAddress) (fun r v => { r with receiverAddress := v })
    (fun _ _ => rfl) (fun _ => rfl) record value

theorem foldl_absorb_amount (record : TransactionRecord) (value : UInt64) :
    (uint64Field 7 value).foldl absorb record
      = { record with amount := lastSet 0 record.amount value } :=
  foldl_unless absorb (.uint64 7) 0 (·.amount) (fun r v => { r with amount := v })
    (fun _ _ => rfl) (fun _ => rfl) record value

theorem foldl_absorb_signature (record : TransactionRecord) (value : String) :
    (textField 8 value).foldl absorb record
      = { record with signature := lastSet "" record.signature value } :=
  foldl_unless absorb (.text 8) "" (·.signature) (fun r v => { r with signature := v })
    (fun _ _ => rfl) (fun _ => rfl) record value

theorem foldl_absorb_nonce (record : TransactionRecord) (value : UInt64) :
    (uint64Field 10 value).foldl absorb record
      = { record with nonce := lastSet 0 record.nonce value } :=
  foldl_unless absorb (.uint64 10) 0 (·.nonce) (fun r v => { r with nonce := v })
    (fun _ _ => rfl) (fun _ => rfl) record value

theorem foldl_absorb_votes (record : TransactionRecord) (votes : List (String × Bool)) :
    (votes.map fun (address, vote) => Field.entry 9 address vote).foldl absorb record
      = { record with
          validators :=
            votes.foldl (fun map vote => map.insert vote.1 vote.2) record.validators } := by
  induction votes generalizing record with
  | nil => rfl
  | cons vote votes ih => exact ih (record.absorb (.entry 9 vote.1 vote.2))

/-- A token is merged into an earlier one, in whatever way its fields are listed. -/
theorem foldl_absorb_token {fields : Token → List Field}
    (h : ∀ token earlier, (fields token).foldl Token.absorb earlier = earlier.merge token)
    (record : TransactionRecord) (token : Option Token) :
    (token.toList.map fun token => Field.message 6 (fields token)).foldl absorb record
      = { record with
          token :=
            match token with
            | none => record.token
            | some token => some ((record.token.getD {}).merge token) } := by
  cases token with
  | none => rfl
  | some token =>
      simp only [Option.toList_some, List.map_cons, List.map_nil, List.foldl_cons, List.foldl_nil,
        absorb, h]

/-- The fields of a transaction, its votes in any order, merge it into what is there. -/
theorem foldl_absorb_fieldsWith {record : TransactionRecord} {votes : List (String × Bool)}
    (hvotes : votes.Perm record.validators.entries) (earlier : TransactionRecord) :
    (record.fieldsWith votes).foldl absorb earlier = earlier.merge record := by
  simp only [fieldsWith, List.foldl_append, foldl_absorb_id, foldl_absorb_timestamp,
    foldl_absorb_senderAddress, foldl_absorb_senderPublicKey, foldl_absorb_receiverAddress,
    foldl_absorb_token Token.foldl_absorb_fields, foldl_absorb_amount, foldl_absorb_signature,
    foldl_absorb_votes, Validators.foldl_insert_of_perm hvotes, foldl_absorb_nonce]
  rfl

end TransactionRecord

end NodeView
