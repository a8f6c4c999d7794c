import Mathlib.Algebra.Order.BigOperators.Group.List
import Mathlib.Algebra.Order.Ring.Nat
import NodeView.Proofs.Client
import NodeView.Proofs.Mempool
/-!
# NodeView.Proofs.Node

When a node tells what is pending.

It does so by the size of its response alone (`Node.mempoolResponse_attached`), and the size of a
response is the sum of what its transactions take, so of two responses the one whose transactions
are all in the other is no larger (`encodedSize_le_of_sublist`). An update that discards nothing
keeps all transactions, one that introduces nothing adds none, and over a run of such updates this
carries a refusal forward (`Node.mempoolResponse_after_kept`) and a success too
(`Node.mempoolResponse_after_left`). The node and the sender look at one size and one limit, so the
sender finds nothing to complain of (`Node.mempoolResponse_exact`).
-/

namespace NodeView

open Wire (Field sizeFields varintSize)

/-! ### Sizes of responses -/

/-- The size of a response, as the sum of what its transactions take. -/
theorem MempoolResponse.encodedSize_eq (records : List TransactionRecord) :
    (Message.mempoolResponse ⟨records⟩).encodedSize
      = (records.map fun record =>
          1 + varintSize (Message.transactionRecord record).encodedSize
            + (Message.transactionRecord record).encodedSize).sum := by
  have hkey : varintSize (Wire.Key.mk 1 .delimited).toNat = 1 := by decide +kernel
  show sizeFields (records.map fun record => .message 1 record.fields) = _
  induction records with
  | nil => rfl
  | cons record records ih =>
      rw [List.map_cons, List.map_cons, List.sum_cons, sizeFields, ih, Field.size, hkey,
        Wire.delimitedSize, ← Nat.add_assoc]
      rfl

/-- One more transaction takes a key, its length and itself. -/
theorem MempoolResponse.encodedSize_push (records : List TransactionRecord)
    (record : TransactionRecord) :
    (Message.mempoolResponse ⟨records ++ [record]⟩).encodedSize
      = (Message.mempoolResponse ⟨records⟩).encodedSize
        + (1 + varintSize (Message.transactionRecord record).encodedSize
          + (Message.transactionRecord record).encodedSize) := by
  simp only [encodedSize_eq, List.map_append, List.sum_append, List.map_cons, List.map_nil,
    List.sum_cons, List.sum_nil, Nat.add_zero]

/-- A response with some of the transactions of another is no larger. -/
theorem MempoolResponse.encodedSize_le_of_sublist {records more : List TransactionRecord}
    (h : records.Sublist more) :
    (Message.mempoolResponse ⟨records⟩).encodedSize
      ≤ (Message.mempoolResponse ⟨more⟩).encodedSize := by
  rw [encodedSize_eq, encodedSize_eq]
  exact (h.map _).sum_le_sum fun _ _ => Nat.zero_le _

/-! ### Updates that only add or only take away -/

namespace Snapshot

theorem sublist_update {next : Update} (h : ∀ record, next.discards record = false)
    (snapshot : Snapshot) : snapshot.records.Sublist (snapshot.update next).records := by
  rw [records_update, List.filter_eq_self.mpr fun record _ => by rw [h record]; rfl]
  exact List.sublist_append_left _ _

theorem update_sublist {next : Update} (h : next.introduced = []) (snapshot : Snapshot) :
    (snapshot.update next).records.Sublist snapshot.records := by
  rw [records_update, h, List.append_nil]
  exact List.filter_sublist

/-- Updates that discard nothing keep everything that is pending. -/
theorem sublist_run {updates : List Update}
    (h : ∀ next ∈ updates, ∀ record, next.discards record = false) (snapshot : Snapshot) :
    snapshot.records.Sublist (snapshot.run updates).records := by
  induction updates generalizing snapshot with
  | nil => exact List.Sublist.refl _
  | cons next updates ih =>
      obtain ⟨hnext, hupdates⟩ := List.forall_mem_cons.mp h
      exact (snapshot.sublist_update hnext).trans (ih hupdates _)

/-- Updates that introduce nothing leave some of what is pending. -/
theorem run_sublist {updates : List Update} (h : ∀ next ∈ updates, next.introduced = [])
    (snapshot : Snapshot) : (snapshot.run updates).records.Sublist snapshot.records := by
  induction updates generalizing snapshot with
  | nil => exact List.Sublist.refl _
  | cons next updates ih =>
      obtain ⟨hnext, hupdates⟩ := List.forall_mem_cons.mp h
      exact (ih hupdates _).trans (snapshot.update_sublist hnext)

end Snapshot

/-! ### Refusals and successes -/

namespace Node

variable {settings : Settings} {snapshot : Snapshot}

theorem mempoolResponse_eq_ok_iff {response : MempoolResponse} :
    mempoolResponse ⟨settings, some snapshot⟩ = .ok response
      ↔ response = ⟨snapshot.records⟩
        ∧ (Message.mempoolResponse ⟨snapshot.records⟩).encodedSize
          ≤ settings.maxMessageSize.toNat := by
  rw [mempoolResponse_attached, Message.length_encode]
  split
  · rename_i hlimit
    constructor
    · intro h
      cases h
    · rintro ⟨-, hfits⟩
      exact absurd hlimit (Nat.not_lt.mpr hfits)
  · rename_i hlimit
    constructor
    · intro h
      cases h
      exact ⟨rfl, Nat.not_lt.mp hlimit⟩
    · rintro ⟨rfl, -⟩
      rfl

theorem mempoolResponse_eq_tooLarge_iff {size limit : Nat} :
    mempoolResponse ⟨settings, some snapshot⟩ = .error (.tooLarge size limit)
      ↔ size = (Message.mempoolResponse ⟨snapshot.records⟩).encodedSize
        ∧ limit = settings.maxMessageSize.toNat ∧ limit < size := by
  rw [mempoolResponse_attached, Message.length_encode]
  split
  · rename_i hlimit
    constructor
    · intro h
      cases h
      exact ⟨rfl, rfl, hlimit⟩
    · rintro ⟨rfl, rfl, -⟩
      rfl
  · rename_i hlimit
    constructor
    · intro h
      cases h
    · rintro ⟨rfl, rfl, hless⟩
      exact absurd hless hlimit

/-- What is too large stays so as long as nothing is discarded. -/
theorem mempoolResponse_after_kept {size limit : Nat}
    (h : mempoolResponse ⟨settings, some snapshot⟩ = .error (.tooLarge size limit))
    {updates : List Update}
    (hkept : ∀ next ∈ updates, ∀ record, next.discards record = false) :
    ∃ size', size ≤ size' ∧ mempoolResponse ⟨settings, some (snapshot.run updates)⟩
      = .error (.tooLarge size' limit) := by
  obtain ⟨rfl, rfl, hlimit⟩ := mempoolResponse_eq_tooLarge_iff.mp h
  have hsize := MempoolResponse.encodedSize_le_of_sublist (snapshot.sublist_run hkept)
  exact ⟨_, hsize, mempoolResponse_eq_tooLarge_iff.mpr ⟨rfl, rfl, Nat.lt_of_lt_of_le hlimit hsize⟩⟩

/-- What fits stays so as long as nothing is introduced. -/
theorem mempoolResponse_after_left {response : MempoolResponse}
    (h : mempoolResponse ⟨settings, some snapshot⟩ = .ok response) {updates : List Update}
    (hleft : ∀ next ∈ updates, next.introduced = []) :
    mempoolResponse ⟨settings, some (snapshot.run updates)⟩
      = .ok ⟨(snapshot.run updates).records⟩ := by
  obtain ⟨-, hlimit⟩ := mempoolResponse_eq_ok_iff.mp h
  have hsize := MempoolResponse.encodedSize_le_of_sublist (snapshot.run_sublist hleft)
  exact mempoolResponse_eq_ok_iff.mpr ⟨rfl, Nat.le_trans hsize hlimit⟩

end Node

/-! ### What the sender finds -/

/-- The two sides of a connection word their complaints differently. -/
theorem lengthStatus_decoded_ne (size limit size' limit' : Nat) :
    lengthStatus "decoded" size limit ≠ lengthStatus "encoded" size' limit' := by
  intro h
  have hletters := congrArg (fun status => (status.message.toList.drop 7).head?) h
  simp [lengthStatus] at hletters

/-- A sender complains only about what is over its limit. -/
theorem deliver_ne_encoded {sent taken : Nat} {type : MessageType} {bytes : List UInt8}
    (h : bytes.length ≤ sent) (size limit : Nat) :
    deliver sent taken type bytes ≠ .error (lengthStatus "encoded" size limit) := by
  rw [deliver, if_neg (Nat.not_lt.mpr h)]
  split
  · intro hstatus
    cases hstatus
  · split
    · intro hstatus
      exact lengthStatus_decoded_ne _ _ _ _ (Except.error.inj hstatus)
    · split <;> intro hstatus <;> cases hstatus

theorem Client.takeMempool_ne_encoded {client : Client} {bytes : List UInt8}
    (h : bytes.length ≤ client.node.limit) (size limit : Nat) :
    client.takeMempool bytes ≠ .error (.status (lengthStatus "encoded" size limit)) := by
  have hdeliver : deliver client.node.limit client.limit .mempoolResponse bytes
      ≠ .error (lengthStatus "encoded" size limit) := deliver_ne_encoded h size limit
  intro hstatus
  unfold takeMempool take at hstatus
  cases hended : deliver client.node.limit client.limit .mempoolResponse bytes with
  | ok message =>
      rw [hended] at hstatus
      cases hstatus
  | error status =>
      rw [hended] at hstatus
      cases hstatus
      exact hdeliver hended

namespace Node

/-- **The size that a node looks at is the size of what it would send.** The sizes of the fields of
a message add up to the length of its binary form, whichever orders its votes are taken in. So a
node with a mempool tells what is pending exactly if the bytes that it would send are no more than
its limit, and refuses with their number otherwise; what it sends is never refused by the sender,
which has the same limit. One more transaction takes a byte for its key, its length and itself.
A refusal persists however many transactions are pushed, and a success persists whatever is
removed. -/
theorem mempoolResponse_exact (settings : Settings) (snapshot : Snapshot) :
    let node : Node := ⟨settings, some snapshot⟩
    let response : MempoolResponse := ⟨snapshot.records⟩
    (∀ (message : Message) (listed written : List Field), message.Lists listed →
        message.Lists written → sizeFields listed = (Wire.writeFields written).length)
      ∧ (∀ bytes, (Message.mempoolResponse response).BinaryForm bytes →
          (node.mempoolResponse = .ok response ↔ bytes.length ≤ node.limit)
          ∧ (node.mempoolResponse = .error (.tooLarge bytes.length node.limit)
            ↔ node.limit < bytes.length)
          ∧ (node.mempoolResponse = .ok response → ∀ taken size limit,
            deliver node.limit taken .mempoolResponse bytes
              ≠ .error (lengthStatus "encoded" size limit)))
      ∧ (∀ limit size served, Client.mempool ⟨node, limit⟩
          ≠ .error (.status (lengthStatus "encoded" size served)))
      ∧ (∀ record before own after, (Message.mempoolResponse response).BinaryForm before →
          (Message.transactionRecord record).BinaryForm own →
          (Message.mempoolResponse ⟨(snapshot.update (.push record)).records⟩).BinaryForm after →
          after.length = before.length + (1 + varintSize own.length + own.length))
      ∧ (∀ size limit, node.mempoolResponse = .error (.tooLarge size limit) →
          ∀ records : List TransactionRecord, ∃ size', size ≤ size'
            ∧ mempoolResponse ⟨settings, some (snapshot.run (records.map .push))⟩
              = .error (.tooLarge size' limit))
      ∧ (node.mempoolResponse = .ok response → ∀ ids : List String,
          ∃ left, mempoolResponse ⟨settings, some (snapshot.run (ids.map .remove))⟩ = .ok left
            ∧ left.transactionRecords.Sublist response.transactionRecords) := by
  intro node response
  refine ⟨?_, ?_, ?_, ?_, ?_, ?_⟩
  · intro message listed written hlisted hwritten
    rw [Wire.length_writeFields, hlisted.sizeFields_eq, hwritten.sizeFields_eq]
  · intro bytes hbytes
    have hok : node.mempoolResponse = .ok response ↔ bytes.length ≤ node.limit := by
      rw [hbytes.length_eq]
      exact mempoolResponse_eq_ok_iff.trans (and_iff_right rfl)
    refine ⟨hok, ?_, fun h _ size limit => deliver_ne_encoded (hok.mp h) size limit⟩
    rw [hbytes.length_eq]
    exact mempoolResponse_eq_tooLarge_iff.trans (by simp [node, response, limit])
  · intro limit size served
    unfold Client.mempool
    split
    · rename_i refusal hrefusal
      intro hstatus
      cases refusal with
      | unavailable reason => cases hstatus
      | tooLarge size limit => cases hstatus
    · rename_i told htold
      obtain ⟨rfl, hfits⟩ := mempoolResponse_eq_ok_iff.mp htold
      rw [← Message.length_encode] at hfits
      exact Client.takeMempool_ne_encoded hfits size served
  · intro record before own after hbefore hown hafter
    rw [hafter.length_eq, hbefore.length_eq, hown.length_eq]
    exact MempoolResponse.encodedSize_push snapshot.records record
  · intro size limit hrefused records
    refine mempoolResponse_after_kept hrefused ?_
    rw [List.forall_mem_map]
    exact fun _ _ _ => rfl
  · intro htold ids
    have hleft : ∀ next ∈ ids.map Update.remove, next.introduced = [] := by
      rw [List.forall_mem_map]
      exact fun _ _ => rfl
    exact ⟨_, mempoolResponse_after_left htold hleft, snapshot.run_sublist hleft⟩

/-- From 128 bytes on, the length of a transaction takes one byte more. -/
example :
    let size (length : Nat) : Nat :=
      (Message.mempoolResponse ⟨[{ id := String.ofList (List.replicate length 'x') }]⟩).encodedSize
    size 125 = 1 + 1 + 127 ∧ size 126 = 1 + 2 + 128 := by
  decide +kernel

end Node

end NodeView
