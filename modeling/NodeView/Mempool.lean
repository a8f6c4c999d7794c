import NodeView.Message.Basic
/-!
# NodeView.Mempool

The pending transactions of a node, and how they change.

* A `Snapshot` is what is pending at one moment, in the order in which it came to be pending.
  It never changes: whoever holds one keeps seeing what it held.
* An `Update` leads from one snapshot to the next. Nothing keeps two transactions with one
  identifier apart: both are pending, a look-up yields the earlier one, and a removal takes
  both.
-/

namespace NodeView

/-- The transactions that are pending at one moment. -/
structure Snapshot where
  /-- The transactions, in the order in which they came to be pending. -/
  records : List TransactionRecord := []
  deriving DecidableEq

namespace Snapshot

/-- How many transactions are pending. -/
def size (snapshot : Snapshot) : Nat := snapshot.records.length

/-- Whether nothing is pending. -/
def isEmpty (snapshot : Snapshot) : Bool := snapshot.records.isEmpty

/-- The identifiers of the pending transactions. -/
def ids (snapshot : Snapshot) : List String := snapshot.records.map (·.id)

/-- The first pending transaction with an identifier. -/
def get? (snapshot : Snapshot) (id : String) : Option TransactionRecord :=
  snapshot.records.find? (·.id = id)

/-- How many pending transactions have an identifier. -/
def count (snapshot : Snapshot) (id : String) : Nat := snapshot.records.countP (·.id = id)

end Snapshot

/-- A change to what is pending. -/
inductive Update where
  /-- These transactions are pending and no others. -/
  | publish (records : List TransactionRecord)
  /-- One more transaction is pending, behind all others. -/
  | push (record : TransactionRecord)
  /-- No transaction with this identifier is pending any more. -/
  | remove (id : String)
  /-- Nothing is pending any more. -/
  | clear
  deriving DecidableEq

namespace Snapshot

/-- What is pending after an update. -/
def update (snapshot : Snapshot) : Update → Snapshot
  | .publish records => ⟨records⟩
  | .push record => ⟨snapshot.records ++ [record]⟩
  | .remove id => ⟨snapshot.records.filter (·.id ≠ id)⟩
  | .clear => ⟨[]⟩

/-- What is pending after some updates. -/
def run (snapshot : Snapshot) (updates : List Update) : Snapshot := updates.foldl update snapshot

@[simp] theorem run_nil (snapshot : Snapshot) : snapshot.run [] = snapshot := rfl

@[simp] theorem run_cons (snapshot : Snapshot) (step : Update) (updates : List Update) :
    snapshot.run (step :: updates) = (snapshot.update step).run updates := rfl

theorem run_append (snapshot : Snapshot) (front back : List Update) :
    snapshot.run (front ++ back) = (snapshot.run front).run back :=
  List.foldl_append

/-- A removal takes as many transactions as have the identifier. -/
theorem size_update_remove_add_count (snapshot : Snapshot) (id : String) :
    (snapshot.update (.remove id)).size + snapshot.count id = snapshot.size := by
  simp only [update, size, count]
  induction snapshot.records with
  | nil => rfl
  | cons record records ih => by_cases h : record.id = id <;> simp [h] at ih ⊢ <;> omega

end Snapshot

end NodeView
