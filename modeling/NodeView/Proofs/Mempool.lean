import Mathlib.Data.List.Induction
import NodeView.Mempool.Channel
/-!
# NodeView.Proofs.Mempool

What is pending, told from the whole history of a mempool.

A transaction is pending as long as it was introduced and no later update discards it, so what
is pending is what `survivors` reads off the list of all updates. One update does two things to
that list: it discards some survivors, and it adds what it introduces behind the others
(`survivors_append_singleton`); a snapshot is updated in the same way (`records_update`), which
carries the induction over a run (`records_run`).

Readers see no more than this. A snapshot that was loaded keeps its place among the versions of
the channel, since writing only adds a version (`Channel.versions_run`), so whenever it is looked
at it is what survived when it was loaded (`Channel.run_holds_survivors`).
-/

namespace NodeView

/-! ### Survivors -/

namespace Update

/-- The transactions that an update introduces. -/
def introduced : Update → List TransactionRecord
  | .publish records => records
  | .push record => [record]
  | .remove _ | .clear => []

/-- Whether a transaction that was pending before an update is so no more after it. -/
def discards (update : Update) (record : TransactionRecord) : Bool :=
  match update with
  | .publish _ | .clear => true
  | .push _ => false
  | .remove id => record.id = id

end Update

/-- What some updates introduced and none of the later ones discards, in the order in which it
was introduced. -/
def survivors : List Update → List TransactionRecord
  | [] => []
  | update :: later =>
    (update.introduced.filter fun record => later.all fun next => !next.discards record)
      ++ survivors later

theorem survivors_append_singleton (updates : List Update) (last : Update) :
    survivors (updates ++ [last])
      = (survivors updates).filter (fun record => !last.discards record) ++ last.introduced := by
  induction updates with
  | nil => simp [survivors]
  | cons update later ih =>
      have hlast : ∀ record, (later ++ [last]).all (fun next => !next.discards record)
          = (!last.discards record && later.all fun next => !next.discards record) := by
        intro record
        rw [List.all_append, List.all_cons, List.all_nil, Bool.and_true, Bool.and_comm]
      simp only [List.cons_append, survivors, ih, hlast, List.filter_append, List.filter_filter,
        List.append_assoc]

/-- A transaction survives exactly if some update introduced it and no later one discards it. -/
theorem mem_survivors_iff {updates : List Update} {record : TransactionRecord} :
    record ∈ survivors updates ↔ ∃ earlier update later, updates = earlier ++ update :: later
      ∧ record ∈ update.introduced ∧ ∀ next ∈ later, next.discards record = false := by
  induction updates with
  | nil => simp [survivors]
  | cons first rest ih =>
      simp only [survivors, List.mem_append, List.mem_filter, List.all_eq_true,
        Bool.not_eq_true', ih]
      constructor
      · rintro (⟨hmem, hlater⟩ | ⟨earlier, update, later, rfl, hmem, hlater⟩)
        · exact ⟨[], first, rest, rfl, hmem, hlater⟩
        · exact ⟨first :: earlier, update, later, rfl, hmem, hlater⟩
      · rintro ⟨earlier, update, later, hsplit, hmem, hlater⟩
        cases earlier with
        | nil =>
            obtain ⟨rfl, rfl⟩ := List.cons.inj hsplit
            exact .inl ⟨hmem, hlater⟩
        | cons head earlier =>
            obtain ⟨rfl, rfl⟩ := List.cons.inj hsplit
            exact .inr ⟨earlier, update, later, rfl, hmem, hlater⟩

namespace Snapshot

/-- An update keeps what it does not discard and adds what it introduces. -/
theorem records_update (snapshot : Snapshot) (next : Update) :
    (snapshot.update next).records
      = snapshot.records.filter (fun record => !next.discards record) ++ next.introduced := by
  cases next with
  | publish | clear => simp [update, Update.introduced, Update.discards]
  | push record =>
      have hall : ∀ other ∈ snapshot.records, (!(Update.push record).discards other) = true :=
        fun _ _ => rfl
      rw [List.filter_eq_self.mpr hall]
      rfl
  | remove id => simp [update, Update.introduced, Update.discards]

/-- **What is pending is what survives.** -/
theorem records_run (updates : List Update) : (run {} updates).records = survivors updates := by
  induction updates using List.reverseRecOn with
  | nil => rfl
  | append_singleton updates last ih =>
      rw [run_append, run_cons, run_nil, records_update, ih, survivors_append_singleton]

/-- A snapshot holds what survives of some updates, and looking up an identifier finds the
earliest survivor that has it. -/
structure Holds (snapshot : Snapshot) (updates : List Update) : Prop where
  records_eq : snapshot.records = survivors updates
  mem_records_iff : ∀ record, record ∈ snapshot.records ↔
    ∃ earlier update later, updates = earlier ++ update :: later
      ∧ record ∈ update.introduced ∧ ∀ next ∈ later, next.discards record = false
  get?_eq_some_iff : ∀ id record, snapshot.get? id = some record ↔
    record.id = id ∧ ∃ earlier later, survivors updates = earlier ++ record :: later
      ∧ ∀ other ∈ earlier, other.id ≠ id
  get?_eq_none_iff : ∀ id, snapshot.get? id = none ↔ ∀ record ∈ survivors updates, record.id ≠ id

theorem holds_run (updates : List Update) : (run {} updates).Holds updates where
  records_eq := records_run updates
  mem_records_iff record := by rw [records_run, mem_survivors_iff]
  get?_eq_some_iff id record := by
    simp only [get?, records_run, List.find?_eq_some_iff_append, decide_eq_true_eq,
      Bool.not_eq_true', decide_eq_false_iff_not, ne_eq]
  get?_eq_none_iff id := by
    simp only [get?, records_run, List.find?_eq_none, decide_eq_true_eq, ne_eq]

/-- The sizes before and after a removal tell how many transactions had the identifier. -/
theorem size_sub_size_remove (snapshot : Snapshot) (id : String) :
    snapshot.size - (snapshot.update (.remove id)).size = snapshot.count id := by
  have h := snapshot.size_update_remove_add_count id
  omega

end Snapshot

/-! ### Channels -/

namespace Channel

/-- The update that an event makes, if it makes one. -/
def Event.update? : Event → Option Update
  | .write update => some update
  | .clone _ | .load _ => none

/-- The updates among some events. -/
def updatesOf (events : List Event) : List Update := events.filterMap Event.update?

/-- Only the updates among some events have a part in what is current. -/
theorem current_run (channel : Channel) (events : List Event) :
    (channel.run events).1.current = channel.current.run (updatesOf events) := by
  induction events generalizing channel with
  | nil => rfl
  | cons event events ih =>
      rw [run_cons, ih]
      cases event with
      | write update => rfl
      | clone reader => rw [step, current_clone]; rfl
      | load reader => rw [step, load_fst]; rfl

/-- Versions are added and never changed. -/
theorem versions_run (channel : Channel) (events : List Event) :
    channel.versions <+: (channel.run events).1.versions := by
  induction events generalizing channel with
  | nil => exact List.prefix_rfl
  | cons event events ih =>
      have hstep : channel.versions <+: (channel.step event).1.versions := by
        cases event with
        | write update => exact List.prefix_append _ _
        | clone reader =>
            show channel.versions <+: (channel.clone reader).1.versions
            simp only [versions_clone, List.prefix_rfl]
        | load reader =>
            show channel.versions <+: (channel.load reader).1.versions
            simp only [load_fst, List.prefix_rfl]
      exact hstep.trans (ih _)

/-- A handle keeps leading to the snapshot that was loaded, whatever is written later. -/
theorem snapshot?_run {channel : Channel} {handle : Handle} {snapshot : Snapshot}
    (h : channel.snapshot? handle = some snapshot) (events : List Event) :
    (channel.run events).1.snapshot? handle = some snapshot := by
  obtain ⟨later, hlater⟩ := channel.versions_run events
  obtain ⟨hplace, -⟩ := List.getElem?_eq_some_iff.mp h
  rw [snapshot?, ← hlater, List.getElem?_append_left hplace]
  exact h

/-- The answer to an event in the middle of a run. -/
theorem answer_run (channel : Channel) (front : List Event) (event : Event) (back : List Event) :
    (channel.run (front ++ event :: back)).2[front.length]?
      = some ((channel.run front).1.step event).2 := by
  have hlength : front.length = (channel.run front).2.length := by simp
  rw [run_append, run_cons, hlength, List.getElem?_append_right (Nat.le_refl _), Nat.sub_self,
    List.getElem?_cons_zero]

theorem holds_current_run (events : List Event) :
    (run {} events).1.current.Holds (updatesOf events) := by
  have hcurrent : (run {} events).1.current = Snapshot.run {} (updatesOf events) :=
    current_run {} events
  rw [hcurrent]
  exact Snapshot.holds_run _

/-- A removal tells how many survivors it takes. -/
theorem removed_run (front : List Event) (id : String) (back : List Event) :
    let before := (run {} front).1.current
    let after := (run {} (front ++ [.write (.remove id)])).1.current
    ∃ count, (run {} (front ++ .write (.remove id) :: back)).2[front.length]?
          = some (.removed count)
      ∧ count = (survivors (updatesOf front)).countP (·.id = id)
      ∧ after.size + count = before.size := by
  intro before after
  have hafter : after = before.update (.remove id) := by
    simp only [after, before, run_append]
    rfl
  refine ⟨before.count id, ?_, ?_, ?_⟩
  · rw [answer_run]
    exact congrArg (some ∘ Answer.removed) (before.size_sub_size_remove id)
  · rw [Snapshot.count, (holds_current_run front).records_eq]
  · rw [hafter]
    exact before.size_update_remove_add_count id

/-- What a reader loads is what survives then, and the reader keeps it. -/
theorem loaded_run {front : List Event} {reader : Nat} (hreader : reader < (run {} front).1.readers)
    (back : List Event) :
    ∃ handle snapshot, (run {} (front ++ .load reader :: back)).2[front.length]?
          = some (.loaded handle)
      ∧ (run {} (front ++ .load reader :: back)).1.snapshot? handle = some snapshot
      ∧ snapshot.Holds (updatesOf front) := by
  let channel := (run {} front).1
  have hload : channel.step (.load reader) = (channel, .loaded ⟨channel.past.length⟩) :=
    if_pos hreader
  have hkept := snapshot?_run channel.snapshot?_current (.load reader :: back)
  refine ⟨⟨channel.past.length⟩, channel.current, ?_, ?_, holds_current_run front⟩
  · rw [answer_run]
    exact congrArg (fun result => some result.2) hload
  · rw [run_append]
    exact hkept

/-- **Every snapshot is what survived when it was current.** After any run of a fresh channel
the current snapshot holds the survivors of all its updates. Each removal tells how many
survivors of the updates before it had the identifier, which is by how much the size drops. And
each snapshot that any reader loaded on the way still holds the survivors of the updates before
the load. -/
theorem run_holds_survivors (events : List Event) :
    let final := (run {} events).1
    let answers := (run {} events).2
    final.current.Holds (updatesOf events)
      ∧ (∀ front id back, events = front ++ .write (.remove id) :: back →
          let before := (run {} front).1.current
          let after := (run {} (front ++ [.write (.remove id)])).1.current
          ∃ count, answers[front.length]? = some (.removed count)
            ∧ count = (survivors (updatesOf front)).countP (·.id = id)
            ∧ after.size + count = before.size)
      ∧ ∀ front reader back, events = front ++ .load reader :: back →
          reader < (run {} front).1.readers →
          ∃ handle snapshot, answers[front.length]? = some (.loaded handle)
            ∧ final.snapshot? handle = some snapshot ∧ snapshot.Holds (updatesOf front) := by
  refine ⟨holds_current_run events, ?_, ?_⟩
  · rintro front id back rfl
    exact removed_run front id back
  · rintro front reader back rfl hreader
    exact loaded_run hreader back

/-- A re-pushed identifier survives behind its earlier removal, and a clone still holds what it
loaded before. -/
example :
    let events : List Event :=
      [.write (.push { id := "a", nonce := 1 }), .clone 0, .write (.push { id := "b" }), .load 1,
        .write (.remove "a"), .write (.push { id := "a", nonce := 2 })]
    (run {} events).1.current.records = [{ id := "b" }, { id := "a", nonce := 2 }]
      ∧ (run {} events).2 = [.done, .reader 1, .done, .loaded ⟨2⟩, .removed 1, .done]
      ∧ ((run {} events).1.snapshot? ⟨2⟩).map Snapshot.ids = some ["a", "b"] := by
  decide +kernel

end Channel

end NodeView
