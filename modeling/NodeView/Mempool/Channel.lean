import NodeView.Mempool
/-!
# NodeView.Mempool.Channel

How the writer of a mempool and its readers share what is pending.

* The writer never changes a snapshot. It stores a new one, and from then on that one is current;
  those before it stay as they are for as long as someone holds them.
* Every reader is a clone of the first one, and all of them see the snapshot that is current.
  Loading it gives a *handle*: the place of the snapshot among those that were ever current.
* A removal tells how many transactions it took, by the sizes of the two snapshots.
-/

namespace NodeView

/-- A snapshot that was loaded, by its place among those that were ever current. -/
structure Handle where
  place : Nat
  deriving DecidableEq, Repr

/-- What a writer and its readers share; at first nothing is pending and there is one reader. -/
structure Channel where
  /-- The snapshots that were current and are so no more, the first one first. -/
  past : List Snapshot := []
  /-- What is pending now. -/
  current : Snapshot := {}
  /-- How many readers there are. The first one has the number 0. -/
  readers : Nat := 1
  deriving DecidableEq

/-- What a writer or a reader does. -/
inductive Channel.Event where
  /-- The writer changes what is pending. -/
  | write (update : Update)
  /-- The reader with this number is cloned. -/
  | clone (reader : Nat)
  /-- The reader with this number loads the current snapshot. -/
  | load (reader : Nat)
  deriving DecidableEq

/-- What an event gives to whoever caused it. -/
inductive Channel.Answer where
  /-- Nothing. -/
  | done
  /-- The number of transactions that were removed. -/
  | removed (count : Nat)
  /-- The number of a new reader. -/
  | reader (number : Nat)
  /-- The snapshot that was loaded. -/
  | loaded (handle : Handle)
  /-- There is no such reader. -/
  | noReader
  deriving DecidableEq, Repr

namespace Channel

/-- Every snapshot that was ever current, the first one first. -/
def versions (channel : Channel) : List Snapshot := channel.past ++ [channel.current]

/-- The snapshot behind a handle. -/
def snapshot? (channel : Channel) (handle : Handle) : Option Snapshot :=
  channel.versions[handle.place]?

/-- Makes a snapshot the current one. -/
def store (channel : Channel) (snapshot : Snapshot) : Channel :=
  { channel with past := channel.versions, current := snapshot }

/-- Changes what is pending. -/
def write (channel : Channel) (update : Update) : Channel × Answer :=
  let next := channel.current.update update
  let answer :=
    match update with
    | .remove _ => .removed (channel.current.size - next.size)
    | .publish _ | .push _ | .clear => .done
  (channel.store next, answer)

/-- Makes another reader out of one. -/
def clone (channel : Channel) (reader : Nat) : Channel × Answer :=
  if reader < channel.readers then
    ({ channel with readers := channel.readers + 1 }, .reader channel.readers)
  else (channel, .noReader)

/-- Loads the current snapshot. -/
def load (channel : Channel) (reader : Nat) : Channel × Answer :=
  if reader < channel.readers then (channel, .loaded ⟨channel.past.length⟩)
  else (channel, .noReader)

/-- The channel after an event, and the answer to the event. -/
def step (channel : Channel) : Event → Channel × Answer
  | .write update => channel.write update
  | .clone reader => channel.clone reader
  | .load reader => channel.load reader

/-- The channel after some events, and the answers to them in their order. -/
def run (channel : Channel) : List Event → Channel × List Answer
  | [] => (channel, [])
  | event :: events =>
    let (next, answer) := channel.step event
    let (final, answers) := next.run events
    (final, answer :: answers)

@[simp] theorem versions_store (channel : Channel) (snapshot : Snapshot) :
    (channel.store snapshot).versions = channel.versions ++ [snapshot] := rfl

@[simp] theorem current_write (channel : Channel) (update : Update) :
    (channel.write update).1.current = channel.current.update update := rfl

@[simp] theorem versions_write (channel : Channel) (update : Update) :
    (channel.write update).1.versions = channel.versions ++ [channel.current.update update] := rfl

@[simp] theorem current_clone (channel : Channel) (reader : Nat) :
    (channel.clone reader).1.current = channel.current := by
  rw [clone]
  split <;> rfl

@[simp] theorem versions_clone (channel : Channel) (reader : Nat) :
    (channel.clone reader).1.versions = channel.versions := by
  rw [clone]
  split <;> rfl

@[simp] theorem load_fst (channel : Channel) (reader : Nat) :
    (channel.load reader).1 = channel := by
  rw [load]
  split <;> rfl

/-- What was loaded last is what is current. -/
@[simp] theorem snapshot?_current (channel : Channel) :
    channel.snapshot? ⟨channel.past.length⟩ = some channel.current := by
  simp [snapshot?, versions]

@[simp] theorem run_nil (channel : Channel) : channel.run [] = (channel, []) := rfl

theorem run_cons (channel : Channel) (event : Event) (events : List Event) :
    channel.run (event :: events)
      = (((channel.step event).1.run events).1,
          (channel.step event).2 :: ((channel.step event).1.run events).2) := rfl

theorem run_append (channel : Channel) (front back : List Event) :
    channel.run (front ++ back)
      = (((channel.run front).1.run back).1,
          (channel.run front).2 ++ ((channel.run front).1.run back).2) := by
  induction front generalizing channel with
  | nil => rfl
  | cons event front ih => rw [List.cons_append, run_cons, ih, run_cons, List.cons_append]

@[simp] theorem length_answers (channel : Channel) (events : List Event) :
    (channel.run events).2.length = events.length := by
  induction events generalizing channel with
  | nil => rfl
  | cons event events ih => rw [run_cons, List.length_cons, ih, List.length_cons]

end Channel

end NodeView
