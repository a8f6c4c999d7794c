import NodeView.Mempool.Channel
import NodeView.Node
/-!
# NodeView.Mempool.Traffic

Many callers at one mempool, each of them interrupted by the others between any two of its steps.

* Publishing and clearing store a snapshot in one step, whatever is current.
* Pushing and removing make attempts. An attempt loads the current snapshot, makes the next one
  of it, and swaps the two, which is refused if the loaded snapshot is no more the current one.
  It is the snapshot itself that is compared, by its handle, and not what it holds. After a
  refusal the next attempt starts with a load.
* A removal counts what it takes whenever it makes a snapshot. The count is kept beside the
  attempts, so a refused one leaves its count behind until the next one makes its own.
* A reader and a handler load the current snapshot in one step. A handler builds its response of
  what it loaded and does not look at the mempool again.

A schedule is a list of moves: a further call begins, or one of those that have begun does its
next step. Every order of the steps of any number of calls is a schedule.
-/

namespace NodeView

/-- A snapshot that a call holds: which one it is, and what is pending in it. -/
structure Held where
  handle : Handle
  snapshot : Snapshot
  deriving DecidableEq

/-- The current snapshot, as it is held once it is loaded. -/
def Channel.held (channel : Channel) : Held := ⟨⟨channel.past.length⟩, channel.current⟩

/-- The snapshot that an update stores without a look at the current one. -/
def Update.stored? : Update → Option Snapshot
  | .publish records => some ⟨records⟩
  | .clear => some {}
  | .push _ | .remove _ => none

namespace Traffic

/-! ### Calls -/

/-- What is asked for. -/
inductive Request where
  /-- The writer is to change what is pending. -/
  | write (update : Update)
  /-- A reader is to load the current snapshot. -/
  | load
  /-- A handler at a node with these settings is to tell what is pending. -/
  | respond (settings : Settings)

/-- How far a call of the writer has got. -/
inductive WriteStage where
  /-- It has not looked at the mempool yet, or its last attempt was refused. -/
  | start
  /-- It has loaded a snapshot. -/
  | loaded (held : Held)
  /-- It has made the next snapshot of the one it loaded. -/
  | made (held : Held) (next : Snapshot)
  /-- What it writes is written. -/
  | written
  /-- It has returned. -/
  | returned (answer : Channel.Answer)
  deriving DecidableEq

/-- How far a call of a handler has got. -/
inductive ResponseStage where
  | start
  | loaded (held : Held)
  | returned (response : Except Refusal MempoolResponse)

/-- A call and how far it has got. -/
inductive Call where
  /-- A call of the writer; `removed` is how many transactions its last attempt took. -/
  | write (update : Update) (removed : Nat) (stage : WriteStage)
  /-- A call of a reader, with the snapshot that it holds once it has loaded it. -/
  | load (held : Option Held)
  /-- A call of a handler. -/
  | respond (settings : Settings) (stage : ResponseStage)

/-- A call that has done nothing yet. -/
def Request.call : Request → Call
  | .write update => .write update 0 .start
  | .load => .load none
  | .respond settings => .respond settings .start

/-- What a step of a call did. -/
inductive Deed where
  | began
  /-- The current snapshot was loaded. -/
  | loaded
  /-- A new snapshot was made, but is not current. -/
  | made
  /-- A new snapshot was stored. -/
  | stored (update : Update)
  /-- A new snapshot was swapped for the one it was made of. -/
  | swapped (update : Update)
  /-- A swap was refused. -/
  | refused
  | returned
  /-- There was nothing left to do. -/
  | idle
  deriving DecidableEq

/-- The next step of a call of the writer. -/
def stepWrite (channel : Channel) (update : Update) (removed : Nat) :
    WriteStage → Channel × Call × Deed
  | .start =>
    match update.stored? with
    | some next => (channel.store next, .write update removed .written, .stored update)
    | none => (channel, .write update removed (.loaded channel.held), .loaded)
  | .loaded held =>
    let next := held.snapshot.update update
    let removed :=
      match update with
      | .remove _ => held.snapshot.size - next.size
      | .publish _ | .push _ | .clear => removed
    (channel, .write update removed (.made held next), .made)
  | .made held next =>
    if held.handle = channel.held.handle then
      (channel.store next, .write update removed .written, .swapped update)
    else (channel, .write update removed .start, .refused)
  | .written =>
    let answer : Channel.Answer :=
      match update with
      | .remove _ => .removed removed
      | .publish _ | .push _ | .clear => .done
    (channel, .write update removed (.returned answer), .returned)
  | .returned answer => (channel, .write update removed (.returned answer), .idle)

/-- The next step of a call of a handler. -/
def stepRespond (channel : Channel) (settings : Settings) :
    ResponseStage → Channel × Call × Deed
  | .start => (channel, .respond settings (.loaded channel.held), .loaded)
  | .loaded held =>
    (channel, .respond settings
      (.returned (Node.mempoolResponse ⟨settings, some held.snapshot⟩)), .returned)
  | .returned response => (channel, .respond settings (.returned response), .idle)

/-- The next step of a call: the channel and the call after it, and what it did. -/
def Call.step (channel : Channel) : Call → Channel × Call × Deed
  | .write update removed stage => stepWrite channel update removed stage
  | .load none => (channel, .load (some channel.held), .loaded)
  | .load (some held) => (channel, .load (some held), .idle)
  | .respond settings stage => stepRespond channel settings stage

end Traffic

/-! ### Schedules -/

/-- A channel and the calls at it, numbered in the order in which they began. -/
structure Traffic where
  channel : Channel := {}
  calls : List Traffic.Call := []

namespace Traffic

/-- One move of a schedule. -/
inductive Move where
  /-- A further call begins. -/
  | call (request : Request)
  /-- The call with this number does its next step. -/
  | proceed (number : Nat)

/-- What the call with this number did. -/
abbrev Event := Nat × Deed

/-- The traffic after a move, and what happened. -/
def step (traffic : Traffic) : Move → Traffic × Event
  | .call request =>
    ({ traffic with calls := traffic.calls ++ [request.call] }, (traffic.calls.length, .began))
  | .proceed number =>
    match traffic.calls[number]? with
    | none => (traffic, (number, .idle))
    | some call =>
      let (channel, call, deed) := call.step traffic.channel
      (⟨channel, traffic.calls.set number call⟩, (number, deed))

/-- The traffic after a schedule, and what happened in the course of it. -/
def run (traffic : Traffic) : List Move → Traffic × List Event
  | [] => (traffic, [])
  | move :: moves =>
    let (next, event) := traffic.step move
    let (final, events) := next.run moves
    (final, event :: events)

@[simp] theorem run_nil (traffic : Traffic) : traffic.run [] = (traffic, []) := rfl

theorem run_cons (traffic : Traffic) (move : Move) (moves : List Move) :
    traffic.run (move :: moves)
      = (((traffic.step move).1.run moves).1,
          (traffic.step move).2 :: ((traffic.step move).1.run moves).2) := rfl

theorem run_append (traffic : Traffic) (front back : List Move) :
    traffic.run (front ++ back)
      = (((traffic.run front).1.run back).1,
          (traffic.run front).2 ++ ((traffic.run front).1.run back).2) := by
  induction front generalizing traffic with
  | nil => rfl
  | cons move front ih => rw [List.cons_append, run_cons, ih, run_cons, List.cons_append]

@[simp] theorem length_events (traffic : Traffic) (moves : List Move) :
    (traffic.run moves).2.length = moves.length := by
  induction moves generalizing traffic with
  | nil => rfl
  | cons move moves ih => rw [run_cons, List.length_cons, ih, List.length_cons]

theorem events_take (traffic : Traffic) (moves : List Move) (count : Nat) :
    (traffic.run (moves.take count)).2 = (traffic.run moves).2.take count := by
  induction moves generalizing traffic count with
  | nil => simp
  | cons move moves ih =>
      cases count with
      | zero => rfl
      | succ count => rw [List.take_succ_cons, run_cons, run_cons, ih, List.take_succ_cons]

/-- A call of the writer that nothing interrupts does what writing does. -/
theorem run_alone (channel : Channel) (update : Update) :
    ∃ removed, ((⟨channel, []⟩ : Traffic).run
        (.call (.write update) :: List.replicate 4 (.proceed 0))).1
      = ⟨(channel.write update).1,
          [.write update removed (.returned (channel.write update).2)]⟩ := by
  cases update with
  | publish | clear => exact ⟨0, rfl⟩
  | push record =>
      refine ⟨0, ?_⟩
      simp [run_cons, step, Request.call, Call.step, stepWrite, Update.stored?, Channel.write,
        Channel.held]
  | remove id =>
      refine ⟨channel.current.size - (channel.current.update (.remove id)).size, ?_⟩
      simp [run_cons, step, Request.call, Call.step, stepWrite, Update.stored?, Channel.write,
        Channel.held]

end Traffic

end NodeView
