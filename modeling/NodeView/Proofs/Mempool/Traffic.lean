import NodeView.Mempool.Traffic
import NodeView.Proofs.Mempool
/-!
# NodeView.Proofs.Mempool.Traffic

However the steps of its callers are interleaved, a mempool holds what the stores and the
successful swaps make of it one after the other.

An account of the events is kept for every call (`Call.Traced`): a call of the writer that is not
through its attempts has taken no effect, and what it holds is what was current at its last load.
The handle of a snapshot is the number of effects before it (`serial`), so the comparison of a
swap tells exactly whether there was an effect since that load (`updates_eq_nil_iff`). One step
of a call keeps its own account (`Kept.step`) and has no part in that of the others
(`Call.Traced.append`), which carries the induction over a schedule (`accounted_run`).
-/

namespace NodeView

@[simp] theorem Channel.held_store (channel : Channel) (snapshot : Snapshot) :
    (channel.store snapshot).held = ⟨⟨channel.held.handle.place + 1⟩, snapshot⟩ := by
  simp [held, store, versions]

/-- A store leads to the snapshot that the update leads to. -/
theorem Snapshot.update_of_stored? {update : Update} {next : Snapshot}
    (h : update.stored? = some next) (snapshot : Snapshot) : snapshot.update update = next := by
  cases update <;> cases h <;> rfl

namespace Traffic

/-! ### Effects -/

/-- The update that takes effect with what a call did, if there is one. -/
def Deed.update? : Deed → Option Update
  | .stored update | .swapped update => some update
  | _ => none

/-- The updates that took effect in the course of some events. -/
def updates (trace : List Event) : List Update := trace.filterMap (·.2.update?)

/-- Those of them that are of the call with this number. -/
def updatesOf (number : Nat) (trace : List Event) : List Update :=
  updates (trace.filter (·.1 = number))

/-- What is current once the updates that took effect are made one after the other. The number
of these updates tells the snapshots apart. -/
def serial (trace : List Event) : Held :=
  ⟨⟨(updates trace).length⟩, Snapshot.run {} (updates trace)⟩

@[simp] theorem updates_nil : updates [] = [] := rfl

@[simp] theorem updates_append (front back : List Event) :
    updates (front ++ back) = updates front ++ updates back := List.filterMap_append

@[simp] theorem updatesOf_nil (number : Nat) : updatesOf number [] = [] := rfl

@[simp] theorem updatesOf_append (number : Nat) (front back : List Event) :
    updatesOf number (front ++ back) = updatesOf number front ++ updatesOf number back := by
  simp [updatesOf]

theorem updatesOf_self (number : Nat) (deed : Deed) :
    updatesOf number [(number, deed)] = deed.update?.toList := by
  cases deed <;> simp [updatesOf, updates, Deed.update?]

theorem updatesOf_other {number other : Nat} (h : other ≠ number) (deed : Deed) :
    updatesOf number [(other, deed)] = [] := by
  simp [updatesOf, h]

/-- What has no effect adds none to those of any call. -/
theorem updatesOf_quiet {deed : Deed} (h : deed.update? = none) (trace : List Event)
    (number other : Nat) :
    updatesOf number (trace ++ [(other, deed)]) = updatesOf number trace := by
  by_cases hother : other = number
  · rw [updatesOf_append, hother, updatesOf_self, h, Option.toList_none, List.append_nil]
  · rw [updatesOf_append, updatesOf_other hother, List.append_nil]

/-- What has no effect leaves current what is current. -/
theorem serial_quiet {deed : Deed} (h : deed.update? = none) (trace : List Event) (number : Nat) :
    serial (trace ++ [(number, deed)]) = serial trace := by
  simp [serial, updates, h]

/-- An effect makes one snapshot more. -/
theorem serial_effect {deed : Deed} {update : Update} (h : deed.update? = some update)
    (trace : List Event) (number : Nat) :
    serial (trace ++ [(number, deed)])
      = ⟨⟨(serial trace).handle.place + 1⟩, (serial trace).snapshot.update update⟩ := by
  simp [serial, updates, h, Snapshot.run_append]

/-- Two snapshots that were current are the same one exactly if nothing took effect between
them. -/
theorem updates_eq_nil_iff (front back : List Event) :
    (serial front).handle = (serial (front ++ back)).handle ↔ updates back = [] := by
  simp [serial]

/-! ### Accounts of calls -/

/-- What had happened when a call loaded the snapshot that it loaded last. -/
def LoadedAfter (number : Nat) (front trace : List Event) : Prop :=
  ∃ back, trace = front ++ (number, .loaded) :: back ∧ (number, Deed.loaded) ∉ back

/-- What a call that loads once held at its only load. -/
def LoadedOnceAfter (number : Nat) (front trace : List Event) : Prop :=
  LoadedAfter number front trace ∧ (number, Deed.loaded) ∉ front

/-- The step of a call that makes an update take effect. -/
def writes : Update → Deed
  | .publish records => .stored (.publish records)
  | .clear => .stored .clear
  | .push record => .swapped (.push record)
  | .remove id => .swapped (.remove id)

/-- What had happened when the update of a call took effect, which it did only once. -/
def WrittenAfter (number : Nat) (update : Update) (front trace : List Event) : Prop :=
  ∃ back, trace = front ++ (number, writes update) :: back
    ∧ updatesOf number front = [] ∧ updatesOf number back = []

/-- A removal has counted the transactions that it takes out of a snapshot. -/
def Counts (update : Update) (removed : Nat) (snapshot : Snapshot) : Prop :=
  ∀ id, update = .remove id → removed = snapshot.count id

/-- What a call of the writer returns. -/
def answer (removed : Nat) : Update → Channel.Answer
  | .remove _ => .removed removed
  | .publish _ | .push _ | .clear => .done

/-- How the events so far account for how far a call has got. -/
def Call.Traced (number : Nat) (trace : List Event) : Call → Prop
  | .write _ _ .start => updatesOf number trace = []
  | .write update _ (.loaded held) =>
    update.stored? = none ∧ updatesOf number trace = []
      ∧ ∃ front, LoadedAfter number front trace ∧ held = serial front
  | .write update removed (.made held next) =>
    update.stored? = none ∧ updatesOf number trace = []
      ∧ (∃ front, LoadedAfter number front trace ∧ held = serial front)
      ∧ next = held.snapshot.update update ∧ Counts update removed held.snapshot
  | .write update removed .written =>
    ∃ front, WrittenAfter number update front trace
      ∧ Counts update removed (serial front).snapshot
  | .write update removed (.returned result) =>
    (∃ front, WrittenAfter number update front trace
      ∧ Counts update removed (serial front).snapshot) ∧ result = answer removed update
  | .load none | .respond _ .start => (number, Deed.loaded) ∉ trace
  | .load (some held) | .respond _ (.loaded held) =>
    ∃ front, LoadedOnceAfter number front trace ∧ held = serial front
  | .respond settings (.returned response) =>
    ∃ front, LoadedOnceAfter number front trace
      ∧ response = Node.mempoolResponse ⟨settings, some (serial front).snapshot⟩

section

variable {number : Nat} {front trace : List Event} {event : Event}

theorem LoadedAfter.now (number : Nat) (trace : List Event) :
    LoadedAfter number trace (trace ++ [(number, .loaded)]) :=
  ⟨[], rfl, List.not_mem_nil⟩

theorem LoadedAfter.append (h : LoadedAfter number front trace)
    (hevent : event ≠ (number, .loaded)) : LoadedAfter number front (trace ++ [event]) := by
  obtain ⟨back, rfl, hback⟩ := h
  refine ⟨back ++ [event], by simp, ?_⟩
  intro hmem
  rcases List.mem_append.mp hmem with hmem | hmem
  · exact hback hmem
  · exact hevent (List.mem_singleton.mp hmem).symm

theorem WrittenAfter.now {update : Update} (h : updatesOf number trace = []) :
    WrittenAfter number update trace (trace ++ [(number, writes update)]) :=
  ⟨[], rfl, h, rfl⟩

theorem WrittenAfter.append {update : Update} (h : WrittenAfter number update front trace)
    (hevent : updatesOf number [event] = []) :
    WrittenAfter number update front (trace ++ [event]) := by
  obtain ⟨back, rfl, hfront, hback⟩ := h
  refine ⟨back ++ [event], by simp, hfront, ?_⟩
  rw [updatesOf_append, hback, hevent, List.nil_append]

/-- **An account is kept by what is neither a load nor an effect of the call**, above all by
everything that other calls do. -/
theorem Call.Traced.append {call : Call} (h : call.Traced number trace)
    (hload : event ≠ (number, .loaded)) (heffect : updatesOf number [event] = []) :
    call.Traced number (trace ++ [event]) := by
  have hnone : updatesOf number trace = [] → updatesOf number (trace ++ [event]) = [] := by
    intro hnone
    rw [updatesOf_append, hnone, heffect, List.nil_append]
  have hnever : (number, Deed.loaded) ∉ trace → (number, Deed.loaded) ∉ trace ++ [event] := by
    intro hnever hmem
    rcases List.mem_append.mp hmem with hmem | hmem
    · exact hnever hmem
    · exact hload (List.mem_singleton.mp hmem).symm
  cases call with
  | write update removed stage =>
      cases stage with
      | start => exact hnone h
      | loaded held =>
          obtain ⟨hstored, hupdates, front, hfront, hheld⟩ := h
          exact ⟨hstored, hnone hupdates, front, hfront.append hload, hheld⟩
      | made held next =>
          obtain ⟨hstored, hupdates, ⟨front, hfront, hheld⟩, hnext⟩ := h
          exact ⟨hstored, hnone hupdates, ⟨front, hfront.append hload, hheld⟩, hnext⟩
      | written =>
          obtain ⟨front, hfront, hcounts⟩ := h
          exact ⟨front, hfront.append heffect, hcounts⟩
      | returned result =>
          obtain ⟨⟨front, hfront, hcounts⟩, hresult⟩ := h
          exact ⟨⟨front, hfront.append heffect, hcounts⟩, hresult⟩
  | load held =>
      cases held with
      | none => exact hnever h
      | some held =>
          obtain ⟨front, ⟨hfront, honce⟩, hheld⟩ := h
          exact ⟨front, ⟨hfront.append hload, honce⟩, hheld⟩
  | respond settings stage =>
      cases stage with
      | start => exact hnever h
      | loaded held =>
          obtain ⟨front, ⟨hfront, honce⟩, hheld⟩ := h
          exact ⟨front, ⟨hfront.append hload, honce⟩, hheld⟩
      | returned response =>
          obtain ⟨front, ⟨hfront, honce⟩, hresponse⟩ := h
          exact ⟨front, ⟨hfront.append hload, honce⟩, hresponse⟩

/-- A call's own step that is neither a load nor an effect keeps an account. -/
theorem Call.Traced.append_own {call : Call} (h : call.Traced number trace) {deed : Deed}
    (hload : deed ≠ .loaded) (heffect : deed.update? = none) :
    call.Traced number (trace ++ [(number, deed)]) := by
  refine h.append ?_ ?_
  · intro heq
    exact hload (Prod.mk.inj heq).2
  · rw [updatesOf_self, heffect]
    rfl

end

/-! ### One step of a call -/

/-- The channel is as the effects so far make it, and the events account for a call. -/
structure Kept (number : Nat) (trace : List Event) (channel : Channel) (call : Call) : Prop where
  held : channel.held = serial trace
  traced : call.Traced number trace

section

variable {number : Nat} {trace : List Event} {channel : Channel}

theorem Kept.stepWrite {update : Update} {removed : Nat} {stage : WriteStage}
    (h : Kept number trace channel (.write update removed stage)) :
    let (channel, call, deed) := stepWrite channel update removed stage
    Kept number (trace ++ [(number, deed)]) channel call := by
  obtain ⟨hheld, htraced⟩ := h
  cases stage with
  | start =>
      have hnone : updatesOf number trace = [] := htraced
      cases hstored : update.stored? with
      | none =>
          simp only [Traffic.stepWrite, hstored]
          exact ⟨hheld.trans (serial_quiet rfl _ _).symm, hstored,
            (updatesOf_quiet rfl _ _ _).trans hnone, trace, .now _ _, hheld⟩
      | some next =>
          have hdeed : writes update = .stored update := by
            cases update <;> cases hstored <;> rfl
          simp only [Traffic.stepWrite, hstored]
          refine ⟨?_, trace, ?_, ?_⟩
          · rw [Channel.held_store, serial_effect rfl, hheld, Snapshot.update_of_stored? hstored]
          · rw [← hdeed]
            exact .now hnone
          · rintro id rfl
            cases hstored
  | loaded held =>
      obtain ⟨hstored, hnone, front, hfront, rfl⟩ := htraced
      have hlast : LoadedAfter number front (trace ++ [(number, .made)]) :=
        hfront.append (by simp)
      refine ⟨hheld.trans (serial_quiet rfl _ _).symm, hstored,
        (updatesOf_quiet rfl _ _ _).trans hnone, ⟨front, hlast, rfl⟩, rfl, ?_⟩
      rintro id rfl
      exact Snapshot.size_sub_size_remove _ id
  | made held next =>
      simp only [Traffic.stepWrite]
      split
      · rename_i hsame
        obtain ⟨hstored, hnone, ⟨front, ⟨back, hback, -⟩, rfl⟩, rfl, hcounts⟩ := htraced
        -- The snapshot that was loaded is still current.
        have hcurrent : serial front = serial trace := by
          rw [hheld, hback] at hsame
          have hquiet := (updates_eq_nil_iff front _).mp hsame
          rw [hback, serial, serial, updates_append, hquiet, List.append_nil]
        have hdeed : writes update = .swapped update := by
          cases update <;> cases hstored <;> rfl
        refine ⟨?_, trace, ?_, hcurrent ▸ hcounts⟩
        · rw [Channel.held_store, serial_effect rfl, hheld, hcurrent]
        · rw [← hdeed]
          exact .now hnone
      · obtain ⟨-, hnone, -⟩ := htraced
        exact ⟨hheld.trans (serial_quiet rfl _ _).symm, (updatesOf_quiet rfl _ _ _).trans hnone⟩
  | written =>
      obtain ⟨front, hfront, hcounts⟩ := htraced
      have hquiet : updatesOf number [(number, Deed.returned)] = [] := updatesOf_self _ _
      exact ⟨hheld.trans (serial_quiet rfl _ _).symm, ⟨front, hfront.append hquiet, hcounts⟩, rfl⟩
  | returned result =>
      exact ⟨hheld.trans (serial_quiet rfl _ _).symm, htraced.append_own (by simp) rfl⟩

/-- A first load. -/
theorem LoadedOnceAfter.now (h : (number, Deed.loaded) ∉ trace) :
    LoadedOnceAfter number trace (trace ++ [(number, .loaded)]) :=
  ⟨.now _ _, h⟩

theorem Kept.stepRespond {settings : Settings} {stage : ResponseStage}
    (h : Kept number trace channel (.respond settings stage)) :
    let (channel, call, deed) := stepRespond channel settings stage
    Kept number (trace ++ [(number, deed)]) channel call := by
  obtain ⟨hheld, htraced⟩ := h
  refine ⟨?_, ?_⟩
  · cases stage <;> exact hheld.trans (serial_quiet rfl _ _).symm
  · cases stage with
    | start => exact ⟨trace, .now htraced, hheld⟩
    | loaded held =>
        obtain ⟨front, ⟨hfront, honce⟩, rfl⟩ := htraced
        exact ⟨front, ⟨hfront.append (by simp), honce⟩, rfl⟩
    | returned response => exact htraced.append_own (by simp) rfl

/-- **One step of a call keeps its account.** -/
theorem Kept.step {call : Call} (h : Kept number trace channel call) :
    let (channel, call, deed) := call.step channel
    Kept number (trace ++ [(number, deed)]) channel call := by
  cases call with
  | write update removed stage => exact h.stepWrite
  | respond settings stage => exact h.stepRespond
  | load held =>
      obtain ⟨hheld, htraced⟩ := h
      cases held with
      | none =>
          exact ⟨hheld.trans (serial_quiet rfl _ _).symm, trace, .now htraced, hheld⟩
      | some held =>
          exact ⟨hheld.trans (serial_quiet rfl _ _).symm, htraced.append_own (by simp) rfl⟩

end

/-! ### Schedules -/

/-- The channel is as the effects so far make it, and the events account for every call. -/
structure Accounted (traffic : Traffic) (trace : List Event) : Prop where
  held : traffic.channel.held = serial trace
  traced : ∀ (number : Nat) (call : Call),
    traffic.calls[number]? = some call → call.Traced number trace
  /-- Nothing is of a call that has not begun. -/
  absent : ∀ number, traffic.calls.length ≤ number →
    (number, Deed.loaded) ∉ trace ∧ updatesOf number trace = []

section

variable {traffic : Traffic} {trace : List Event}

/-- Nothing is changed by a step that no call makes. -/
theorem Accounted.idle (h : Accounted traffic trace) (number : Nat) :
    Accounted traffic (trace ++ [(number, .idle)]) where
  held := h.held.trans (serial_quiet rfl _ _).symm
  traced other call hcall := by
    refine (h.traced other call hcall).append (by simp) ?_
    exact updatesOf_quiet rfl [] other number
  absent other hother := by
    obtain ⟨hload, hnone⟩ := h.absent other hother
    refine ⟨?_, (updatesOf_quiet rfl _ _ _).trans hnone⟩
    simp [hload]

/-- Whatever is asked for, nothing has happened yet when a call begins. -/
theorem Request.traced_call (request : Request) {number : Nat}
    (hload : (number, Deed.loaded) ∉ trace) (hnone : updatesOf number trace = []) :
    request.call.Traced number trace := by
  cases request with
  | write update => exact hnone
  | load => exact hload
  | respond settings => exact hload

theorem Accounted.call (h : Accounted traffic trace) (request : Request) :
    Accounted { traffic with calls := traffic.calls ++ [request.call] }
      (trace ++ [(traffic.calls.length, .began)]) where
  held := h.held.trans (serial_quiet rfl _ _).symm
  traced number call hcall := by
    have hquiet : updatesOf number [(traffic.calls.length, Deed.began)] = [] :=
      updatesOf_quiet rfl [] number _
    have htraced : call.Traced number trace := by
      rcases Nat.lt_trichotomy number traffic.calls.length with hlt | heq | hgt
      · rw [List.getElem?_append_left hlt] at hcall
        exact h.traced number call hcall
      · rw [heq, List.getElem?_concat_length] at hcall
        cases hcall
        obtain ⟨hload, hnone⟩ := h.absent number (Nat.le_of_eq heq.symm)
        exact request.traced_call hload hnone
      · rw [List.getElem?_eq_none (by simp; omega)] at hcall
        cases hcall
    exact htraced.append (by simp) hquiet
  absent number hnumber := by
    rw [List.length_append] at hnumber
    obtain ⟨hload, hnone⟩ := h.absent number (Nat.le_of_succ_le hnumber)
    refine ⟨?_, (updatesOf_quiet rfl _ _ _).trans hnone⟩
    simp [hload]

theorem Accounted.proceed (h : Accounted traffic trace) {number : Nat} {call : Call}
    (hcall : traffic.calls[number]? = some call) :
    let (channel, next, deed) := call.step traffic.channel
    Accounted ⟨channel, traffic.calls.set number next⟩ (trace ++ [(number, deed)]) := by
  have hstep := Kept.step ⟨h.held, h.traced number call hcall⟩
  obtain ⟨hnumber, -⟩ := List.getElem?_eq_some_iff.mp hcall
  refine ⟨hstep.held, ?_, ?_⟩
  · intro other another hanother
    by_cases heq : number = other
    · subst heq
      rw [List.getElem?_set_self hnumber] at hanother
      cases hanother
      exact hstep.traced
    · rw [List.getElem?_set_ne heq] at hanother
      refine (h.traced other another hanother).append ?_ (updatesOf_other heq _)
      intro hevent
      exact heq (Prod.mk.inj hevent).1
  · intro other hother
    rw [List.length_set] at hother
    obtain ⟨hload, hnone⟩ := h.absent other hother
    have hne : number ≠ other := by omega
    refine ⟨?_, ?_⟩
    · simp [hload, hne.symm]
    · rw [updatesOf_append, hnone, updatesOf_other hne, List.append_nil]

/-- One move of a schedule keeps the accounts of all calls. -/
theorem Accounted.step (h : Accounted traffic trace) (move : Move) :
    Accounted (traffic.step move).1 (trace ++ [(traffic.step move).2]) := by
  cases move with
  | call request => exact h.call request
  | proceed number =>
      cases hcall : traffic.calls[number]? with
      | none =>
          simp only [Traffic.step, hcall]
          exact h.idle number
      | some call =>
          simp only [Traffic.step, hcall]
          exact h.proceed hcall

end

/-- **Every schedule accounts for every call.** -/
theorem accounted_run (moves : List Move) :
    Accounted (run {} moves).1 (run {} moves).2 := by
  induction moves using List.reverseRecOn with
  | nil => exact ⟨rfl, by simp, by simp⟩
  | append_singleton moves move ih =>
      rw [run_append]
      exact ih.step move

/-! ### Attempts -/

/-- Whether an attempt ends with what a call did, one way or the other. -/
def Deed.endsAttempt : Deed → Bool
  | .swapped _ | .refused => true
  | _ => false

/-- What a step of a call did is told of that call. -/
theorem step_eq_proceed {traffic : Traffic} {move : Move} {number : Nat} {deed : Deed}
    (h : (traffic.step move).2 = (number, deed)) (hdeed : deed.endsAttempt) :
    ∃ call, traffic.calls[number]? = some call ∧ (call.step traffic.channel).2.2 = deed := by
  cases move with
  | call request =>
      obtain ⟨-, rfl⟩ := Prod.mk.inj h
      cases hdeed
  | proceed other =>
      cases hcall : traffic.calls[other]? with
      | none =>
          simp only [step, hcall] at h
          obtain ⟨-, rfl⟩ := Prod.mk.inj h
          cases hdeed
      | some call =>
          simp only [step, hcall] at h
          obtain ⟨rfl, rfl⟩ := Prod.mk.inj h
          exact ⟨call, hcall, rfl⟩

/-- Only a call that has made its next snapshot ends an attempt, and the handles decide how. -/
theorem Call.step_endsAttempt {channel : Channel} {call : Call}
    (h : (call.step channel).2.2.endsAttempt) :
    ∃ update removed held next, call = .write update removed (.made held next)
      ∧ ((call.step channel).2.2 = .refused ↔ held.handle ≠ channel.held.handle) := by
  cases call with
  | write update removed stage =>
      cases stage with
      | made held next =>
          refine ⟨update, removed, held, next, rfl, ?_⟩
          simp only [Call.step, stepWrite]
          split <;> simp_all
      | start => cases update <;> cases h
      | loaded | written | returned => cases h
  | load held => cases held <;> cases h
  | respond settings stage => cases stage <;> cases h

/-- **An attempt is refused exactly if something took effect since its load.** -/
theorem Accounted.attempt {traffic : Traffic} {trace : List Event} (h : Accounted traffic trace)
    {move : Move} {number : Nat} {deed : Deed} (hevent : (traffic.step move).2 = (number, deed))
    (hdeed : deed.endsAttempt) :
    ∃ front back, trace = front ++ (number, .loaded) :: back ∧ (number, Deed.loaded) ∉ back
      ∧ (deed = .refused ↔ updates back ≠ []) := by
  obtain ⟨call, hcall, rfl⟩ := step_eq_proceed hevent hdeed
  obtain ⟨update, removed, held, next, rfl, hhandles⟩ := Call.step_endsAttempt hdeed
  obtain ⟨-, -, ⟨front, ⟨back, rfl, hback⟩, rfl⟩, -⟩ := h.traced number _ hcall
  refine ⟨front, back, rfl, hback, ?_⟩
  rw [hhandles, h.held]
  exact not_congr (updates_eq_nil_iff front _)

/-! ### Moments -/

/-- What happens with each move of a schedule. -/
def events (moves : List Move) : List Event := (run {} moves).2

/-- What is current after the first moves of a schedule, as many as the number says. -/
def currentAfter (moves : List Move) (moment : Nat) : Snapshot :=
  (run {} (moves.take moment)).1.channel.current

/-- An update takes effect with the move that has this number. -/
def EffectAt (moves : List Move) (moment : Nat) : Prop :=
  ∃ event update, (events moves)[moment]? = some event ∧ event.2.update? = some update

/-- A call loads with the move that has this number, and then not again before a moment. -/
def LastLoadAt (moves : List Move) (number load moment : Nat) : Prop :=
  load < moment ∧ (events moves)[load]? = some (number, .loaded)
    ∧ ∀ between, load < between → between < moment →
      (events moves)[between]? ≠ some (number, .loaded)

/-- A call loads with the move that has this number, and never else. -/
def OnlyLoadAt (moves : List Move) (number load : Nat) : Prop :=
  ∀ moment, (events moves)[moment]? = some (number, .loaded) ↔ moment = load

section

variable {moves : List Move} {number moment : Nat} {event : Event} {front back : List Event}

/-- What happens with a move is what a step does at its moment. -/
theorem step_of_events (h : (events moves)[moment]? = some event) :
    ∃ move, ((run {} (moves.take moment)).1.step move).2 = event := by
  obtain ⟨hmoment, -⟩ := List.getElem?_eq_some_iff.mp h
  rw [events, length_events] at hmoment
  have hsplit := run_append {} (moves.take moment) (moves[moment] :: moves.drop (moment + 1))
  rw [← List.drop_eq_getElem_cons hmoment, List.take_append_drop] at hsplit
  have hlength : (run {} (moves.take moment)).2.length = moment := by
    rw [length_events, List.length_take, Nat.min_eq_left (Nat.le_of_lt hmoment)]
  refine ⟨moves[moment], ?_⟩
  rw [events, hsplit, List.getElem?_append_right (Nat.le_of_eq hlength), hlength, Nat.sub_self,
    List.drop_eq_getElem_cons hmoment, run_cons, List.getElem?_cons_zero] at h
  exact Option.some.inj h

/-- Made one after the other, the updates that took effect make what is current. -/
theorem currentAfter_eq (moves : List Move) (moment : Nat) :
    currentAfter moves moment = Snapshot.run {} (updates ((events moves).take moment)) := by
  rw [events, ← events_take]
  exact congrArg Held.snapshot (accounted_run (moves.take moment)).held

theorem currentAfter_of_split (h : events moves = front ++ back) :
    currentAfter moves front.length = (serial front).snapshot := by
  rw [currentAfter_eq, h, List.take_left]
  rfl

theorem currentAfter_succ {deed : Deed} {update : Update}
    (h : (events moves)[moment]? = some (number, deed)) (hdeed : deed.update? = some update) :
    currentAfter moves (moment + 1) = (currentAfter moves moment).update update := by
  rw [currentAfter_eq, currentAfter_eq, List.take_add_one, h]
  exact congrArg Held.snapshot (serial_effect hdeed _ number)

/-- The events behind one of them, by their own numbers. -/
theorem getElem?_behind {number : Nat} (h : front.length < number) :
    (front ++ event :: back)[number]? = back[number - (front.length + 1)]? := by
  rw [List.getElem?_append_right (Nat.le_of_lt h), ← Nat.succ_pred_eq_of_pos (Nat.sub_pos_of_lt h),
    List.getElem?_cons_succ]
  rfl

theorem LoadedOnceAfter.onlyLoadAt (h : LoadedOnceAfter number front (events moves)) :
    OnlyLoadAt moves number front.length := by
  obtain ⟨⟨back, hsplit, hback⟩, hfront⟩ := h
  intro moment
  rw [hsplit]
  rcases Nat.lt_trichotomy moment front.length with hlt | heq | hgt
  · rw [List.getElem?_append_left hlt]
    exact ⟨fun h => absurd (List.mem_of_getElem? h) hfront, fun h => absurd h (Nat.ne_of_lt hlt)⟩
  · simp [heq]
  · rw [getElem?_behind hgt]
    exact ⟨fun h => absurd (List.mem_of_getElem? h) hback, fun h => absurd h (Nat.ne_of_gt hgt)⟩

variable (h : (events moves).take moment = front ++ event :: back)
include h

theorem events_between {between : Nat} (hlower : front.length < between)
    (hupper : between < moment) :
    (events moves)[between]? = back[between - (front.length + 1)]? := by
  rw [← List.getElem?_take_of_lt hupper, h, getElem?_behind hlower]

theorem lastLoadAt_of_split (hevent : event = (number, .loaded))
    (hback : (number, Deed.loaded) ∉ back) : LastLoadAt moves number front.length moment := by
  have hmoment : front.length < moment := by
    have hlength := congrArg List.length h
    simp only [List.length_take, List.length_append, List.length_cons] at hlength
    omega
  refine ⟨hmoment, ?_, ?_⟩
  · rw [← List.getElem?_take_of_lt hmoment, h, hevent]
    simp
  · intro between hlower hupper hloaded
    rw [events_between h hlower hupper] at hloaded
    exact hback (List.mem_of_getElem? hloaded)

theorem updates_ne_nil_iff :
    updates back ≠ [] ↔
      ∃ between, front.length < between ∧ between < moment ∧ EffectAt moves between := by
  constructor
  · intro hne
    obtain ⟨update, hupdate⟩ := List.exists_mem_of_ne_nil _ hne
    obtain ⟨event, hevent, hdeed⟩ := List.mem_filterMap.mp hupdate
    obtain ⟨index, hindex, hget⟩ := List.getElem_of_mem hevent
    have hlength := congrArg List.length h
    simp only [List.length_take, List.length_append, List.length_cons] at hlength
    have hupper : front.length + 1 + index < moment := by omega
    refine ⟨front.length + 1 + index, by omega, hupper, event, update, ?_, hdeed⟩
    rw [events_between h (by omega) hupper, Nat.add_sub_cancel_left,
      List.getElem?_eq_getElem hindex, hget]
  · rintro ⟨between, hlower, hupper, event, update, hevent, hdeed⟩
    rw [events_between h hlower hupper] at hevent
    exact List.ne_nil_of_mem (List.mem_filterMap.mpr ⟨event, List.mem_of_getElem? hevent, hdeed⟩)

end

/-! ### Any schedule -/

/-- Whether a call of the writer is through its attempts. -/
def WriteStage.isThrough : WriteStage → Bool
  | .written | .returned _ => true
  | .start | .loaded _ | .made _ _ => false

/-- An update takes effect once its call is through its attempts, and only once. -/
theorem Call.Traced.updatesOf_eq {number : Nat} {trace : List Event} {update : Update}
    {removed : Nat} {stage : WriteStage}
    (h : (Call.write update removed stage).Traced number trace) :
    updatesOf number trace = if stage.isThrough then [update] else [] := by
  have hthrough : ∀ front, WrittenAfter number update front trace →
      updatesOf number trace = [update] := by
    rintro front ⟨back, rfl, hfront, hback⟩
    have hdeed : (writes update).update? = some update := by cases update <;> rfl
    rw [← List.singleton_append, updatesOf_append, updatesOf_append, hfront, hback, updatesOf_self,
      hdeed]
    rfl
  cases stage with
  | start => exact h
  | loaded held => exact h.2.1
  | made held next => exact h.2.1
  | written =>
      obtain ⟨front, hfront, -⟩ := h
      exact hthrough front hfront
  | returned result =>
      obtain ⟨⟨front, hfront, -⟩, -⟩ := h
      exact hthrough front hfront

/-- What the callers of a mempool can rely on in a schedule of their steps. -/
structure Serialized (moves : List Move) : Prop where
  /-- At every moment the stores and the successful swaps so far, made one after the other, give
  what is current. -/
  current : ∀ moment,
    currentAfter moves moment = Snapshot.run {} (updates ((events moves).take moment))
  /-- The update of every call that is through took effect once, and no other did. -/
  once : ∀ (number : Nat) (update : Update) (removed : Nat) (stage : WriteStage),
    (run {} moves).1.calls[number]? = some (.write update removed stage) →
    updatesOf number (events moves) = if stage.isThrough then [update] else []
  /-- A removal returns how many transactions its own swap took. -/
  removed : ∀ (number : Nat) (id : String) (last : Nat) (answer : Channel.Answer),
    (run {} moves).1.calls[number]? = some (.write (.remove id) last (.returned answer)) →
    ∃ moment count, (events moves)[moment]? = some (number, .swapped (.remove id))
      ∧ answer = .removed count ∧ count = (currentAfter moves moment).count id
      ∧ (currentAfter moves (moment + 1)).size + count = (currentAfter moves moment).size
  /-- An attempt is refused exactly if something took effect since its load. -/
  attempt : ∀ (number moment : Nat) (deed : Deed),
    (events moves)[moment]? = some (number, deed) → deed.endsAttempt →
    ∃ load, LastLoadAt moves number load moment
      ∧ (deed = .refused ↔
        ∃ between, load < between ∧ between < moment ∧ EffectAt moves between)
  /-- A reader holds what was current at its own load. -/
  loaded : ∀ (number : Nat) (held : Held),
    (run {} moves).1.calls[number]? = some (.load (some held)) →
    ∃ load, OnlyLoadAt moves number load ∧ held.snapshot = currentAfter moves load
  /-- A response is built from what was current at the load of its own handler. -/
  responded : ∀ (number : Nat) (settings : Settings) (response : Except Refusal MempoolResponse),
    (run {} moves).1.calls[number]? = some (.respond settings (.returned response)) →
    ∃ load, OnlyLoadAt moves number load
      ∧ response = Node.mempoolResponse ⟨settings, some (currentAfter moves load)⟩

theorem removed_of_traced {moves : List Move} {number : Nat} {id : String} {last : Nat}
    {result : Channel.Answer}
    (h : (Call.write (.remove id) last (.returned result)).Traced number (events moves)) :
    ∃ moment count, (events moves)[moment]? = some (number, .swapped (.remove id))
      ∧ result = .removed count ∧ count = (currentAfter moves moment).count id
      ∧ (currentAfter moves (moment + 1)).size + count = (currentAfter moves moment).size := by
  obtain ⟨⟨front, ⟨back, hsplit, -⟩, hcounts⟩, rfl⟩ := h
  have hevent : (events moves)[front.length]? = some (number, .swapped (.remove id)) := by
    rw [hsplit, List.getElem?_append_right (Nat.le_refl _), Nat.sub_self]
    rfl
  refine ⟨front.length, last, hevent, rfl, ?_, ?_⟩
  · rw [currentAfter_of_split hsplit]
    exact hcounts id rfl
  · rw [currentAfter_succ hevent rfl, currentAfter_of_split hsplit, hcounts id rfl]
    exact Snapshot.size_update_remove_add_count _ id

/-- **No update is lost or made twice, however the steps of the callers are interleaved.** -/
theorem run_serialized (moves : List Move) : Serialized moves where
  current := currentAfter_eq moves
  once number update removed stage hcall :=
    ((accounted_run moves).traced number _ hcall).updatesOf_eq
  removed number id last answer hcall :=
    removed_of_traced ((accounted_run moves).traced number _ hcall)
  attempt number moment deed hevent hdeed := by
    obtain ⟨move, hstep⟩ := step_of_events hevent
    obtain ⟨front, back, hsplit, hback, hrefused⟩ :=
      (accounted_run (moves.take moment)).attempt hstep hdeed
    rw [events_take] at hsplit
    refine ⟨front.length, lastLoadAt_of_split hsplit rfl hback, ?_⟩
    rw [hrefused, updates_ne_nil_iff hsplit]
  loaded number held hcall := by
    obtain ⟨front, honce, rfl⟩ := (accounted_run moves).traced number _ hcall
    obtain ⟨back, hsplit, -⟩ := honce.1
    exact ⟨front.length, honce.onlyLoadAt, (currentAfter_of_split hsplit).symm⟩
  responded number settings response hcall := by
    obtain ⟨front, honce, rfl⟩ := (accounted_run moves).traced number _ hcall
    obtain ⟨back, hsplit, -⟩ := honce.1
    refine ⟨front.length, honce.onlyLoadAt, ?_⟩
    rw [currentAfter_of_split hsplit]

/-- A removal that a publication overtakes makes a further attempt, of what was published. -/
example :
    let moves : List Move :=
      [.call (.write (.push { id := "a" })), .proceed 0, .proceed 0, .proceed 0,
        .call (.write (.remove "a")), .proceed 1, .proceed 1,
        .call (.write (.publish [{ id := "a" }, { id := "b" }, { id := "a", nonce := 1 }])),
        .proceed 2, .proceed 1, .proceed 1, .proceed 1, .proceed 1, .proceed 1]
    currentAfter moves 14 = ⟨[{ id := "b" }]⟩
      ∧ (events moves)[9]? = some (1, .refused)
      ∧ (events moves)[12]? = some (1, .swapped (.remove "a")) := by
  decide +kernel

end Traffic

end NodeView
