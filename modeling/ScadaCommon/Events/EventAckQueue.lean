import Mathlib.Data.Finset.Card
import ScadaCommon.Foundation.Machine
import ScadaCommon.Scada.Basic

/-!
# The acknowledgement queue

`EventAckQueue` sends the ids of acknowledged events to the server in batches,
keeping at most `kMaxParallelAcks` of them unconfirmed. Ids wait in
`pendingAckEventIds`, move to `runningAckEventIds` when their Call is sent and
leave it when the server announces the acknowledgement.

§1 the queue as the code has it · §2 its runs: the executor, the Calls and the
announcements around it · §3 the invariant.
-/

namespace ScadaCommon

/-! ## §1  The queue -/

def kMaxParallelAcks : ℕ := 5

structure EventAckQueue where
  pendingAckEventIds : List EventId
  runningAckEventIds : Finset EventId
  ackPending : Bool

namespace EventAckQueue

def empty : EventAckQueue := ⟨[], ∅, false⟩

def isAcking (q : EventAckQueue) : Bool :=
  !q.pendingAckEventIds.isEmpty || decide (q.runningAckEventIds ≠ ∅)

/-- The second component tells whether `AckPendingEvents` was dispatched. -/
def postAckPendingEvents (q : EventAckQueue) : Option (EventAckQueue × Bool) :=
  if kMaxParallelAcks ≤ q.runningAckEventIds.card ∨ q.pendingAckEventIds = [] then do
    check (q.ackPending = false)
    return (q, false)
  else if q.ackPending = false then
    some ({ q with ackPending := true }, true)
  else
    some (q, false)

def onAcked (q : EventAckQueue) (acknowledgeId : EventId) : Option (EventAckQueue × Bool) :=
  if acknowledgeId ∈ q.runningAckEventIds then
    { q with runningAckEventIds := q.runningAckEventIds.erase acknowledgeId }.postAckPendingEvents
  else
    some (q, false)

def ack (q : EventAckQueue) (ackId : EventId) : Option (EventAckQueue × Bool) :=
  if ackId ∈ q.runningAckEventIds ∨ ackId ∈ q.pendingAckEventIds then
    some (q, false)
  else
    { q with pendingAckEventIds := q.pendingAckEventIds ++ [ackId] }.postAckPendingEvents

def reset (q : EventAckQueue) : EventAckQueue :=
  { q with runningAckEventIds := ∅, pendingAckEventIds := [] }

/-- The `while` loop of `AckPendingEvents`: the ids taken, the ids left and the
slots now running. -/
def fillSlots : List EventId → Finset EventId →
    List EventId × List EventId × Finset EventId
  | [], running => ([], [], running)
  | ackId :: pending, running =>
      if running.card < kMaxParallelAcks then
        let (eventIds, rest, running') := fillSlots pending (insert ackId running)
        (ackId :: eventIds, rest, running')
      else
        ([], ackId :: pending, running)

/-- Besides the queue: the ids of the Call it sends (no Call when there are
none) and whether another dispatch was scheduled. -/
def ackPendingEvents (q : EventAckQueue) :
    Option (EventAckQueue × List EventId × Bool) := do
  check (q.ackPending = true)
  let (eventIds, pending, running) := fillSlots q.pendingAckEventIds q.runningAckEventIds
  let (q', dispatched) ← postAckPendingEvents ⟨pending, running, false⟩
  return (q', eventIds, dispatched)

/-! ### What the operations do -/

/-- The loop stops when the slots are full or the queue is empty, and takes the
ids from the front. -/
theorem fillSlots_spec (pending : List EventId) (running : Finset EventId) :
    pending = (fillSlots pending running).1 ++ (fillSlots pending running).2.1 ∧
    (fillSlots pending running).2.2 = running ∪ (fillSlots pending running).1.toFinset ∧
    (kMaxParallelAcks ≤ (fillSlots pending running).2.2.card ∨
      (fillSlots pending running).2.1 = []) := by
  induction pending generalizing running with
  | nil => simp [fillSlots]
  | cons ackId pending ih =>
      unfold fillSlots
      split
      · obtain ⟨hsplit, hrun, hstop⟩ := ih (insert ackId running)
        refine ⟨?_, ?_, hstop⟩
        · exact congrArg (ackId :: ·) hsplit
        · change (fillSlots pending (insert ackId running)).2.2 = _
          rw [hrun, List.toFinset_cons, Finset.insert_union, Finset.union_insert]
      · rename_i hfull
        exact ⟨rfl, by simp, Or.inl (not_lt.mp hfull)⟩

theorem fillSlots_card_le (pending : List EventId) {running : Finset EventId}
    (h : running.card ≤ kMaxParallelAcks) :
    (fillSlots pending running).2.2.card ≤ kMaxParallelAcks := by
  induction pending generalizing running with
  | nil => simpa [fillSlots] using h
  | cons ackId pending ih =>
      unfold fillSlots
      split
      · rename_i hfree
        exact ih ((Finset.card_insert_le _ _).trans hfree)
      · exact h

/-- With a free slot the loop takes at least the front id. -/
theorem fillSlots_takes {ackId : EventId} {pending : List EventId} {running : Finset EventId}
    (h : running.card < kMaxParallelAcks) :
    ∃ eventIds, (fillSlots (ackId :: pending) running).1 = ackId :: eventIds := by
  unfold fillSlots
  rw [if_pos h]
  exact ⟨_, rfl⟩

/-- There is something to send and a slot to send it in. -/
def hasWork (q : EventAckQueue) : Bool :=
  decide (q.pendingAckEventIds ≠ [] ∧ q.runningAckEventIds.card < kMaxParallelAcks)

theorem hasWork_iff {q : EventAckQueue} : q.hasWork = true ↔
    q.pendingAckEventIds ≠ [] ∧ q.runningAckEventIds.card < kMaxParallelAcks := by
  simp [hasWork]

/-- Called with the flag set only when there is work, the post cannot fail its
check and leaves the flag equal to "there is work". -/
theorem postAckPendingEvents_eq {q : EventAckQueue}
    (h : q.ackPending = true → q.hasWork = true) :
    q.postAckPendingEvents =
      some ({ q with ackPending := q.hasWork }, q.hasWork && !q.ackPending) := by
  unfold postAckPendingEvents
  by_cases hw : q.hasWork = true
  · obtain ⟨hne, hfree⟩ := hasWork_iff.mp hw
    rw [if_neg (by simp [hne, hfree])]
    cases hp : q.ackPending
    · simp [hw]
    · obtain ⟨pending, running, flag⟩ := q
      simp_all
  · have hidle : q.ackPending = false := by
      cases hp : q.ackPending
      · rfl
      · exact absurd (h hp) hw
    have hstop : kMaxParallelAcks ≤ q.runningAckEventIds.card ∨ q.pendingAckEventIds = [] := by
      rw [hasWork_iff, not_and_or, not_lt, not_not] at hw
      exact hw.symm
    rw [if_pos hstop, check_of hidle]
    obtain ⟨pending, running, flag⟩ := q
    simp_all

end EventAckQueue

/-! ## §2  Runs

`Dispatch` is the last thing `PostAckPendingEvents` does and
`PostAckPendingEvents` the last thing its callers do, so a dispatch executed
inline is the `dispatch` step taken right after the operation that scheduled
it; a later one is a `dispatch` step anywhere further on. -/

inductive CallStatus where
  | outstanding
  | succeeded
  | failed
deriving DecidableEq

inductive AckOp where
  | ack (ackId : EventId)
  | onAcked (acknowledgeId : EventId)
  | reset
  | dispatch
  | callDone (call : ℕ) (good : Bool)

/-- The queue and what surrounds it. `accepted` and `sent` record the ids taken
by `Ack` and the Calls made since the last `Reset`. -/
structure AckRun where
  queue : EventAckQueue
  /-- Dispatched executions of `AckPendingEvents` that have not run yet. -/
  dispatches : ℕ
  accepted : List EventId
  sent : List (List EventId)
  /-- Calls ever made; they are numbered from 0. -/
  calls : ℕ
  /-- The last Call that carried an id. -/
  callOf : EventId → ℕ
  callStatus : ℕ → CallStatus
  /-- The events whose acknowledgement has been announced by `OnAcked`. -/
  announced : Finset EventId

namespace AckRun

def init : AckRun :=
  ⟨.empty, 0, [], [], 0, fun _ => 0, fun _ => .outstanding, ∅⟩

def enabled (s : AckRun) : AckOp → Prop
  | .dispatch => 0 < s.dispatches
  | .callDone call _ => call < s.calls ∧ s.callStatus call = .outstanding
  | _ => True

instance (s : AckRun) (op : AckOp) : Decidable (s.enabled op) := by
  cases op <;> unfold enabled <;> infer_instance

/-- The Call `AckPendingEvents` spawns, if it has ids to send. -/
def call (s : AckRun) (eventIds : List EventId) : AckRun :=
  if eventIds = [] then s
  else
    { s with
      sent := s.sent ++ [eventIds]
      calls := s.calls + 1
      callOf := fun id => if id ∈ eventIds then s.calls else s.callOf id
      callStatus := Function.update s.callStatus s.calls .outstanding }

def step (s : AckRun) : AckOp → Option AckRun
  | .ack ackId => do
      let (q, dispatched) ← s.queue.ack ackId
      let accepted :=
        if ackId ∈ s.queue.runningAckEventIds ∨ ackId ∈ s.queue.pendingAckEventIds then
          s.accepted
        else s.accepted ++ [ackId]
      return { s with queue := q, dispatches := s.dispatches + dispatched.toNat, accepted }
  | .onAcked acknowledgeId => do
      let (q, dispatched) ← s.queue.onAcked acknowledgeId
      return { s with
        queue := q
        dispatches := s.dispatches + dispatched.toNat
        announced := insert acknowledgeId s.announced }
  | .reset => some { s with queue := s.queue.reset, accepted := [], sent := [] }
  | .dispatch => do
      let (q, eventIds, dispatched) ← s.queue.ackPendingEvents
      return { s with
        queue := q
        dispatches := s.dispatches - 1 + dispatched.toNat }.call eventIds
  | .callDone call good =>
      some { s with
        callStatus := Function.update s.callStatus call (if good then .succeeded else .failed) }

end AckRun

def ackMachine : Foundation.Machine AckRun AckOp where
  init := .init
  enabled := AckRun.enabled
  step := AckRun.step

instance (s : AckRun) (op : AckOp) : Decidable (ackMachine.enabled s op) :=
  inferInstanceAs (Decidable (s.enabled op))

end ScadaCommon
