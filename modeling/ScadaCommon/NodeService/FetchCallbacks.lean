import Mathlib.Data.List.Nodup
import Mathlib.Data.List.Perm.Basic
import ScadaCommon.Foundation.Machine
import ScadaCommon.NodeService.BaseNodeModel

/-!
# The drain of fetch callbacks

`NotifyCallbacks` takes the satisfied callbacks out of the queue and calls them one
after the other, until a pass finds none. A callback may do with the model what
anyone may: ask for more, set the fetch status, hold a lock. So a run goes on inside
a callback, with the drain on the stack.

§1 the stack · §2 the drain · §3 the machine · §4 where a callback is · §5 what a
step keeps · §6 once and in time.
-/

namespace ScadaCommon

open Foundation
open NodeFetchStatus (Includes)

/-! ## §1  The stack -/

/-- What has not returned. -/
inductive FetchFrame where
  /-- A `ScopedCallbackLock`. -/
  | lock
  /-- The loop over the callbacks that a pass has taken out at a fetch status; one of
  them runs, and these are left. -/
  | drain (fetchStatus : NodeFetchStatus) (callbacks : List (NodeFetchStatus × FetchId))
deriving DecidableEq

/-- What is left to a frame. -/
def FetchFrame.callbacks : FetchFrame → List (NodeFetchStatus × FetchId)
  | .lock => []
  | .drain _ callbacks => callbacks

/-- A call of a callback, with the state at its time and the fetch status of the pass
that took it out. -/
structure CallbackCall where
  id : FetchId
  requestedStatus : NodeFetchStatus
  taken : NodeFetchStatus
  fetchStatus : NodeFetchStatus
  callbackLockCount : ℕ
deriving DecidableEq

structure FetchWorld where
  model : BaseNodeModel := {}
  notifyingCallbacks : Bool := false
  stack : List FetchFrame := []
  nextFetch : FetchId := 0
  /-- All calls so far. -/
  calls : List CallbackCall := []
deriving DecidableEq

/-- What the code that is running does next. -/
inductive FetchAction where
  | startFetch (requestedStatus : NodeFetchStatus) (callback : Bool)
  | setFetchStatus (status : Status) (fetchStatus : NodeFetchStatus)
  | lock
  | unlock
  /-- A callback returns. -/
  | leave

namespace FetchWorld

/-! ## §2  The drain -/

/-- Calls the next one that a pass has taken out. -/
def call (w : FetchWorld) (taken : NodeFetchStatus) (entry : NodeFetchStatus × FetchId)
    (callbacks : List (NodeFetchStatus × FetchId)) : FetchWorld :=
  { w with
    stack := .drain taken callbacks :: w.stack
    calls := w.calls ++ [{
      id := entry.2
      requestedStatus := entry.1
      taken
      fetchStatus := w.model.fetchStatus
      callbackLockCount := w.model.callbackLockCount }] }

def satisfied (w : FetchWorld) : List (NodeFetchStatus × FetchId) :=
  w.model.fetchCallbacks.filter (Includes w.model.fetchStatus ·.1)

/-- Without the satisfied callbacks in the queue. -/
def withoutSatisfied (w : FetchWorld) : FetchWorld :=
  { w with
    model := { w.model with
      fetchCallbacks := w.model.fetchCallbacks.filter (¬ Includes w.model.fetchStatus ·.1) } }

/-- One pass of the drain, up to the first call or to its end. -/
def pass (w : FetchWorld) : FetchWorld :=
  match w.satisfied with
  | [] => { w with notifyingCallbacks := false }
  | entry :: callbacks => w.withoutSatisfied.call w.model.fetchStatus entry callbacks

/-- `NotifyCallbacks`: the outermost one owns the drain. -/
def notifyCallbacks (w : FetchWorld) : FetchWorld :=
  if w.model.callbackLockCount ≠ 0 then w
  else if w.notifyingCallbacks then w
  else { w with notifyingCallbacks := true }.pass

/-- A callback waits. -/
def enqueue (w : FetchWorld) (requestedStatus : NodeFetchStatus) : FetchWorld :=
  { w with
    model := { w.model with
      fetchCallbacks := w.model.fetchCallbacks ++ [(requestedStatus, w.nextFetch)] }
    nextFetch := w.nextFetch + 1 }

/-- `StartFetch` up to `OnFetchRequested`, which it ends with. -/
def startFetch (w : FetchWorld) (requestedStatus : NodeFetchStatus) (callback : Bool) :
    FetchWorld :=
  if Includes w.model.fetchStatus requestedStatus then
    if callback then (w.enqueue requestedStatus).notifyCallbacks else w
  else
    let w := { w with
      model := { w.model with fetchingStatus := w.model.fetchingStatus ∪ requestedStatus } }
    if callback then w.enqueue requestedStatus else w

/-- `SetFetchStatus` up to `OnFetchStatusChanged`, which it ends with. -/
def setFetchStatus (w : FetchWorld) (status : Status) (fetchStatus : NodeFetchStatus) :
    FetchWorld :=
  let w := { w with model := { w.model with status } }
  if w.model.fetchStatus = fetchStatus then w
  else
    { w with model := { w.model with
      fetchStatus
      fetchingStatus := w.model.fetchingStatus ∪ fetchStatus } }.notifyCallbacks

/-- The constructor of `ScopedCallbackLock`. -/
def lock (w : FetchWorld) : FetchWorld :=
  { w with
    model := { w.model with callbackLockCount := w.model.callbackLockCount + 1 }
    stack := .lock :: w.stack }

/-- Its destructor. -/
def unlock (w : FetchWorld) (stack : List FetchFrame) : FetchWorld :=
  let w := { w with
    model := { w.model with callbackLockCount := w.model.callbackLockCount - 1 }
    stack }
  if w.model.callbackLockCount = 0 then w.notifyCallbacks else w

/-- A callback returns to the loop. -/
def returned (w : FetchWorld) (taken : NodeFetchStatus)
    (callbacks : List (NodeFetchStatus × FetchId)) (stack : List FetchFrame) : FetchWorld :=
  match callbacks with
  | [] => { w with stack }.pass
  | entry :: callbacks => { w with stack }.call taken entry callbacks

/-! ## §3  The machine -/

def step (w : FetchWorld) : FetchAction → Option FetchWorld
  | .startFetch requestedStatus callback => some (w.startFetch requestedStatus callback)
  | .setFetchStatus status fetchStatus => some (w.setFetchStatus status fetchStatus)
  | .lock => some w.lock
  | .unlock =>
      match w.stack with
      | .lock :: stack => some (w.unlock stack)
      | _ => none
  | .leave =>
      match w.stack with
      | .drain taken callbacks :: stack => some (w.returned taken callbacks stack)
      | _ => none

/-- Locks are scoped: one that was taken in a callback is released before it returns. -/
def enabled (w : FetchWorld) : FetchAction → Prop
  | .unlock => w.stack.head? = some .lock
  | .leave => w.stack.any (· ≠ .lock) ∧ w.stack.head? ≠ some .lock
  | _ => True

instance (w : FetchWorld) (a : FetchAction) : Decidable (w.enabled a) := by
  unfold enabled
  split <;> infer_instance

end FetchWorld

def fetchMachine (fetchStatus : NodeFetchStatus) : Machine FetchWorld FetchAction :=
  ⟨{ model := { fetchStatus } }, FetchWorld.enabled, FetchWorld.step⟩

instance (fetchStatus : NodeFetchStatus) (w : FetchWorld) (a : FetchAction) :
    Decidable ((fetchMachine fetchStatus).enabled w a) :=
  inferInstanceAs (Decidable (w.enabled a))

namespace FetchWorld

variable {w w' : FetchWorld} {entry : NodeFetchStatus × FetchId} {taken : NodeFetchStatus}
  {callbacks : List (NodeFetchStatus × FetchId)}

/-! ## §4  Where a callback is -/

/-- The callbacks that wait, that are taken out and left, and that have been called. -/
def ids (w : FetchWorld) : List FetchId :=
  w.model.fetchCallbacks.map (·.2) ++ w.stack.flatMap (·.callbacks.map (·.2)) ++
    w.calls.map (·.id)

/-- Each callback, with some that are about to be called, is in one place; what is taken
out and what has been called was satisfied when it was taken out. -/
structure Accounted (w : FetchWorld) (others : List (NodeFetchStatus × FetchId)) : Prop where
  nodup : (w.ids ++ others.map (·.2)).Nodup
  fresh : ∀ id ∈ w.ids ++ others.map (·.2), id < w.nextFetch
  taken : ∀ taken callbacks, .drain taken callbacks ∈ w.stack →
    ∀ entry ∈ callbacks, Includes taken entry.1
  calls : ∀ call ∈ w.calls, call.callbackLockCount = 0 ∧ Includes call.taken call.requestedStatus

theorem Accounted.of_perm {others others' : List (NodeFetchStatus × FetchId)}
    (h : Accounted w others)
    (hperm : (w'.ids ++ others'.map (·.2)).Perm (w.ids ++ others.map (·.2)))
    (hnext : w'.nextFetch = w.nextFetch)
    (htaken : ∀ taken callbacks, .drain taken callbacks ∈ w'.stack →
      ∀ entry ∈ callbacks, Includes taken entry.1)
    (hcalls : ∀ call ∈ w'.calls,
      call.callbackLockCount = 0 ∧ Includes call.taken call.requestedStatus) :
    Accounted w' others' where
  nodup := hperm.nodup_iff.mpr h.nodup
  fresh := fun id hid => hnext ▸ h.fresh id (hperm.subset hid)
  taken := htaken
  calls := hcalls

theorem ids_call (w : FetchWorld) (taken : NodeFetchStatus) (entry : NodeFetchStatus × FetchId)
    (callbacks : List (NodeFetchStatus × FetchId)) :
    (w.call taken entry callbacks).ids.Perm (w.ids ++ (entry :: callbacks).map (·.2)) := by
  unfold ids call
  rw [List.perm_iff_count]
  intro id
  simp only [List.flatMap_cons, FetchFrame.callbacks, List.map_append, List.map_cons, List.map_nil,
    List.count_append, List.count_cons, List.count_nil]
  omega

/-- A call accounts for what was about to be called. -/
theorem Accounted.call (h : Accounted w (entry :: callbacks))
    (hcount : w.model.callbackLockCount = 0)
    (htaken : ∀ e ∈ entry :: callbacks, Includes taken e.1) :
    Accounted (w.call taken entry callbacks) [] := by
  refine h.of_perm ?_ rfl ?_ ?_
  · rw [List.map_nil, List.append_nil]
    exact ids_call w taken entry callbacks
  · intro taken' callbacks' hmem e he
    rcases List.mem_cons.mp hmem with heq | hmem
    · cases heq
      exact htaken e (List.mem_cons_of_mem _ he)
    · exact h.taken taken' callbacks' hmem e he
  · intro c hc
    rcases List.mem_append.mp hc with hc | hc
    · exact h.calls c hc
    · rw [List.mem_singleton.mp hc]
      exact ⟨hcount, htaken entry List.mem_cons_self⟩

/-- What a pass takes out and what it leaves. -/
theorem Accounted.withoutSatisfied (h : Accounted w []) :
    Accounted w.withoutSatisfied w.satisfied := by
  refine h.of_perm ?_ rfl h.taken h.calls
  have hsplit : (w.satisfied ++ w.withoutSatisfied.model.fetchCallbacks).Perm
      w.model.fetchCallbacks := by
    have hfilter := List.filter_append_perm (Includes w.model.fetchStatus ·.1)
      w.model.fetchCallbacks
    unfold satisfied FetchWorld.withoutSatisfied
    simp only [decide_not]
    exact hfilter
  have hcount := List.perm_iff_count.mp (hsplit.map (fun e => e.2))
  unfold ids
  rw [List.perm_iff_count]
  intro id
  have hid := hcount id
  rw [List.map_append, List.count_append] at hid
  simp only [List.count_append, List.map_nil, List.count_nil]
  show List.count id (w.withoutSatisfied.model.fetchCallbacks.map fun e => e.2) +
    List.count id (w.stack.flatMap _) + List.count id (w.calls.map _) + _ = _
  omega

theorem includes_of_satisfied (h : entry ∈ w.satisfied) : Includes w.model.fetchStatus entry.1 :=
  of_decide_eq_true (List.mem_filter.mp h).2

theorem pass_cases (w : FetchWorld) :
    (w.pass = { w with notifyingCallbacks := false } ∧
      ∀ entry ∈ w.model.fetchCallbacks, ¬ Includes w.model.fetchStatus entry.1) ∨
    ∃ entry callbacks, w.satisfied = entry :: callbacks ∧
      w.pass = w.withoutSatisfied.call w.model.fetchStatus entry callbacks := by
  unfold pass
  cases hsatisfied : w.satisfied with
  | nil =>
      refine Or.inl ⟨rfl, fun entry hentry hincludes => ?_⟩
      exact List.filter_eq_nil_iff.mp hsatisfied entry hentry (decide_eq_true hincludes)
  | cons entry callbacks => exact Or.inr ⟨entry, callbacks, rfl, rfl⟩

theorem Accounted.pass (h : Accounted w []) (hcount : w.model.callbackLockCount = 0) :
    Accounted w.pass [] := by
  rcases w.pass_cases with ⟨heq, -⟩ | ⟨entry, callbacks, hsatisfied, heq⟩
  · rw [heq]
    exact ⟨h.nodup, h.fresh, h.taken, h.calls⟩
  · rw [heq]
    have htaking := h.withoutSatisfied
    rw [hsatisfied] at htaking
    refine htaking.call hcount fun e he => ?_
    rw [← hsatisfied] at he
    exact includes_of_satisfied he

theorem Accounted.enqueue (h : Accounted w []) (requestedStatus : NodeFetchStatus) :
    Accounted (w.enqueue requestedStatus) [] := by
  have hperm : (w.enqueue requestedStatus).ids.Perm (w.nextFetch :: w.ids) := by
    unfold FetchWorld.enqueue ids
    rw [List.perm_iff_count]
    intro id
    simp only [List.map_append, List.map_cons, List.map_nil, List.count_append, List.count_cons,
      List.count_nil]
    omega
  have hnew : w.nextFetch ∉ w.ids := fun hid =>
    absurd (h.fresh _ (List.mem_append_left _ hid)) (Nat.lt_irrefl _)
  have hnodup := h.nodup
  rw [List.map_nil, List.append_nil] at hnodup
  refine ⟨?_, ?_, h.taken, h.calls⟩
  · rw [List.map_nil, List.append_nil, hperm.nodup_iff]
    exact List.nodup_cons.mpr ⟨hnew, hnodup⟩
  · intro id hid
    rw [List.map_nil, List.append_nil] at hid
    rcases List.mem_cons.mp (hperm.subset hid) with rfl | hid
    · exact Nat.lt_succ_self _
    · exact (h.fresh id (List.mem_append_left _ hid)).trans (Nat.lt_succ_self _)

/-! ## §5  What a step keeps -/

/-- The locks that are held are those on the stack. A drain begins where none is held,
and is below all of them. -/
def Shaped (w : FetchWorld) : Prop :=
  ∃ drains, w.stack = List.replicate w.model.callbackLockCount .lock ++ drains ∧
    (w.notifyingCallbacks = false ∧ drains = [] ∨
      w.notifyingCallbacks = true ∧ ∃ taken callbacks, drains = [.drain taken callbacks])

structure FetchInv (w : FetchWorld) : Prop where
  accounted : Accounted w []
  shaped : Shaped w
  idle : w.model.callbackLockCount = 0 → w.notifyingCallbacks = false →
    ∀ entry ∈ w.model.fetchCallbacks, ¬ Includes w.model.fetchStatus entry.1

theorem FetchInv.init (fetchStatus : NodeFetchStatus) : FetchInv { model := { fetchStatus } } where
  accounted := by
    refine ⟨List.nodup_nil, ?_, ?_, ?_⟩
    · rintro id ⟨⟩
    · rintro taken callbacks ⟨⟩
    · rintro call ⟨⟩
  shaped := ⟨[], rfl, Or.inl ⟨rfl, rfl⟩⟩
  idle := by
    rintro - - entry ⟨⟩

/-- A pass that calls leaves the drain on the stack; one that does not ends it. -/
theorem FetchInv.of_pass (h : Accounted w []) (hcount : w.model.callbackLockCount = 0)
    (hstack : w.stack = []) (hnotifying : w.notifyingCallbacks = true) : FetchInv w.pass := by
  refine ⟨h.pass hcount, ?_, ?_⟩
  · rcases w.pass_cases with ⟨heq, -⟩ | ⟨entry, callbacks, -, heq⟩
    · rw [heq]
      refine ⟨[], ?_, Or.inl ⟨rfl, rfl⟩⟩
      show w.stack = List.replicate w.model.callbackLockCount .lock ++ []
      rw [hstack, hcount]
      rfl
    · rw [heq]
      refine ⟨[.drain w.model.fetchStatus callbacks], ?_, Or.inr ⟨hnotifying, _, _, rfl⟩⟩
      show FetchFrame.drain w.model.fetchStatus callbacks :: w.stack =
        List.replicate w.model.callbackLockCount .lock ++ _
      rw [hstack, hcount]
      rfl
  · intro _ hdone
    rcases w.pass_cases with ⟨heq, hnone⟩ | ⟨entry, callbacks, -, heq⟩
    · rw [heq]
      exact hnone
    · rw [heq] at hdone
      have hstill : w.notifyingCallbacks = false := hdone
      rw [hnotifying] at hstill
      cases hstill

theorem FetchInv.notifyCallbacks (h : Accounted w []) (hshaped : Shaped w) :
    FetchInv w.notifyCallbacks := by
  unfold FetchWorld.notifyCallbacks
  split
  · rename_i hcount
    exact ⟨h, hshaped, fun hzero => absurd hzero hcount⟩
  · rename_i hcount
    have hzero := not_not.mp hcount
    split
    · rename_i hnotifying
      exact ⟨h, hshaped, fun _ hdone => absurd (hnotifying.symm.trans hdone) Bool.noConfusion⟩
    · rename_i hnotifying
      obtain ⟨drains, hstack, ⟨-, rfl⟩ | ⟨htrue, -⟩⟩ := hshaped
      · rw [hzero] at hstack
        exact FetchInv.of_pass ⟨h.nodup, h.fresh, h.taken, h.calls⟩ hzero hstack rfl
      · exact absurd htrue hnotifying

theorem FetchInv.startFetch (h : FetchInv w) (requestedStatus : NodeFetchStatus)
    (callback : Bool) : FetchInv (w.startFetch requestedStatus callback) := by
  have henqueued := h.accounted.enqueue requestedStatus
  unfold FetchWorld.startFetch
  split
  · split
    · exact FetchInv.notifyCallbacks henqueued h.shaped
    · exact h
  · rename_i hmissing
    dsimp only
    split
    · refine ⟨⟨henqueued.nodup, henqueued.fresh, henqueued.taken, henqueued.calls⟩, h.shaped, ?_⟩
      intro hcount hdone entry hentry
      rcases List.mem_append.mp hentry with hentry | hentry
      · exact h.idle hcount hdone entry hentry
      · rw [List.mem_singleton.mp hentry]
        exact hmissing
    · exact ⟨⟨h.accounted.nodup, h.accounted.fresh, h.accounted.taken, h.accounted.calls⟩,
        h.shaped, h.idle⟩

theorem FetchInv.setFetchStatus (h : FetchInv w) (status : Status) (fetchStatus : NodeFetchStatus) :
    FetchInv (w.setFetchStatus status fetchStatus) := by
  have haccounted := h.accounted
  unfold FetchWorld.setFetchStatus
  dsimp only
  split
  · exact ⟨⟨haccounted.nodup, haccounted.fresh, haccounted.taken, haccounted.calls⟩, h.shaped,
      h.idle⟩
  · exact FetchInv.notifyCallbacks
      ⟨haccounted.nodup, haccounted.fresh, haccounted.taken, haccounted.calls⟩ h.shaped

theorem FetchInv.lock (h : FetchInv w) : FetchInv w.lock where
  accounted := by
    refine ⟨h.accounted.nodup, h.accounted.fresh, ?_, h.accounted.calls⟩
    intro taken callbacks hmem
    rcases List.mem_cons.mp hmem with heq | hmem
    · cases heq
    · exact h.accounted.taken taken callbacks hmem
  shaped := by
    obtain ⟨drains, hstack, hdrains⟩ := h.shaped
    refine ⟨drains, ?_, hdrains⟩
    show FetchFrame.lock :: w.stack = List.replicate (w.model.callbackLockCount + 1) .lock ++ drains
    rw [hstack, List.replicate_succ, List.cons_append]
  idle := fun hzero => absurd hzero (Nat.succ_ne_zero _)

/-- The frame on top is a lock just when one is held. -/
theorem Shaped.lock_cons {stack : List FetchFrame} (h : Shaped w) (hstack : w.stack = .lock :: stack) :
    ∃ n, w.model.callbackLockCount = n + 1 ∧ ∃ drains, stack = List.replicate n .lock ++ drains ∧
      (w.notifyingCallbacks = false ∧ drains = [] ∨
        w.notifyingCallbacks = true ∧ ∃ taken callbacks, drains = [.drain taken callbacks]) := by
  obtain ⟨drains, heq, hdrains⟩ := h
  rw [hstack] at heq
  cases hcount : w.model.callbackLockCount with
  | zero =>
      rw [hcount] at heq
      rcases hdrains with ⟨-, rfl⟩ | ⟨-, taken, callbacks, rfl⟩
      · cases heq
      · cases heq
  | succ n =>
      rw [hcount, List.replicate_succ, List.cons_append] at heq
      exact ⟨n, rfl, drains, (List.cons.inj heq).2, hdrains⟩

/-- Below the drain there is nothing. -/
theorem Shaped.drain_cons {stack : List FetchFrame} (h : Shaped w)
    (hstack : w.stack = .drain taken callbacks :: stack) :
    w.model.callbackLockCount = 0 ∧ stack = [] ∧ w.notifyingCallbacks = true := by
  obtain ⟨drains, heq, hdrains⟩ := h
  rw [hstack] at heq
  cases hcount : w.model.callbackLockCount with
  | zero =>
      rw [hcount] at heq
      rcases hdrains with ⟨-, rfl⟩ | ⟨htrue, taken', callbacks', rfl⟩
      · cases heq
      · cases heq
        exact ⟨rfl, rfl, htrue⟩
  | succ n =>
      rw [hcount, List.replicate_succ, List.cons_append] at heq
      cases heq

theorem FetchInv.unlock (h : FetchInv w) {stack : List FetchFrame}
    (hstack : w.stack = .lock :: stack) : FetchInv (w.unlock stack) := by
  obtain ⟨n, hcount, drains, hrest, hdrains⟩ := h.shaped.lock_cons hstack
  have hids : ({ w with stack } : FetchWorld).ids = w.ids := by
    unfold ids
    rw [hstack]
    rfl
  have haccounted : Accounted
      { w with
        model := { w.model with callbackLockCount := w.model.callbackLockCount - 1 }
        stack } [] := by
    refine h.accounted.of_perm (List.Perm.of_eq ?_) rfl ?_ h.accounted.calls
    · exact congrArg (· ++ _) hids
    · intro taken callbacks hmem
      refine h.accounted.taken taken callbacks ?_
      rw [hstack]
      exact List.mem_cons_of_mem _ hmem
  have hshaped : Shaped
      { w with
        model := { w.model with callbackLockCount := w.model.callbackLockCount - 1 }
        stack } := by
    refine ⟨drains, ?_, hdrains⟩
    show stack = List.replicate (w.model.callbackLockCount - 1) .lock ++ drains
    rw [hcount, hrest]
    rfl
  unfold FetchWorld.unlock
  dsimp only
  split
  · exact FetchInv.notifyCallbacks haccounted hshaped
  · rename_i hheld
    exact ⟨haccounted, hshaped, fun hzero => absurd hzero hheld⟩

theorem FetchInv.returned (h : FetchInv w) {stack : List FetchFrame}
    (hstack : w.stack = .drain taken callbacks :: stack) :
    FetchInv (w.returned taken callbacks stack) := by
  obtain ⟨hcount, rfl, hnotifying⟩ := h.shaped.drain_cons hstack
  have hincludes := h.accounted.taken taken callbacks (by rw [hstack]; exact List.mem_cons_self)
  have haccounted : Accounted { w with stack := [] } callbacks := by
    refine h.accounted.of_perm ?_ rfl ?_ h.accounted.calls
    · unfold ids
      rw [hstack, List.perm_iff_count]
      intro id
      simp only [List.flatMap_cons, List.flatMap_nil, FetchFrame.callbacks, List.count_append,
        List.map_nil, List.count_nil]
      omega
    · rintro taken callbacks ⟨⟩
  unfold FetchWorld.returned
  cases callbacks with
  | nil => exact FetchInv.of_pass haccounted hcount rfl hnotifying
  | cons entry callbacks =>
      refine ⟨haccounted.call hcount hincludes, ?_, ?_⟩
      · refine ⟨[.drain taken callbacks], ?_, Or.inr ⟨hnotifying, _, _, rfl⟩⟩
        show [FetchFrame.drain taken callbacks] =
          List.replicate w.model.callbackLockCount .lock ++ _
        rw [hcount]
        rfl
      · intro _ hdone
        have hstill : w.notifyingCallbacks = false := hdone
        rw [hnotifying] at hstill
        cases hstill

theorem step_unlock (hs : w.step .unlock = some w') :
    ∃ stack, w.stack = .lock :: stack ∧ w' = w.unlock stack := by
  unfold FetchWorld.step at hs
  dsimp only at hs
  split at hs
  · rename_i stack hstack
    exact ⟨stack, hstack, (Option.some_inj.mp hs).symm⟩
  · cases hs

theorem step_leave (hs : w.step .leave = some w') :
    ∃ taken callbacks stack, w.stack = .drain taken callbacks :: stack ∧
      w' = w.returned taken callbacks stack := by
  unfold FetchWorld.step at hs
  dsimp only at hs
  split at hs
  · rename_i taken callbacks stack hstack
    exact ⟨taken, callbacks, stack, hstack, (Option.some_inj.mp hs).symm⟩
  · cases hs

/-- **Every step keeps the account of callbacks.** -/
theorem FetchInv.step (h : FetchInv w) {a : FetchAction} (hs : w.step a = some w') :
    FetchInv w' := by
  cases a with
  | startFetch requestedStatus callback =>
      cases hs
      exact h.startFetch requestedStatus callback
  | setFetchStatus status fetchStatus =>
      cases hs
      exact h.setFetchStatus status fetchStatus
  | lock =>
      cases hs
      exact h.lock
  | unlock =>
      obtain ⟨stack, hstack, rfl⟩ := step_unlock hs
      exact h.unlock hstack
  | leave =>
      obtain ⟨taken, callbacks, stack, hstack, rfl⟩ := step_leave hs
      exact h.returned hstack

/-! ## §6  Once and in time -/

/-- A new fetch status has all that the callbacks taken out and left have asked for. -/
def KeepsTaken (w : FetchWorld) : FetchAction → Prop
  | .setFetchStatus _ fetchStatus =>
      ∀ entry ∈ w.stack.flatMap FetchFrame.callbacks, Includes fetchStatus entry.1
  | _ => True

instance (w : FetchWorld) (a : FetchAction) : Decidable (w.KeepsTaken a) := by
  unfold KeepsTaken
  split <;> infer_instance

/-- What is taken out is satisfied still, and what was called was so at the call. -/
structure InTime (w : FetchWorld) : Prop where
  taken : ∀ frame ∈ w.stack, ∀ entry ∈ frame.callbacks, Includes w.model.fetchStatus entry.1
  calls : ∀ call ∈ w.calls, Includes call.fetchStatus call.requestedStatus

theorem InTime.call (h : InTime w) (taken : NodeFetchStatus)
    (hincludes : ∀ e ∈ entry :: callbacks, Includes w.model.fetchStatus e.1) :
    InTime (w.call taken entry callbacks) where
  taken := by
    intro frame hframe e he
    rcases List.mem_cons.mp hframe with rfl | hframe
    · exact hincludes e (List.mem_cons_of_mem _ he)
    · exact h.taken frame hframe e he
  calls := by
    intro c hc
    rcases List.mem_append.mp hc with hc | hc
    · exact h.calls c hc
    · rw [List.mem_singleton.mp hc]
      exact hincludes entry List.mem_cons_self

theorem InTime.pass (h : InTime w) : InTime w.pass := by
  rcases w.pass_cases with ⟨heq, -⟩ | ⟨entry, callbacks, hsatisfied, heq⟩
  · rw [heq]
    exact ⟨h.taken, h.calls⟩
  · rw [heq]
    have hwithout : InTime w.withoutSatisfied := ⟨h.taken, h.calls⟩
    refine hwithout.call w.model.fetchStatus fun e he => ?_
    rw [← hsatisfied] at he
    exact includes_of_satisfied (w := w) he

theorem InTime.notifyCallbacks (h : InTime w) : InTime w.notifyCallbacks := by
  unfold FetchWorld.notifyCallbacks
  split
  · exact h
  · split
    · exact h
    · exact InTime.pass ⟨h.taken, h.calls⟩

theorem InTime.step (h : InTime w) {a : FetchAction} (hkeeps : w.KeepsTaken a)
    (hs : w.step a = some w') : InTime w' := by
  cases a with
  | startFetch requestedStatus callback =>
      cases hs
      unfold FetchWorld.startFetch
      split
      · split
        · exact InTime.notifyCallbacks ⟨h.taken, h.calls⟩
        · exact h
      · dsimp only
        split
        · exact ⟨h.taken, h.calls⟩
        · exact ⟨h.taken, h.calls⟩
  | setFetchStatus status fetchStatus =>
      cases hs
      unfold FetchWorld.setFetchStatus
      dsimp only
      split
      · exact ⟨h.taken, h.calls⟩
      · refine InTime.notifyCallbacks ⟨?_, h.calls⟩
        intro frame hframe entry hentry
        exact hkeeps entry (List.mem_flatMap.mpr ⟨frame, hframe, hentry⟩)
  | lock =>
      cases hs
      refine ⟨?_, h.calls⟩
      intro frame hframe entry hentry
      rcases List.mem_cons.mp hframe with rfl | hframe
      · cases hentry
      · exact h.taken frame hframe entry hentry
  | unlock =>
      obtain ⟨stack, hstack, rfl⟩ := step_unlock hs
      have hrest : ∀ frame ∈ stack, ∀ entry ∈ frame.callbacks,
          Includes w.model.fetchStatus entry.1 := by
        intro frame hframe
        refine h.taken frame ?_
        rw [hstack]
        exact List.mem_cons_of_mem _ hframe
      unfold FetchWorld.unlock
      dsimp only
      split
      · exact InTime.notifyCallbacks ⟨hrest, h.calls⟩
      · exact ⟨hrest, h.calls⟩
  | leave =>
      obtain ⟨taken, callbacks, stack, hstack, rfl⟩ := step_leave hs
      have hframes : ∀ frame ∈ FetchFrame.drain taken callbacks :: stack,
          ∀ entry ∈ frame.callbacks, Includes w.model.fetchStatus entry.1 := by
        rw [← hstack]
        exact h.taken
      obtain ⟨hcallbacks, hrest⟩ := List.forall_mem_cons.mp hframes
      have hbelow : InTime { w with stack } := ⟨hrest, h.calls⟩
      unfold FetchWorld.returned
      cases callbacks with
      | nil => exact hbelow.pass
      | cons entry callbacks => exact hbelow.call taken hcallbacks

end FetchWorld

/-- **Fetch callbacks fire at most once and in time.** In every run no callback is called
twice; each was satisfied when the drain took it out, and is called with no lock held;
and when none is held and no drain runs, no callback that waits is satisfied. Unless a
fetch status is set that lacks what a callback taken out has asked for, each is satisfied
when it is called. -/
theorem fetch_callbacks_once (fetchStatus : NodeFetchStatus) (w : FetchWorld) :
    ((fetchMachine fetchStatus).Reachable w →
      (w.calls.map (·.id)).Nodup ∧
      (∀ call ∈ w.calls, call.callbackLockCount = 0 ∧ Includes call.taken call.requestedStatus) ∧
      (w.model.callbackLockCount = 0 → w.notifyingCallbacks = false →
        ∀ entry ∈ w.model.fetchCallbacks, ¬ Includes w.model.fetchStatus entry.1)) ∧
    ((fetchMachine fetchStatus).Reaches FetchWorld.KeepsTaken w →
      ∀ call ∈ w.calls, Includes call.fetchStatus call.requestedStatus) := by
  constructor
  · intro h
    have hinv : w.FetchInv := by
      refine h.invariant (FetchWorld.FetchInv.init fetchStatus) ?_
      intro t a t' ht _ _ hs
      exact ht.step hs
    have hnodup := hinv.accounted.nodup
    rw [List.map_nil, List.append_nil] at hnodup
    exact ⟨(List.nodup_append.mp hnodup).2.1, hinv.accounted.calls, hinv.idle⟩
  · intro h
    have htime : w.InTime := by
      refine h.invariant (I := FetchWorld.InTime) ⟨?_, ?_⟩ ?_
      · rintro frame ⟨⟩
      · rintro call ⟨⟩
      · intro t a t' ht _ hkeeps hs
        exact ht.step hkeeps hs
    exact htime.calls

/-- Two callbacks wait for a node; the first takes a lock and asks for its children,
which come at once. -/
theorem fetch_callbacks_once_nested : ∃ w : FetchWorld, w.calls.map (·.id) = [0, 1, 2] ∧
    (w.calls.map (·.id)).Nodup ∧
    ∀ call ∈ w.calls, Includes call.fetchStatus call.requestedStatus := by
  obtain ⟨w, hw, hp⟩ := Machine.exists_reaches_of_exec (M := fetchMachine .none)
    FetchWorld.KeepsTaken (p := fun w => decide (w.calls.map (·.id) = [0, 1, 2]))
    [.startFetch .nodeOnly true, .startFetch .nodeOnly true, .setFetchStatus .good .nodeOnly,
      .lock, .startFetch .childrenOnly true, .setFetchStatus .good .nodeAndChildren, .unlock,
      .leave, .leave] (by decide)
  have hall := fetch_callbacks_once .none w
  exact ⟨w, of_decide_eq_true hp, (hall.1 (hw.mono fun _ _ _ => trivial)).1, hall.2 hw⟩

/-- The first of two callbacks sets back the fetch status, and the second is called all
the same. -/
theorem stale_callback_is_called : ∃ w : FetchWorld, (fetchMachine .none).Reachable w ∧
    ∃ call ∈ w.calls, ¬ Includes call.fetchStatus call.requestedStatus := by
  obtain ⟨w, hw, hp⟩ := Machine.exists_reachable_of_exec (M := fetchMachine .none)
    (p := fun w => decide (∃ call ∈ w.calls, ¬ Includes call.fetchStatus call.requestedStatus))
    [.startFetch .nodeOnly true, .startFetch .nodeOnly true, .setFetchStatus .good .nodeOnly,
      .setFetchStatus .good .none, .leave] (by decide)
  exact ⟨w, hw, of_decide_eq_true hp⟩

end ScadaCommon
