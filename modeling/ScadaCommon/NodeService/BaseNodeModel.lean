import Mathlib.Data.Finset.Insert
import ScadaCommon.Scada.Basic

/-!
# Fetch status and fetch callbacks of a node model

`BaseNodeModel` keeps what of a node has been fetched and the callbacks that
wait for more. A drain takes out the callbacks that are satisfied; each of them
then runs as a step of its own.

§1 fetch status · §2 the model · §3 what its functions keep.
-/

namespace ScadaCommon

/-! ## §1  Fetch status -/

/-- The parts of a node that can be fetched, one bit each. -/
inductive FetchDimension where
  | nodeOnly
  | childrenOnly
  | nonHierarchicalInverseReferences
deriving DecidableEq

/-- A combination of bits: `|` is the union. -/
abbrev NodeFetchStatus := Finset FetchDimension

namespace NodeFetchStatus

def none : NodeFetchStatus := ∅

def nodeOnly : NodeFetchStatus := {.nodeOnly}

def childrenOnly : NodeFetchStatus := {.childrenOnly}

def nodeAndChildren : NodeFetchStatus := nodeOnly ∪ childrenOnly

def max : NodeFetchStatus :=
  {.nodeOnly, .childrenOnly, .nonHierarchicalInverseReferences}

/-- `(have & want) == want`. -/
def Includes (status wanted : NodeFetchStatus) : Prop := status ∩ wanted = wanted

instance (status wanted : NodeFetchStatus) : Decidable (Includes status wanted) :=
  inferInstanceAs (Decidable (_ = _))

theorem includes_iff {status wanted : NodeFetchStatus} :
    Includes status wanted ↔ wanted ⊆ status :=
  Finset.inter_eq_right

@[simp] theorem mem_max (d : FetchDimension) : d ∈ max := by
  cases d <;> simp [max]

end NodeFetchStatus

open NodeFetchStatus (Includes)

/-! ## §2  The model -/

/-- A `scada::Status`; the codes that no modelled function names are numbers. -/
inductive Status where
  | good
  | uncertain (code : ℕ)
  | badWrongNodeId
  | bad (code : ℕ)
deriving DecidableEq

/-- `IsBad`, which is not the same as not being good. -/
def Status.IsBad : Status → Prop
  | .good => False
  | .uncertain _ => False
  | .badWrongNodeId => True
  | .bad _ => True

instance (status : Status) : Decidable status.IsBad := by
  cases status <;> unfold Status.IsBad <;> infer_instance

/-- Identifies the callback of a `Fetch` that has not come back. -/
abbrev FetchId := ℕ

structure BaseNodeModel where
  status : Status := .good
  fetchStatus : NodeFetchStatus := .none
  callbackLockCount : ℕ := 0
  fetchingStatus : NodeFetchStatus := .none
  fetchCallbacks : List (NodeFetchStatus × FetchId) := []
deriving DecidableEq

namespace BaseNodeModel

/-- One pass of `NotifyCallbacks`, with the callbacks it takes out. What a
callback adds while others run is taken out at once, not by a further pass of
the outermost call. -/
def notifyCallbacks (model : BaseNodeModel) : BaseNodeModel × List FetchId :=
  if model.callbackLockCount ≠ 0 then (model, [])
  else
    ({ model with
        fetchCallbacks := model.fetchCallbacks.filter (¬ Includes model.fetchStatus ·.1) },
      (model.fetchCallbacks.filter (Includes model.fetchStatus ·.1)).map (·.2))

def setFetchStatus (model : BaseNodeModel) (status : Status) (fetchStatus : NodeFetchStatus) :
    BaseNodeModel × List FetchId :=
  let model := { model with status }
  if model.fetchStatus = fetchStatus then (model, [])
  else
    { model with
      fetchStatus
      fetchingStatus := model.fetchingStatus ∪ fetchStatus }.notifyCallbacks

/-- `StartFetch` up to `OnFetchRequested`: the model, the callbacks to run, and
what is requested. -/
def startFetch (model : BaseNodeModel) (requestedStatus : NodeFetchStatus)
    (callback : Option FetchId) : BaseNodeModel × List FetchId × Option NodeFetchStatus :=
  let fetchCallbacks := model.fetchCallbacks ++ (callback.map (requestedStatus, ·)).toList
  if Includes model.fetchStatus requestedStatus then
    match callback with
    | none => (model, [], none)
    | some _ =>
        let (model, callbacks) := { model with fetchCallbacks }.notifyCallbacks
        (model, callbacks, none)
  else
    let fetchingStatus := model.fetchingStatus ∪ requestedStatus
    ({ model with fetchCallbacks, fetchingStatus }, [], some fetchingStatus)

def onNodeDeleted (model : BaseNodeModel) : BaseNodeModel × List FetchId :=
  model.setFetchStatus .badWrongNodeId .max

/-! ## §3  What the functions keep -/

variable {model : BaseNodeModel} {status : Status} {fetchStatus requested : NodeFetchStatus}
  {callback : Option FetchId} {entry : NodeFetchStatus × FetchId}

@[simp] theorem notifyCallbacks_status : model.notifyCallbacks.1.status = model.status := by
  unfold notifyCallbacks
  split <;> rfl

@[simp] theorem notifyCallbacks_fetchStatus :
    model.notifyCallbacks.1.fetchStatus = model.fetchStatus := by
  unfold notifyCallbacks
  split <;> rfl

@[simp] theorem notifyCallbacks_callbackLockCount :
    model.notifyCallbacks.1.callbackLockCount = model.callbackLockCount := by
  unfold notifyCallbacks
  split <;> rfl

theorem mem_notifyCallbacks (h : entry ∈ model.notifyCallbacks.1.fetchCallbacks) :
    entry ∈ model.fetchCallbacks := by
  unfold notifyCallbacks at h
  split at h
  · exact h
  · exact List.mem_of_mem_filter h

@[simp] theorem setFetchStatus_status :
    (model.setFetchStatus status fetchStatus).1.status = status := by
  unfold setFetchStatus
  dsimp only
  split
  · rfl
  · exact notifyCallbacks_status

@[simp] theorem setFetchStatus_fetchStatus :
    (model.setFetchStatus status fetchStatus).1.fetchStatus = fetchStatus := by
  unfold setFetchStatus
  dsimp only
  split
  · assumption
  · exact notifyCallbacks_fetchStatus

@[simp] theorem setFetchStatus_callbackLockCount :
    (model.setFetchStatus status fetchStatus).1.callbackLockCount = model.callbackLockCount := by
  unfold setFetchStatus
  dsimp only
  split
  · rfl
  · exact notifyCallbacks_callbackLockCount

theorem mem_setFetchStatus (h : entry ∈ (model.setFetchStatus status fetchStatus).1.fetchCallbacks) :
    entry ∈ model.fetchCallbacks := by
  unfold setFetchStatus at h
  dsimp only at h
  split at h
  · exact h
  · have hmem := mem_notifyCallbacks h
    exact hmem

@[simp] theorem startFetch_status :
    (model.startFetch requested callback).1.status = model.status := by
  unfold startFetch
  dsimp only
  split
  · cases callback with
    | none => rfl
    | some c => exact notifyCallbacks_status
  · rfl

@[simp] theorem startFetch_fetchStatus :
    (model.startFetch requested callback).1.fetchStatus = model.fetchStatus := by
  unfold startFetch
  dsimp only
  split
  · cases callback with
    | none => rfl
    | some c => exact notifyCallbacks_fetchStatus
  · rfl

/-- A callback that waits after `StartFetch` waited before or is the new one. -/
theorem mem_startFetch (h : entry ∈ (model.startFetch requested callback).1.fetchCallbacks) :
    entry ∈ model.fetchCallbacks ∨ entry.1 = requested ∧ callback = some entry.2 := by
  have hnew : entry ∈ model.fetchCallbacks ++ (callback.map (requested, ·)).toList →
      entry ∈ model.fetchCallbacks ∨ entry.1 = requested ∧ callback = some entry.2 := by
    intro hmem
    rcases List.mem_append.mp hmem with hold | hlast
    · exact Or.inl hold
    · cases callback with
      | none => cases hlast
      | some c =>
          obtain rfl := List.mem_singleton.mp hlast
          exact Or.inr ⟨rfl, rfl⟩
  unfold startFetch at h
  dsimp only at h
  split at h
  · cases callback with
    | none => exact Or.inl h
    | some c => exact hnew (mem_notifyCallbacks h)
  · exact hnew h

/-- What `StartFetch` requests, and when it requests nothing. -/
theorem startFetch_request (model : BaseNodeModel) (requested : NodeFetchStatus)
    (callback : Option FetchId) :
    (Includes model.fetchStatus requested ∧ (model.startFetch requested callback).2.2 = none) ∨
      (¬ Includes model.fetchStatus requested ∧
        (model.startFetch requested callback).2.2 = some (model.fetchingStatus ∪ requested)) := by
  unfold startFetch
  dsimp only
  by_cases hincludes : Includes model.fetchStatus requested
  · rw [if_pos hincludes]
    refine Or.inl ⟨hincludes, ?_⟩
    cases callback with
    | none => rfl
    | some c => rfl
  · rw [if_neg hincludes]
    exact Or.inr ⟨hincludes, rfl⟩

end BaseNodeModel

end ScadaCommon
