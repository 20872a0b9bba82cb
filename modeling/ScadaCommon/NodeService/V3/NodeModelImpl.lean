import ScadaCommon.NodeService.BaseNodeModel

/-!
# The v3 node model

What `NodeModelImpl` keeps of a node, and what the results of its fetches and
its deletion do to it. Functions are cut where others run in between: where
observers are notified or the model looks for its neighbours.

§1 node states · §2 the model · §3 what its functions keep.
-/

namespace ScadaCommon.V3

/-! ## §1  Node states -/

/-- What identifies a reference of a node. -/
structure Edge where
  referenceTypeId : NodeId
  forward : Bool
  nodeId : NodeId
deriving DecidableEq

/-- A browse adds optional fields (names, class, type) to an edge; numbers stand
for their values. -/
structure ReferenceDescription extends Edge where
  browseFields : Option ℕ := none
deriving DecidableEq

/-- The reference that the target has back. -/
def ReferenceDescription.mirror (reference : ReferenceDescription) (nodeId : NodeId) :
    ReferenceDescription :=
  { referenceTypeId := reference.referenceTypeId, forward := !reference.forward, nodeId }

def IsSameReference (a b : ReferenceDescription) : Prop :=
  a.referenceTypeId = b.referenceTypeId ∧ a.forward = b.forward ∧ a.nodeId = b.nodeId

instance (a b : ReferenceDescription) : Decidable (IsSameReference a b) :=
  inferInstanceAs (Decidable (_ ∧ _))

/-- The part of a `scada::NodeState` that the models of nodes work on. -/
structure NodeState where
  nodeId : NodeId := .null
  typeDefinitionId : NodeId := .null
  parentId : NodeId := .null
  referenceTypeId : NodeId := .null
  supertypeId : NodeId := .null
  references : List ReferenceDescription := []
deriving DecidableEq

/-- With the references to its parent and its supertype. -/
def NodeState.withInverseReferences (hasSubtype : NodeId) (state : NodeState) : NodeState :=
  let references :=
    if state.parentId ≠ .null then
      state.references ++ [{
        referenceTypeId := state.referenceTypeId
        forward := false
        nodeId := state.parentId }]
    else state.references
  let references :=
    if state.supertypeId ≠ .null then
      references ++ [{
        referenceTypeId := hasSubtype
        forward := false
        nodeId := state.supertypeId }]
    else references
  { state with references }

/-- The bits of `ModelChangeEvent::verb` that are looked at. -/
structure ModelChangeVerb where
  nodeAdded : Bool := false
  nodeDeleted : Bool := false
deriving DecidableEq

/-! ## §2  The model -/

/-- Identifies a model object. -/
abbrev ModelId := ℕ

/-- Identifies the flag of a children request. -/
abbrev RequestId := ℕ

structure NodeModelImpl extends BaseNodeModel where
  nodeId : NodeId := .null
  nodeState : NodeState := {}
  childReferences : List ReferenceDescription := []
  referenceRequest : Option RequestId := none
deriving DecidableEq

namespace NodeModelImpl

def hasReference (model : NodeModelImpl) (reference : ReferenceDescription) : Bool :=
  model.nodeState.references.any (IsSameReference reference ·) ||
    model.childReferences.any (IsSameReference reference ·)

/-- Replaces the part of the base class. -/
def withBase (model : NodeModelImpl) (result : BaseNodeModel × List FetchId) :
    NodeModelImpl × List FetchId :=
  ({ model with toBaseNodeModel := result.1 }, result.2)

def onModelChanged (model : NodeModelImpl) (verb : ModelChangeVerb) :
    NodeModelImpl × List FetchId :=
  if verb.nodeDeleted then
    let (model, callbacks) := model.withBase model.onNodeDeleted
    ({ model with childReferences := [] }, callbacks)
  else (model, [])

/-- `OnFetched` before the references are pushed into neighbours. -/
def receiveState (hasSubtype : NodeId) (state : NodeState) (model : NodeModelImpl) :
    NodeModelImpl :=
  { model with
    callbackLockCount := model.callbackLockCount + 1
    nodeState := state.withInverseReferences hasSubtype }

/-- What a neighbour does with a reference pushed into it. -/
def pushReference (mirror : ReferenceDescription) (model : NodeModelImpl) : NodeModelImpl :=
  if model.hasReference mirror then model
  else
    { model with
      nodeState := { model.nodeState with references := model.nodeState.references ++ [mirror] } }

/-- The rest of `OnFetched`, and `OnFetchCompleted` up to its notifications. -/
def applyState (model : NodeModelImpl) : Option (NodeModelImpl × List FetchId) := do
  let (model, callbacks) :=
    model.withBase (model.setFetchStatus .good (model.fetchStatus ∪ .nodeOnly))
  check (0 < model.callbackLockCount)
  return ({ model with callbackLockCount := model.callbackLockCount - 1 }, callbacks)

/-- The rest of `OnFetchCompleted`. -/
def completeFetch (model : NodeModelImpl) : NodeModelImpl × List FetchId :=
  model.withBase model.notifyCallbacks

def onFetchError (model : NodeModelImpl) (status : Status) : NodeModelImpl × List FetchId :=
  model.withBase (model.setFetchStatus status .max)

/-- What `OnChildrenFetched` does before its coroutine. -/
def beginChildren (request : RequestId) (model : NodeModelImpl) : NodeModelImpl :=
  { model with referenceRequest := some request }

/-- What the coroutine of `OnChildrenFetched` does to the model in the end. -/
def applyChildren (references : List ReferenceDescription) (model : NodeModelImpl) :
    NodeModelImpl × List FetchId :=
  let model := { model with
    childReferences := references
    nodeState := { model.nodeState with
      references := model.nodeState.references.filter fun reference =>
        !references.any (IsSameReference reference ·) } }
  model.withBase (model.setFetchStatus model.status (model.fetchStatus ∪ .childrenOnly))

/-! ## §3  What the functions keep -/

variable {model : NodeModelImpl}

@[simp] theorem withBase_base {result : BaseNodeModel × List FetchId} :
    (model.withBase result).1.toBaseNodeModel = result.1 := rfl

theorem pushReference_eq (mirror : ReferenceDescription) (model : NodeModelImpl) :
    ∃ nodeState, model.pushReference mirror = { model with nodeState } := by
  unfold pushReference
  split
  · exact ⟨model.nodeState, rfl⟩
  · exact ⟨_, rfl⟩

/-- What applying a state leaves, when its check passes. -/
theorem applyState_eq_some {result : NodeModelImpl × List FetchId}
    (h : model.applyState = some result) :
    result.1.nodeId = model.nodeId ∧ result.1.childReferences = model.childReferences ∧
      result.1.referenceRequest = model.referenceRequest ∧ result.1.status = .good ∧
      result.1.fetchStatus = model.fetchStatus ∪ .nodeOnly ∧
      ∀ entry ∈ result.1.fetchCallbacks, entry ∈ model.fetchCallbacks := by
  unfold applyState at h
  obtain ⟨-, hresult⟩ := check_bind_eq_some.mp h
  cases hresult
  refine ⟨rfl, rfl, rfl, BaseNodeModel.setFetchStatus_status,
    BaseNodeModel.setFetchStatus_fetchStatus, ?_⟩
  intro entry hentry
  exact BaseNodeModel.mem_setFetchStatus hentry

theorem exists_applyState (h : 0 < model.callbackLockCount) :
    ∃ result, model.applyState = some result := by
  unfold applyState
  refine ⟨_, check_bind_eq_some.mpr ⟨?_, rfl⟩⟩
  show 0 < (model.setFetchStatus .good (model.fetchStatus ∪ .nodeOnly)).1.callbackLockCount
  rw [BaseNodeModel.setFetchStatus_callbackLockCount]
  exact h

end NodeModelImpl

end ScadaCommon.V3
