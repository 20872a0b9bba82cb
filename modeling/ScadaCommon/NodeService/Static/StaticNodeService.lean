import ScadaCommon.Foundation.OrderedSet
import ScadaCommon.NodeService.V3.NodeModelImpl
import ScadaCommon.Scada.StandardNodes

/-!
# The static node service

`StaticNodeService` answers from node states that were added before. What a
state says of its parent and its type is moved to its references, an index holds
every reference the other way round, and properties become nodes.

§1 states · §2 adding · §3 answers.
-/

namespace ScadaCommon.Static

open Foundation V3

variable {V : Type}

/-! ## §1  States -/

structure NodeAttributes (V : Type) where
  dataType : NodeId := .null
  value : Option V := none
deriving DecidableEq

structure NodeState (V : Type) where
  nodeId : NodeId
  nodeClass : NodeClass := .object
  typeDefinitionId : NodeId := .null
  parentId : NodeId := .null
  referenceTypeId : NodeId := .null
  attributes : NodeAttributes V := {}
  properties : List (NodeId × V) := []
  references : List ReferenceDescription := []
deriving DecidableEq

/-- What is used of the core library. -/
structure Core where
  isStandardReferenceSubtype : NodeId → NodeId → Option Bool
  isInstance : NodeClass → Bool
  /-- `MakeAggregateId`; `none` when one of its checks fails. -/
  makeAggregateId : NodeId → NodeId → Option NodeId
  /-- The id that a `bool` becomes where it is compared with one. -/
  nodeIdOfBool : Bool → NodeId

/-- A `bool` is converted as the number that it is, and the number 0 makes the null id. -/
structure Core.ConvertsBool (core : Core) : Prop where
  false_null : core.nodeIdOfBool false = .null
  true_ne_null : core.nodeIdOfBool true ≠ .null

structure StaticNodeService (V : Type) where
  nodes : NodeId → Option (NodeState V)
  /-- A `std::set` for each node. -/
  inverseReferences : NodeId → List Edge

/-! ## §2  Adding -/

def relocateType (state : NodeState V) : NodeState V :=
  if state.typeDefinitionId ≠ .null then
    { state with
      references := state.references ++
        [{ referenceTypeId := StandardId.hasTypeDefinition, forward := true,
           nodeId := state.typeDefinitionId }]
      typeDefinitionId := .null }
  else state

def relocateParent (state : NodeState V) : Option (NodeState V) :=
  if state.parentId ≠ .null then do
    check (state.referenceTypeId ≠ .null)
    return { state with
      references := state.references ++
        [{ referenceTypeId := state.referenceTypeId, forward := false, nodeId := state.parentId }]
      parentId := .null
      referenceTypeId := .null }
  else some state

def relocateReferences (state : NodeState V) : Option (NodeState V) :=
  relocateParent (relocateType state)

/-- The references of a state once its type and its parent are among them. -/
def relocatedReferences (state : NodeState V) : List ReferenceDescription :=
  (relocateType state).references ++
    if state.parentId ≠ .null then
      [{ referenceTypeId := state.referenceTypeId, forward := false, nodeId := state.parentId }]
    else []

/-- The state that `RelocateReferences` leaves. -/
def relocated (state : NodeState V) : NodeState V :=
  { state with
    typeDefinitionId := .null
    parentId := .null
    referenceTypeId := if state.parentId ≠ .null then .null else state.referenceTypeId
    references := relocatedReferences state }

theorem relocateType_eq (state : NodeState V) :
    relocateType state =
      { state with references := (relocateType state).references, typeDefinitionId := .null } := by
  unfold relocateType
  split
  · rfl
  · rename_i h
    rw [← Decidable.not_not.mp h]

/-- Attributes are not references. -/
theorem relocatedReferences_attributes (state : NodeState V) (attributes : NodeAttributes V) :
    relocatedReferences { state with attributes } = relocatedReferences state := by
  unfold relocatedReferences relocateType
  split <;> rfl

theorem relocateReferences_eq_some {state state' : NodeState V} :
    relocateReferences state = some state' ↔
      (state.parentId ≠ .null → state.referenceTypeId ≠ .null) ∧ state' = relocated state := by
  unfold relocateReferences relocateParent relocated relocatedReferences
  rw [relocateType_eq]
  by_cases hparent : state.parentId = .null
  · simp [hparent, eq_comm]
  · simp only [hparent, not_false_eq_true, ne_eq, if_true, true_implies, Option.bind_eq_bind,
      check_bind_eq_some, Option.pure_def, Option.some_inj]
    exact and_congr_right fun _ => eq_comm

namespace StaticNodeService

/-- `GetNode`, as the id of the result, null for a null `NodeRef`. -/
def getNode (service : StaticNodeService V) (nodeId : NodeId) : NodeId :=
  if (service.nodes nodeId).isSome then nodeId else .null

/-- `StaticNodeModel::GetDataType`. -/
def getStateDataType (service : StaticNodeService V) (state : NodeState V) : NodeId :=
  service.getNode state.attributes.dataType

section

variable (core : Core) (less : Edge → Edge → Prop) [DecidableRel less]

def addInverseReference (nodeId : NodeId) (service : StaticNodeService V)
    (desc : ReferenceDescription) : Option (StaticNodeService V) := do
  check (nodeId ≠ .null)
  check (desc.referenceTypeId ≠ .null)
  check (desc.nodeId ≠ .null)
  return { service with
    inverseReferences := Function.update service.inverseReferences desc.nodeId
      (OrderedSet.insert less (desc.mirror nodeId).toEdge
        (service.inverseReferences desc.nodeId)) }

/-- `nodes_.try_emplace`: the first state of an id stays. -/
def tryEmplace (service : StaticNodeService V) (state : NodeState V) : StaticNodeService V :=
  if (service.nodes state.nodeId).isSome then service
  else { service with nodes := Function.update service.nodes state.nodeId (some state) }

/-- `Add`, with the loop over the properties. -/
def addWith (addProperties : StaticNodeService V → NodeState V → Option (StaticNodeService V))
    (service : StaticNodeService V) (state : NodeState V) : Option (StaticNodeService V) := do
  check (state.nodeId ≠ .null)
  check (core.isInstance state.nodeClass ≠ decide (state.typeDefinitionId = .null))
  let state ← relocateReferences state
  let service ← state.references.foldlM (addInverseReference less state.nodeId) service
  let service ← (if core.isInstance state.nodeClass then addProperties service state
    else some service)
  return service.tryEmplace { state with properties := [] }

/-- `Add` of a state without properties. -/
def addLeaf : StaticNodeService V → NodeState V → Option (StaticNodeService V) :=
  addWith core less fun service _ => some service

def makePropNodeState (nodeId propDeclId : NodeId) (propValue : V) : Option (NodeState V) := do
  let propId ← core.makeAggregateId nodeId propDeclId
  return {
    nodeId := propId
    nodeClass := .variable
    typeDefinitionId := StandardId.propertyType
    parentId := nodeId
    referenceTypeId := StandardId.hasProperty
    attributes := { value := some propValue } }

/-- Carries the data type of the declaration onto the instance. -/
def carryDataType (service : StaticNodeService V) (propDeclId : NodeId) (propState : NodeState V) :
    NodeState V :=
  match service.nodes propDeclId with
  | some declaration =>
      { propState with
        attributes.dataType := service.getStateDataType declaration }
  | none => propState

/-- One round of the loop; the state of a property has no properties. -/
def addProperty (nodeId : NodeId) (service : StaticNodeService V) (property : NodeId × V) :
    Option (StaticNodeService V) := do
  let propState ← makePropNodeState core nodeId property.1 property.2
  service.addLeaf core less (service.carryDataType property.1 propState)

def add : StaticNodeService V → NodeState V → Option (StaticNodeService V) :=
  addWith core less fun service state =>
    state.properties.foldlM (addProperty core less state.nodeId) service

def empty : StaticNodeService V where
  nodes _ := none
  inverseReferences _ := []

def addAll (service : StaticNodeService V) (states : List (NodeState V)) :
    Option (StaticNodeService V) :=
  states.foldlM (add core less) service

end

/-! ## §3  Answers -/

/-- `NodeRef::Reference`, with the ids of its nodes. -/
structure NodeRefReference where
  referenceType : NodeId := .null
  target : NodeId := .null
  forward : Bool := false
deriving DecidableEq

def toReference (service : StaticNodeService V) (desc : Edge) : NodeRefReference where
  referenceType := service.getNode desc.referenceTypeId
  target := service.getNode desc.nodeId
  forward := desc.forward

variable (core : Core)

/-- `FilterReferences`. -/
def matchesReference (referenceTypeId : NodeId) (forward : Bool) (desc : Edge) : Bool :=
  if desc.forward ≠ forward then false
  else
    match core.isStandardReferenceSubtype desc.referenceTypeId referenceTypeId with
    | some known => known
    | none => desc.referenceTypeId = referenceTypeId

def getReferences (service : StaticNodeService V) (nodeId referenceTypeId : NodeId)
    (forward : Bool) : List NodeRefReference :=
  match service.nodes nodeId with
  | some state =>
      let refs := (state.references.map (·.toEdge)).filter
        (matchesReference core referenceTypeId forward)
      let inverseRefs := (service.inverseReferences nodeId).filter
        (matchesReference core referenceTypeId forward)
      (refs ++ inverseRefs).map service.toReference
  | none => []

/-- The search of `StaticNodeModel::GetReference`. -/
def findReference (refs : List NodeRefReference) (forward : Bool) (nodeId : NodeId) :
    Option NodeRefReference :=
  -- The lambda is a projection: it is its answer that is compared with the id.
  refs.find? fun ref =>
    core.nodeIdOfBool
      (ref.forward = forward ∧ ref.referenceType = nodeId ∧ ref.target = nodeId) = nodeId

def getReference (service : StaticNodeService V) (nodeId referenceTypeId : NodeId)
    (forward : Bool) (targetId : NodeId) : NodeRefReference :=
  (findReference core (service.getReferences core nodeId referenceTypeId forward) forward
    targetId).getD {}

def getDataType (service : StaticNodeService V) (nodeId : NodeId) : NodeId :=
  match service.nodes nodeId with
  | some state => service.getStateDataType state
  | none => .null

end StaticNodeService

end ScadaCommon.Static
