import ScadaCommon.Common.NodeStateUtil

/-!
# Applying node states

`ApplyNodeStates` makes nodes of the states that were parsed: it looks for the
parents that the parsers left among the references, sorts the states, creates
the nodes, and then adds the supertypes and the references.

§1 parents · §2 links · §3 the whole.
-/

namespace ScadaCommon.AddressSpace

variable {V : Type}

/-! ## §1  Parents -/

def supertypeByReferenceType (states : List (NodeState V)) (typeId : NodeId) : Option NodeId :=
  (states.find? fun state => state.nodeClass = .referenceType ∧ state.nodeId = typeId).map
    NodeState.supertypeId

/-- At most `depth` types are looked at. -/
def isHierarchical (states : List (NodeState V)) : ℕ → NodeId → Bool
  | 0, _ => false
  | depth + 1, current =>
      if current = .null then false
      else if current = StandardId.hierarchicalReferences then true
      else
        match supertypeByReferenceType states current with
        | none => false
        | some supertype => isHierarchical states depth supertype

/-- The first inverse hierarchical reference becomes the parent. -/
def promoteParent (states : List (NodeState V)) (state : NodeState V) : NodeState V :=
  if state.parentId ≠ .null ∨ state.nodeClass.isTypeDefinition = true then state
  else
    let isParent := fun reference : ReferenceDescription =>
      !reference.forward && isHierarchical states 64 reference.referenceTypeId
    match state.references.find? isParent with
    | none => state
    | some reference =>
        { state with
          parentId := reference.nodeId
          referenceTypeId := reference.referenceTypeId
          references := state.references.eraseP isParent }

def promoteHierarchicalParents (states : List (NodeState V)) : List (NodeState V) :=
  states.map (promoteParent states)

/-! ## §2  Links -/

/-- A reference that a state asks for, and the error if its source is missing. -/
structure Link where
  missing : StatusCode
  typeId : NodeId
  sourceId : NodeId
  targetId : NodeId

/-- The supertype comes before the references. -/
def NodeState.links (state : NodeState V) : List Link :=
  (if state.supertypeId ≠ .null then
    [{ missing := .badWrongTypeId, typeId := StandardId.hasSubtype,
       sourceId := state.supertypeId, targetId := state.nodeId }] else []) ++
  state.references.map fun reference =>
    { missing := .badWrongNodeId
      typeId := reference.referenceTypeId
      sourceId := if reference.forward then state.nodeId else reference.nodeId
      targetId := if reference.forward then reference.nodeId else state.nodeId }

/-- `FindReference`: the type of the reference may be a subtype. -/
def findReference {A : Type} (heap : NodeHeap A) (typeId nodeId : NodeId) :
    List Reference → Option (Option Reference)
  | [] => some none
  | ref :: refs => do
      match ← heap.isSubtypeOf ref.type typeId with
      | false => findReference heap typeId nodeId refs
      | true =>
          let node ← heap.nodes ref.node
          if node.id = nodeId then return some ref
          findReference heap typeId nodeId refs

namespace GenericNodeFactory

variable (factory : GenericNodeFactory)

/-- `AddReference` of ids, which checks that there are such nodes. -/
def addReferenceOfIds (spaces : Spaces V) (typeId sourceId targetId : NodeId) :
    Option (Spaces V) := do
  let source ← factory.getNode spaces sourceId
  let target ← factory.getNode spaces targetId
  let type ← asClass spaces .referenceType (factory.getNode spaces typeId)
  spaces.addReference type source target

def addLink (spaces : Spaces V) (link : Link) : Option (StatusCode × Spaces V) :=
  match factory.getNode spaces link.sourceId with
  | none => some (link.missing, spaces)
  | some source => do
      let sourceNode ← spaces.heap.nodes source
      match ← findReference spaces.heap link.typeId link.targetId sourceNode.forwardReferences with
      | some _ => some (.good, spaces)
      | none =>
          (factory.addReferenceOfIds spaces link.typeId link.sourceId link.targetId).map (.good, ·)

/-! ## §3  The whole -/

/-- A state whose node is there already is passed over. -/
def createState [Inhabited V] (fuel : ℕ) (spaces : Spaces V) (state : NodeState V) :
    Option (StatusCode × Spaces V) :=
  match factory.getNode spaces state.nodeId with
  | some _ => some (.good, spaces)
  | none => factory.createNode fuel spaces { state with properties := [] }

end GenericNodeFactory

/-- One after the other, up to the first error. -/
def applyAll {α : Type} (step : Spaces V → α → Option (StatusCode × Spaces V)) :
    List α → Spaces V → Option (StatusCode × Spaces V)
  | [], spaces => some (.good, spaces)
  | a :: as, spaces => andThen (step spaces a) (applyAll step as)

/-- `ApplyNodeStates`, with calls of `CreateNode` at most `fuel` deep. -/
def GenericNodeFactory.applyNodeStates [Inhabited V] (factory : GenericNodeFactory) (fuel : ℕ)
    (states : List (NodeState V)) (spaces : Spaces V) : Option (StatusCode × Spaces V) := do
  let states ← sortNodesHierarchically (promoteHierarchicalParents states)
  andThen (applyAll (factory.createState fuel) states spaces)
    (applyAll factory.addLink (states.flatMap NodeState.links))

/-- `LoadStaticAddressSpace`, with the states that each file was parsed to. -/
def GenericNodeFactory.loadStaticAddressSpace [Inhabited V] (factory : GenericNodeFactory)
    (fuel : ℕ) (files : List (List (NodeState V))) (spaces : Spaces V) :
    Option (StatusCode × Spaces V) :=
  factory.applyNodeStates fuel files.flatten spaces

end ScadaCommon.AddressSpace
