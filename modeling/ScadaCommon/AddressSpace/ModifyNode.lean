import ScadaCommon.AddressSpace.AttributeServiceImpl

/-!
# Modifying a node

`ModifyNode` changes the names, the value and the properties of a node. The ids of the
changed properties go into an array of 50, and a property is looked up with a check that
its declaration is there, and that it is there itself.

§1 reading without values · §2 the code · §3 what is asked for · §4 the properties · §5 the
whole call.
-/

namespace ScadaCommon.AddressSpace

open Foundation GenericNodeFactory

variable {V : Type}

/-! ## §1  Reading without values -/

/-- A node without its value. -/
def Node.shape (node : Node (NodeData V)) : Node (NodeData Unit) where
  id := node.id
  nodeClass := node.nodeClass
  attributes := {
    browseName := node.attributes.browseName
    displayName := node.attributes.displayName
    inverseName := node.attributes.inverseName
    dataType := node.attributes.dataType
    value := () }
  forwardReferences := node.forwardReferences
  inverseReferences := node.inverseReferences
  typeDefinition := node.typeDefinition
  supertype := node.supertype

def NodeHeap.shape (heap : NodeHeap (NodeData V)) : NodeHeap (NodeData Unit) where
  nodes ptr := (heap.nodes ptr).map Node.shape
  next := heap.next

section

variable (heap : NodeHeap (NodeData V)) (factory : GenericNodeFactory)

@[simp] theorem nodes_shape (ptr : NodePtr) :
    heap.shape.nodes ptr = (heap.nodes ptr).map Node.shape :=
  rfl

theorem isSubtypeOf_shape (ptr : NodePtr) (typeId : NodeId) :
    heap.shape.isSubtypeOf ptr typeId = heap.isSubtypeOf ptr typeId := by
  have hwalk : ∀ fuel ptr, heap.shape.isSubtypeOfWalk typeId fuel ptr =
      heap.isSubtypeOfWalk typeId fuel ptr := by
    intro fuel
    induction fuel with
    | zero => exact fun _ => rfl
    | succ fuel ih =>
        intro ptr
        cases hnode : heap.nodes ptr with
        | none => simp [NodeHeap.isSubtypeOfWalk, hnode]
        | some node =>
            cases hsupertype : node.supertype with
            | none =>
                simp [NodeHeap.isSubtypeOfWalk, hnode, Node.shape, hsupertype]
            | some supertype =>
                simp [NodeHeap.isSubtypeOfWalk, hnode, Node.shape, hsupertype, ih]
  exact hwalk _ ptr

theorem findChild_shape (name : String) (refs : List Reference) :
    factory.findChild heap.shape name refs = factory.findChild heap name refs := by
  induction refs with
  | nil => rfl
  | cons ref refs ih =>
      rw [findChild, findChild, isSubtypeOf_shape, ih]
      refine Option.bind_congr fun isChild _ => ?_
      cases isChild with
      | false => rfl
      | true =>
          rw [nodes_shape]
          cases heap.nodes ref.node <;> rfl

theorem getProperty_shape (ref : Reference) :
    getProperty heap.shape ref = (getProperty heap ref).map (Option.map Node.shape) := by
  rw [getProperty, getProperty, isSubtypeOf_shape]
  cases heap.isSubtypeOf ref.type StandardId.hasProperty with
  | none => rfl
  | some isProperty =>
      cases isProperty with
      | false => rfl
      | true =>
          cases hnode : heap.nodes ref.node with
          | none => simp [hnode]
          | some node =>
              by_cases hclass : node.nodeClass = .variable
              · simp [hnode, Node.shape, hclass]
              · simp [hnode, Node.shape, hclass]

theorem findProperty_shape (nodeId : NodeId) (refs : List Reference) :
    findProperty heap.shape nodeId refs =
      (findProperty heap nodeId refs).map (Option.map Node.shape) := by
  induction refs with
  | nil => rfl
  | cons ref refs ih =>
      rw [findProperty, findProperty, getProperty_shape]
      cases getProperty heap ref with
      | none => rfl
      | some property =>
          cases property with
          | none => simpa using ih
          | some node =>
              by_cases hid : node.id = nodeId
              · simp [Option.filter, Node.shape, hid]
              · simpa [Option.filter, Node.shape, hid] using ih

theorem getPropertyDeclaration_shape (nodeId : NodeId) (fuel : ℕ) (type : NodePtr) :
    getPropertyDeclaration heap.shape nodeId fuel type =
      (getPropertyDeclaration heap nodeId fuel type).map (Option.map Node.shape) := by
  induction fuel generalizing type with
  | zero => rfl
  | succ fuel ih =>
      rw [getPropertyDeclaration, getPropertyDeclaration]
      cases htype : heap.nodes type with
      | none => simp [htype]
      | some typeNode =>
          have hshape : heap.shape.nodes type = some typeNode.shape := by
            rw [nodes_shape, htype, Option.map_some]
          have hforward : typeNode.shape.forwardReferences = typeNode.forwardReferences := rfl
          rw [hshape]
          simp only [Option.bind_eq_bind, Option.bind_some, hforward, findProperty_shape]
          cases findProperty heap nodeId typeNode.forwardReferences with
          | none => rfl
          | some found =>
              cases found with
              | some property => rfl
              | none =>
                  cases hsupertype : typeNode.supertype with
                  | none => simp [Node.shape, hsupertype]
                  | some supertype => simp [Node.shape, hsupertype, ih]

end

/-! ## §2  The code -/

structure AttributeSet where
  browseName : Bool
  displayName : Bool
  value : Bool
deriving DecidableEq

def AttributeSet.empty : AttributeSet := ⟨false, false, false⟩

/-- What the listeners are told: the attributes and the ids of the properties. -/
abbrev Modification := AttributeSet × List NodeId

abbrev DataNode (V : Type) := Node (NodeData (DataValue V))

/-- A value without qualifier and times. -/
def plainValue (value : V) : DataValue V where
  value := value
  qualifier := 0
  sourceTimestamp := DateTime.null
  serverTimestamp := DateTime.null

def Node.withValue (node : DataNode V) (value : V) : DataNode V :=
  { node with attributes := { node.attributes with value := plainValue value } }

/-- `FindDeclaration`. -/
def findDeclaration (heap : NodeHeap (NodeData V)) (node : Node (NodeData V)) (nodeId : NodeId) :
    Option (Option (Node (NodeData V))) :=
  match node.typeDefinition with
  | none => some none
  | some type => getPropertyDeclaration heap nodeId (heap.next + 1) type

/-- `AsVariable`. -/
def asVariable (heap : NodeHeap (NodeData V)) : Option NodePtr → Option (Option NodePtr)
  | none => some none
  | some ptr => do
      let node ← heap.nodes ptr
      return if node.nodeClass = .variable then some ptr else none

namespace GenericNodeFactory

variable (factory : GenericNodeFactory)

/-- How `GetPropertyValue` and `SetPropertyValue` begin; nothing is returned when the
declaration is not there. -/
def findPropertyVariable (heap : NodeHeap (NodeData V)) (ptr : NodePtr) (nodeId : NodeId) :
    Option (Option NodePtr) := do
  let node ← heap.nodes ptr
  let declaration ← (← findDeclaration heap node nodeId)
  let browseName ← factory.getBrowseName declaration
  asVariable heap (← factory.findChild heap browseName.name node.forwardReferences)

def getPropertyValue [Inhabited V] (heap : NodeHeap (NodeData (DataValue V))) (ptr : NodePtr)
    (nodeId : NodeId) : Option V := do
  match ← factory.findPropertyVariable heap ptr nodeId with
  | none => return default
  | some property => return (← heap.nodes property).attributes.value.value

-- Whether `SetValue` of a variable stores a value in the place of another: a generic
-- variable does if `IsUpdate`.
variable (takes : NodePtr → DataValue V → DataValue V → Bool)

/-- `SetPropertyValue`; that the property is there is checked. -/
def storePropertyValue (heap : NodeHeap (NodeData (DataValue V))) (ptr : NodePtr)
    (nodeId : NodeId) (value : V) : Option (NodeHeap (NodeData (DataValue V))) := do
  let property ← (← factory.findPropertyVariable heap ptr nodeId)
  let node ← heap.nodes property
  return if takes property node.attributes.value (plainValue value) then
    heap.set property (some (node.withValue value))
  else heap

/-- The length of the array `pids`. -/
def kMaxPropertyIds : ℕ := 50

/-- The loop over the properties; nothing is returned when it writes past the end of the
array. -/
def modifyProperties [Inhabited V] [DecidableEq V] (ptr : NodePtr) :
    NodeHeap (NodeData (DataValue V)) → List NodeId → List (NodeId × V) →
      Option (List NodeId × NodeHeap (NodeData (DataValue V)))
  | heap, pids, [] => some (pids, heap)
  | heap, pids, (nodeId, value) :: properties => do
      let oldValue ← factory.getPropertyValue heap ptr nodeId
      if value = oldValue then modifyProperties ptr heap pids properties
      else
        check (pids.length < kMaxPropertyIds)
        let heap ← factory.storePropertyValue takes heap ptr nodeId value
        modifyProperties ptr heap (pids ++ [nodeId]) properties

def modifyBrowseName (node : DataNode V) (browseName : QualifiedName) :
    Option (Bool × DataNode V) := do
  if browseName.name = "" then return (false, node)
  if (← factory.getBrowseName node) = browseName then return (false, node)
  return (true, { node with attributes := { node.attributes with browseName } })

def modifyDisplayName (node : DataNode V) (displayName : String) :
    Option (Bool × DataNode V) := do
  if displayName = "" then return (false, node)
  if (← factory.getDisplayName node) = displayName then return (false, node)
  return (true, { node with attributes := { node.attributes with displayName } })

/-- A value for a node that is no variable is ignored. -/
def modifyValue [DecidableEq V] (ptr : NodePtr) (node : DataNode V) : Option V → Bool × DataNode V
  | none => (false, node)
  | some value =>
      if node.nodeClass = .variable ∧ node.attributes.value ≠ plainValue value then
        (true, if takes ptr node.attributes.value (plainValue value) then node.withValue value
          else node)
      else (false, node)

/-- There is something to tell. -/
def notification (attributes : AttributeSet) (pids : List NodeId) : Option Modification :=
  if attributes = .empty ∧ pids = [] then none else some (attributes, pids)

/-- `AddressSpaceImpl::ModifyNode`: what the listeners are told, if it returns `true`, and
the space after it. Nothing is returned when a check fails or memory is written that is not
of the array. -/
def modifyNode [Inhabited V] [DecidableEq V] (spaces : Spaces (DataValue V)) (nodeId : NodeId)
    (attributes : NodeAttributes V) (properties : List (NodeId × V)) :
    Option (Option Modification × Spaces (DataValue V)) := do
  let ptr ← factory.getNode spaces nodeId
  let node ← spaces.heap.nodes ptr
  let (browseName, node) ← factory.modifyBrowseName node attributes.browseName
  let (displayName, node) ← factory.modifyDisplayName node attributes.displayName
  let (value, node) := modifyValue takes ptr node attributes.value
  let (pids, heap) ← factory.modifyProperties takes ptr (spaces.heap.set ptr (some node)) []
    properties
  return (notification ⟨browseName, displayName, value⟩ pids, { spaces with heap })

/-! ## §3  What is asked for -/

def askedBrowseName (node : DataNode V) (browseName : QualifiedName) : Bool × DataNode V :=
  if browseName.name ≠ "" ∧ factory.shownBrowseName node ≠ browseName then
    (true, { node with attributes := { node.attributes with browseName } })
  else (false, node)

def askedDisplayName (node : DataNode V) (displayName : String) : Bool × DataNode V :=
  if displayName ≠ "" ∧ factory.shownDisplayName node ≠ displayName then
    (true, { node with attributes := { node.attributes with displayName } })
  else (false, node)

/-- Only a value that is taken changes something. -/
def askedValue [DecidableEq V] (ptr : NodePtr) (node : DataNode V) : Option V → Bool × DataNode V
  | none => (false, node)
  | some value =>
      if node.nodeClass = .variable ∧ node.attributes.value ≠ plainValue value ∧
          takes ptr node.attributes.value (plainValue value) = true then
        (true, node.withValue value)
      else (false, node)

/-- The ids of the properties that change, one after the other, and the space with their
new values; `find` gives the properties that the node has. -/
def askedProperties [DecidableEq V] (find : NodeId → Option NodePtr) :
    NodeHeap (NodeData (DataValue V)) → List (NodeId × V) →
      List NodeId × NodeHeap (NodeData (DataValue V))
  | heap, [] => ([], heap)
  | heap, (nodeId, value) :: properties =>
      match (find nodeId).bind fun property => (heap.nodes property).map (property, ·) with
      | none => askedProperties find heap properties
      | some (property, node) =>
          if node.attributes.value.value ≠ value ∧
              takes property node.attributes.value (plainValue value) = true then
            let (pids, heap) := askedProperties find
              (heap.set property (some (node.withValue value))) properties
            (nodeId :: pids, heap)
          else askedProperties find heap properties

/-- No new value of a property is refused. -/
def AllTaken [DecidableEq V] (find : NodeId → Option NodePtr) :
    NodeHeap (NodeData (DataValue V)) → List (NodeId × V) → Prop
  | _, [] => True
  | heap, (nodeId, value) :: properties =>
      match (find nodeId).bind fun property => (heap.nodes property).map (property, ·) with
      | none => AllTaken find heap properties
      | some (property, node) =>
          if node.attributes.value.value = value then AllTaken find heap properties
          else
            takes property node.attributes.value (plainValue value) = true ∧
              AllTaken find (heap.set property (some (node.withValue value))) properties

/-- The property of the node with the declaration, if it has one. -/
def propertyOf (heap : NodeHeap (NodeData V)) (ptr : NodePtr) (nodeId : NodeId) : Option NodePtr :=
  (factory.findPropertyVariable heap ptr nodeId).join

/-- The node with the new attributes, and which of them have changed. -/
def askedAttributes [DecidableEq V] (ptr : NodePtr) (node : DataNode V)
    (attributes : NodeAttributes V) : AttributeSet × DataNode V :=
  let (browseName, node) := factory.askedBrowseName node attributes.browseName
  let (displayName, node) := factory.askedDisplayName node attributes.displayName
  let (value, node) := askedValue takes ptr node attributes.value
  (⟨browseName, displayName, value⟩, node)

/-- The space in which the properties are looked up. -/
def renamed [DecidableEq V] (spaces : Spaces (DataValue V)) (ptr : NodePtr) (node : DataNode V)
    (attributes : NodeAttributes V) : Spaces (DataValue V) :=
  { spaces with
    heap := spaces.heap.set ptr (some (factory.askedAttributes takes ptr node attributes).2) }

/-- The changes of properties that are asked for. -/
def askedChanges [DecidableEq V] (spaces : Spaces (DataValue V)) (ptr : NodePtr)
    (properties : List (NodeId × V)) : List NodeId × NodeHeap (NodeData (DataValue V)) :=
  askedProperties takes (factory.propertyOf spaces.heap ptr) spaces.heap properties

/-- Each update that applies, and exactly the changes. -/
def modified [DecidableEq V] (spaces : Spaces (DataValue V)) (ptr : NodePtr) (node : DataNode V)
    (attributes : NodeAttributes V) (properties : List (NodeId × V)) :
    Option Modification × Spaces (DataValue V) :=
  let spaces₁ := factory.renamed takes spaces ptr node attributes
  let (pids, heap) := factory.askedChanges takes spaces₁ ptr properties
  (notification (factory.askedAttributes takes ptr node attributes).1 pids,
    { spaces with heap })

/-- The type of the node declares the property, and the search for it ends. -/
def HasDeclaration (spaces : Spaces (DataValue V)) (node : DataNode V) (nodeId : NodeId) : Prop :=
  ∃ declaration, findDeclaration spaces.heap node nodeId = some (some declaration) ∧
    factory.SearchEnds spaces (factory.shownBrowseName declaration).name node.forwardReferences

/-- The value of the node itself is not refused. -/
def ValueTaken (ptr : NodePtr) (node : DataNode V) (value : Option V) : Prop :=
  ∀ v, value = some v → node.nodeClass = .variable → node.attributes.value ≠ plainValue v →
    takes ptr node.attributes.value (plainValue v) = true

/-- Nothing stands in the way of the updates. -/
structure Acceptable [Inhabited V] [DecidableEq V] (spaces : Spaces (DataValue V)) (ptr : NodePtr)
    (node : DataNode V) (attributes : NodeAttributes V) (properties : List (NodeId × V)) :
    Prop where
  own : ValueTaken takes ptr node attributes.value
  declared : ∀ update ∈ properties,
    factory.HasDeclaration (factory.renamed takes spaces ptr node attributes)
      (factory.askedAttributes takes ptr node attributes).2 update.1
  present : ∀ update ∈ properties,
    factory.propertyOf (factory.renamed takes spaces ptr node attributes).heap ptr update.1 = none →
      update.2 = default
  taken : AllTaken takes
    (factory.propertyOf (factory.renamed takes spaces ptr node attributes).heap ptr)
    (factory.renamed takes spaces ptr node attributes).heap properties
  few : (factory.askedChanges takes (factory.renamed takes spaces ptr node attributes) ptr
    properties).1.length ≤ kMaxPropertyIds

/-! ## §4  The properties -/

section

variable {factory : GenericNodeFactory} {takes : NodePtr → DataValue V → DataValue V → Bool}
  {ptr property : NodePtr} {nodeId : NodeId} {value : V}

theorem asVariable_shape (heap : NodeHeap (NodeData V)) (child : Option NodePtr) :
    asVariable heap.shape child = asVariable heap child := by
  cases child with
  | none => rfl
  | some child =>
      rw [asVariable, asVariable, nodes_shape]
      cases heap.nodes child <;> rfl

/-- Properties are found without looking at values. -/
theorem findPropertyVariable_shape (heap : NodeHeap (NodeData V)) :
    factory.findPropertyVariable heap.shape ptr nodeId =
      factory.findPropertyVariable heap ptr nodeId := by
  rw [findPropertyVariable, findPropertyVariable, nodes_shape]
  cases heap.nodes ptr with
  | none => rfl
  | some node =>
      have hdeclaration : findDeclaration heap.shape node.shape nodeId =
          (findDeclaration heap node nodeId).map (Option.map Node.shape) := by
        rw [findDeclaration, findDeclaration]
        cases hdefinition : node.typeDefinition with
        | none => simp [Node.shape, hdefinition]
        | some type =>
            simp only [Node.shape, hdefinition]
            exact getPropertyDeclaration_shape heap nodeId _ type
      have hforward : node.shape.forwardReferences = node.forwardReferences := rfl
      simp only [Option.map_some, Option.bind_eq_bind, Option.bind_some, hdeclaration, hforward,
        findChild_shape]
      cases findDeclaration heap node nodeId with
      | none => rfl
      | some found =>
          cases found with
          | none => rfl
          | some declaration =>
              have hname : factory.getBrowseName declaration.shape =
                  factory.getBrowseName declaration := rfl
              simp only [Option.map_some, Option.bind_some, hname, asVariable_shape]

theorem shape_withValue {heap : NodeHeap (NodeData (DataValue V))} {node : DataNode V}
    (hnode : heap.nodes property = some node) (value : V) :
    (heap.set property (some (node.withValue value))).shape = heap.shape := by
  have hnodes : ∀ q, (heap.set property (some (node.withValue value))).shape.nodes q =
      heap.shape.nodes q := by
    intro q
    rw [nodes_shape, nodes_shape, NodeHeap.nodes_set]
    split
    · rename_i heq
      rw [heq, hnode]
      rfl
    · rfl
  have heq := funext hnodes
  unfold NodeHeap.shape at heq ⊢
  exact congrArg (NodeHeap.mk · heap.next) heq

/-- A new value changes no lookup. -/
theorem findPropertyVariable_withValue {heap : NodeHeap (NodeData (DataValue V))}
    {node : DataNode V} (hnode : heap.nodes property = some node) (value : V) :
    factory.findPropertyVariable (heap.set property (some (node.withValue value))) ptr nodeId =
      factory.findPropertyVariable heap ptr nodeId := by
  rw [← findPropertyVariable_shape, shape_withValue hnode, findPropertyVariable_shape]

theorem exists_node_of_findPropertyVariable {heap : NodeHeap (NodeData V)}
    (h : factory.findPropertyVariable heap ptr nodeId = some (some property)) :
    ∃ node, heap.nodes property = some node := by
  obtain ⟨owner, -, h⟩ := Option.bind_eq_some_iff.mp h
  obtain ⟨found, -, h⟩ := Option.bind_eq_some_iff.mp h
  obtain ⟨declaration, -, h⟩ := Option.bind_eq_some_iff.mp h
  obtain ⟨browseName, -, h⟩ := Option.bind_eq_some_iff.mp h
  obtain ⟨child, -, h⟩ := Option.bind_eq_some_iff.mp h
  cases child with
  | none => cases h
  | some child =>
      obtain ⟨node, hnode, h⟩ := Option.bind_eq_some_iff.mp h
      have hchild : child = property := by
        by_cases hclass : node.nodeClass = .variable
        · simpa [hclass] using h
        · simp [hclass] at h
      exact ⟨node, hchild ▸ hnode⟩

variable [Inhabited V] [DecidableEq V] {heap heap' : NodeHeap (NodeData (DataValue V))}
  {node : DataNode V} {properties : List (NodeId × V)} {pids pids' : List NodeId}

/-- An update of a declaration that is not found. -/
theorem modifyProperties_unknown (h : factory.findPropertyVariable heap ptr nodeId = none) :
    factory.modifyProperties takes ptr heap pids ((nodeId, value) :: properties) = none := by
  simp [modifyProperties, getPropertyValue, h]

/-- An update of a property that the node does not have. -/
theorem modifyProperties_missing (h : factory.findPropertyVariable heap ptr nodeId = some none) :
    factory.modifyProperties takes ptr heap pids ((nodeId, value) :: properties) =
      if value = default then factory.modifyProperties takes ptr heap pids properties
      else none := by
  by_cases hvalue : value = default
  · simp [modifyProperties, getPropertyValue, h, hvalue]
  · simp [modifyProperties, getPropertyValue, storePropertyValue, h, hvalue]

/-- An update of a property. -/
theorem modifyProperties_found
    (h : factory.findPropertyVariable heap ptr nodeId = some (some property))
    (hnode : heap.nodes property = some node) :
    factory.modifyProperties takes ptr heap pids ((nodeId, value) :: properties) =
      if value = node.attributes.value.value then
        factory.modifyProperties takes ptr heap pids properties
      else if pids.length < kMaxPropertyIds then
        factory.modifyProperties takes ptr
          (if takes property node.attributes.value (plainValue value) then
            heap.set property (some (node.withValue value)) else heap) (pids ++ [nodeId]) properties
      else none := by
  by_cases hvalue : value = node.attributes.value.value
  · simp [modifyProperties, getPropertyValue, h, hnode, hvalue]
  · by_cases hroom : pids.length < kMaxPropertyIds
    · simp [modifyProperties, getPropertyValue, storePropertyValue, h, hnode, hvalue, check, hroom]
    · simp [modifyProperties, getPropertyValue, h, hnode, hvalue, check, hroom]

/-- All changes that are asked for are reported, and perhaps others. -/
theorem modifyProperties_length {look : NodeId → Option (Option NodePtr)}
    (hlook : ∀ nodeId, factory.findPropertyVariable heap ptr nodeId = look nodeId)
    (h : factory.modifyProperties takes ptr heap pids properties = some (pids', heap')) :
    pids.length + (askedProperties takes (fun nodeId => (look nodeId).join) heap
      properties).1.length ≤ pids'.length := by
  induction properties generalizing heap pids with
  | nil =>
      cases h
      exact le_rfl
  | cons update properties ih =>
      obtain ⟨nodeId, value⟩ := update
      have hfound := hlook nodeId
      cases hcase : look nodeId with
      | none =>
          rw [hcase] at hfound
          rw [modifyProperties_unknown hfound] at h
          cases h
      | some found =>
          rw [hcase] at hfound
          cases found with
          | none =>
              rw [modifyProperties_missing hfound] at h
              obtain ⟨-, h⟩ := Option.ite_none_right_eq_some.mp h
              simpa [askedProperties, hcase] using ih hlook h
          | some property =>
              obtain ⟨node, hnode⟩ := exists_node_of_findPropertyVariable hfound
              have hlook' : ∀ nodeId, factory.findPropertyVariable
                  (heap.set property (some (node.withValue value))) ptr nodeId = look nodeId :=
                fun nodeId => (findPropertyVariable_withValue hnode value).trans (hlook nodeId)
              rw [modifyProperties_found hfound hnode] at h
              by_cases hvalue : value = node.attributes.value.value
              · rw [if_pos hvalue] at h
                simpa [askedProperties, hcase, hnode, hvalue] using ih hlook h
              · rw [if_neg hvalue] at h
                obtain ⟨-, h⟩ := Option.ite_none_right_eq_some.mp h
                by_cases htakes : takes property node.attributes.value (plainValue value) = true
                · rw [if_pos htakes] at h
                  have hrest := ih hlook' h
                  rw [List.length_append, List.length_singleton] at hrest
                  simp only [askedProperties, hcase, hnode, Option.join_some, Option.bind_some,
                    Option.map_some, ne_eq, Ne.symm hvalue, not_false_eq_true, htakes, and_self,
                    if_true, List.length_cons]
                  omega
                · rw [if_neg htakes] at h
                  have hrest := ih hlook h
                  rw [List.length_append, List.length_singleton] at hrest
                  simp only [askedProperties, hcase, hnode, Option.join_some, Option.bind_some,
                    Option.map_some, htakes, and_false, if_false, Bool.false_eq_true]
                  omega

/-- **The loop** makes and reports the changes that are asked for exactly if no lookup fails,
no value is refused and the array is long enough. -/
theorem modifyProperties_eq_iff {look : NodeId → Option (Option NodePtr)}
    (hlook : ∀ nodeId, factory.findPropertyVariable heap ptr nodeId = look nodeId)
    (hroom : pids.length ≤ kMaxPropertyIds) :
    factory.modifyProperties takes ptr heap pids properties =
        some (pids ++ (askedProperties takes (fun nodeId => (look nodeId).join) heap properties).1,
          (askedProperties takes (fun nodeId => (look nodeId).join) heap properties).2) ↔
      (∀ update ∈ properties, look update.1 ≠ none) ∧
      (∀ update ∈ properties, look update.1 = some none → update.2 = default) ∧
      AllTaken takes (fun nodeId => (look nodeId).join) heap properties ∧
      pids.length + (askedProperties takes (fun nodeId => (look nodeId).join) heap
        properties).1.length ≤ kMaxPropertyIds := by
  induction properties generalizing heap pids with
  | nil => simp [modifyProperties, askedProperties, AllTaken, hroom]
  | cons update properties ih =>
      obtain ⟨nodeId, value⟩ := update
      have hfound := hlook nodeId
      rw [List.forall_mem_cons, List.forall_mem_cons]
      cases hcase : look nodeId with
      | none =>
          rw [hcase] at hfound
          rw [modifyProperties_unknown hfound]
          exact iff_of_false nofun fun h => h.1.1 rfl
      | some found =>
          rw [hcase] at hfound
          cases found with
          | none =>
              rw [modifyProperties_missing hfound]
              by_cases hvalue : value = default
              · simpa [askedProperties, AllTaken, hcase, hvalue] using ih hlook hroom
              · simp [hvalue]
          | some property =>
              obtain ⟨node, hnode⟩ := exists_node_of_findPropertyVariable hfound
              have hlook' : ∀ nodeId, factory.findPropertyVariable
                  (heap.set property (some (node.withValue value))) ptr nodeId = look nodeId :=
                fun nodeId => (findPropertyVariable_withValue hnode value).trans (hlook nodeId)
              rw [modifyProperties_found hfound hnode]
              by_cases hvalue : value = node.attributes.value.value
              · simpa [askedProperties, AllTaken, hcase, hnode, hvalue] using ih hlook hroom
              · have hask : askedProperties takes (fun nodeId => (look nodeId).join) heap
                    ((nodeId, value) :: properties) =
                      if takes property node.attributes.value (plainValue value) = true then
                        (nodeId :: (askedProperties takes (fun nodeId => (look nodeId).join)
                            (heap.set property (some (node.withValue value))) properties).1,
                          (askedProperties takes (fun nodeId => (look nodeId).join)
                            (heap.set property (some (node.withValue value))) properties).2)
                      else askedProperties takes (fun nodeId => (look nodeId).join) heap
                        properties := by
                  simp [askedProperties, hcase, hnode, Ne.symm hvalue]
                have htaken : AllTaken takes (fun nodeId => (look nodeId).join) heap
                    ((nodeId, value) :: properties) ↔
                      takes property node.attributes.value (plainValue value) = true ∧
                        AllTaken takes (fun nodeId => (look nodeId).join)
                          (heap.set property (some (node.withValue value))) properties := by
                  simp [AllTaken, hcase, hnode, Ne.symm hvalue]
                rw [if_neg hvalue, hask, htaken]
                by_cases htakes : takes property node.attributes.value (plainValue value) = true
                · rw [if_pos htakes, if_pos htakes]
                  by_cases hlt : pids.length < kMaxPropertyIds
                  · rw [if_pos hlt]
                    have hlength : (pids ++ [nodeId]).length = pids.length + 1 := by simp
                    have hroom' : (pids ++ [nodeId]).length ≤ kMaxPropertyIds := by omega
                    have hrest := ih hlook' hroom'
                    rw [hlength, List.append_assoc, List.singleton_append] at hrest
                    rw [hrest, List.length_cons, and_iff_right htakes]
                    simp [Nat.add_assoc, Nat.add_comm 1]
                  · rw [if_neg hlt]
                    refine iff_of_false nofun fun h => hlt ?_
                    have hfew := h.2.2.2
                    rw [List.length_cons] at hfew
                    omega
                · refine iff_of_false (fun h => ?_) fun h => htakes h.2.2.1.1
                  rw [if_neg htakes, if_neg htakes] at h
                  obtain ⟨-, h⟩ := Option.ite_none_right_eq_some.mp h
                  have hlength := modifyProperties_length hlook h
                  rw [List.length_append, List.length_append, List.length_singleton] at hlength
                  omega

end

/-! ## §5  The whole call -/

section

variable {factory : GenericNodeFactory} {takes : NodePtr → DataValue V → DataValue V → Bool}
  {spaces : Spaces (DataValue V)} {ptr : NodePtr} {node : DataNode V}

/-- A declaration that was found is a node of the heap. -/
theorem exists_ptr_of_findProperty {heap : NodeHeap (NodeData V)} {nodeId : NodeId}
    {refs : List Reference} {property : Node (NodeData V)}
    (h : findProperty heap nodeId refs = some (some property)) :
    ∃ q, heap.nodes q = some property := by
  induction refs with
  | nil => cases h
  | cons ref refs ih =>
      obtain ⟨found, hfound, h⟩ := Option.bind_eq_some_iff.mp h
      cases hfilter : found.filter (·.id = nodeId) with
      | none =>
          rw [hfilter] at h
          exact ih h
      | some first =>
          rw [hfilter] at h
          cases h
          obtain ⟨rfl, -⟩ := Option.filter_eq_some_iff.mp hfilter
          obtain ⟨isProperty, -, hfound⟩ := Option.bind_eq_some_iff.mp hfound
          cases isProperty with
          | false => cases hfound
          | true =>
              obtain ⟨node, hnode, hfound⟩ := Option.bind_eq_some_iff.mp hfound
              by_cases hclass : node.nodeClass = .variable
              · rw [if_pos hclass] at hfound
                cases hfound
                exact ⟨ref.node, hnode⟩
              · rw [if_neg hclass] at hfound
                cases hfound

theorem exists_ptr_of_getPropertyDeclaration {heap : NodeHeap (NodeData V)} {nodeId : NodeId}
    {fuel : ℕ} {type : NodePtr} {declaration : Node (NodeData V)}
    (h : getPropertyDeclaration heap nodeId fuel type = some (some declaration)) :
    ∃ q, heap.nodes q = some declaration := by
  induction fuel generalizing type with
  | zero => cases h
  | succ fuel ih =>
      obtain ⟨typeNode, -, h⟩ := Option.bind_eq_some_iff.mp h
      obtain ⟨found, hfound, h⟩ := Option.bind_eq_some_iff.mp h
      cases found with
      | some property =>
          cases h
          exact exists_ptr_of_findProperty hfound
      | none =>
          cases hsupertype : typeNode.supertype with
          | none =>
              rw [hsupertype] at h
              cases h
          | some supertype =>
              rw [hsupertype] at h
              exact ih h

/-- The lookup goes well exactly if the declaration is found and the search ends. -/
theorem findPropertyVariable_ne_none (h : factory.Readable spaces)
    (hnode : spaces.heap.nodes ptr = some node) (nodeId : NodeId) :
    factory.findPropertyVariable spaces.heap ptr nodeId ≠ none ↔
      factory.HasDeclaration spaces node nodeId := by
  have hrefs := h.wellFormed.bounded.references ptr node hnode
  have hname : ∀ declaration, findDeclaration spaces.heap node nodeId = some (some declaration) →
      factory.getBrowseName declaration = some (factory.shownBrowseName declaration) := by
    intro declaration hdeclaration
    unfold findDeclaration at hdeclaration
    split at hdeclaration
    · cases hdeclaration
    · obtain ⟨q, hq⟩ := exists_ptr_of_getPropertyDeclaration hdeclaration
      exact h.getBrowseName hq
  rw [Option.ne_none_iff_exists']
  constructor
  · rintro ⟨found, hfound⟩
    obtain ⟨owner, howner, hfound⟩ := Option.bind_eq_some_iff.mp hfound
    obtain rfl := Option.some.inj (hnode.symm.trans howner)
    obtain ⟨declaration, hdeclaration, hfound⟩ := Option.bind_eq_some_iff.mp hfound
    obtain ⟨declaration, rfl, hsearch⟩ := Option.bind_eq_some_iff.mp hfound
    obtain ⟨browseName, hbrowseName, hsearch⟩ := Option.bind_eq_some_iff.mp hsearch
    obtain ⟨child, hchild, -⟩ := Option.bind_eq_some_iff.mp hsearch
    obtain rfl := Option.some.inj ((hname declaration hdeclaration).symm.trans hbrowseName)
    exact ⟨declaration, hdeclaration,
      (h.findChild_returns hrefs (h.references_lead hnode)).mp ⟨child, hchild⟩⟩
  · rintro ⟨declaration, hdeclaration, hends⟩
    obtain ⟨child, hchild⟩ := (h.findChild_returns hrefs (h.references_lead hnode)).mpr hends
    obtain ⟨found, hfound⟩ : ∃ found, asVariable spaces.heap child = some found := by
      cases child with
      | none => exact ⟨none, rfl⟩
      | some child =>
          obtain ⟨childNode, hchildNode⟩ := alive_of_findChild hchild
          exact ⟨_, by rw [asVariable, hchildNode]; rfl⟩
    exact ⟨found, by
      simp [findPropertyVariable, hnode, hdeclaration, hname declaration hdeclaration, hchild,
        hfound]⟩

theorem modifyBrowseName_eq (hid : node.id ≠ .null) (browseName : QualifiedName) :
    factory.modifyBrowseName node browseName =
      some (factory.askedBrowseName node browseName) := by
  by_cases hname : browseName.name = ""
  · simp [modifyBrowseName, askedBrowseName, hname]
  · by_cases hsame : factory.shownBrowseName node = browseName
    · simp [modifyBrowseName, askedBrowseName, hname, getBrowseName_eq hid, hsame]
    · simp [modifyBrowseName, askedBrowseName, hname, getBrowseName_eq hid, hsame]

theorem modifyDisplayName_eq (hid : node.id ≠ .null) (displayName : String) :
    factory.modifyDisplayName node displayName =
      some (factory.askedDisplayName node displayName) := by
  by_cases hname : displayName = ""
  · simp [modifyDisplayName, askedDisplayName, hname]
  · by_cases hsame : factory.shownDisplayName node = displayName
    · simp [modifyDisplayName, askedDisplayName, hname, getDisplayName_eq hid, hsame]
    · simp [modifyDisplayName, askedDisplayName, hname, getDisplayName_eq hid, hsame]

/-- The same object, perhaps with other names and another value. -/
def Retouched (node node' : DataNode V) : Prop :=
  ∃ data, node' = { node with attributes := data } ∧ data.dataType = node.attributes.dataType

theorem Retouched.refl (node : DataNode V) : Retouched node node :=
  ⟨node.attributes, rfl, rfl⟩

theorem Retouched.trans {node₁ node₂ node₃ : DataNode V} (h : Retouched node₁ node₂)
    (h' : Retouched node₂ node₃) : Retouched node₁ node₃ := by
  obtain ⟨data, rfl, hdata⟩ := h
  obtain ⟨data', rfl, hdata'⟩ := h'
  exact ⟨data', rfl, hdata'.trans hdata⟩

theorem retouched_askedBrowseName (browseName : QualifiedName) :
    Retouched node (factory.askedBrowseName node browseName).2 := by
  unfold askedBrowseName
  split
  · exact ⟨_, rfl, rfl⟩
  · exact Retouched.refl node

theorem retouched_askedDisplayName (displayName : String) :
    Retouched node (factory.askedDisplayName node displayName).2 := by
  unfold askedDisplayName
  split
  · exact ⟨_, rfl, rfl⟩
  · exact Retouched.refl node

/-- The names say nothing about the value. -/
theorem askedBrowseName_value (browseName : QualifiedName) :
    (factory.askedBrowseName node browseName).2.attributes.value = node.attributes.value := by
  unfold askedBrowseName
  split <;> rfl

theorem askedDisplayName_value (displayName : String) :
    (factory.askedDisplayName node displayName).2.attributes.value = node.attributes.value := by
  unfold askedDisplayName
  split <;> rfl

/-- The node with its new names. -/
def withNames (factory : GenericNodeFactory) (node : DataNode V) (attributes : NodeAttributes V) :
    DataNode V :=
  (factory.askedDisplayName (factory.askedBrowseName node attributes.browseName).2
    attributes.displayName).2

/-- Which attributes have changed, of which the value is decided elsewhere. -/
def changedAttributes (factory : GenericNodeFactory) (node : DataNode V)
    (attributes : NodeAttributes V) (value : Bool) : AttributeSet where
  browseName := (factory.askedBrowseName node attributes.browseName).1
  displayName := (factory.askedDisplayName
    (factory.askedBrowseName node attributes.browseName).2 attributes.displayName).1
  value := value

theorem valueTaken_withNames (attributes : NodeAttributes V) :
    ValueTaken takes ptr (factory.withNames node attributes) attributes.value ↔
      ValueTaken takes ptr node attributes.value := by
  have hvalue : (factory.withNames node attributes).attributes.value = node.attributes.value :=
    (askedDisplayName_value _).trans (askedBrowseName_value _)
  obtain ⟨data, hdata, -⟩ : Retouched node (factory.withNames node attributes) :=
    (retouched_askedBrowseName _).trans (retouched_askedDisplayName _)
  have hclass : (factory.withNames node attributes).nodeClass = node.nodeClass := by rw [hdata]
  rw [ValueTaken, ValueTaken, hclass, hvalue]

variable [DecidableEq V]

theorem retouched_askedValue (value : Option V) :
    Retouched node (askedValue takes ptr node value).2 := by
  cases value with
  | none => exact Retouched.refl node
  | some value =>
      rw [askedValue]
      split
      · exact ⟨_, rfl, rfl⟩
      · exact Retouched.refl node

theorem retouched_askedAttributes (attributes : NodeAttributes V) :
    Retouched node (factory.askedAttributes takes ptr node attributes).2 :=
  ((retouched_askedBrowseName _).trans (retouched_askedDisplayName _)).trans
    (retouched_askedValue _)

theorem modifyValue_of_taken {value : Option V} (h : ValueTaken takes ptr node value) :
    modifyValue takes ptr node value = askedValue takes ptr node value := by
  cases value with
  | none => rfl
  | some value =>
      by_cases hchange : node.nodeClass = .variable ∧ node.attributes.value ≠ plainValue value
      · have htakes := h value rfl hchange.1 hchange.2
        simp [modifyValue, askedValue, hchange, htakes]
      · rw [modifyValue, askedValue, if_neg hchange, if_neg fun hall => hchange ⟨hall.1, hall.2.1⟩]

/-- A refused value is reported. -/
theorem modifyValue_of_refused {value : Option V} (h : ¬ ValueTaken takes ptr node value) :
    (modifyValue takes ptr node value).1 ≠ (askedValue takes ptr node value).1 := by
  unfold ValueTaken at h
  push Not at h
  obtain ⟨v, rfl, hclass, hvalue, htakes⟩ := h
  simp [modifyValue, askedValue, hclass, hvalue, htakes]

/-- The notification tells everything. -/
theorem notification_eq_iff {attributes attributes' : AttributeSet} {pids pids' : List NodeId} :
    notification attributes pids = notification attributes' pids' ↔
      attributes = attributes' ∧ pids = pids' := by
  unfold notification
  split <;> split <;> simp_all

theorem renamed_readable (h : factory.Readable spaces) (hnode : spaces.heap.nodes ptr = some node)
    (attributes : NodeAttributes V) :
    factory.Readable (factory.renamed takes spaces ptr node attributes) := by
  obtain ⟨data, hdata, hdataType⟩ :
      Retouched node (factory.askedAttributes takes ptr node attributes).2 :=
    retouched_askedAttributes attributes
  rw [renamed, hdata]
  exact readable_setAttributes h hnode hdataType

theorem modifyNode_eq [Inhabited V] {nodeId : NodeId} {attributes : NodeAttributes V}
    {properties : List (NodeId × V)} (hid : node.id ≠ .null)
    (hptr : factory.getNode spaces nodeId = some ptr) (hnode : spaces.heap.nodes ptr = some node) :
    factory.modifyNode takes spaces nodeId attributes properties =
      (factory.modifyProperties takes ptr (spaces.heap.set ptr (some
          (modifyValue takes ptr (factory.withNames node attributes) attributes.value).2)) []
            properties).map fun changes =>
        (notification (factory.changedAttributes node attributes
            (modifyValue takes ptr (factory.withNames node attributes) attributes.value).1)
              changes.1,
          { spaces with heap := changes.2 }) := by
  have hnamed : (factory.askedBrowseName node attributes.browseName).2.id ≠ .null := by
    obtain ⟨data, hdata, -⟩ :
        Retouched node (factory.askedBrowseName node attributes.browseName).2 :=
      retouched_askedBrowseName _
    rw [hdata]
    exact hid
  rw [modifyNode]
  simp only [hptr, hnode, modifyBrowseName_eq hid, modifyDisplayName_eq hnamed, Option.bind_eq_bind,
    Option.bind_some]
  exact Option.map_eq_bind.symm

/-- The loop, in a space that can be read. -/
theorem modifyProperties_eq_askedChanges_iff [Inhabited V] {properties : List (NodeId × V)}
    (h : factory.Readable spaces) (hnode : spaces.heap.nodes ptr = some node) :
    factory.modifyProperties takes ptr spaces.heap [] properties =
        some (factory.askedChanges takes spaces ptr properties) ↔
      (∀ update ∈ properties, factory.HasDeclaration spaces node update.1) ∧
      (∀ update ∈ properties, factory.propertyOf spaces.heap ptr update.1 = none →
        update.2 = default) ∧
      AllTaken takes (factory.propertyOf spaces.heap ptr) spaces.heap properties ∧
      (factory.askedChanges takes spaces ptr properties).1.length ≤ kMaxPropertyIds := by
  have hloop : factory.modifyProperties takes ptr spaces.heap [] properties =
      some (factory.askedChanges takes spaces ptr properties) ↔ _ :=
    modifyProperties_eq_iff (fun nodeId => rfl) (Nat.zero_le _)
  rw [hloop, List.length_nil, Nat.zero_add]
  have hfound : ∀ update : NodeId × V,
      factory.findPropertyVariable spaces.heap ptr update.1 ≠ none ↔
        factory.HasDeclaration spaces node update.1 :=
    fun update => findPropertyVariable_ne_none h hnode update.1
  constructor
  · rintro ⟨hlook, hpresent, hrest⟩
    refine ⟨fun update hmem => (hfound update).mp (hlook update hmem), fun update hmem hnone => ?_,
      hrest⟩
    obtain ⟨found, hfound⟩ := Option.ne_none_iff_exists'.mp (hlook update hmem)
    rw [propertyOf, hfound, Option.join_some] at hnone
    exact hpresent update hmem (hfound.trans (congrArg some hnone))
  · rintro ⟨hdeclared, hpresent, hrest⟩
    refine ⟨fun update hmem => (hfound update).mpr (hdeclared update hmem),
      fun update hmem hnone => hpresent update hmem ?_, hrest⟩
    rw [propertyOf, hnone, Option.join_some]

/-- **Updates are made and reported** exactly if nothing stands in their way. -/
theorem modifyNode_eq_modified_iff [Inhabited V] {nodeId : NodeId} {attributes : NodeAttributes V}
    {properties : List (NodeId × V)} (h : factory.Readable spaces)
    (hptr : factory.getNode spaces nodeId = some ptr) (hnode : spaces.heap.nodes ptr = some node) :
    factory.modifyNode takes spaces nodeId attributes properties =
        some (factory.modified takes spaces ptr node attributes properties) ↔
      factory.Acceptable takes spaces ptr node attributes properties := by
  rw [modifyNode_eq (h.named ptr node hnode) hptr hnode]
  by_cases hown : ValueTaken takes ptr node attributes.value
  · have hreadable : factory.Readable (factory.renamed takes spaces ptr node attributes) :=
      renamed_readable h hnode attributes
    have hself : (factory.renamed takes spaces ptr node attributes).heap.nodes ptr =
        some (factory.askedAttributes takes ptr node attributes).2 := by
      rw [renamed, NodeHeap.nodes_set, if_pos rfl]
    have hloop : factory.modifyProperties takes ptr
        (factory.renamed takes spaces ptr node attributes).heap [] properties =
          some (factory.askedChanges takes (factory.renamed takes spaces ptr node attributes) ptr
            properties) ↔ _ :=
      modifyProperties_eq_askedChanges_iff hreadable hself
    have hinjective : Function.Injective
        fun changes : List NodeId × NodeHeap (NodeData (DataValue V)) =>
          (notification (factory.askedAttributes takes ptr node attributes).1 changes.1,
            { spaces with heap := changes.2 }) := by
      intro changes changes' heq
      obtain ⟨hnotification, hspaces⟩ := Prod.ext_iff.mp heq
      exact Prod.ext (notification_eq_iff.mp hnotification).2 (congrArg AddressSpaces.heap hspaces)
    rw [modifyValue_of_taken ((valueTaken_withNames attributes).mpr hown)]
    refine ((Option.map_injective hinjective).eq_iff (b := some (factory.askedChanges takes
      (factory.renamed takes spaces ptr node attributes) ptr properties))).trans (hloop.trans ?_)
    exact ⟨fun ⟨hdeclared, hpresent, htaken, hfew⟩ => ⟨hown, hdeclared, hpresent, htaken, hfew⟩,
      fun h => ⟨h.declared, h.present, h.taken, h.few⟩⟩
  · refine iff_of_false (fun heq => ?_) fun hacceptable => hown hacceptable.own
    obtain ⟨changes, -, heq⟩ := Option.map_eq_some_iff.mp heq
    have hnotification := (Prod.ext_iff.mp heq).1
    have hattributes := (notification_eq_iff.mp hnotification).1
    exact modifyValue_of_refused (mt (valueTaken_withNames attributes).mp hown)
      (congrArg AttributeSet.value hattributes)

end

/-- A meter with an address and without a unit, though its type declares both. -/
def meterNodes : List (DataNode (Option ℕ)) := [
  { id := StandardId.hasTypeDefinition, nodeClass := .referenceType,
    attributes := { value := plainValue none } },
  { id := StandardId.hasSubtype, nodeClass := .referenceType,
    attributes := { value := plainValue none } },
  { id := StandardId.hierarchicalReferences, nodeClass := .referenceType,
    attributes := { value := plainValue none }, forwardReferences := [⟨1, 3⟩] },
  { id := StandardId.hasProperty, nodeClass := .referenceType,
    attributes := { value := plainValue none }, inverseReferences := [⟨1, 2⟩],
    supertype := some 2 },
  { id := .numeric 24 0, nodeClass := .dataType, attributes := { value := plainValue none } },
  { id := .numeric 1 7, nodeClass := .objectType, attributes := { value := plainValue none },
    forwardReferences := [⟨3, 6⟩, ⟨3, 7⟩], inverseReferences := [⟨0, 8⟩] },
  { id := .numeric 2 7, nodeClass := .variable,
    attributes := {
      browseName := ⟨"Address", 7⟩, dataType := some 4, value := plainValue (some 0) },
    inverseReferences := [⟨3, 5⟩] },
  { id := .numeric 3 7, nodeClass := .variable,
    attributes := {
      browseName := ⟨"Unit", 7⟩, dataType := some 4, value := plainValue (some 0) },
    inverseReferences := [⟨3, 5⟩] },
  { id := .numeric 4 7, nodeClass := .object,
    attributes := { browseName := ⟨"Meter", 7⟩, value := plainValue none },
    forwardReferences := [⟨0, 5⟩, ⟨3, 9⟩], typeDefinition := some 5 },
  { id := .numeric 5 7, nodeClass := .variable,
    attributes := {
      browseName := ⟨"Address", 7⟩, dataType := some 4, value := plainValue (some 0) },
    inverseReferences := [⟨3, 8⟩] }]

def meterSpaces : Spaces (DataValue (Option ℕ)) :=
  spacesOf meterNodes

theorem readable_meterSpaces : pumpFactory.Readable meterSpaces :=
  readable_spacesOf rfl (wellFormed_spacesOf (by decide)) (by decide) (by decide) (by decide)

/-- A new name and a new address. -/
theorem modifyNode_eq_modified_iff_meter :
    ∃ node, meterSpaces.heap.nodes 8 = some node ∧
      pumpFactory.Acceptable (fun _ _ _ => true) meterSpaces 8 node
        { browseName := ⟨"Pump", 7⟩ } [(.numeric 2 7, some 5)] := by
  have hptr : pumpFactory.getNode meterSpaces (.numeric 4 7) = some 8 := by decide
  exact ⟨_, rfl, (modifyNode_eq_modified_iff readable_meterSpaces hptr rfl).mp rfl⟩

/-- An update that no type declares, one of a property that is not there, and one change more
than there is room for. -/
theorem updates_that_are_not_accepted :
    pumpFactory.getNode meterSpaces (.numeric 4 7) = some 8 ∧
    pumpFactory.modifyNode (fun _ _ _ => true) meterSpaces (.numeric 4 7) {}
      [(.numeric 9 7, some 5)] = none ∧
    pumpFactory.modifyNode (fun _ _ _ => true) meterSpaces (.numeric 4 7) {}
      [(.numeric 3 7, some 5)] = none ∧
    pumpFactory.modifyNode (fun _ _ _ => true) meterSpaces (.numeric 4 7) {}
      ((List.range 51).map fun i => (.numeric 2 7, some (i + 1))) = none := by
  refine ⟨by decide, rfl, rfl, rfl⟩

end GenericNodeFactory

end ScadaCommon.AddressSpace
