import ScadaCommon.AddressSpace.AddressSpaceImpl

/-!
# The generic node factory

`CreateNode` checks a node state, adds a node, and then attaches it: to its type,
with the properties that the type declares, and to its parent. An error after
the node was added leaves it there.

§1 nodes · §2 states · §3 checks · §4 declarations · §5 creating.
-/

namespace ScadaCommon.AddressSpace

/-! ## §1  Nodes -/

inductive StatusCode where
  | good
  | badWrongNodeId
  | badWrongParentId
  | badWrongReferenceId
  | badDuplicateNodeId
  | badWrongTypeId
  | badWrongNodeClass
  | badWrongAttributeId
deriving DecidableEq

structure QualifiedName where
  name : String := ""
  namespaceIndex : ℕ := 0
deriving DecidableEq

/-- What a node holds beside its id, its class and its references; `V` stands
for variants. -/
structure NodeData (V : Type) where
  browseName : QualifiedName := {}
  displayName : String := ""
  inverseName : String := ""
  /-- Of a variable or a variable type. -/
  dataType : Option NodePtr := none
  value : V
deriving DecidableEq

abbrev Spaces (V : Type) := AddressSpaces (NodeData V)

/-! ## §2  States -/

structure NodeAttributes (V : Type) where
  browseName : QualifiedName := {}
  displayName : String := ""
  inverseName : String := ""
  dataType : NodeId := .null
  value : Option V := none

structure ReferenceDescription where
  referenceTypeId : NodeId
  forward : Bool
  nodeId : NodeId
deriving DecidableEq

structure NodeState (V : Type) where
  nodeId : NodeId
  nodeClass : NodeClass := .object
  typeDefinitionId : NodeId := .null
  parentId : NodeId := .null
  referenceTypeId : NodeId := .null
  attributes : NodeAttributes V := {}
  properties : List (NodeId × V) := []
  references : List ReferenceDescription := []
  children : List (NodeState V) := []
  supertypeId : NodeId := .null

/-- All but the root and types. -/
def NodeState.NeedsParent {V : Type} (state : NodeState V) : Prop :=
  state.nodeId ≠ StandardId.rootFolder ∧ state.nodeClass.isTypeDefinition = false

instance {V : Type} (state : NodeState V) : Decidable state.NeedsParent :=
  inferInstanceAs (Decidable (_ ∧ _))

/-- `AsObjectType` and the like. -/
def asClass {V : Type} (spaces : Spaces V) (nodeClass : NodeClass) (node : Option NodePtr) :
    Option NodePtr :=
  node.filter fun ptr => spaces.heap.classOf ptr = some nodeClass

def asTypeDefinition {V : Type} (spaces : Spaces V) (node : Option NodePtr) : Option NodePtr :=
  node.filter fun ptr => (spaces.heap.classOf ptr).any NodeClass.isTypeDefinition

/-- `AddressSpaceImpl::AddReference`, and the walk of its notification. -/
def AddressSpaces.addReference {A : Type} (spaces : AddressSpaces A)
    (type source target : NodePtr) : Option (AddressSpaces A) := do
  let heap ← spaces.heap.addReference type source target
  let _ ← heap.isSubtypeOf type StandardId.hierarchicalReferences
  return { spaces with heap }

/-- An id of bytes has no text that a name could be appended to. -/
def makeNestedNodeId (parentId : NodeId) (nestedName : String) : Option NodeId :=
  if nestedName = "" then none
  else
    match parentId with
    | .null => none
    | .numeric id namespaceIndex =>
        some (.string (toString id ++ "!" ++ nestedName) namespaceIndex)
    | .string id namespaceIndex => some (.string (id ++ "!" ++ nestedName) namespaceIndex)
    | .opaqueId _ _ => none

/-- `GenericNodeFactory`, with the space that it adds to and the parents of that. -/
structure GenericNodeFactory where
  space : SpaceId
  parents : List SpaceId
  createProperties : Bool
  nodeIdToScadaString : NodeId → String

/-- Goes on unless there is an error. Nothing is returned when the process stops
or runs for ever. -/
def andThen {V : Type} (outcome : Option (StatusCode × Spaces V))
    (next : Spaces V → Option (StatusCode × Spaces V)) : Option (StatusCode × Spaces V) :=
  outcome.bind fun (status, spaces) =>
    if status = .good then next spaces else some (status, spaces)

variable {V : Type}

namespace GenericNodeFactory

variable (factory : GenericNodeFactory)

/-! ## §3  Checks -/

def getNode (spaces : Spaces V) (nodeId : NodeId) : Option NodePtr :=
  spaces.getNode (factory.space :: factory.parents) nodeId

/-- The type definition of a state, if there is one. -/
def typeDefinition (spaces : Spaces V) (state : NodeState V) : Option NodePtr :=
  asTypeDefinition spaces (factory.getNode spaces state.typeDefinitionId)

/-- The data type that a state names. -/
def dataType (spaces : Spaces V) (state : NodeState V) : Except StatusCode (Option NodePtr) :=
  match asClass spaces .dataType (factory.getNode spaces state.attributes.dataType) with
  | some dataType => .ok (some dataType)
  | none => .error .badWrongTypeId

/-- The check that depends on the class, and the data type of the new node. -/
def dataTypeOf (spaces : Spaces V) (state : NodeState V) : Except StatusCode (Option NodePtr) :=
  match state.nodeClass with
  | .object =>
      match asClass spaces .objectType (factory.typeDefinition spaces state) with
      | some _ => .ok none
      | none => .error .badWrongTypeId
  | .variable =>
      match asClass spaces .variableType (factory.typeDefinition spaces state) with
      | some variableType =>
          if state.attributes.dataType = .null then
            .ok ((spaces.heap.attributesOf variableType).bind NodeData.dataType)
          else factory.dataType spaces state
      | none => .error .badWrongTypeId
  | .variableType => factory.dataType spaces state
  | .objectType | .referenceType | .dataType | .method => .ok none
  | .view => .error .badWrongNodeClass

/-- A value is for variables and variable types. -/
def valueOf [Inhabited V] (state : NodeState V) : Except StatusCode V :=
  match state.attributes.value with
  | none => .ok default
  | some value =>
      if state.nodeClass = .variable ∨ state.nodeClass = .variableType then .ok value
      else .error .badWrongAttributeId

/-- `CreateNodeHelper` up to `AddNode`. -/
def validate [Inhabited V] (spaces : Spaces V) (state : NodeState V) (parentId : NodeId) :
    Except StatusCode (NodeData V) :=
  if state.nodeId = .null then .error .badWrongNodeId
  else if state.NeedsParent ∧ parentId = .null then .error .badWrongParentId
  else if state.NeedsParent ∧ state.referenceTypeId = .null then .error .badWrongReferenceId
  else if (factory.getNode spaces state.nodeId).isSome then .error .badDuplicateNodeId
  else do
    let dataType ← factory.dataTypeOf spaces state
    let value ← valueOf state
    return {
      browseName := state.attributes.browseName
      displayName := state.attributes.displayName
      inverseName := if state.nodeClass = .referenceType then state.attributes.inverseName else ""
      dataType
      value }

/-! ## §4  Declarations -/

/-- `Node::GetBrowseName`. -/
def getBrowseName (node : Node (NodeData V)) : Option QualifiedName := do
  if node.attributes.browseName.name ≠ "" then return node.attributes.browseName
  check (node.id ≠ .null)
  return { name := factory.nodeIdToScadaString node.id }

def getDisplayName (node : Node (NodeData V)) : Option String := do
  if node.attributes.displayName ≠ "" then return node.attributes.displayName
  return (← factory.getBrowseName node).name

/-- `FindChild`, over the forward references of the parent. -/
def findChild (heap : NodeHeap (NodeData V)) (name : String) :
    List Reference → Option (Option NodePtr)
  | [] => some none
  | ref :: refs => do
      match ← heap.isSubtypeOf ref.type StandardId.hierarchicalReferences with
      | false => findChild heap name refs
      | true =>
          let child ← heap.nodes ref.node
          let browseName ← factory.getBrowseName child
          if browseName.name = name then return some ref.node
          findChild heap name refs

end GenericNodeFactory

def isPlaceholderDeclaration (heap : NodeHeap (NodeData V)) (node : Node (NodeData V)) :
    Option Bool := do
  check (node.nodeClass.isTypeDefinition = false)
  match ← heap.findFirst StandardId.hasModellingRule node.forwardReferences with
  | none => return false
  | some ref =>
      let rule ← heap.nodes ref.node
      return rule.id = StandardId.modellingRuleOptionalPlaceholder ∨
        rule.id = StandardId.modellingRuleMandatoryPlaceholder

/-- The variable of a reference, if it is one that `GetProperties` gives. -/
def getProperty (heap : NodeHeap (NodeData V)) (ref : Reference) :
    Option (Option (Node (NodeData V))) := do
  match ← heap.isSubtypeOf ref.type StandardId.hasProperty with
  | false => return none
  | true =>
      let node ← heap.nodes ref.node
      return if node.nodeClass = .variable then some node else none

/-- The first of the properties with the id. -/
def findProperty (heap : NodeHeap (NodeData V)) (nodeId : NodeId) :
    List Reference → Option (Option (Node (NodeData V)))
  | [] => some none
  | ref :: refs => do
      match (← getProperty heap ref).filter (·.id = nodeId) with
      | some property => return some property
      | none => findProperty heap nodeId refs

/-- Along the supertypes, at most `fuel` of them. -/
def getPropertyDeclaration (heap : NodeHeap (NodeData V)) (nodeId : NodeId) :
    ℕ → NodePtr → Option (Option (Node (NodeData V)))
  | 0, _ => none
  | fuel + 1, type => do
      let typeNode ← heap.nodes type
      match ← findProperty heap nodeId typeNode.forwardReferences with
      | some property => return some property
      | none =>
          match typeNode.supertype with
          | none => return none
          | some supertype => getPropertyDeclaration heap nodeId fuel supertype

/-- What a property that is created takes from its declaration. -/
structure PropertyDeclaration (V : Type) where
  browseName : QualifiedName
  displayName : String
  dataTypeId : NodeId
  value : V

namespace GenericNodeFactory

variable (factory : GenericNodeFactory)

/-- What is created for a property that a type has, if anything is. -/
def declarationOf (heap : NodeHeap (NodeData V)) (node : Node (NodeData V)) :
    Option (Option (PropertyDeclaration V)) := do
  if ← isPlaceholderDeclaration heap node then return none
  let browseName ← factory.getBrowseName node
  match ← factory.findChild heap browseName.name node.forwardReferences with
  | some _ => return none
  | none =>
      let displayName ← factory.getDisplayName node
      let dataType ← node.attributes.dataType
      let dataTypeNode ← heap.nodes dataType
      return some {
        browseName, displayName, dataTypeId := dataTypeNode.id, value := node.attributes.value }

/-- What is created for a reference of a type. -/
def declaredProperty (heap : NodeHeap (NodeData V)) (ref : Reference) :
    Option (Option (PropertyDeclaration V)) := do
  match ← getProperty heap ref with
  | none => return none
  | some node => factory.declarationOf heap node

/-! ## §5  Creating -/

def propertyState (nodeId propertyId : NodeId) (declaration : PropertyDeclaration V) :
    NodeState V where
  nodeId := propertyId
  nodeClass := .variable
  typeDefinitionId := StandardId.propertyType
  parentId := nodeId
  referenceTypeId := StandardId.hasProperty
  attributes := {
    browseName := declaration.browseName
    displayName := declaration.displayName
    dataType := declaration.dataTypeId
    value := some declaration.value }

/-- `SetPropertyValue`; it returns no error that it does not check. -/
def setPropertyValue (node : NodePtr) (spaces : Spaces V) (property : NodeId × V) :
    Option (Spaces V) := do
  let owner ← spaces.heap.nodes node
  let type ← owner.typeDefinition
  let declaration ←
    (← getPropertyDeclaration spaces.heap property.1 (spaces.heap.next + 1) type)
  let browseName ← factory.getBrowseName declaration
  let child ← (← factory.findChild spaces.heap browseName.name owner.forwardReferences)
  let childNode ← spaces.heap.nodes child
  check (childNode.nodeClass = .variable)
  let childNode :=
    { childNode with attributes := { childNode.attributes with value := property.2 } }
  return { spaces with heap := spaces.heap.set child (some childNode) }

section

-- `CreateNodeHelper` for the nodes that a node comes with.
variable (create : Spaces V → NodeState V → NodeId → Option (StatusCode × Spaces V))

/-- The properties that one type declares. -/
def createDeclaredProperties (nodeId : NodeId) :
    List Reference → Spaces V → Option (StatusCode × Spaces V)
  | [], spaces => some (.good, spaces)
  | ref :: refs, spaces => do
      match ← factory.declaredProperty spaces.heap ref with
      | none => createDeclaredProperties nodeId refs spaces
      | some declaration =>
          let propertyId ← makeNestedNodeId nodeId declaration.browseName.name
          andThen (create spaces (propertyState nodeId propertyId declaration) nodeId)
            (createDeclaredProperties nodeId refs)

/-- Along the supertypes, at most `fuel` of them. -/
def createMissingProperties (nodeId : NodeId) :
    ℕ → NodePtr → Spaces V → Option (StatusCode × Spaces V)
  | 0, _, _ => none
  | fuel + 1, type, spaces => do
      let typeNode ← spaces.heap.nodes type
      andThen (factory.createDeclaredProperties create nodeId typeNode.forwardReferences spaces)
        fun spaces => do
          let typeNode ← spaces.heap.nodes type
          match typeNode.supertype with
          | none => some (.good, spaces)
          | some supertype => createMissingProperties nodeId fuel supertype spaces

/-- Steps enough to come twice by every type there is. -/
def typeFuel (heap : NodeHeap (NodeData V)) : ℕ := 2 * (heap.next + 1)

def attachType (state : NodeState V) (node : NodePtr) (type : Option NodePtr)
    (spaces : Spaces V) : Option (StatusCode × Spaces V) :=
  match type with
  | none => some (.good, spaces)
  | some type => do
      let hasTypeDefinition ← asClass spaces .referenceType
        (factory.getNode spaces StandardId.hasTypeDefinition)
      let spaces ← spaces.addReference hasTypeDefinition node type
      if factory.createProperties then
        factory.createMissingProperties create state.nodeId (typeFuel spaces.heap) type spaces
      else some (.good, spaces)

def attachParent (state : NodeState V) (parentId : NodeId) (node : NodePtr) (spaces : Spaces V) :
    Option (StatusCode × Spaces V) :=
  if parentId = .null then some (.good, spaces)
  else
    match factory.getNode spaces parentId with
    | none => some (.badWrongParentId, spaces)
    | some parent =>
        match asClass spaces .referenceType (factory.getNode spaces state.referenceTypeId) with
        | none => some (.badWrongReferenceId, spaces)
        | some type => (spaces.addReference type parent node).map (.good, ·)

/-- What becomes of a child is not looked at. -/
def createChildren (state : NodeState V) (spaces : Spaces V) : Option (Spaces V) :=
  state.children.foldlM
    (fun spaces child => (create spaces child state.nodeId).map Prod.snd) spaces

/-- The end of `CreateNodeHelper`: the children and the values of properties. -/
def complete (state : NodeState V) (node : NodePtr) (spaces : Spaces V) :
    Option (StatusCode × Spaces V) := do
  let spaces ← createChildren create state spaces
  let spaces ← state.properties.foldlM (factory.setPropertyValue node) spaces
  return (.good, spaces)

end

/-- `CreateNodeHelper`, with calls of it inside of calls at most `fuel` deep. -/
def createNodeHelper [Inhabited V] :
    ℕ → Spaces V → NodeState V → NodeId → Option (StatusCode × Spaces V)
  | 0, _, _, _ => none
  | fuel + 1, spaces, state, parentId =>
      match factory.validate spaces state parentId with
      | .error status => some (status, spaces)
      | .ok data => do
          let node := spaces.heap.next
          let type := factory.typeDefinition spaces state
          let spaces ← spaces.addNode (factory.space :: factory.parents) factory.space
            state.nodeId state.nodeClass data true
          andThen (factory.attachType (createNodeHelper fuel) state node type spaces)
            fun spaces => andThen (factory.attachParent state parentId node spaces)
              (factory.complete (createNodeHelper fuel) state node)

def createNode [Inhabited V] (fuel : ℕ) (spaces : Spaces V) (state : NodeState V) :
    Option (StatusCode × Spaces V) :=
  factory.createNodeHelper fuel spaces state state.parentId

end GenericNodeFactory

end ScadaCommon.AddressSpace
