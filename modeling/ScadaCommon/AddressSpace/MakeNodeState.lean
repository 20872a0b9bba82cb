import ScadaCommon.AddressSpace.AttributeServiceImpl
import ScadaCommon.AddressSpace.DeleteNode
import ScadaCommon.AddressSpace.SpaceView
import ScadaCommon.Foundation.RoundTrips

/-!
# The state of a node

`MakeNodeState` reads a node back: its attributes, its properties, its parent, which is the
source of the first reference to it that is hierarchical, and the references that no other
node tells of.

§1 declarations · §2 the state · §3 every node has one · §4 reading it off · §5 what a state
says of the references.
-/

namespace ScadaCommon.AddressSpace

open Foundation Relation

variable {V : Type}

def StandardId.hasComponent : NodeId := .numeric 47 0

/-! ## §1  Declarations -/

/-- `GetParentReference`. -/
def NodeHeap.getParentReference {A : Type} (heap : NodeHeap A) (node : Node A) :
    Option (Option Reference) :=
  heap.findFirst StandardId.hierarchicalReferences node.inverseReferences

/-- `GetNodeId` of a pointer that may be null. -/
def NodeHeap.getNodeId {A : Type} (heap : NodeHeap A) : Option NodePtr → Option NodeId
  | none => some .null
  | some ptr => heap.idOf ptr

namespace GenericNodeFactory

variable (factory : GenericNodeFactory)

/-- `FindChildComponent`, over the forward references of the parent. -/
def findChildComponent (heap : NodeHeap (NodeData V)) (name : String) :
    List Reference → Option (Option NodePtr)
  | [] => some none
  | ref :: refs => do
      match ← heap.isSubtypeOf ref.type StandardId.hasComponent with
      | false => findChildComponent heap name refs
      | true =>
          let component ← heap.nodes ref.node
          let browseName ← factory.getBrowseName component
          if browseName.name = name then return some ref.node
          findChildComponent heap name refs

/-- Along the supertypes, at most `fuel` of them. -/
def findComponentDeclarationOf (heap : NodeHeap (NodeData V)) (name : String) :
    ℕ → NodePtr → Option (Option NodePtr)
  | 0, _ => none
  | fuel + 1, type => do
      let typeNode ← heap.nodes type
      match ← factory.findChildComponent heap name typeNode.forwardReferences with
      | some declaration => return some declaration
      | none =>
          match typeNode.supertype with
          | none => return none
          | some supertype => findComponentDeclarationOf heap name fuel supertype

/-- The id of what `FindComponentDeclaration` finds for a component; a component of a type is
its own declaration. -/
def componentDeclarationId (heap : NodeHeap (NodeData V)) (component : Node (NodeData V)) :
    Option NodeId := do
  match ← heap.getParentReference component with
  | none => return .null
  | some parent =>
      let parentNode ← heap.nodes parent.node
      match parentNode.typeDefinition with
      | none => return if parentNode.nodeClass.isTypeDefinition then component.id else .null
      | some type =>
          let browseName ← factory.getBrowseName component
          heap.getNodeId
            (← factory.findComponentDeclarationOf heap browseName.name (heap.next + 1) type)

/-! ## §2  The state -/

/-- The property of a reference, if it has one. -/
def makeProperty (heap : NodeHeap (NodeData V)) (ref : Reference) :
    Option (Option (NodeId × V)) := do
  match ← getProperty heap ref with
  | none => return none
  | some property =>
      return some (← factory.componentDeclarationId heap property, property.attributes.value)

/-- Whether a reference of the node `ptr` is told by the node; the others are told by the
parent and by the supertype of their target. -/
def tellsReference (heap : NodeHeap (NodeData V)) (ptr : NodePtr) (ref : Reference) :
    Option Bool := do
  if ← heap.isSubtypeOf ref.type StandardId.nonHierarchicalReferences then return true
  let type ← heap.nodes ref.type
  if !(← heap.isSubtypeOf ref.type StandardId.hierarchicalReferences) ||
      type.id = StandardId.hasSubtype then
    return false
  let target ← heap.nodes ref.node
  return (← heap.getParentReference target) ≠ some ⟨ref.type, ptr⟩

/-- The description of a reference, with the class of its target. -/
def makeReferenceDescription (heap : NodeHeap (NodeData V)) (ptr : NodePtr) (ref : Reference) :
    Option (Option (ReferenceDescription × NodeClass)) := do
  if !(← tellsReference heap ptr ref) then return none
  let type ← heap.nodes ref.type
  let target ← heap.nodes ref.node
  return some ({ referenceTypeId := type.id, forward := true, nodeId := target.id },
    target.nodeClass)

/-- `GetDataTypeId`. -/
def getDataTypeId (heap : NodeHeap (NodeData V)) (node : Node (NodeData V)) : Option NodeId :=
  if node.nodeClass = .variable ∨ node.nodeClass = .variableType then
    node.attributes.dataType.bind heap.idOf
  else some .null

def getValue (node : Node (NodeData V)) : Option V :=
  if node.nodeClass = .variable ∨ node.nodeClass = .variableType then some node.attributes.value
  else none

def getInverseName (node : Node (NodeData V)) : String :=
  if node.nodeClass = .referenceType then node.attributes.inverseName else ""

def makeNodeState (heap : NodeHeap (NodeData V)) (ptr : NodePtr) : Option (NodeState V) := do
  let node ← heap.nodes ptr
  let properties ← node.forwardReferences.mapM (factory.makeProperty heap)
  let references ← node.forwardReferences.mapM (makeReferenceDescription heap ptr)
  let parent ← heap.getParentReference node
  return {
    nodeId := node.id
    nodeClass := node.nodeClass
    typeDefinitionId := ← heap.getNodeId node.typeDefinition
    parentId := ← heap.getNodeId (parent.map Reference.node)
    referenceTypeId := ← heap.getNodeId (parent.map Reference.type)
    attributes := {
      browseName := ← factory.getBrowseName node
      displayName := ← factory.getDisplayName node
      inverseName := getInverseName node
      dataType := ← getDataTypeId heap node
      value := getValue node }
    properties := properties.filterMap id
    references := (references.filterMap id).map Prod.fst
    supertypeId :=
      ← heap.getNodeId (if node.nodeClass.isTypeDefinition then node.supertype else none) }

end GenericNodeFactory

/-! ## §3  Every node has one -/

section

variable {factory : GenericNodeFactory} {spaces : Spaces V} {edges : Set Edge} {ptr : NodePtr}
  {node : Node (NodeData V)} (h : Sound factory spaces edges)

include h

theorem Sound.exists_getNodeId {other : Option NodePtr}
    (hother : ∀ q ∈ other, q < spaces.heap.next) :
    ∃ id, spaces.heap.getNodeId other = some id := by
  cases other with
  | none => exact ⟨.null, rfl⟩
  | some q =>
      obtain ⟨qnode, hq⟩ := h.nodeOf (hother q rfl)
      exact ⟨qnode.id, by simp [NodeHeap.getNodeId, NodeHeap.idOf, hq]⟩

theorem Sound.boundedReferences (hnode : spaces.heap.nodes ptr = some node) (forward : Bool) :
    spaces.heap.BoundedReferences (node.references forward) := by
  intro ref href
  have hhalf := (h.represents.holds.references ptr node hnode forward ref).mp href
  cases forward with
  | true => exact ⟨(h.represents.edge_lt hhalf).1, (h.represents.edge_lt hhalf).2.2⟩
  | false => exact ⟨(h.represents.edge_lt hhalf).1, (h.represents.edge_lt hhalf).2.1⟩

theorem Sound.exists_getParentReference (hnode : spaces.heap.nodes ptr = some node) :
    ∃ parent, spaces.heap.getParentReference node = some parent ∧
      ∀ ref ∈ parent, ref.type < spaces.heap.next ∧ ref.node < spaces.heap.next := by
  have hrefs := h.boundedReferences hnode false
  obtain ⟨parent, hparent⟩ := h.findFirst StandardId.hierarchicalReferences hrefs
  refine ⟨parent, hparent, fun ref href => ?_⟩
  cases href
  exact hrefs ref (NodeHeap.findFirst_mem hparent)

theorem Sound.exists_findChildComponent (name : String) {refs : List Reference}
    (hrefs : spaces.heap.BoundedReferences refs) :
    ∃ found, factory.findChildComponent spaces.heap name refs = some found ∧
      ∀ component ∈ found, component < spaces.heap.next := by
  induction refs with
  | nil => exact ⟨none, rfl, fun _ hmem => absurd hmem (Option.not_mem_none _)⟩
  | cons ref refs ih =>
      obtain ⟨href, hrefs⟩ := List.forall_mem_cons.mp hrefs
      obtain ⟨isComponent, hisComponent⟩ := h.isSubtypeOf href.1 StandardId.hasComponent
      obtain ⟨found, hfound, hlt⟩ := ih hrefs
      obtain ⟨component, hcomponent⟩ := h.nodeOf href.2
      obtain ⟨browseName, hbrowseName⟩ : ∃ browseName,
          factory.getBrowseName component = some browseName := h.getBrowseName hcomponent
      cases isComponent with
      | false =>
          exact ⟨found, by simp [GenericNodeFactory.findChildComponent, hisComponent, hfound], hlt⟩
      | true =>
          by_cases hname : browseName.name = name
          · refine ⟨some ref.node, by simp [GenericNodeFactory.findChildComponent, hisComponent,
              hcomponent, hbrowseName, hname], ?_⟩
            rintro _ ⟨⟩
            exact href.2
          · exact ⟨found, by simp [GenericNodeFactory.findChildComponent, hisComponent,
              hcomponent, hbrowseName, hname, hfound], hlt⟩

theorem Sound.exists_findComponentDeclarationOf (name : String) {fuel : ℕ} {ptrs : List NodePtr}
    (hptrs : path spaces.heap.supertypeOf fuel ptr = some ptrs) (hptr : ptr < spaces.heap.next) :
    ∃ found, factory.findComponentDeclarationOf spaces.heap name fuel ptr = some found ∧
      ∀ declaration ∈ found, declaration < spaces.heap.next := by
  induction fuel generalizing ptr ptrs with
  | zero => cases hptrs
  | succ fuel ih =>
      obtain ⟨typeNode, htypeNode⟩ := h.nodeOf hptr
      obtain ⟨own, hown, hlt⟩ : ∃ own,
          factory.findChildComponent spaces.heap name typeNode.forwardReferences = some own ∧
            ∀ component ∈ own, component < spaces.heap.next :=
        h.exists_findChildComponent name (h.boundedReferences htypeNode true)
      cases own with
      | some declaration =>
          exact ⟨some declaration,
            by simp [GenericNodeFactory.findComponentDeclarationOf, htypeNode, hown], hlt⟩
      | none =>
          rcases path_cases hptrs with ⟨hend, -⟩ | ⟨next, rest, hstep, hrest, -⟩
          · rw [NodeHeap.supertypeOf, htypeNode, Option.map_some, Option.some_inj] at hend
            exact ⟨none, by simp [GenericNodeFactory.findComponentDeclarationOf, htypeNode, hown,
              hend], fun _ hmem => absurd hmem (Option.not_mem_none _)⟩
          · rw [NodeHeap.supertypeOf, htypeNode, Option.map_some, Option.some_inj] at hstep
            have hnext := h.wellFormed.bounded.supertype ptr typeNode htypeNode next hstep
            obtain ⟨found, hfound, hfoundLt⟩ := ih hrest hnext
            exact ⟨found, by simp [GenericNodeFactory.findComponentDeclarationOf, htypeNode, hown,
              hstep, hfound], hfoundLt⟩

theorem Sound.typeDefinition_lt (hnode : spaces.heap.nodes ptr = some node) :
    ∀ type ∈ node.typeDefinition, type < spaces.heap.next := by
  intro type htype
  obtain ⟨refType, hhalf, -⟩ := (h.represents.holds.cache ptr node hnode true type).mp htype
  exact (h.represents.edge_lt hhalf).2.2

theorem Sound.exists_componentDeclarationId (hnode : spaces.heap.nodes ptr = some node) :
    ∃ id, factory.componentDeclarationId spaces.heap node = some id := by
  obtain ⟨parent, hparent, hlt⟩ := h.exists_getParentReference hnode
  unfold GenericNodeFactory.componentDeclarationId
  rw [hparent]
  cases parent with
  | none => exact ⟨.null, rfl⟩
  | some ref =>
      obtain ⟨parentNode, hparentNode⟩ := h.nodeOf (hlt ref rfl).2
      cases htype : parentNode.typeDefinition with
      | none => exact ⟨_, by simp [hparentNode, htype]; rfl⟩
      | some type =>
          have hlt := h.typeDefinition_lt hparentNode type htype
          obtain ⟨ptrs, hptrs⟩ := h.path_next hlt
          obtain ⟨browseName, hbrowseName⟩ : ∃ browseName,
              factory.getBrowseName node = some browseName := h.getBrowseName hnode
          obtain ⟨found, hfound, hfoundLt⟩ : ∃ found,
              factory.findComponentDeclarationOf spaces.heap browseName.name
                (spaces.heap.next + 1) type = some found ∧
              ∀ declaration ∈ found, declaration < spaces.heap.next :=
            h.exists_findComponentDeclarationOf browseName.name (path_mono hptrs (Nat.le_succ _))
              hlt
          obtain ⟨id, hid⟩ := h.exists_getNodeId hfoundLt
          exact ⟨id, by simp [hparentNode, htype, hbrowseName, hfound, hid]⟩

theorem Sound.exists_makeProperty {ref : Reference} (href : ref.type < spaces.heap.next)
    (hrefNode : ref.node < spaces.heap.next) :
    ∃ property, factory.makeProperty spaces.heap ref = some property := by
  obtain ⟨isProperty, hisProperty⟩ := h.isSubtypeOf href StandardId.hasProperty
  obtain ⟨target, htarget⟩ := h.nodeOf hrefNode
  obtain ⟨id, hid⟩ : ∃ id, factory.componentDeclarationId spaces.heap target = some id :=
    h.exists_componentDeclarationId htarget
  unfold GenericNodeFactory.makeProperty getProperty
  cases isProperty with
  | false => exact ⟨none, by simp [hisProperty]⟩
  | true =>
      by_cases hclass : target.nodeClass = .variable
      · exact ⟨_, by simp [hisProperty, htarget, hclass, hid]; rfl⟩
      · exact ⟨none, by simp [hisProperty, htarget, hclass]⟩

/-- What decides whether a node tells of a reference. -/
theorem Sound.exists_tellsReference {ref : Reference} (href : ref.type < spaces.heap.next)
    (hrefNode : ref.node < spaces.heap.next) (ptr : NodePtr) :
    ∃ isNon isHier type target parent,
      spaces.heap.isSubtypeOf ref.type StandardId.nonHierarchicalReferences = some isNon ∧
      spaces.heap.isSubtypeOf ref.type StandardId.hierarchicalReferences = some isHier ∧
      spaces.heap.nodes ref.type = some type ∧ spaces.heap.nodes ref.node = some target ∧
      spaces.heap.getParentReference target = some parent ∧
      GenericNodeFactory.tellsReference spaces.heap ptr ref =
        some (isNon || (isHier && type.id ≠ StandardId.hasSubtype &&
          parent ≠ some ⟨ref.type, ptr⟩)) := by
  obtain ⟨isNon, hisNon⟩ := h.isSubtypeOf href StandardId.nonHierarchicalReferences
  obtain ⟨isHier, hisHier⟩ := h.isSubtypeOf href StandardId.hierarchicalReferences
  obtain ⟨type, htype⟩ := h.nodeOf href
  obtain ⟨target, htarget⟩ := h.nodeOf hrefNode
  obtain ⟨parent, hparent, -⟩ := h.exists_getParentReference htarget
  refine ⟨isNon, isHier, type, target, parent, hisNon, hisHier, htype, htarget, hparent, ?_⟩
  unfold GenericNodeFactory.tellsReference
  cases isNon with
  | true => simp [hisNon]
  | false =>
      cases isHier with
      | false => simp [hisNon, hisHier, htype]
      | true =>
          by_cases hsubtype : type.id = StandardId.hasSubtype
          · simp [hisNon, hisHier, htype, hsubtype]
          · simp [hisNon, hisHier, htype, hsubtype, htarget, hparent]

theorem Sound.exists_makeReferenceDescription {ref : Reference} (href : ref.type < spaces.heap.next)
    (hrefNode : ref.node < spaces.heap.next) :
    ∃ reference,
      GenericNodeFactory.makeReferenceDescription spaces.heap ptr ref = some reference := by
  obtain ⟨isNon, isHier, type, target, parent, -, -, htype, htarget, -, htells⟩ :=
    h.exists_tellsReference href hrefNode ptr
  generalize (isNon || (isHier && type.id ≠ StandardId.hasSubtype &&
    parent ≠ some ⟨ref.type, ptr⟩)) = tells at htells
  unfold GenericNodeFactory.makeReferenceDescription
  cases tells with
  | false => exact ⟨none, by simp [htells]⟩
  | true => exact ⟨_, by simp [htells, htype, htarget]; rfl⟩

/-- **Every node has a state.** -/
theorem Sound.exists_makeNodeState (hnode : spaces.heap.nodes ptr = some node) :
    ∃ state, factory.makeNodeState spaces.heap ptr = some state := by
  have hrefs : spaces.heap.BoundedReferences node.forwardReferences :=
    h.boundedReferences hnode true
  obtain ⟨properties, hproperties⟩ : ∃ properties,
      node.forwardReferences.mapM (factory.makeProperty spaces.heap) = some properties :=
    exists_mapM fun ref href => h.exists_makeProperty (hrefs ref href).1 (hrefs ref href).2
  obtain ⟨references, hreferences⟩ : ∃ references, node.forwardReferences.mapM
      (GenericNodeFactory.makeReferenceDescription spaces.heap ptr) = some references :=
    exists_mapM fun ref href =>
      h.exists_makeReferenceDescription (hrefs ref href).1 (hrefs ref href).2
  obtain ⟨parent, hparent, hlt⟩ := h.exists_getParentReference hnode
  obtain ⟨typeDefinitionId, htypeDefinition⟩ := h.exists_getNodeId (h.typeDefinition_lt hnode)
  obtain ⟨parentId, hparentId⟩ : ∃ id,
      spaces.heap.getNodeId (parent.map Reference.node) = some id := by
    refine h.exists_getNodeId fun q hq => ?_
    obtain ⟨ref, href, rfl⟩ := Option.map_eq_some_iff.mp hq
    exact (hlt ref href).2
  obtain ⟨referenceTypeId, hreferenceTypeId⟩ : ∃ id,
      spaces.heap.getNodeId (parent.map Reference.type) = some id := by
    refine h.exists_getNodeId fun q hq => ?_
    obtain ⟨ref, href, rfl⟩ := Option.map_eq_some_iff.mp hq
    exact (hlt ref href).1
  obtain ⟨dataType, hdataType⟩ :
      ∃ id, GenericNodeFactory.getDataTypeId spaces.heap node = some id := by
    unfold GenericNodeFactory.getDataTypeId
    split
    · rename_i hclass
      obtain ⟨type, htype⟩ := Option.ne_none_iff_exists'.mp (h.typed ptr node hnode hclass)
      obtain ⟨typeNode, htypeNode⟩ :=
        h.nodeOf (h.wellFormed.bounded.dataType ptr node hnode type htype)
      exact ⟨typeNode.id, by simp [htype, NodeHeap.idOf, htypeNode]⟩
    · exact ⟨.null, rfl⟩
  obtain ⟨supertypeId, hsupertypeId⟩ : ∃ id, spaces.heap.getNodeId
      (if node.nodeClass.isTypeDefinition then node.supertype else none) = some id := by
    refine h.exists_getNodeId fun q hq => ?_
    split at hq
    · exact h.wellFormed.bounded.supertype ptr node hnode q hq
    · cases hq
  have hid := h.named ptr node hnode
  refine Option.isSome_iff_exists.mp ?_
  unfold GenericNodeFactory.makeNodeState
  simp only [Option.bind_eq_bind, hnode, Option.bind_some, hproperties, hreferences, hparent,
    htypeDefinition, hparentId, hreferenceTypeId, GenericNodeFactory.getBrowseName_eq hid,
    GenericNodeFactory.getDisplayName_eq hid, hdataType, hsupertypeId]
  rfl

end

/-! ## §4  Reading it off -/

/-- The state is read off the node. -/
structure GenericNodeFactory.Reads (factory : GenericNodeFactory) (heap : NodeHeap (NodeData V))
    (ptr : NodePtr) (node : Node (NodeData V)) (state : NodeState V) : Prop where
  nodeId : state.nodeId = node.id
  nodeClass : state.nodeClass = node.nodeClass
  typeDefinitionId : heap.getNodeId node.typeDefinition = some state.typeDefinitionId
  parent : ∃ parent, heap.getParentReference node = some parent ∧
    heap.getNodeId (parent.map Reference.node) = some state.parentId ∧
    heap.getNodeId (parent.map Reference.type) = some state.referenceTypeId
  browseName : state.attributes.browseName = factory.shownBrowseName node
  displayName : state.attributes.displayName = factory.shownDisplayName node
  inverseName : state.attributes.inverseName = getInverseName node
  dataType : getDataTypeId heap node = some state.attributes.dataType
  value : state.attributes.value = getValue node
  references : ∀ reference, reference ∈ state.references ↔
    ∃ ref ∈ node.forwardReferences, ∃ nodeClass,
      makeReferenceDescription heap ptr ref = some (some (reference, nodeClass))
  supertypeId : heap.getNodeId (if node.nodeClass.isTypeDefinition then node.supertype else none) =
    some state.supertypeId
  children : state.children = []

theorem reads_of_makeNodeState {factory : GenericNodeFactory} {heap : NodeHeap (NodeData V)}
    {ptr : NodePtr} {node : Node (NodeData V)} {state : NodeState V}
    (hnode : heap.nodes ptr = some node) (hid : node.id ≠ .null)
    (h : factory.makeNodeState heap ptr = some state) : factory.Reads heap ptr node state := by
  unfold GenericNodeFactory.makeNodeState at h
  simp only [Option.bind_eq_bind, hnode, Option.bind_some,
    GenericNodeFactory.getBrowseName_eq hid, GenericNodeFactory.getDisplayName_eq hid] at h
  obtain ⟨properties, -, h⟩ := Option.bind_eq_some_iff.mp h
  obtain ⟨references, hreferences, h⟩ := Option.bind_eq_some_iff.mp h
  obtain ⟨parent, hparent, h⟩ := Option.bind_eq_some_iff.mp h
  obtain ⟨typeDefinitionId, htypeDefinition, h⟩ := Option.bind_eq_some_iff.mp h
  obtain ⟨parentId, hparentId, h⟩ := Option.bind_eq_some_iff.mp h
  obtain ⟨referenceTypeId, hreferenceTypeId, h⟩ := Option.bind_eq_some_iff.mp h
  obtain ⟨dataType, hdataType, h⟩ := Option.bind_eq_some_iff.mp h
  obtain ⟨supertypeId, hsupertypeId, h⟩ := Option.bind_eq_some_iff.mp h
  cases h
  refine ⟨rfl, rfl, htypeDefinition, ⟨parent, hparent, hparentId, hreferenceTypeId⟩, rfl, rfl, rfl,
    hdataType, rfl, fun reference => ?_, hsupertypeId, rfl⟩
  simp only [List.mem_map, List.mem_filterMap, mem_of_mapM hreferences, id_eq]
  constructor
  · rintro ⟨⟨reference, nodeClass⟩, ⟨told, ⟨ref, href, hmake⟩, rfl⟩, rfl⟩
    exact ⟨ref, href, nodeClass, hmake⟩
  · rintro ⟨ref, href, nodeClass, hmake⟩
    exact ⟨(reference, nodeClass), ⟨_, ⟨ref, href, hmake⟩, rfl⟩, rfl⟩

/-! ## §5  What a state says of the references -/

namespace GenericNodeFactory

variable (factory : GenericNodeFactory) (spaces : Spaces V)

/-- The first type is the second one or below it. -/
def IsBelow (typeId supertypeId : NodeId) : Prop :=
  ∃ type, spaces.heap.idOf type = some typeId ∧
    spaces.heap.isSubtypeOf type supertypeId = some true

/-- The reference is the one that `GetParentReference` gives for its target. -/
def IsParentReference (triple : Triple) : Prop :=
  ∃ ptr node ref, spaces.heap.nodes ptr = some node ∧ node.id = triple.targetId ∧
    spaces.heap.getParentReference node = some (some ref) ∧
      spaces.heap.idOf ref.type = some triple.typeId ∧
        spaces.heap.idOf ref.node = some triple.sourceId

/-- The reference is described by its source. -/
def IsDescribed (triple : Triple) : Prop :=
  IsBelow spaces triple.typeId StandardId.nonHierarchicalReferences ∨
    IsBelow spaces triple.typeId StandardId.hierarchicalReferences ∧
      triple.typeId ≠ StandardId.hasSubtype ∧ ¬ IsParentReference spaces triple

/-- What a state says of its node and of the references from it and to it. -/
structure Tells (state : NodeState V) : Prop where
  notNull : state.nodeId ≠ .null
  definition : ∀ typeId, typeId ≠ .null → (state.typeDefinitionId = typeId ↔
    ⟨StandardId.hasTypeDefinition, state.nodeId, typeId⟩ ∈ factory.triples spaces)
  supertype : ∀ typeId, typeId ≠ .null → (state.supertypeId = typeId ↔
    state.nodeClass.isTypeDefinition = true ∧
      ⟨StandardId.hasSubtype, typeId, state.nodeId⟩ ∈ factory.triples spaces)
  parent : ∀ typeId parentId, parentId ≠ .null →
    (state.referenceTypeId = typeId ∧ state.parentId = parentId ↔
      IsParentReference spaces ⟨typeId, parentId, state.nodeId⟩)
  parentNull : state.parentId = .null ↔ state.referenceTypeId = .null
  references : ∀ reference, reference ∈ state.references ↔ reference.forward = true ∧
    ⟨reference.referenceTypeId, state.nodeId, reference.nodeId⟩ ∈ factory.triples spaces ∧
      IsDescribed spaces ⟨reference.referenceTypeId, state.nodeId, reference.nodeId⟩

end GenericNodeFactory

open GenericNodeFactory

section

variable {factory : GenericNodeFactory} {spaces : Spaces V} {edges : Set Edge} {ptr : NodePtr}
  {node : Node (NodeData V)} {state : NodeState V} {id found : NodeId}

theorem idOf_eq (hnode : spaces.heap.nodes ptr = some node) :
    spaces.heap.idOf ptr = some node.id := by
  rw [NodeHeap.idOf, hnode, Option.map_some]

theorem getNodeId_eq_iff {other : Option NodePtr}
    (hfound : spaces.heap.getNodeId other = some found) (hid : id ≠ .null) :
    found = id ↔ ∃ q ∈ other, spaces.heap.idOf q = some id := by
  cases other with
  | none =>
      cases hfound
      simpa using hid.symm
  | some q =>
      have hq : spaces.heap.idOf q = some found := hfound
      simp [hq]

/-- A null id is of no node. -/
theorem Sound.getNodeId_eq_null (h : Sound factory spaces edges) {other : Option NodePtr}
    (hfound : spaces.heap.getNodeId other = some found) : found = .null ↔ other = none := by
  cases other with
  | none =>
      cases hfound
      exact iff_of_true rfl rfl
  | some q =>
      obtain ⟨qnode, hq, hid⟩ := Option.map_eq_some_iff.mp hfound
      rw [← hid]
      exact iff_of_false (h.named q qnode hq) (Option.some_ne_none q)

theorem isBelow_iff (hindexed : factory.Indexed spaces) {type : NodePtr}
    {typeId supertypeId : NodeId} (htype : spaces.heap.idOf type = some typeId) :
    IsBelow spaces typeId supertypeId ↔ spaces.heap.isSubtypeOf type supertypeId = some true := by
  constructor
  · rintro ⟨type', htype', hbelow⟩
    rwa [hindexed.idOf_inj htype htype']
  · exact fun hbelow => ⟨type, htype, hbelow⟩

theorem isParentReference_iff (hindexed : factory.Indexed spaces) {typeId sourceId : NodeId}
    (hnode : spaces.heap.nodes ptr = some node) :
    IsParentReference spaces ⟨typeId, sourceId, node.id⟩ ↔
      ∃ ref, spaces.heap.getParentReference node = some (some ref) ∧
        spaces.heap.idOf ref.type = some typeId ∧ spaces.heap.idOf ref.node = some sourceId := by
  constructor
  · rintro ⟨ptr', node', ref, hnode', hid, hfound⟩
    have hptr := hindexed.idOf_inj (idOf_eq hnode) ((idOf_eq hnode').trans (congrArg some hid))
    rw [← hptr, hnode] at hnode'
    cases hnode'
    exact ⟨ref, hfound⟩
  · rintro ⟨ref, hfound⟩
    exact ⟨ptr, node, ref, hnode, rfl, hfound⟩

variable (h : Sound factory spaces edges) (hindexed : factory.Indexed spaces)

include h hindexed

/-- The reference from the parent is one of the references, and hierarchical. -/
theorem Sound.mem_of_isParentReference {triple : Triple}
    (hparent : IsParentReference spaces triple) : triple ∈ factory.triples spaces ∧
      IsBelow spaces triple.typeId StandardId.hierarchicalReferences := by
  obtain ⟨ptr, node, ref, hnode, hid, hfound, htype, hsource⟩ := hparent
  have href : ref ∈ node.references false := NodeHeap.findFirst_mem hfound
  have hedge : (⟨ref.type, ref.node, ptr⟩ : Edge) ∈ edges :=
    (h.represents.holds.references ptr node hnode false ref).mp href
  refine ⟨(h.mem_triples hindexed).mpr ⟨_, hedge, htype, hsource, ?_⟩, ref.type, htype, ?_⟩
  · rw [idOf_eq hnode, hid]
  · have hhead := AddressSpaces.findFirst_eq_some hfound
    have hmem := List.mem_of_mem_head? (Option.mem_def.mpr hhead.symm)
    exact of_decide_eq_true (List.mem_filter.mp hmem).2

theorem Sound.typeDefinition_iff (hnode : spaces.heap.nodes ptr = some node) :
    (∃ q ∈ node.typeDefinition, spaces.heap.idOf q = some id) ↔
      ⟨StandardId.hasTypeDefinition, node.id, id⟩ ∈ factory.triples spaces := by
  rw [h.mem_triples hindexed]
  constructor
  · rintro ⟨q, hcache, hid⟩
    obtain ⟨type, hhalf, typeId, htype, hcaches⟩ :=
      (h.represents.holds.cache ptr node hnode true q).mp hcache
    obtain rfl : typeId = StandardId.hasTypeDefinition := hcaches
    exact ⟨⟨type, ptr, q⟩, hhalf, htype, idOf_eq hnode, hid⟩
  · rintro ⟨edge, hedge, htype, hsource, htarget⟩
    obtain rfl := hindexed.idOf_inj (idOf_eq hnode) hsource
    exact ⟨edge.target, (h.represents.holds.cache _ node hnode true _).mpr
      ⟨edge.type, hedge, StandardId.hasTypeDefinition, htype, rfl⟩, htarget⟩

theorem Sound.supertype_iff (hnode : spaces.heap.nodes ptr = some node)
    (hclass : node.nodeClass.isTypeDefinition = true) :
    (∃ q ∈ node.supertype, spaces.heap.idOf q = some id) ↔
      ⟨StandardId.hasSubtype, id, node.id⟩ ∈ factory.triples spaces := by
  rw [h.mem_triples hindexed]
  constructor
  · rintro ⟨q, hcache, hid⟩
    obtain ⟨type, hhalf, typeId, htype, hcaches⟩ :=
      (h.represents.holds.cache ptr node hnode false q).mp hcache
    obtain rfl : typeId = StandardId.hasSubtype := hcaches.2
    exact ⟨⟨type, q, ptr⟩, hhalf, htype, hid, idOf_eq hnode⟩
  · rintro ⟨edge, hedge, htype, hsource, htarget⟩
    obtain rfl := hindexed.idOf_inj (idOf_eq hnode) htarget
    exact ⟨edge.source, (h.represents.holds.cache _ node hnode false _).mpr
      ⟨edge.type, hedge, StandardId.hasSubtype, htype, hclass, rfl⟩, hsource⟩

/-- How a reference is described, if it is. -/
theorem Sound.makeReferenceDescription_eq (hnode : spaces.heap.nodes ptr = some node)
    {ref : Reference}
    (href : ref ∈ node.forwardReferences) : ∃ type target,
      spaces.heap.nodes ref.type = some type ∧ spaces.heap.nodes ref.node = some target ∧
      (IsDescribed spaces ⟨type.id, node.id, target.id⟩ →
        makeReferenceDescription spaces.heap ptr ref =
          some (some (⟨type.id, true, target.id⟩, target.nodeClass))) ∧
      (¬ IsDescribed spaces ⟨type.id, node.id, target.id⟩ →
        makeReferenceDescription spaces.heap ptr ref = some none) := by
  have hlt := h.boundedReferences hnode true ref href
  obtain ⟨isNon, isHier, type, target, parent, hisNon, hisHier, htype, htarget, hparent, htells⟩ :=
    h.exists_tellsReference hlt.1 hlt.2 ptr
  have hfirst : IsParentReference spaces ⟨type.id, node.id, target.id⟩ ↔
      parent = some ⟨ref.type, ptr⟩ := by
    rw [isParentReference_iff hindexed htarget, hparent]
    constructor
    · rintro ⟨first, hfirst, hfirstType, hfirstNode⟩
      obtain rfl := Option.some.inj hfirst
      rw [hindexed.idOf_inj (idOf_eq htype) hfirstType,
        hindexed.idOf_inj (idOf_eq hnode) hfirstNode]
    · rintro rfl
      exact ⟨_, rfl, idOf_eq htype, idOf_eq hnode⟩
  have hdescribed : IsDescribed spaces ⟨type.id, node.id, target.id⟩ ↔
      (isNon || (isHier && type.id ≠ StandardId.hasSubtype && parent ≠ some ⟨ref.type, ptr⟩)) =
        true := by
    unfold IsDescribed
    rw [isBelow_iff hindexed (idOf_eq htype), isBelow_iff hindexed (idOf_eq htype), hisNon, hisHier,
      hfirst]
    simp [and_assoc]
  refine ⟨type, target, htype, htarget, fun hyes => ?_, fun hno => ?_⟩
  · rw [hdescribed.mp hyes] at htells
    simp [makeReferenceDescription, htells, htype, htarget]
  · rw [Bool.eq_false_iff.mpr (mt hdescribed.mpr hno)] at htells
    simp [makeReferenceDescription, htells]

/-- Which references are described. -/
theorem Sound.makeReferenceDescription_iff (hnode : spaces.heap.nodes ptr = some node)
    {reference : ReferenceDescription} :
    (∃ ref ∈ node.forwardReferences, ∃ nodeClass,
      makeReferenceDescription spaces.heap ptr ref = some (some (reference, nodeClass))) ↔
    reference.forward = true ∧
      ⟨reference.referenceTypeId, node.id, reference.nodeId⟩ ∈ factory.triples spaces ∧
        IsDescribed spaces ⟨reference.referenceTypeId, node.id, reference.nodeId⟩ := by
  rw [h.mem_triples hindexed]
  constructor
  · rintro ⟨ref, href, nodeClass, hmake⟩
    obtain ⟨type, target, htype, htarget, hyes, hno⟩ :=
      h.makeReferenceDescription_eq hindexed hnode href
    by_cases hdescribed : IsDescribed spaces ⟨type.id, node.id, target.id⟩
    · have heq := hmake.symm.trans (hyes hdescribed)
      cases heq
      exact ⟨rfl, ⟨⟨ref.type, ptr, ref.node⟩,
        (h.represents.holds.references ptr node hnode true ref).mp href, idOf_eq htype,
        idOf_eq hnode, idOf_eq htarget⟩, hdescribed⟩
    · have heq := hmake.symm.trans (hno hdescribed)
      cases heq
  · rintro ⟨hforward, ⟨edge, hedge, htypeId, hsource, htargetId⟩, hdescribed⟩
    obtain rfl := hindexed.idOf_inj (idOf_eq hnode) hsource
    have href : ⟨edge.type, edge.target⟩ ∈ node.forwardReferences :=
      (h.represents.holds.references _ node hnode true _).mpr hedge
    obtain ⟨type, target, htype, htarget, hyes, -⟩ :=
      h.makeReferenceDescription_eq hindexed hnode href
    rw [idOf_eq htype, Option.some_inj] at htypeId
    rw [idOf_eq htarget, Option.some_inj] at htargetId
    obtain ⟨typeId, forward, targetId⟩ := reference
    dsimp only at hforward htypeId htargetId hdescribed
    subst hforward htypeId htargetId
    exact ⟨_, href, _, hyes hdescribed⟩

theorem Sound.tells (hnode : spaces.heap.nodes ptr = some node)
    (hmake : factory.makeNodeState spaces.heap ptr = some state) : factory.Tells spaces state := by
  have hnull := h.named ptr node hnode
  have hreads := reads_of_makeNodeState hnode hnull hmake
  obtain ⟨parent, hparent, hparentId, hreferenceTypeId⟩ := hreads.parent
  constructor
  case notNull => rwa [hreads.nodeId]
  case definition =>
    intro typeId htypeId
    rw [getNodeId_eq_iff hreads.typeDefinitionId htypeId, hreads.nodeId]
    exact h.typeDefinition_iff hindexed hnode
  case supertype =>
    intro typeId htypeId
    rw [getNodeId_eq_iff hreads.supertypeId htypeId, hreads.nodeId, hreads.nodeClass]
    by_cases hclass : node.nodeClass.isTypeDefinition = true
    · rw [if_pos hclass, and_iff_right hclass]
      exact h.supertype_iff hindexed hnode hclass
    · rw [if_neg hclass]
      exact iff_of_false (fun hex => by simp at hex) fun hboth => hclass hboth.1
  case parent =>
    intro typeId parentId hparentNull
    rw [hreads.nodeId]
    rw [isParentReference_iff hindexed hnode, hparent]
    cases parent with
    | none =>
        have hnone : .null = state.parentId := Option.some.inj hparentId
        refine iff_of_false (fun hboth => hparentNull (hboth.2.symm.trans hnone.symm)) ?_
        rintro ⟨ref, hsome, -⟩
        cases hsome
    | some ref =>
        have htype : spaces.heap.idOf ref.type = some state.referenceTypeId := hreferenceTypeId
        have hsource : spaces.heap.idOf ref.node = some state.parentId := hparentId
        constructor
        · rintro ⟨rfl, rfl⟩
          exact ⟨ref, rfl, htype, hsource⟩
        · rintro ⟨ref', href, htype', hsource'⟩
          cases href
          exact ⟨Option.some.inj (htype.symm.trans htype'),
            Option.some.inj (hsource.symm.trans hsource')⟩
  case parentNull =>
    rw [h.getNodeId_eq_null hparentId, h.getNodeId_eq_null hreferenceTypeId,
      Option.map_eq_none_iff, Option.map_eq_none_iff]
  case references =>
    intro reference
    rw [hreads.references, hreads.nodeId]
    exact h.makeReferenceDescription_iff hindexed hnode

end

end ScadaCommon.AddressSpace
