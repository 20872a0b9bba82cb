import Mathlib.Data.List.Nodup
import ScadaCommon.Scada.StandardNodes

/-!
# Nodes and their references

A node object keeps its forward and its inverse references as pairs of pointers,
and caches its type definition and, if it is a type, its supertype. Every edge
of the graph stands in two nodes.

§1 nodes · §2 references of one node · §3 the heap · §4 what one half of an edge
changes.
-/

namespace ScadaCommon.AddressSpace

/-! ## §1  Nodes -/

/-- Addresses of node objects. -/
abbrev NodePtr := ℕ

structure Reference where
  type : NodePtr
  node : NodePtr
deriving DecidableEq

/-- Finds from the end and erases. -/
def eraseLast (refs : List Reference) (ref : Reference) : List Reference :=
  (refs.reverse.erase ref).reverse

theorem mem_eraseLast {refs : List Reference} {ref r : Reference} (h : refs.Nodup) :
    r ∈ eraseLast refs ref ↔ r ∈ refs ∧ r ≠ ref := by
  rw [eraseLast, List.mem_reverse, (List.nodup_reverse.mpr h).mem_erase_iff, List.mem_reverse,
    and_comm]

theorem nodup_eraseLast {refs : List Reference} (ref : Reference) (h : refs.Nodup) :
    (eraseLast refs ref).Nodup :=
  List.nodup_reverse.mpr ((List.nodup_reverse.mpr h).erase ref)

theorem eraseLast_sublist (refs : List Reference) (ref : Reference) :
    (eraseLast refs ref).Sublist refs := by
  rw [eraseLast, ← List.reverse_sublist, List.reverse_reverse]
  exact List.erase_sublist

/-- `A` is the rest of what a node holds, its attributes. -/
structure Node (A : Type) where
  id : NodeId
  nodeClass : NodeClass
  attributes : A
  forwardReferences : List Reference := []
  inverseReferences : List Reference := []
  typeDefinition : Option NodePtr := none
  /-- Of a `TypeDefinition` only. -/
  supertype : Option NodePtr := none
deriving DecidableEq

variable {A : Type}

namespace Node

/-! ## §2  References of one node -/

def references (node : Node A) (forward : Bool) : List Reference :=
  if forward then node.forwardReferences else node.inverseReferences

def setReferences (node : Node A) (forward : Bool) (references : List Reference) : Node A :=
  if forward then { node with forwardReferences := references }
  else { node with inverseReferences := references }

section

variable (node : Node A) (ref : Reference) (forward : Bool)

/-- `Node::AddReference`, with the id of the reference type and the class of the
other node. -/
def addNodeReference (typeId : NodeId) (otherClass : NodeClass) : Option (Node A) := do
  check (ref ∉ node.references forward)
  let node := node.setReferences forward (node.references forward ++ [ref])
  if forward = true ∧ typeId = StandardId.hasTypeDefinition then
    check (node.typeDefinition = none)
    check (otherClass.isTypeDefinition = true)
    return { node with typeDefinition := some ref.node }
  return node

/-- `TypeDefinition::AddReference`, which overrides it for types. -/
def addReference (typeId : NodeId) (otherClass : NodeClass) : Option (Node A) := do
  let node ← node.addNodeReference ref forward typeId otherClass
  if node.nodeClass.isTypeDefinition = true ∧ forward = false ∧ typeId = StandardId.hasSubtype then
    check (node.supertype = none)
    check (otherClass.isTypeDefinition = true)
    return { node with supertype := some ref.node }
  return node

/-- `Node::DeleteReference`: the last reference that is equal goes. -/
def deleteNodeReference (typeId : NodeId) : Option (Node A) := do
  let node ←
    if forward = true ∧ typeId = StandardId.hasTypeDefinition then do
      check (node.typeDefinition = some ref.node)
      pure { node with typeDefinition := none }
    else pure node
  check (ref ∈ node.references forward)
  return node.setReferences forward (eraseLast (node.references forward) ref)

/-- `TypeDefinition::DeleteReference`, which overrides it for types. -/
def deleteReference (typeId : NodeId) : Option (Node A) := do
  let node ←
    if node.nodeClass.isTypeDefinition = true ∧ forward = false ∧
        typeId = StandardId.hasSubtype then do
      check (node.supertype = some ref.node)
      pure { node with supertype := none }
    else pure node
  node.deleteNodeReference ref forward typeId

end

/-- The rest of the node stays. -/
structure SameObject (node node' : Node A) : Prop where
  id : node'.id = node.id
  nodeClass : node'.nodeClass = node.nodeClass
  attributes : node'.attributes = node.attributes

theorem SameObject.refl (node : Node A) : SameObject node node :=
  ⟨rfl, rfl, rfl⟩

end Node

/-! ## §3  The heap -/

structure NodeHeap (A : Type) where
  nodes : NodePtr → Option (Node A)
  /-- The next address to allocate. -/
  next : NodePtr

namespace NodeHeap

def set (heap : NodeHeap A) (ptr : NodePtr) (node : Option (Node A)) : NodeHeap A :=
  { heap with nodes := Function.update heap.nodes ptr node }

def allocate (heap : NodeHeap A) (node : Node A) : NodeHeap A × NodePtr :=
  ({ nodes := Function.update heap.nodes heap.next (some node), next := heap.next + 1 }, heap.next)

/-- One half of an edge is put into the node `ptr`; a dangling pointer must not
be read. -/
def addHalf (heap : NodeHeap A) (type : NodePtr) (ptr : NodePtr) (forward : Bool)
    (other : NodePtr) : Option (NodeHeap A) := do
  let typeNode ← heap.nodes type
  let otherNode ← heap.nodes other
  let node ← heap.nodes ptr
  let node ← node.addReference ⟨type, other⟩ forward typeNode.id otherNode.nodeClass
  return heap.set ptr (some node)

def deleteHalf (heap : NodeHeap A) (type : NodePtr) (ptr : NodePtr) (forward : Bool)
    (other : NodePtr) : Option (NodeHeap A) := do
  let typeNode ← heap.nodes type
  let node ← heap.nodes ptr
  let node ← node.deleteReference ⟨type, other⟩ forward typeNode.id
  return heap.set ptr (some node)

/-- `AddressSpaceImpl::AddReference` up to its notifications. -/
def addReference (heap : NodeHeap A) (type source target : NodePtr) : Option (NodeHeap A) := do
  let heap ← heap.addHalf type source true target
  heap.addHalf type target false source

/-- `AddressSpaceImpl::DeleteReference` up to its notifications. -/
def deleteReference (heap : NodeHeap A) (type source target : NodePtr) : Option (NodeHeap A) := do
  let heap ← heap.deleteHalf type source true target
  heap.deleteHalf type target false source

/-- The walk along the supertypes, at most `fuel` of them. -/
def isSubtypeOfWalk (heap : NodeHeap A) (supertypeId : NodeId) : ℕ → NodePtr → Option Bool
  | 0, _ => none
  | fuel + 1, ptr => do
      let type ← heap.nodes ptr
      if type.id = supertypeId then return true
      match type.supertype with
      | none => return false
      | some supertype => heap.isSubtypeOfWalk supertypeId fuel supertype

/-- `IsSubtypeOf`; `none` when it reads a dangling pointer or has come by more
nodes than there are, and then never ends. -/
def isSubtypeOf (heap : NodeHeap A) (type : NodePtr) (supertypeId : NodeId) : Option Bool :=
  heap.isSubtypeOfWalk supertypeId (heap.next + 1) type

/-- The first of the references whose type is a subtype. -/
def findFirst (heap : NodeHeap A) (typeId : NodeId) : List Reference → Option (Option Reference)
  | [] => some none
  | ref :: refs => do
      if ← heap.isSubtypeOf ref.type typeId then return some ref
      heap.findFirst typeId refs

end NodeHeap

/-! ## §4  What one half of an edge changes -/

namespace Node

variable {node node' : Node A} {ref : Reference} {forward : Bool} {typeId : NodeId}
  {otherClass : NodeClass}

/-- The cache of one direction: the type definition is a forward reference, the
supertype an inverse one. -/
def cache (node : Node A) (forward : Bool) : Option NodePtr :=
  if forward then node.typeDefinition else node.supertype

/-- A node without references. -/
def IsBlank (node : Node A) : Prop :=
  ∀ forward, node.references forward = [] ∧ node.cache forward = none

/-- Which references a node of the class caches. -/
def Caches (nodeClass : NodeClass) (forward : Bool) (typeId : NodeId) : Prop :=
  if forward then typeId = StandardId.hasTypeDefinition
  else nodeClass.isTypeDefinition = true ∧ typeId = StandardId.hasSubtype

instance (nodeClass : NodeClass) (forward : Bool) (typeId : NodeId) :
    Decidable (Caches nodeClass forward typeId) := by
  unfold Caches
  infer_instance

/-- A reference is put into one direction of a node that does not have it, and
into the cache if that is empty. -/
structure Adds (node : Node A) (ref : Reference) (forward : Bool) (typeId : NodeId)
    (node' : Node A) : Prop where
  same : SameObject node node'
  fresh : ref ∉ node.references forward
  references : node'.references forward = node.references forward ++ [ref]
  others : node'.references (!forward) = node.references (!forward)
  wasEmpty : Caches node.nodeClass forward typeId → node.cache forward = none
  cache : node'.cache forward =
    if Caches node.nodeClass forward typeId then some ref.node else node.cache forward
  otherCache : node'.cache (!forward) = node.cache (!forward)

theorem addReference_spec
    (h : node.addReference ref forward typeId otherClass = some node') :
    node.Adds ref forward typeId node' := by
  obtain ⟨node₁, hbase, h⟩ := Option.bind_eq_some_iff.mp h
  obtain ⟨hfresh, hbase⟩ := check_bind_eq_some.mp hbase
  cases forward with
  | true =>
      obtain rfl : node₁ = node' := by simpa using h
      by_cases htype : typeId = StandardId.hasTypeDefinition
      · simp [htype, setReferences, references] at hbase
        obtain ⟨hnone, -, rfl⟩ := hbase
        exact ⟨⟨rfl, rfl, rfl⟩, hfresh, rfl, rfl, fun _ => hnone, by simp [cache, Caches, htype],
          rfl⟩
      · simp [htype, setReferences, references] at hbase
        subst hbase
        exact ⟨⟨rfl, rfl, rfl⟩, hfresh, rfl, rfl, by simp [Caches, htype],
          by simp [cache, Caches, htype], rfl⟩
  | false =>
      obtain rfl : node.setReferences false (node.references false ++ [ref]) = node₁ := by
        simpa using hbase
      by_cases hsub : node.nodeClass.isTypeDefinition = true ∧ typeId = StandardId.hasSubtype
      · simp [hsub, setReferences, references] at h
        obtain ⟨hnone, -, rfl⟩ := h
        exact ⟨⟨rfl, rfl, rfl⟩, hfresh, rfl, rfl, fun _ => hnone, by simp [cache, Caches, hsub], rfl⟩
      · simp [hsub, setReferences, references] at h
        subst h
        exact ⟨⟨rfl, rfl, rfl⟩, hfresh, rfl, rfl, by simp [Caches, hsub],
          by simp [cache, Caches, hsub], rfl⟩

/-- A reference is taken out of one direction of a node, and out of the cache. -/
structure Deletes (node : Node A) (ref : Reference) (forward : Bool) (typeId : NodeId)
    (node' : Node A) : Prop where
  same : SameObject node node'
  present : ref ∈ node.references forward
  references : node'.references forward = eraseLast (node.references forward) ref
  others : node'.references (!forward) = node.references (!forward)
  wasCached : Caches node.nodeClass forward typeId → node.cache forward = some ref.node
  cache : node'.cache forward =
    if Caches node.nodeClass forward typeId then none else node.cache forward
  otherCache : node'.cache (!forward) = node.cache (!forward)

theorem deleteReference_spec
    (h : node.deleteReference ref forward typeId = some node') :
    node.Deletes ref forward typeId node' := by
  cases forward with
  | true =>
      by_cases htype : typeId = StandardId.hasTypeDefinition
      · simp [deleteReference, deleteNodeReference, htype, setReferences, references] at h
        obtain ⟨hwas, hpresent, rfl⟩ := h
        exact ⟨⟨rfl, rfl, rfl⟩, hpresent, rfl, rfl, fun _ => hwas, by simp [cache, Caches, htype],
          rfl⟩
      · simp [deleteReference, deleteNodeReference, htype, setReferences, references] at h
        obtain ⟨hpresent, rfl⟩ := h
        exact ⟨⟨rfl, rfl, rfl⟩, hpresent, rfl, rfl, by simp [Caches, htype],
          by simp [cache, Caches, htype], rfl⟩
  | false =>
      by_cases hsub : node.nodeClass.isTypeDefinition = true ∧ typeId = StandardId.hasSubtype
      · simp [deleteReference, deleteNodeReference, hsub, setReferences, references] at h
        obtain ⟨hwas, hpresent, rfl⟩ := h
        exact ⟨⟨rfl, rfl, rfl⟩, hpresent, rfl, rfl, fun _ => hwas, by simp [cache, Caches, hsub],
          rfl⟩
      · simp [deleteReference, deleteNodeReference, hsub, setReferences, references] at h
        obtain ⟨hpresent, rfl⟩ := h
        exact ⟨⟨rfl, rfl, rfl⟩, hpresent, rfl, rfl, by simp [Caches, hsub],
          by simp [cache, Caches, hsub], rfl⟩

/-- The checks pass for a reference that is there and where it has to be cached. -/
theorem exists_deleteReference (hpresent : ref ∈ node.references forward)
    (hcached : Caches node.nodeClass forward typeId → node.cache forward = some ref.node) :
    ∃ node', node.deleteReference ref forward typeId = some node' := by
  cases forward with
  | true =>
      by_cases htype : typeId = StandardId.hasTypeDefinition
      · have hwas : node.typeDefinition = some ref.node := hcached (by simp [Caches, htype])
        have hmem : ref ∈ node.forwardReferences := hpresent
        simp [deleteReference, deleteNodeReference, htype, hwas, check, references, hmem]
      · have hmem : ref ∈ node.forwardReferences := hpresent
        simp [deleteReference, deleteNodeReference, htype, check, references, hmem]
  | false =>
      have hmem : ref ∈ node.inverseReferences := hpresent
      by_cases hsub : node.nodeClass.isTypeDefinition = true ∧ typeId = StandardId.hasSubtype
      · have hwas : node.supertype = some ref.node := hcached (by simp [Caches, hsub])
        simp [deleteReference, deleteNodeReference, hsub, hwas, check, references, hmem]
      · simp [deleteReference, deleteNodeReference, hsub, check, references, hmem]

end Node

end ScadaCommon.AddressSpace
