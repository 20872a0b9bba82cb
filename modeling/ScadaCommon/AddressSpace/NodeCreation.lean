import ScadaCommon.AddressSpace.DeclaredProperties

/-!
# Creating nodes

What the steps of `CreateNode` do to a space, and when they succeed.

§1 steps on the heap · §2 steps on the spaces.
-/

namespace ScadaCommon.AddressSpace

open Foundation

/-! ## §1  Steps on the heap -/

/-- An inverse reference that is no supertype changes no outline. -/
theorem Node.Adds.outline {A : Type} {node node' : Node A} {ref : Reference} {typeId : NodeId}
    (h : node.Adds ref false typeId node') (htype : typeId ≠ StandardId.hasSubtype) :
    node'.outline = node.outline := by
  have hsupertype : node'.supertype = node.supertype := by
    have hcache := h.cache
    rwa [if_neg (by simp [Node.Caches, htype])] at hcache
  have hforward : node'.forwardReferences = node.forwardReferences := h.others
  have hdefinition : node'.typeDefinition = node.typeDefinition := h.otherCache
  simp only [Node.outline, h.same.id, h.same.nodeClass, h.same.attributes, hforward, hsupertype,
    hdefinition]

namespace NodeHeap

section

variable {A : Type} {heap heap' : NodeHeap A} {type source target : NodePtr}

theorem addHalf_sameObjects {ptr other : NodePtr} {forward : Bool}
    (h : heap.addHalf type ptr forward other = some heap') : SameObjects heap heap' := by
  obtain ⟨typeNode, node, node', -, -, hnode, hadds, rfl⟩ := addHalf_eq_some h
  exact sameObjects_set hnode hadds.same

theorem addReference_sameObjects (h : heap.addReference type source target = some heap') :
    SameObjects heap heap' := by
  obtain ⟨heap₁, hsource, htarget⟩ := Option.bind_eq_some_iff.mp h
  exact (addHalf_sameObjects hsource).trans (addHalf_sameObjects htarget)

theorem outline_set {ptr q : NodePtr} {node : Node A} :
    (heap.set ptr (some node)).outline q =
      if q = ptr then some node.outline else heap.outline q := by
  rw [NodeHeap.outline, nodes_set]
  split <;> rfl

/-- A reference from a new node is not seen by the old ones. -/
theorem Agrees.addReference {first : NodeHeap A} (hagrees : first.Agrees heap)
    (h : heap.addReference type source target = some heap') (hsource : first.next ≤ source)
    (htype : heap.idOf type ≠ some StandardId.hasSubtype ∨ first.next ≤ target) :
    first.Agrees heap' := by
  have hsame := addReference_sameObjects h
  obtain ⟨heap₁, hsourceHalf, htargetHalf⟩ := Option.bind_eq_some_iff.mp h
  have hsame₁ := addHalf_sameObjects hsourceHalf
  obtain ⟨-, node, node', -, -, hnode, hadds, rfl⟩ := addHalf_eq_some hsourceHalf
  obtain ⟨typeNode, other, other', htypeNode, -, hother, hadds', rfl⟩ := addHalf_eq_some htargetHalf
  refine ⟨hsame.next ▸ hagrees.next, fun ptr hptr => ?_⟩
  have hfirst : (heap.set source (some node')).outline ptr = first.outline ptr := by
    rw [outline_set, if_neg (hptr.trans_le hsource).ne]
    exact hagrees.outline ptr hptr
  rw [outline_set]
  split
  · rename_i heq
    subst heq
    rcases htype with htype | htarget
    · have hid : typeNode.id ≠ StandardId.hasSubtype := by
        rw [← hsame₁.idOf, NodeHeap.idOf, htypeNode] at htype
        simpa using htype
      rw [hadds'.outline hid, ← hfirst, NodeHeap.outline, hother, Option.map_some]
    · exact absurd hptr htarget.not_gt
  · exact hfirst

end

variable {V : Type} {heap heap' : NodeHeap (NodeData V)} {type source target : NodePtr}

/-- A reference to a node that was allocated. -/
theorem Bounded.addHalf (hbounded : heap.Bounded) {ptr other : NodePtr} {forward : Bool}
    (h : heap.addHalf type ptr forward other = some heap') : heap'.Bounded := by
  obtain ⟨typeNode, node, node', htype, hother, hnode, hadds, rfl⟩ := addHalf_eq_some h
  obtain ⟨otherNode, hother⟩ := alive_iff.mp hother
  have hnew : type < heap.next ∧ other < heap.next :=
    ⟨hbounded.allocated type typeNode htype, hbounded.allocated other otherNode hother⟩
  have hcases : ∀ q qnode, (heap.set ptr (some node')).nodes q = some qnode →
      (q = ptr ∧ qnode = node') ∨ heap.nodes q = some qnode := by
    intro q qnode hq
    rw [nodes_set] at hq
    split at hq
    · rename_i heq
      exact .inl ⟨heq, (Option.some.inj hq).symm⟩
    · exact .inr hq
  constructor
  case allocated =>
    intro q qnode hq
    rcases hcases q qnode hq with ⟨rfl, rfl⟩ | hq
    · exact hbounded.allocated q node hnode
    · exact hbounded.allocated q qnode hq
  case supertype =>
    intro q qnode hq supertype hsuper
    rcases hcases q qnode hq with ⟨rfl, rfl⟩ | hq
    · have hold := hbounded.supertype q node hnode supertype
      cases forward with
      | true => exact hold (hadds.otherCache.symm.trans hsuper)
      | false =>
          have hcache := hadds.cache.symm.trans hsuper
          split at hcache
          · cases hcache
            exact hnew.2
          · exact hold hcache
    · exact hbounded.supertype q qnode hq supertype hsuper
  case references =>
    intro q qnode hq ref href
    rcases hcases q qnode hq with ⟨rfl, rfl⟩ | hq
    · have hold := hbounded.references q node hnode ref
      cases forward with
      | true =>
          have hforward : qnode.forwardReferences = node.forwardReferences ++ [⟨type, other⟩] :=
            hadds.references
          rw [hforward, List.mem_append, List.mem_singleton] at href
          rcases href with href | rfl
          · exact hold href
          · exact hnew
      | false =>
          have hforward : qnode.forwardReferences = node.forwardReferences := hadds.others
          exact hold (hforward ▸ href)
    · exact hbounded.references q qnode hq ref href
  case dataType =>
    intro q qnode hq dataType hdataType
    rcases hcases q qnode hq with ⟨rfl, rfl⟩ | hq
    · exact hbounded.dataType q node hnode dataType (hadds.same.attributes ▸ hdataType)
    · exact hbounded.dataType q qnode hq dataType hdataType

theorem Bounded.addReference (hbounded : heap.Bounded)
    (h : heap.addReference type source target = some heap') : heap'.Bounded := by
  obtain ⟨heap₁, hsource, htarget⟩ := Option.bind_eq_some_iff.mp h
  exact (hbounded.addHalf hsource).addHalf htarget

/-- A forward reference was there before, or leads to the new target. -/
theorem forwardReferences_of_addReference {A : Type} {heap heap' : NodeHeap A}
    (h : heap.addReference type source target = some heap') {ptr : NodePtr} {node : Node A}
    (hnode : heap'.nodes ptr = some node) {ref : Reference} (href : ref ∈ node.forwardReferences) :
    (∃ before, heap.nodes ptr = some before ∧ ref ∈ before.forwardReferences) ∨
      ∃ targetNode, heap.nodes ref.node = some targetNode := by
  obtain ⟨heap₁, hsource, htarget⟩ := Option.bind_eq_some_iff.mp h
  obtain ⟨_, sourceNode, sourceNode', -, hother, hsourceNode, hadds, rfl⟩ := addHalf_eq_some hsource
  obtain ⟨_, targetNode, targetNode', -, -, htargetNode, hadds', rfl⟩ := addHalf_eq_some htarget
  have hforward : targetNode'.forwardReferences = targetNode.forwardReferences := hadds'.others
  have hfirst : ∀ q qnode, (heap.set source (some sourceNode')).nodes q = some qnode →
      ref ∈ qnode.forwardReferences →
      (∃ before, heap.nodes q = some before ∧ ref ∈ before.forwardReferences) ∨
        ∃ targetNode, heap.nodes ref.node = some targetNode := by
    intro q qnode hq hmem
    rw [nodes_set] at hq
    split at hq
    · rename_i heq
      cases hq
      have hreferences : sourceNode'.forwardReferences =
          sourceNode.forwardReferences ++ [⟨type, target⟩] := hadds.references
      rw [hreferences, List.mem_append, List.mem_singleton] at hmem
      rcases hmem with hmem | rfl
      · exact .inl ⟨sourceNode, heq ▸ hsourceNode, hmem⟩
      · exact .inr (alive_iff.mp hother)
    · exact .inl ⟨qnode, hq, hmem⟩
  rw [nodes_set] at hnode
  split at hnode
  · rename_i heq
    cases hnode
    exact heq ▸ hfirst target targetNode htargetNode (hforward ▸ href)
  · exact hfirst ptr node hnode href

/-- A new node without references. -/
theorem Bounded.allocate (hbounded : heap.Bounded) {node : Node (NodeData V)}
    (hforward : node.forwardReferences = []) (hsupertype : node.supertype = none)
    (hdataType : ∀ other, node.attributes.dataType = some other → other < heap.next) :
    (heap.allocate node).1.Bounded := by
  have hcases : ∀ q qnode, (heap.allocate node).1.nodes q = some qnode →
      (q = heap.next ∧ qnode = node) ∨ heap.nodes q = some qnode := by
    intro q qnode hq
    simp only [NodeHeap.allocate, Function.update_apply] at hq
    split at hq
    · rename_i heq
      exact .inl ⟨heq, (Option.some.inj hq).symm⟩
    · exact .inr hq
  constructor
  case allocated =>
    intro q qnode hq
    rcases hcases q qnode hq with ⟨rfl, rfl⟩ | hq
    · exact Nat.lt_succ_self _
    · exact Nat.lt_succ_of_lt (hbounded.allocated q qnode hq)
  case supertype =>
    intro q qnode hq supertype hsuper
    rcases hcases q qnode hq with ⟨rfl, rfl⟩ | hq
    · rw [hsupertype] at hsuper
      cases hsuper
    · exact Nat.lt_succ_of_lt (hbounded.supertype q qnode hq supertype hsuper)
  case references =>
    intro q qnode hq ref href
    rcases hcases q qnode hq with ⟨rfl, rfl⟩ | hq
    · rw [hforward] at href
      cases href
    · have hold := hbounded.references q qnode hq ref href
      exact ⟨Nat.lt_succ_of_lt hold.1, Nat.lt_succ_of_lt hold.2⟩
  case dataType =>
    intro q qnode hq other hother
    rcases hcases q qnode hq with ⟨rfl, rfl⟩ | hq
    · exact Nat.lt_succ_of_lt (hdataType other hother)
    · exact Nat.lt_succ_of_lt (hbounded.dataType q qnode hq other hother)

end NodeHeap

/-! ## §2  Steps on the spaces -/

/-- The node map gives nodes that are there, under their ids. -/
structure WellFormed {V : Type} (spaces : Spaces V) : Prop where
  bounded : spaces.heap.Bounded
  mapped : ∀ place ptr, spaces.nodeMap place = some ptr → spaces.heap.idOf ptr = some place.2

variable {V : Type} {spaces spaces' : Spaces V} {type source target ptr : NodePtr} {id : NodeId}
  {nodeClass : NodeClass} {space : SpaceId} {chain : List SpaceId}

theorem WellFormed.lt_next (h : WellFormed spaces) {place : Place}
    (hplace : spaces.nodeMap place = some ptr) : ptr < spaces.heap.next := by
  obtain ⟨node, hnode, -⟩ := Option.map_eq_some_iff.mp (h.mapped place ptr hplace)
  exact h.bounded.allocated ptr node hnode

theorem getNode_eq_some (h : spaces.getNode chain id = some ptr) :
    ∃ space ∈ chain, spaces.nodeMap (space, id) = some ptr :=
  List.exists_of_findSome?_eq_some h

theorem WellFormed.getNode_lt (h : WellFormed spaces) (hnode : spaces.getNode chain id = some ptr) :
    ptr < spaces.heap.next := by
  obtain ⟨space, -, hplace⟩ := getNode_eq_some hnode
  exact h.lt_next hplace

/-- `AddReference` changes references. -/
theorem AddressSpaces.addReference_eq_some {A : Type} {spaces spaces' : AddressSpaces A}
    (h : spaces.addReference type source target = some spaces') :
    ∃ heap, spaces.heap.addReference type source target = some heap ∧
      spaces' = { spaces with heap } := by
  obtain ⟨heap, hheap, h⟩ := Option.bind_eq_some_iff.mp h
  obtain ⟨_, -, h⟩ := Option.bind_eq_some_iff.mp h
  cases h
  exact ⟨heap, hheap, rfl⟩

theorem WellFormed.addReference (hwell : WellFormed spaces)
    (h : spaces.addReference type source target = some spaces') : WellFormed spaces' := by
  obtain ⟨heap, hheap, rfl⟩ := AddressSpaces.addReference_eq_some h
  refine ⟨hwell.bounded.addReference hheap, fun place ptr hplace => ?_⟩
  rw [(NodeHeap.addReference_sameObjects hheap).idOf]
  exact hwell.mapped place ptr hplace

/-- `AddNode` takes an id that is free, for a new node. -/
theorem AddressSpaces.addNode_eq_some {A : Type} {spaces spaces' : AddressSpaces A}
    {attributes : A} {owned : Bool}
    (h : spaces.addNode chain space id nodeClass attributes owned = some spaces') :
    id ≠ .null ∧ spaces.getNode chain id = none ∧ spaces.nodeMap (space, id) = none ∧
      spaces'.heap = (spaces.heap.allocate { id, nodeClass, attributes }).1 ∧
      spaces'.nodeMap = Function.update spaces.nodeMap (space, id) (some spaces.heap.next) := by
  obtain ⟨hid, h⟩ := check_bind_eq_some.mp h
  obtain ⟨hfree, h⟩ := check_bind_eq_some.mp h
  obtain ⟨hplace, h⟩ := check_bind_eq_some.mp h
  cases h
  exact ⟨hid, hfree, hplace, rfl, rfl⟩

theorem WellFormed.addNode (hwell : WellFormed spaces) {data : NodeData V} {owned : Bool}
    (h : spaces.addNode chain space id nodeClass data owned = some spaces')
    (hdataType : ∀ other, data.dataType = some other → other < spaces.heap.next) :
    WellFormed spaces' := by
  obtain ⟨-, -, -, hheap, hmap⟩ := AddressSpaces.addNode_eq_some h
  constructor
  case bounded =>
    rw [hheap]
    exact hwell.bounded.allocate rfl rfl hdataType
  case mapped =>
    intro place ptr hplace
    rw [hmap, Function.update_apply] at hplace
    split at hplace
    · rename_i heq
      cases hplace
      rw [hheap, heq]
      simp [NodeHeap.idOf, NodeHeap.allocate]
    · have hlt := hwell.lt_next hplace
      rw [hheap, (NodeHeap.agrees_allocate spaces.heap _).idOf hlt]
      exact hwell.mapped place ptr hplace

end ScadaCommon.AddressSpace
