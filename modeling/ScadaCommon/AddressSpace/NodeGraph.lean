import Mathlib.Data.Set.Insert
import ScadaCommon.AddressSpace.Node

/-!
# The graph that a heap holds

An edge of the graph has two halves, one in each of its nodes. Operations on
nodes change halves; what they do to the graph is told by the set of edges that
the heap holds.

§1 edges and halves · §2 what stays · §3 one half · §4 an edge.
-/

namespace ScadaCommon.AddressSpace

/-! ## §1  Edges and halves -/

structure Edge where
  type : NodePtr
  source : NodePtr
  target : NodePtr
deriving DecidableEq

/-- A reference in the list of one direction of one node. -/
structure HalfEdge where
  node : NodePtr
  forward : Bool
  reference : Reference
deriving DecidableEq

namespace HalfEdge

def edge (half : HalfEdge) : Edge :=
  if half.forward then ⟨half.reference.type, half.node, half.reference.node⟩
  else ⟨half.reference.type, half.reference.node, half.node⟩

end HalfEdge

/-- Either half of an edge. -/
def Edge.half (edge : Edge) (forward : Bool) : HalfEdge :=
  if forward then ⟨edge.source, true, ⟨edge.type, edge.target⟩⟩
  else ⟨edge.target, false, ⟨edge.type, edge.source⟩⟩

@[simp] theorem Edge.edge_half (edge : Edge) (forward : Bool) : (edge.half forward).edge = edge := by
  cases forward <;> rfl

theorem HalfEdge.edge_eq_iff {half : HalfEdge} {edge : Edge} :
    half.edge = edge ↔ half = edge.half true ∨ half = edge.half false := by
  obtain ⟨node, forward, type, other⟩ := half
  obtain ⟨type', source, target⟩ := edge
  cases forward <;> simp [HalfEdge.edge, Edge.half] <;> tauto

variable {A : Type} {heap heap' heap'' : NodeHeap A}

/-! ## §2  What stays -/

namespace NodeHeap

def idOf (heap : NodeHeap A) (ptr : NodePtr) : Option NodeId :=
  (heap.nodes ptr).map Node.id

def classOf (heap : NodeHeap A) (ptr : NodePtr) : Option NodeClass :=
  (heap.nodes ptr).map Node.nodeClass

def attributesOf (heap : NodeHeap A) (ptr : NodePtr) : Option A :=
  (heap.nodes ptr).map Node.attributes

/-- The object is there. -/
def Alive (heap : NodeHeap A) (ptr : NodePtr) : Prop :=
  heap.idOf ptr ≠ none

theorem alive_iff {ptr : NodePtr} : heap.Alive ptr ↔ ∃ node, heap.nodes ptr = some node := by
  cases h : heap.nodes ptr <;> simp [Alive, idOf, h]

/-- The same objects, but for their references. -/
structure SameObjects (heap heap' : NodeHeap A) : Prop where
  idOf : heap'.idOf = heap.idOf
  classOf : heap'.classOf = heap.classOf
  attributesOf : heap'.attributesOf = heap.attributesOf
  next : heap'.next = heap.next

theorem SameObjects.trans (h : SameObjects heap heap') (h' : SameObjects heap' heap'') :
    SameObjects heap heap'' :=
  ⟨h'.idOf.trans h.idOf, h'.classOf.trans h.classOf, h'.attributesOf.trans h.attributesOf,
    h'.next.trans h.next⟩

theorem SameObjects.alive (h : SameObjects heap heap') {ptr : NodePtr} :
    heap'.Alive ptr ↔ heap.Alive ptr := by
  rw [Alive, h.idOf, Alive]

theorem sameObjects_set {ptr : NodePtr} {node node' : Node A} (hnode : heap.nodes ptr = some node)
    (hsame : Node.SameObject node node') : SameObjects heap (heap.set ptr (some node')) := by
  refine ⟨?_, ?_, ?_, rfl⟩ <;> funext q <;> by_cases hq : q = ptr
  all_goals simp [NodeHeap.idOf, NodeHeap.classOf, NodeHeap.attributesOf, set, hq, hnode, hsame.id,
    hsame.nodeClass, hsame.attributes]

/-! ## §3  One half -/

/-- The node caches the reference. -/
def IsCached (heap : NodeHeap A) (node : Node A) (forward : Bool) (ref : Reference) : Prop :=
  ∃ typeId, heap.idOf ref.type = some typeId ∧ Node.Caches node.nodeClass forward typeId

/-- The heap holds a set of halves, each once, and the caches of the nodes agree
with it. -/
structure Holds (heap : NodeHeap A) (halves : Set HalfEdge) : Prop where
  nodup : ∀ ptr node, heap.nodes ptr = some node → ∀ forward, (node.references forward).Nodup
  references : ∀ ptr node, heap.nodes ptr = some node → ∀ forward ref,
    ref ∈ node.references forward ↔ ⟨ptr, forward, ref⟩ ∈ halves
  alive : ∀ half ∈ halves, heap.Alive half.node
  cache : ∀ ptr node, heap.nodes ptr = some node → ∀ forward other,
    node.cache forward = some other ↔
      ∃ type, ⟨ptr, forward, ⟨type, other⟩⟩ ∈ halves ∧ heap.IsCached node forward ⟨type, other⟩
  cachedOnce : ∀ ptr node, heap.nodes ptr = some node → ∀ forward ref ref',
    ⟨ptr, forward, ref⟩ ∈ halves → ⟨ptr, forward, ref'⟩ ∈ halves →
      heap.IsCached node forward ref → heap.IsCached node forward ref' → ref = ref'

theorem nodes_set (heap : NodeHeap A) (ptr q : NodePtr) (node : Option (Node A)) :
    (heap.set ptr node).nodes q = if q = ptr then node else heap.nodes q := by
  simp [set, Function.update_apply]

end NodeHeap

theorem bool_eq_or_eq_not (a b : Bool) : a = b ∨ a = !b := by
  cases a <;> cases b <;> simp

namespace NodeHeap

variable {halves : Set HalfEdge} {type ptr other : NodePtr} {forward : Bool}

theorem addHalf_eq_some (hs : heap.addHalf type ptr forward other = some heap') :
    ∃ typeNode node node', heap.nodes type = some typeNode ∧ heap.Alive other ∧
      heap.nodes ptr = some node ∧ node.Adds ⟨type, other⟩ forward typeNode.id node' ∧
      heap' = heap.set ptr (some node') := by
  obtain ⟨typeNode, htype, hs⟩ := Option.bind_eq_some_iff.mp hs
  obtain ⟨otherNode, hother, hs⟩ := Option.bind_eq_some_iff.mp hs
  obtain ⟨node, hnode, hs⟩ := Option.bind_eq_some_iff.mp hs
  obtain ⟨node', hadd, hs⟩ := Option.bind_eq_some_iff.mp hs
  cases hs
  exact ⟨typeNode, node, node', htype, alive_iff.mpr ⟨otherNode, hother⟩, hnode,
    Node.addReference_spec hadd, rfl⟩

theorem deleteHalf_eq_some (hs : heap.deleteHalf type ptr forward other = some heap') :
    ∃ typeNode node node', heap.nodes type = some typeNode ∧ heap.nodes ptr = some node ∧
      node.Deletes ⟨type, other⟩ forward typeNode.id node' ∧ heap' = heap.set ptr (some node') := by
  obtain ⟨typeNode, htype, hs⟩ := Option.bind_eq_some_iff.mp hs
  obtain ⟨node, hnode, hs⟩ := Option.bind_eq_some_iff.mp hs
  obtain ⟨node', hdelete, hs⟩ := Option.bind_eq_some_iff.mp hs
  cases hs
  exact ⟨typeNode, node, node', htype, hnode, Node.deleteReference_spec hdelete, rfl⟩

theorem isCached_iff {node : Node A} {ref : Reference} {typeId : NodeId}
    (h : heap.idOf ref.type = some typeId) :
    heap.IsCached node forward ref ↔ Node.Caches node.nodeClass forward typeId := by
  simp [IsCached, h]

theorem SameObjects.isCached (h : SameObjects heap heap') {node node' : Node A}
    (hnode : Node.SameObject node node') {ref : Reference} :
    heap'.IsCached node' forward ref ↔ heap.IsCached node forward ref := by
  rw [IsCached, IsCached, h.idOf, hnode.nodeClass]

theorem Holds.addHalf (h : heap.Holds halves)
    (hs : heap.addHalf type ptr forward other = some heap') :
    SameObjects heap heap' ∧ ⟨ptr, forward, ⟨type, other⟩⟩ ∉ halves ∧
      heap'.Holds (insert ⟨ptr, forward, ⟨type, other⟩⟩ halves) := by
  obtain ⟨typeNode, node, node', htype, -, hnode, hadds, rfl⟩ := addHalf_eq_some hs
  have hsame := sameObjects_set hnode hadds.same
  have hcached : heap.IsCached node forward ⟨type, other⟩ ↔
      Node.Caches node.nodeClass forward typeNode.id := isCached_iff (by simp [idOf, htype])
  have hempty : heap.IsCached node forward ⟨type, other⟩ → ∀ ref,
      ⟨ptr, forward, ref⟩ ∈ halves → ¬ heap.IsCached node forward ref := by
    intro hnew ref hold href
    have hcache := (h.cache ptr node hnode forward ref.node).mpr ⟨ref.type, hold, href⟩
    rw [hadds.wasEmpty (hcached.mp hnew)] at hcache
    cases hcache
  refine ⟨hsame, ?_, ?_⟩
  · rw [← h.references ptr node hnode]
    exact hadds.fresh
  constructor
  case nodup =>
    intro q qnode hq f
    rw [nodes_set] at hq
    split at hq
    · obtain rfl := Option.some.inj hq
      rcases bool_eq_or_eq_not f forward with rfl | rfl
      · rw [hadds.references]
        exact (h.nodup ptr node hnode _).append (List.nodup_singleton _)
          (by simpa using hadds.fresh)
      · rw [hadds.others]
        exact h.nodup ptr node hnode _
    · exact h.nodup q qnode hq f
  case references =>
    intro q qnode hq f ref
    rw [nodes_set] at hq
    split at hq
    · rename_i hqp
      subst hqp
      obtain rfl := Option.some.inj hq
      rcases bool_eq_or_eq_not f forward with rfl | rfl
      · rw [hadds.references, List.mem_append, h.references q node hnode]
        simp [or_comm]
      · rw [hadds.others, h.references q node hnode]
        simp
    · rename_i hqp
      rw [h.references q qnode hq]
      simp [hqp]
  case alive =>
    rintro half (rfl | hhalf)
    · exact hsame.alive.mpr (alive_iff.mpr ⟨node, hnode⟩)
    · exact hsame.alive.mpr (h.alive half hhalf)
  case cache =>
    intro q qnode hq f o
    rw [nodes_set] at hq
    split at hq
    · rename_i hqp
      subst hqp
      obtain rfl := Option.some.inj hq
      simp only [hsame.isCached hadds.same]
      rcases bool_eq_or_eq_not f forward with rfl | rfl
      · rw [hadds.cache]
        split
        · rename_i hcaches
          constructor
          · intro ho
            obtain rfl : other = o := by simpa using ho
            exact ⟨type, .inl rfl, hcached.mpr hcaches⟩
          · rintro ⟨t, hnew | hold, ht⟩
            · cases hnew
              rfl
            · exact (hempty (hcached.mpr hcaches) _ hold ht).elim
        · rename_i hcaches
          rw [h.cache q node hnode]
          constructor
          · rintro ⟨t, hold, ht⟩
            exact ⟨t, .inr hold, ht⟩
          · rintro ⟨t, hnew | hold, ht⟩
            · cases hnew
              exact (hcaches (hcached.mp ht)).elim
            · exact ⟨t, hold, ht⟩
      · rw [hadds.otherCache, h.cache q node hnode]
        simp
    · rename_i hqp
      rw [h.cache q qnode hq]
      simp [hqp, hsame.isCached (Node.SameObject.refl qnode)]
  case cachedOnce =>
    intro q qnode hq f ref ref' href href'
    rw [nodes_set] at hq
    split at hq
    · rename_i hqp
      subst hqp
      obtain rfl := Option.some.inj hq
      simp only [hsame.isCached hadds.same]
      intro hc hc'
      rcases href with hnew | hold
      · cases hnew
        rcases href' with hnew' | hold'
        · cases hnew'
          rfl
        · exact (hempty hc ref' hold' hc').elim
      · rcases href' with hnew' | hold'
        · cases hnew'
          exact (hempty hc' ref hold hc).elim
        · exact h.cachedOnce q node hnode f ref ref' hold hold' hc hc'
    · rename_i hqp
      simp only [hsame.isCached (Node.SameObject.refl qnode)]
      exact h.cachedOnce q qnode hq f ref ref' (by simpa [hqp] using href)
        (by simpa [hqp] using href')

theorem Holds.deleteHalf (h : heap.Holds halves)
    (hs : heap.deleteHalf type ptr forward other = some heap') :
    SameObjects heap heap' ∧ ⟨ptr, forward, ⟨type, other⟩⟩ ∈ halves ∧
      heap'.Holds (halves \ {⟨ptr, forward, ⟨type, other⟩⟩}) := by
  obtain ⟨typeNode, node, node', htype, hnode, hdeletes, rfl⟩ := deleteHalf_eq_some hs
  have hsame := sameObjects_set hnode hdeletes.same
  have hcached : heap.IsCached node forward ⟨type, other⟩ ↔
      Node.Caches node.nodeClass forward typeNode.id := isCached_iff (by simp [idOf, htype])
  have hpresent := (h.references ptr node hnode _ _).mp hdeletes.present
  refine ⟨hsame, hpresent, ?_⟩
  constructor
  case nodup =>
    intro q qnode hq f
    rw [nodes_set] at hq
    split at hq
    · obtain rfl := Option.some.inj hq
      rcases bool_eq_or_eq_not f forward with rfl | rfl
      · rw [hdeletes.references]
        exact nodup_eraseLast _ (h.nodup ptr node hnode _)
      · rw [hdeletes.others]
        exact h.nodup ptr node hnode _
    · exact h.nodup q qnode hq f
  case references =>
    intro q qnode hq f ref
    rw [nodes_set] at hq
    split at hq
    · rename_i hqp
      subst hqp
      obtain rfl := Option.some.inj hq
      rcases bool_eq_or_eq_not f forward with rfl | rfl
      · rw [hdeletes.references, mem_eraseLast (h.nodup q node hnode _),
          h.references q node hnode]
        simp
      · rw [hdeletes.others, h.references q node hnode]
        simp
    · rename_i hqp
      rw [h.references q qnode hq]
      simp [hqp]
  case alive =>
    intro half hhalf
    exact hsame.alive.mpr (h.alive half hhalf.1)
  case cache =>
    intro q qnode hq f o
    rw [nodes_set] at hq
    split at hq
    · rename_i hqp
      subst hqp
      obtain rfl := Option.some.inj hq
      simp only [hsame.isCached hdeletes.same]
      rcases bool_eq_or_eq_not f forward with rfl | rfl
      · rw [hdeletes.cache]
        split
        · rename_i hcaches
          constructor
          · rintro ⟨⟩
          · rintro ⟨t, ⟨hold, hne⟩, ht⟩
            have heq := h.cachedOnce q node hnode f _ _ hold hpresent ht (hcached.mpr hcaches)
            exact (hne (by rw [heq]; rfl)).elim
        · rename_i hcaches
          rw [h.cache q node hnode]
          constructor
          · rintro ⟨t, hold, ht⟩
            refine ⟨t, ⟨hold, ?_⟩, ht⟩
            rintro heq
            cases heq
            exact hcaches (hcached.mp ht)
          · rintro ⟨t, ⟨hold, -⟩, ht⟩
            exact ⟨t, hold, ht⟩
      · rw [hdeletes.otherCache, h.cache q node hnode]
        simp
    · rename_i hqp
      rw [h.cache q qnode hq]
      simp [hqp, hsame.isCached (Node.SameObject.refl qnode)]
  case cachedOnce =>
    intro q qnode hq f ref ref' href href'
    rw [nodes_set] at hq
    split at hq
    · rename_i hqp
      subst hqp
      obtain rfl := Option.some.inj hq
      simp only [hsame.isCached hdeletes.same]
      exact h.cachedOnce q node hnode f ref ref' href.1 href'.1
    · simp only [hsame.isCached (Node.SameObject.refl qnode)]
      exact h.cachedOnce q qnode hq f ref ref' href.1 href'.1

/-! ## §4  An edge -/

/-- Both halves of every edge. -/
def halvesOf (edges : Set Edge) : Set HalfEdge :=
  {half | half.edge ∈ edges}

theorem halvesOf_insert (edge : Edge) (edges : Set Edge) :
    halvesOf (insert edge edges) =
      insert (edge.half false) (insert (edge.half true) (halvesOf edges)) := by
  ext half
  simp only [halvesOf, Set.mem_insert_iff, Set.mem_ofPred_eq, HalfEdge.edge_eq_iff]
  tauto

theorem halvesOf_sdiff (edge : Edge) (edges : Set Edge) :
    halvesOf (edges \ {edge}) =
      (halvesOf edges \ {edge.half true}) \ {edge.half false} := by
  ext half
  simp only [halvesOf, Set.mem_sdiff, Set.mem_singleton_iff, Set.mem_ofPred_eq, HalfEdge.edge_eq_iff]
  tauto

/-- The heap holds the two halves of every edge and nothing else, and the type
of every edge. -/
structure Represents (heap : NodeHeap A) (edges : Set Edge) : Prop where
  holds : heap.Holds (halvesOf edges)
  alive : ∀ edge ∈ edges, heap.Alive edge.type
  bounded : ∀ ptr, heap.Alive ptr → ptr < heap.next

variable {edges : Set Edge} {source target : NodePtr}

/-- **Adding a reference inserts an edge** that was not there. -/
theorem Represents.addReference (h : heap.Represents edges)
    (hs : heap.addReference type source target = some heap') :
    SameObjects heap heap' ∧ ⟨type, source, target⟩ ∉ edges ∧
      heap'.Represents (insert ⟨type, source, target⟩ edges) := by
  obtain ⟨heap₁, hsource, htarget⟩ := Option.bind_eq_some_iff.mp hs
  obtain ⟨hsame, hfresh, hholds⟩ := h.holds.addHalf hsource
  obtain ⟨hsame', -, hholds'⟩ := hholds.addHalf htarget
  have hsame := hsame.trans hsame'
  refine ⟨hsame, hfresh, ⟨?_, ?_, ?_⟩⟩
  · rw [halvesOf_insert]
    exact hholds'
  · rintro edge (rfl | hedge)
    · obtain ⟨typeNode, -, -, htype, -⟩ := addHalf_eq_some hsource
      exact hsame.alive.mpr (alive_iff.mpr ⟨typeNode, htype⟩)
    · exact hsame.alive.mpr (h.alive edge hedge)
  · intro ptr hptr
    rw [hsame.next]
    exact h.bounded ptr (hsame.alive.mp hptr)

/-- **Deleting a reference erases an edge** that was there. -/
theorem Represents.deleteReference (h : heap.Represents edges)
    (hs : heap.deleteReference type source target = some heap') :
    SameObjects heap heap' ∧ ⟨type, source, target⟩ ∈ edges ∧
      heap'.Represents (edges \ {⟨type, source, target⟩}) := by
  obtain ⟨heap₁, hsource, htarget⟩ := Option.bind_eq_some_iff.mp hs
  obtain ⟨hsame, hpresent, hholds⟩ := h.holds.deleteHalf hsource
  obtain ⟨hsame', -, hholds'⟩ := hholds.deleteHalf htarget
  have hsame := hsame.trans hsame'
  refine ⟨hsame, hpresent, ⟨?_, ?_, ?_⟩⟩
  · rw [halvesOf_sdiff]
    exact hholds'
  · rintro edge ⟨hedge, -⟩
    exact hsame.alive.mpr (h.alive edge hedge)
  · intro ptr hptr
    rw [hsame.next]
    exact h.bounded ptr (hsame.alive.mp hptr)

/-- The edges that start in the nodes of a heap. -/
def edgeSet (heap : NodeHeap A) : Set Edge :=
  {edge | ∃ node, heap.nodes edge.source = some node ∧
    ⟨edge.type, edge.target⟩ ∈ node.forwardReferences}

theorem Represents.edgeSet_eq (h : heap.Represents edges) : heap.edgeSet = edges := by
  ext edge
  constructor
  · rintro ⟨node, hnode, href⟩
    exact (h.holds.references edge.source node hnode true _).mp href
  · intro hedge
    obtain ⟨node, hnode⟩ := alive_iff.mp
      (h.holds.alive (edge.half true) (by simpa [halvesOf] using hedge))
    exact ⟨node, hnode, (h.holds.references edge.source node hnode true _).mpr hedge⟩

theorem Holds.exists_deleteHalf (h : heap.Holds halves) {half : HalfEdge} (hhalf : half ∈ halves)
    (htype : heap.Alive half.reference.type) :
    ∃ heap', heap.deleteHalf half.reference.type half.node half.forward half.reference.node =
      some heap' := by
  obtain ⟨typeNode, htypeNode⟩ := alive_iff.mp htype
  obtain ⟨node, hnode⟩ := alive_iff.mp (h.alive half hhalf)
  have hpresent := (h.references half.node node hnode half.forward half.reference).mpr hhalf
  have hid : heap.idOf half.reference.type = some typeNode.id := by
    rw [idOf, htypeNode]
    rfl
  have hcached : Node.Caches node.nodeClass half.forward typeNode.id →
      node.cache half.forward = some half.reference.node := fun hcaches =>
    (h.cache half.node node hnode half.forward half.reference.node).mpr
      ⟨half.reference.type, hhalf, typeNode.id, hid, hcaches⟩
  obtain ⟨node', hnode'⟩ := Node.exists_deleteReference hpresent hcached
  refine ⟨heap.set half.node (some node'), Option.bind_eq_some_iff.mpr ⟨typeNode, htypeNode, ?_⟩⟩
  refine Option.bind_eq_some_iff.mpr ⟨node, hnode, ?_⟩
  exact Option.bind_eq_some_iff.mpr ⟨node', hnode', rfl⟩

/-- An edge that is there can be deleted. -/
theorem Represents.exists_deleteReference (h : heap.Represents edges) {edge : Edge}
    (hedge : edge ∈ edges) :
    ∃ heap', heap.deleteReference edge.type edge.source edge.target = some heap' := by
  have hhalf : ∀ forward, edge.half forward ∈ halvesOf edges := fun forward => by
    simpa [halvesOf] using hedge
  obtain ⟨between, hbetween⟩ := h.holds.exists_deleteHalf (hhalf true) (h.alive edge hedge)
  obtain ⟨hsame, -, hholds⟩ := h.holds.deleteHalf hbetween
  have hleft : edge.half false ∈ halvesOf edges \ {edge.half true} := by
    refine ⟨hhalf false, fun heq => ?_⟩
    cases congrArg HalfEdge.forward heq
  obtain ⟨heap', hheap'⟩ := hholds.exists_deleteHalf hleft (hsame.alive.mpr (h.alive edge hedge))
  exact ⟨heap', Option.bind_eq_some_iff.mpr ⟨between, hbetween, hheap'⟩⟩

/-- What is left of the references of a node stays in order. -/
def KeepsOrder (heap heap' : NodeHeap A) : Prop :=
  ∀ ptr node', heap'.nodes ptr = some node' →
    ∃ node, heap.nodes ptr = some node ∧ node'.forwardReferences.Sublist node.forwardReferences

theorem KeepsOrder.trans {heap'' : NodeHeap A} (h : KeepsOrder heap heap')
    (h' : KeepsOrder heap' heap'') : KeepsOrder heap heap'' := by
  intro ptr node'' hnode''
  obtain ⟨node', hnode', hsub'⟩ := h' ptr node'' hnode''
  obtain ⟨node, hnode, hsub⟩ := h ptr node' hnode'
  exact ⟨node, hnode, hsub'.trans hsub⟩

theorem keepsOrder_of_deleteHalf {type ptr other : NodePtr} {forward : Bool}
    (hs : heap.deleteHalf type ptr forward other = some heap') : KeepsOrder heap heap' := by
  obtain ⟨typeNode, node, node', -, hnode, hdeletes, rfl⟩ := deleteHalf_eq_some hs
  intro q qnode hq
  rw [nodes_set] at hq
  split at hq
  · rename_i heq
    cases hq
    subst heq
    refine ⟨node, hnode, ?_⟩
    cases forward with
    | true =>
        have hrefs : node'.forwardReferences = eraseLast node.forwardReferences ⟨type, other⟩ :=
          hdeletes.references
        rw [hrefs]
        exact eraseLast_sublist _ _
    | false =>
        have hrefs : node'.forwardReferences = node.forwardReferences := hdeletes.others
        rw [hrefs]
  · exact ⟨qnode, hq, List.Sublist.refl _⟩

theorem keepsOrder_of_deleteReference {type source target : NodePtr}
    (hs : heap.deleteReference type source target = some heap') : KeepsOrder heap heap' := by
  obtain ⟨between, hsource, htarget⟩ := Option.bind_eq_some_iff.mp hs
  exact (keepsOrder_of_deleteHalf hsource).trans (keepsOrder_of_deleteHalf htarget)

theorem mem_edgeSet_of_deleteHalf {type ptr other : NodePtr} {forward : Bool}
    (hs : heap.deleteHalf type ptr forward other = some heap') {edge : Edge}
    (hedge : edge ∈ heap.edgeSet) (hne : forward = true → edge ≠ ⟨type, ptr, other⟩) :
    edge ∈ heap'.edgeSet := by
  obtain ⟨typeNode, node, node', -, hnode, hdeletes, rfl⟩ := deleteHalf_eq_some hs
  obtain ⟨source, hsource, href⟩ := hedge
  by_cases heq : edge.source = ptr
  · subst heq
    obtain rfl := Option.some_inj.mp (hnode.symm.trans hsource)
    refine ⟨node', by rw [nodes_set, if_pos rfl], ?_⟩
    cases forward with
    | true =>
        have hrefs : node'.forwardReferences = eraseLast node.forwardReferences ⟨type, other⟩ :=
          hdeletes.references
        have hne' : (⟨edge.type, edge.target⟩ : Reference) ≠ ⟨type, other⟩ := by
          intro heq
          cases heq
          exact hne rfl rfl
        rw [hrefs, eraseLast, List.mem_reverse, List.mem_erase_of_ne hne', List.mem_reverse]
        exact href
    | false =>
        have hrefs : node'.forwardReferences = node.forwardReferences := hdeletes.others
        rw [hrefs]
        exact href
  · exact ⟨source, by rw [nodes_set, if_neg heq, hsource], href⟩

/-- The other edges stay, whatever the heap holds. -/
theorem mem_edgeSet_of_deleteReference (hs : heap.deleteReference type source target = some heap')
    {edge : Edge} (hedge : edge ∈ heap.edgeSet) (hne : edge ≠ ⟨type, source, target⟩) :
    edge ∈ heap'.edgeSet := by
  obtain ⟨between, hsource, htarget⟩ := Option.bind_eq_some_iff.mp hs
  have hbetween := mem_edgeSet_of_deleteHalf hsource hedge fun _ => hne
  exact mem_edgeSet_of_deleteHalf htarget hbetween fun hforward => by cases hforward

/-- An object that no edge meets may come or go. -/
theorem Represents.alone (h : heap.Represents edges) {node : Node A}
    (hnode : heap.nodes ptr = some node) :
    (∀ forward, node.references forward = []) ↔
      ∀ edge ∈ edges, edge.source ≠ ptr ∧ edge.target ≠ ptr := by
  constructor
  · intro hempty edge hedge
    constructor
    · rintro rfl
      have hmem := (h.holds.references edge.source node hnode true ⟨edge.type, edge.target⟩).mpr hedge
      rw [hempty] at hmem
      cases hmem
    · rintro rfl
      have hmem := (h.holds.references edge.target node hnode false ⟨edge.type, edge.source⟩).mpr hedge
      rw [hempty] at hmem
      cases hmem
  · intro hedges forward
    refine List.eq_nil_iff_forall_not_mem.mpr fun ref href => ?_
    have hedge := (h.holds.references ptr node hnode forward ref).mp href
    cases forward
    · exact (hedges _ hedge).2 rfl
    · exact (hedges _ hedge).1 rfl

/-- No edge has anything to do with the address. -/
def Untouched (edges : Set Edge) (ptr : NodePtr) : Prop :=
  ∀ edge ∈ edges, edge.type ≠ ptr ∧ edge.source ≠ ptr ∧ edge.target ≠ ptr

theorem Represents.replace (h : heap.Represents edges) (huntouched : Untouched edges ptr)
    {blank : Option (Node A)} (hblank : ∀ node ∈ blank, Node.IsBlank node) {next : NodePtr}
    (hnext : heap.next ≤ next) (hptr : blank ≠ none → ptr < next) :
    Represents { nodes := Function.update heap.nodes ptr blank, next } edges := by
  have hid : ∀ q, q ≠ ptr →
      idOf { nodes := Function.update heap.nodes ptr blank, next } q = heap.idOf q := by
    intro q hq
    simp [idOf, hq]
  have halive : ∀ q, q ≠ ptr → (Alive { nodes := Function.update heap.nodes ptr blank, next } q ↔
      heap.Alive q) := by
    intro q hq
    rw [Alive, hid q hq, Alive]
  have hnodes : ∀ q node, Function.update heap.nodes ptr blank q = some node →
      (q = ptr ∧ node.IsBlank) ∨ (q ≠ ptr ∧ heap.nodes q = some node) := by
    intro q node hnode
    by_cases hq : q = ptr
    · subst hq
      rw [Function.update_self] at hnode
      exact .inl ⟨rfl, hblank node hnode⟩
    · rw [Function.update_of_ne hq] at hnode
      exact .inr ⟨hq, hnode⟩
  have hhalf : ∀ forward ref, ⟨ptr, forward, ref⟩ ∉ halvesOf edges := by
    intro forward ref hedge
    obtain ⟨-, hsource, htarget⟩ := huntouched _ hedge
    cases forward
    · exact htarget rfl
    · exact hsource rfl
  have hcached : ∀ q node forward ref, q ≠ ptr → ⟨q, forward, ref⟩ ∈ halvesOf edges →
      (IsCached { nodes := Function.update heap.nodes ptr blank, next } node forward ref ↔
        heap.IsCached node forward ref) := by
    intro q node forward ref hq hedge
    have htype : ref.type ≠ ptr := by
      have htype := (huntouched _ hedge).1
      cases forward <;> exact htype
    rw [IsCached, hid ref.type htype, IsCached]
  refine ⟨?_, ?_, ?_⟩
  · constructor
    case nodup =>
      intro q node hnode forward
      rcases hnodes q node hnode with ⟨-, hblank⟩ | ⟨-, hold⟩
      · rw [(hblank forward).1]
        exact List.nodup_nil
      · exact h.holds.nodup q node hold forward
    case references =>
      intro q node hnode forward ref
      rcases hnodes q node hnode with ⟨rfl, hblank⟩ | ⟨-, hold⟩
      · simp [(hblank forward).1, hhalf]
      · exact h.holds.references q node hold forward ref
    case alive =>
      intro half hedge
      have hne : half.node ≠ ptr := by
        rintro rfl
        exact hhalf half.forward half.reference hedge
      exact (halive half.node hne).mpr (h.holds.alive half hedge)
    case cache =>
      intro q node hnode forward other
      rcases hnodes q node hnode with ⟨rfl, hblank⟩ | ⟨hq, hold⟩
      · simp [(hblank forward).2, hhalf]
      · rw [h.holds.cache q node hold]
        refine exists_congr fun type => and_congr_right fun hedge => ?_
        exact (hcached q node forward _ hq hedge).symm
    case cachedOnce =>
      intro q node hnode forward ref ref' href href'
      rcases hnodes q node hnode with ⟨rfl, -⟩ | ⟨hq, hold⟩
      · exact (hhalf forward ref href).elim
      · rw [hcached q node forward ref hq href, hcached q node forward ref' hq href']
        exact h.holds.cachedOnce q node hold forward ref ref' href href'
  · intro edge hedge
    exact (halive edge.type (huntouched edge hedge).1).mpr (h.alive edge hedge)
  · intro q hq
    by_cases hqp : q = ptr
    · subst hqp
      refine hptr ?_
      rintro rfl
      simp [Alive, idOf] at hq
    · exact (h.bounded q ((halive q hqp).mp hq)).trans_le hnext

/-- A new object. -/
theorem Represents.allocate (h : heap.Represents edges) {node : Node A} (hblank : node.IsBlank) :
    (heap.allocate node).1.Represents edges := by
  have hdead : ¬ heap.Alive heap.next := fun halive => (h.bounded _ halive).false
  refine h.replace (fun edge hedge => ⟨?_, ?_, ?_⟩) ?_ (Nat.le_succ _) fun _ => Nat.lt_succ_self _
  · rintro heq
    exact hdead (heq ▸ h.alive edge hedge)
  · rintro heq
    exact hdead (heq ▸ h.holds.alive (edge.half true) (by simpa [halvesOf] using hedge))
  · rintro heq
    exact hdead (heq ▸ h.holds.alive (edge.half false) (by simpa [halvesOf] using hedge))
  · intro node' hnode'
    cases hnode'
    exact hblank

/-- The end of an object. -/
theorem Represents.free (h : heap.Represents edges) (huntouched : Untouched edges ptr) :
    (heap.set ptr none).Represents edges := by
  refine h.replace huntouched ?_ le_rfl ?_
  · rintro node ⟨⟩
  · exact fun hne => (hne rfl).elim

end NodeHeap

end ScadaCommon.AddressSpace
