import Mathlib.Logic.Relation
import ScadaCommon.AddressSpace.SoundSpaces

/-!
# What is seen of a space

The addresses of nodes depend on the order in which they were created. What is
seen of a space from outside does not mention them: for each id a node, and the
references as triples of ids.

§1 the view · §2 spaces with an index · §3 caches · §4 supertypes · §5 growing.
-/

namespace ScadaCommon.AddressSpace

open Foundation Relation

variable {V : Type}

/-! ## §1  The view -/

structure NodeView (V : Type) where
  nodeClass : NodeClass
  browseName : QualifiedName
  displayName : String
  inverseName : String
  dataType : Option NodeId
  value : V
deriving DecidableEq

structure Triple where
  typeId : NodeId
  sourceId : NodeId
  targetId : NodeId
deriving DecidableEq

def NodeHeap.dataView (heap : NodeHeap (NodeData V)) (nodeClass : NodeClass) (data : NodeData V) :
    NodeView V where
  nodeClass := nodeClass
  browseName := data.browseName
  displayName := data.displayName
  inverseName := data.inverseName
  dataType := data.dataType.bind heap.idOf
  value := data.value

/-- The id is of a node of the class. -/
def IsOf (nodes : NodeId → Option (NodeView V)) (nodeClass : NodeClass) (id : NodeId) : Prop :=
  (nodes id).map NodeView.nodeClass = some nodeClass

instance (nodes : NodeId → Option (NodeView V)) (nodeClass : NodeClass) (id : NodeId) :
    Decidable (IsOf nodes nodeClass id) :=
  inferInstanceAs (Decidable (_ = _))

/-- The id is of a type. -/
def IsType (nodes : NodeId → Option (NodeView V)) (id : NodeId) : Prop :=
  (nodes id).any (·.nodeClass.isTypeDefinition) = true

theorem IsOf.mono {nodes nodes' : NodeId → Option (NodeView V)} {nodeClass : NodeClass} {id : NodeId}
    (h : IsOf nodes nodeClass id)
    (hinto : ∀ id view, nodes id = some view → nodes' id = some view) :
    IsOf nodes' nodeClass id := by
  obtain ⟨view, hview, hclass⟩ := Option.map_eq_some_iff.mp h
  exact Option.map_eq_some_iff.mpr ⟨view, hinto id view hview, hclass⟩

theorem IsType.mono {nodes nodes' : NodeId → Option (NodeView V)} {id : NodeId}
    (h : IsType nodes id) (hinto : ∀ id view, nodes id = some view → nodes' id = some view) :
    IsType nodes' id := by
  cases hview : nodes id with
  | none => simp [IsType, hview] at h
  | some view =>
      unfold IsType at h ⊢
      rwa [hinto id view hview, ← hview]

namespace GenericNodeFactory

variable (factory : GenericNodeFactory) (spaces : Spaces V)

def nodeView (id : NodeId) : Option (NodeView V) := do
  let ptr ← factory.getNode spaces id
  let node ← spaces.heap.nodes ptr
  return spaces.heap.dataView node.nodeClass node.attributes

/-- The types and the targets of the references of a node. -/
def referencesOf (sourceId : NodeId) : List (NodeId × NodeId) :=
  match (factory.getNode spaces sourceId).bind spaces.heap.nodes with
  | none => []
  | some node => node.forwardReferences.filterMap fun ref => do
      return (← spaces.heap.idOf ref.type, ← spaces.heap.idOf ref.node)

def triples : Set Triple :=
  {triple | (triple.typeId, triple.targetId) ∈ factory.referencesOf spaces triple.sourceId}

/-- The same nodes and the same references. -/
structure SameView (spaces spaces' : Spaces V) : Prop where
  nodes : factory.nodeView spaces' = factory.nodeView spaces
  references : factory.triples spaces' = factory.triples spaces

/-! ## §2  Spaces with an index -/

/-- Each node is found by its id. -/
def Indexed : Prop :=
  ∀ ptr id, spaces.heap.idOf ptr = some id → factory.getNode spaces id = some ptr

end GenericNodeFactory

variable {factory : GenericNodeFactory} {spaces spaces' : Spaces V} {edges : Set Edge}

open GenericNodeFactory

/-- Nodes with ids of their own are found. -/
theorem indexed_spacesOf {nodes : List (Node (NodeData V))} (hspace : factory.space = 0)
    (hids : (nodes.map Node.id).Nodup) : factory.Indexed (spacesOf nodes) := by
  intro ptr id hid
  obtain ⟨node, hnode, rfl⟩ := Option.map_eq_some_iff.mp hid
  have hnode : nodes[ptr]? = some node := hnode
  obtain ⟨hlt, rfl⟩ := List.getElem?_eq_some_iff.mp hnode
  have hfound : nodes.findIdx? (·.id = nodes[ptr].id) = some ptr := by
    refine List.findIdx?_eq_some_iff_getElem.mpr
      ⟨hlt, decide_eq_true rfl, fun other hother heq => ?_⟩
    refine List.nodup_iff_getElem?_ne_getElem?.mp hids other ptr hother (by simpa using hlt) ?_
    have heq : nodes[other].id = nodes[ptr].id := by simpa using heq
    simp [List.getElem?_eq_getElem (hother.trans hlt), List.getElem?_eq_getElem hlt, heq]
  rw [getNode, AddressSpaces.getNode, List.findSome?_cons, hspace]
  simp [spacesOf, hfound]

section

variable (h : Sound factory spaces edges) (hindexed : factory.Indexed spaces)

include h hindexed

theorem Sound.mem_triples {triple : Triple} : triple ∈ factory.triples spaces ↔
    ∃ edge ∈ edges, spaces.heap.idOf edge.type = some triple.typeId ∧
      spaces.heap.idOf edge.source = some triple.sourceId ∧
        spaces.heap.idOf edge.target = some triple.targetId := by
  unfold triples referencesOf
  constructor
  · intro hmem
    rw [Set.mem_ofPred_eq] at hmem
    split at hmem
    · cases hmem
    · rename_i node hfound
      obtain ⟨source, hsource, hnode⟩ := Option.bind_eq_some_iff.mp hfound
      obtain ⟨ref, href, hids⟩ := List.mem_filterMap.mp hmem
      obtain ⟨typeId, htype, hids⟩ := Option.bind_eq_some_iff.mp hids
      obtain ⟨targetId, htarget, hids⟩ := Option.bind_eq_some_iff.mp hids
      cases hids
      exact ⟨⟨ref.type, source, ref.node⟩,
        (h.represents.holds.references source node hnode true ref).mp href, htype,
        h.wellFormed.getNode_idOf hsource, htarget⟩
  · rintro ⟨edge, hedge, htype, hsource, htarget⟩
    obtain ⟨node, hnode, -⟩ := Option.map_eq_some_iff.mp hsource
    have hfound := hindexed edge.source triple.sourceId hsource
    have href : ⟨edge.type, edge.target⟩ ∈ node.forwardReferences :=
      (h.represents.holds.references edge.source node hnode true ⟨edge.type, edge.target⟩).mpr hedge
    rw [Set.mem_ofPred_eq, hfound, Option.bind_some, hnode]
    exact List.mem_filterMap.mpr ⟨_, href, by simp [htype, htarget]⟩

omit h in
theorem GenericNodeFactory.Indexed.idOf_inj {ptr ptr' : NodePtr} {id : NodeId} (hptr : spaces.heap.idOf ptr = some id)
    (hptr' : spaces.heap.idOf ptr' = some id) : ptr = ptr' :=
  Option.some.inj ((hindexed ptr id hptr).symm.trans (hindexed ptr' id hptr'))

omit hindexed in
theorem Sound.nodeView_eq_none {id : NodeId} :
    factory.nodeView spaces id = none ↔ factory.getNode spaces id = none := by
  cases hptr : factory.getNode spaces id with
  | none => simp [nodeView, hptr]
  | some ptr =>
      obtain ⟨node, hnode⟩ := h.nodeOf (h.wellFormed.getNode_lt hptr)
      simp [nodeView, hptr, hnode]

omit hindexed in
theorem Sound.finds_iff {nodeClass : NodeClass} {id : NodeId} :
    factory.Finds spaces nodeClass id ↔ IsOf (factory.nodeView spaces) nodeClass id := by
  unfold Finds IsOf nodeView
  cases hptr : factory.getNode spaces id with
  | none => simp [asClass]
  | some ptr =>
      obtain ⟨node, hnode⟩ := h.nodeOf (h.wellFormed.getNode_lt hptr)
      simp [asClass_eq_some, hnode, NodeHeap.classOf, NodeHeap.dataView]

/-! ## §3  Caches -/

theorem Sound.typeDefinition_eq_none {ptr : NodePtr} {node : Node (NodeData V)}
    (hnode : spaces.heap.nodes ptr = some node)
    (hnone : ∀ targetId, ⟨StandardId.hasTypeDefinition, node.id, targetId⟩ ∉
      factory.triples spaces) : node.typeDefinition = none := by
  rw [Option.eq_none_iff_forall_ne_some]
  intro other hcache
  obtain ⟨type, hhalf, typeId, htype, hcaches⟩ :=
    (h.represents.holds.cache ptr node hnode true other).mp hcache
  obtain ⟨otherNode, hother⟩ := h.nodeOf (h.represents.edge_lt hhalf).2.2
  obtain rfl : typeId = StandardId.hasTypeDefinition := hcaches
  refine hnone otherNode.id ((h.mem_triples hindexed).mpr ⟨_, hhalf, htype, ?_, ?_⟩)
  · exact Option.map_eq_some_iff.mpr ⟨node, hnode, rfl⟩
  · exact Option.map_eq_some_iff.mpr ⟨otherNode, hother, rfl⟩

theorem Sound.supertype_eq_none_of_triples {ptr : NodePtr} {node : Node (NodeData V)}
    (hnode : spaces.heap.nodes ptr = some node)
    (hnone : ∀ sourceId, ⟨StandardId.hasSubtype, sourceId, node.id⟩ ∉ factory.triples spaces) :
    node.supertype = none := by
  rw [Option.eq_none_iff_forall_ne_some]
  intro other hcache
  obtain ⟨type, hhalf, typeId, htype, hcaches⟩ :=
    (h.represents.holds.cache ptr node hnode false other).mp hcache
  obtain ⟨otherNode, hother⟩ := h.nodeOf (h.represents.edge_lt hhalf).2.1
  obtain rfl : typeId = StandardId.hasSubtype := hcaches.2
  refine hnone otherNode.id ((h.mem_triples hindexed).mpr ⟨_, hhalf, htype, ?_, ?_⟩)
  · exact Option.map_eq_some_iff.mpr ⟨otherNode, hother, rfl⟩
  · exact Option.map_eq_some_iff.mpr ⟨node, hnode, rfl⟩

/-- A node has one type definition. -/
theorem Sound.typeDefinition_unique {sourceId targetId targetId' : NodeId}
    (hmem : ⟨StandardId.hasTypeDefinition, sourceId, targetId⟩ ∈ factory.triples spaces)
    (hmem' : ⟨StandardId.hasTypeDefinition, sourceId, targetId'⟩ ∈ factory.triples spaces) :
    targetId = targetId' := by
  obtain ⟨edge, hedge, htype, hsource, htarget⟩ := (h.mem_triples hindexed).mp hmem
  obtain ⟨edge', hedge', htype', hsource', htarget'⟩ := (h.mem_triples hindexed).mp hmem'
  obtain ⟨node, hnode, -⟩ := Option.map_eq_some_iff.mp hsource
  have hsame : edge'.source = edge.source := hindexed.idOf_inj hsource' hsource
  have hhalf' : ⟨edge.source, true, ⟨edge'.type, edge'.target⟩⟩ ∈ NodeHeap.halvesOf edges := by
    rw [← hsame]
    exact hedge'
  have href := h.represents.holds.cachedOnce edge.source node hnode true
    ⟨edge.type, edge.target⟩ ⟨edge'.type, edge'.target⟩ hedge hhalf' ⟨_, htype, rfl⟩
      ⟨_, htype', rfl⟩
  have htargets : edge.target = edge'.target := congrArg Reference.node href
  rw [htargets, htarget'] at htarget
  exact (Option.some.inj htarget).symm

/-- A type has one supertype. -/
theorem Sound.supertype_unique {sourceId sourceId' targetId : NodeId} {view : NodeView V}
    (hview : factory.nodeView spaces targetId = some view)
    (hclass : view.nodeClass.isTypeDefinition = true)
    (hmem : ⟨StandardId.hasSubtype, sourceId, targetId⟩ ∈ factory.triples spaces)
    (hmem' : ⟨StandardId.hasSubtype, sourceId', targetId⟩ ∈ factory.triples spaces) :
    sourceId = sourceId' := by
  obtain ⟨edge, hedge, htype, hsource, htarget⟩ := (h.mem_triples hindexed).mp hmem
  obtain ⟨edge', hedge', htype', hsource', htarget'⟩ := (h.mem_triples hindexed).mp hmem'
  obtain ⟨node, hnode, -⟩ := Option.map_eq_some_iff.mp htarget
  have hsame : edge'.target = edge.target := hindexed.idOf_inj htarget' htarget
  have hhalf' : ⟨edge.target, false, ⟨edge'.type, edge'.source⟩⟩ ∈ NodeHeap.halvesOf edges := by
    rw [← hsame]
    exact hedge'
  have hnodeClass : node.nodeClass.isTypeDefinition = true := by
    rw [nodeView, hindexed edge.target targetId htarget] at hview
    simp only [Option.bind_eq_bind, Option.bind_some, hnode] at hview
    cases hview
    exact hclass
  have href := h.represents.holds.cachedOnce edge.target node hnode false
    ⟨edge.type, edge.source⟩ ⟨edge'.type, edge'.source⟩ hedge hhalf'
      ⟨_, htype, hnodeClass, rfl⟩ ⟨_, htype', hnodeClass, rfl⟩
  have hsources : edge.source = edge'.source := congrArg Reference.node href
  rw [hsources, hsource'] at hsource
  exact (Option.some.inj hsource).symm

/-! ## §4  Supertypes -/

/-- The second type is the supertype of the first. -/
def Above (triples : Set Triple) (subtypeId supertypeId : NodeId) : Prop :=
  ⟨StandardId.hasSubtype, supertypeId, subtypeId⟩ ∈ triples

theorem Sound.above_of_supertypeOf {ptr other : NodePtr}
    (hsupertype : spaces.heap.supertypeOf ptr = some (some other)) {id otherId : NodeId}
    (hid : spaces.heap.idOf ptr = some id) (hotherId : spaces.heap.idOf other = some otherId) :
    Above (factory.triples spaces) id otherId := by
  obtain ⟨node, hnode, hcache⟩ := Option.map_eq_some_iff.mp hsupertype
  obtain ⟨type, hhalf, typeId, htype, hcaches⟩ :=
    (h.represents.holds.cache ptr node hnode false other).mp hcache
  obtain rfl : typeId = StandardId.hasSubtype := hcaches.2
  exact (h.mem_triples hindexed).mpr ⟨_, hhalf, htype, hotherId, hid⟩

/-- The way up comes by supertypes only. -/
theorem Sound.reflTransGen_of_path {fuel : ℕ} {ptr : NodePtr} {ptrs : List NodePtr} {id : NodeId}
    (hptrs : path spaces.heap.supertypeOf fuel ptr = some ptrs)
    (hid : spaces.heap.idOf ptr = some id) :
    ∀ q ∈ ptrs, ∃ qid, spaces.heap.idOf q = some qid ∧
      ReflTransGen (Above (factory.triples spaces)) id qid := by
  induction fuel generalizing ptr ptrs id with
  | zero => cases hptrs
  | succ fuel ih =>
      rcases path_cases hptrs with ⟨-, rfl⟩ | ⟨next, rest, hstep, hrest, rfl⟩
      · intro q hq
        rw [List.mem_singleton.mp hq]
        exact ⟨id, hid, .refl⟩
      · intro q hq
        rcases List.mem_cons.mp hq with rfl | hq
        · exact ⟨id, hid, .refl⟩
        · obtain ⟨node, hnode, hcache⟩ := Option.map_eq_some_iff.mp hstep
          obtain ⟨nextNode, hnext⟩ :=
            h.nodeOf (h.wellFormed.bounded.supertype ptr node hnode next hcache)
          have hnextId : spaces.heap.idOf next = some nextNode.id :=
            Option.map_eq_some_iff.mpr ⟨nextNode, hnext, rfl⟩
          obtain ⟨qid, hqid, habove⟩ := ih hrest hnextId q hq
          exact ⟨qid, hqid, .head (h.above_of_supertypeOf hindexed hstep hid hnextId) habove⟩

theorem Sound.reflTransGen_of_isSubtypeOf {ptr : NodePtr} {id typeId : NodeId}
    (hid : spaces.heap.idOf ptr = some id)
    (hsubtype : spaces.heap.isSubtypeOf ptr typeId = some true) :
    ReflTransGen (Above (factory.triples spaces)) id typeId := by
  rw [NodeHeap.isSubtypeOf] at hsubtype
  generalize spaces.heap.next + 1 = fuel at hsubtype
  induction fuel generalizing ptr id with
  | zero => cases hsubtype
  | succ fuel ih =>
      obtain ⟨node, hnode, hsubtype⟩ := Option.bind_eq_some_iff.mp hsubtype
      have hnodeId : node.id = id := by
        rw [NodeHeap.idOf, hnode, Option.map_some, Option.some_inj] at hid
        exact hid
      split at hsubtype
      · rename_i htype
        rw [← hnodeId, htype]
      · cases hcache : node.supertype with
        | none =>
            rw [hcache] at hsubtype
            cases hsubtype
        | some next =>
            rw [hcache] at hsubtype
            obtain ⟨nextNode, hnext⟩ :=
              h.nodeOf (h.wellFormed.bounded.supertype ptr node hnode next hcache)
            have hnextId : spaces.heap.idOf next = some nextNode.id :=
              Option.map_eq_some_iff.mpr ⟨nextNode, hnext, rfl⟩
            have hstep : spaces.heap.supertypeOf ptr = some (some next) := by
              rw [NodeHeap.supertypeOf, hnode, Option.map_some, hcache]
            exact .head (h.above_of_supertypeOf hindexed hstep hid hnextId) (ih hnextId hsubtype)

/-- Supertypes that make no cycle with the reference. -/
theorem Sound.noCycle_of_above {typeId sourceId targetId : NodeId} {source target : NodePtr}
    (hsource : spaces.heap.idOf source = some sourceId)
    (htarget : spaces.heap.idOf target = some targetId)
    (hacyclic : typeId = StandardId.hasSubtype →
      ¬ ReflTransGen (Above (factory.triples spaces)) sourceId targetId) :
    spaces.heap.NoCycle typeId source target := by
  intro htype _
  obtain ⟨node, hnode, -⟩ := Option.map_eq_some_iff.mp hsource
  obtain ⟨ptrs, hptrs⟩ := h.path_next (h.wellFormed.bounded.allocated source node hnode)
  refine ⟨_, ptrs, hptrs, fun hmem => ?_⟩
  obtain ⟨qid, hqid, habove⟩ := h.reflTransGen_of_path hindexed hptrs hsource target hmem
  rw [htarget, Option.some_inj] at hqid
  exact hacyclic htype (hqid ▸ habove)

end

/-! ## §5  Growing -/

section

variable {id : NodeId} {nodeClass : NodeClass} {data : NodeData V} {owned : Bool}

theorem getNode_addNode
    (hadd : spaces.addNode (factory.space :: factory.parents) factory.space id nodeClass data owned =
      some spaces') (other : NodeId) : factory.getNode spaces' other =
        if other = id then some spaces.heap.next else factory.getNode spaces other := by
  obtain ⟨-, hfree, -, -, hmap⟩ := AddressSpaces.addNode_eq_some hadd
  split
  · rename_i heq
    subst heq
    exact getNode_own (by rw [hmap, Function.update_self])
  · rename_i hne
    have hsame : ∀ space, spaces'.nodeMap (space, other) = spaces.nodeMap (space, other) := by
      intro space
      rw [hmap, Function.update_of_ne]
      rintro heq
      exact hne (congrArg Prod.snd heq)
    simp only [getNode, AddressSpaces.getNode, hsame]

theorem idOf_addNode
    (hadd : spaces.addNode (factory.space :: factory.parents) factory.space id nodeClass data owned =
      some spaces') (ptr : NodePtr) : spaces'.heap.idOf ptr =
        if ptr = spaces.heap.next then some id else spaces.heap.idOf ptr := by
  obtain ⟨-, -, -, hheap, -⟩ := AddressSpaces.addNode_eq_some hadd
  rw [hheap]
  simp only [NodeHeap.idOf, NodeHeap.allocate, Function.update_apply]
  split <;> rfl

variable (h : Sound factory spaces edges)
  (hadd : spaces.addNode (factory.space :: factory.parents) factory.space id nodeClass data owned =
    some spaces')

theorem GenericNodeFactory.Indexed.addNode (hindexed : factory.Indexed spaces)
    (hadd : spaces.addNode (factory.space :: factory.parents) factory.space id nodeClass data owned =
      some spaces') : factory.Indexed spaces' := by
  obtain ⟨-, hfree, -, -, -⟩ := AddressSpaces.addNode_eq_some hadd
  intro ptr other hptr
  rw [idOf_addNode hadd] at hptr
  rw [getNode_addNode hadd]
  split at hptr
  · rename_i heq
    obtain rfl := Option.some.inj hptr
    rw [if_pos rfl, heq]
  · have hold := hindexed ptr other hptr
    have hne : other ≠ id := by
      rintro rfl
      rw [getNode, hfree] at hold
      cases hold
    rw [if_neg hne, hold]

include h hadd

theorem Sound.nodeView_addNode
    (hdataType : ∀ other, data.dataType = some other → other < spaces.heap.next) (other : NodeId) :
    factory.nodeView spaces' other =
      if other = id then some (spaces.heap.dataView nodeClass data)
      else factory.nodeView spaces other := by
  have hview : ∀ (nodeClass : NodeClass) (data : NodeData V),
      (∀ other, data.dataType = some other → other < spaces.heap.next) →
        spaces'.heap.dataView nodeClass data = spaces.heap.dataView nodeClass data := by
    intro nodeClass data hdataType
    have hid : data.dataType.bind spaces'.heap.idOf = data.dataType.bind spaces.heap.idOf := by
      refine Option.bind_congr fun ptr hptr => ?_
      rw [idOf_addNode hadd, if_neg (hdataType ptr hptr).ne]
    simp only [NodeHeap.dataView, hid]
  have hnodes : ∀ ptr, spaces'.heap.nodes ptr =
      if ptr = spaces.heap.next then some { id, nodeClass, attributes := data }
      else spaces.heap.nodes ptr := by
    obtain ⟨-, -, -, hheap, -⟩ := AddressSpaces.addNode_eq_some hadd
    intro ptr
    rw [hheap]
    simp [NodeHeap.allocate, Function.update_apply]
  rw [nodeView, getNode_addNode hadd]
  split
  · simp [hnodes, hview nodeClass data hdataType]
  · rw [nodeView]
    refine Option.bind_congr fun ptr hptr => ?_
    have hlt := h.wellFormed.getNode_lt hptr
    rw [hnodes, if_neg hlt.ne]
    refine Option.bind_congr fun node hnode => ?_
    rw [hview node.nodeClass node.attributes (h.wellFormed.bounded.dataType ptr node hnode)]

theorem Sound.triples_addNode (hindexed : factory.Indexed spaces) (h' : Sound factory spaces' edges) :
    factory.triples spaces' = factory.triples spaces := by
  ext triple
  rw [h'.mem_triples (hindexed.addNode hadd), h.mem_triples hindexed]
  refine exists_congr fun edge => and_congr_right fun hedge => ?_
  obtain ⟨htype, hsource, htarget⟩ := h.represents.edge_lt hedge
  rw [idOf_addNode hadd, idOf_addNode hadd, idOf_addNode hadd, if_neg htype.ne, if_neg hsource.ne,
    if_neg htarget.ne]

end

section

variable {type source target : NodePtr} {typeId sourceId targetId : NodeId}

theorem GenericNodeFactory.Indexed.addReference (hindexed : factory.Indexed spaces)
    (hadd : spaces.addReference type source target = some spaces') : factory.Indexed spaces' := by
  obtain ⟨heap, hheap, rfl⟩ := AddressSpaces.addReference_eq_some hadd
  intro ptr id hptr
  rw [(NodeHeap.addReference_sameObjects hheap).idOf] at hptr
  exact hindexed ptr id hptr

theorem nodeView_addReference
    (hadd : spaces.addReference type source target = some spaces') :
    factory.nodeView spaces' = factory.nodeView spaces := by
  obtain ⟨heap, hheap, rfl⟩ := AddressSpaces.addReference_eq_some hadd
  have hsame := NodeHeap.addReference_sameObjects hheap
  funext id
  rw [nodeView, nodeView]
  refine Option.bind_congr fun ptr _ => ?_
  cases hnode : spaces.heap.nodes ptr with
  | none =>
      have hid := congrFun hsame.idOf ptr
      rw [NodeHeap.idOf, NodeHeap.idOf, hnode, Option.map_none, Option.map_eq_none_iff] at hid
      simp [hid]
  | some node =>
      obtain ⟨node', hnode', hobject⟩ := hsame.nodes hnode
      simp [hnode', NodeHeap.dataView, hobject.nodeClass, hobject.attributes, hsame.idOf]

theorem Sound.triples_addReference (h : Sound factory spaces edges)
    (hindexed : factory.Indexed spaces)
    (hadd : spaces.addReference type source target = some spaces')
    (h' : Sound factory spaces' (insert ⟨type, source, target⟩ edges))
    (htype : spaces.heap.idOf type = some typeId) (hsource : spaces.heap.idOf source = some sourceId)
    (htarget : spaces.heap.idOf target = some targetId) :
    factory.triples spaces' = insert ⟨typeId, sourceId, targetId⟩ (factory.triples spaces) := by
  have hidOf : spaces'.heap.idOf = spaces.heap.idOf := by
    obtain ⟨heap, hheap, rfl⟩ := AddressSpaces.addReference_eq_some hadd
    exact (NodeHeap.addReference_sameObjects hheap).idOf
  ext triple
  rw [h'.mem_triples (hindexed.addReference hadd), Set.mem_insert_iff, h.mem_triples hindexed,
    hidOf]
  constructor
  · rintro ⟨edge, rfl | hedge, htype', hsource', htarget'⟩
    · left
      obtain ⟨typeId', sourceId', targetId'⟩ := triple
      rw [htype] at htype'
      rw [hsource] at hsource'
      rw [htarget] at htarget'
      cases htype'
      cases hsource'
      cases htarget'
      rfl
    · exact .inr ⟨edge, hedge, htype', hsource', htarget'⟩
  · rintro (rfl | ⟨edge, hedge, hids⟩)
    · exact ⟨_, Set.mem_insert _ _, htype, hsource, htarget⟩
    · exact ⟨edge, Set.mem_insert_of_mem _ hedge, hids⟩

end

end ScadaCommon.AddressSpace
