import ScadaCommon.AddressSpace.DeleteNode

/-!
# What is left of spaces

Nodes go one after the other, each with its edges. What is left of the spaces has the
nodes and the edges that it had, in their order; and a type is told as it was while its
supertypes stay.

§1 edges that remain · §2 spaces from which nodes have gone · §3 supertypes that stay.
-/

namespace ScadaCommon.AddressSpace

open Foundation Relation

variable {A : Type}

namespace AddressSpaces

variable {spaces spaces' spaces'' : AddressSpaces A} {gone more : List NodePtr} {edges : Set Edge}
  {edge : Edge} {ptr type supertype : NodePtr} {place : Place} {node node' : Node A}

/-! ## §1  Edges that remain -/

/-- The edges when some nodes are gone. -/
def remaining (spaces : AddressSpaces A) (gone : List NodePtr) : Set Edge :=
  {edge | edge ∈ spaces.heap.edgeSet ∧ edge.source ∉ gone ∧ edge.target ∉ gone}

def Touches (edge : Edge) (ptr : NodePtr) : Prop :=
  edge.source = ptr ∨ edge.target = ptr

theorem not_touches_of_remaining (h : edge ∈ spaces.remaining (ptr :: gone)) :
    ¬ Touches edge ptr := by
  obtain ⟨-, hsource, htarget⟩ := h
  rintro (rfl | rfl)
  · exact hsource List.mem_cons_self
  · exact htarget List.mem_cons_self

theorem mem_remaining_cons (h : edge ∈ spaces.remaining gone) (hnot : ¬ Touches edge ptr) :
    edge ∈ spaces.remaining (ptr :: gone) := by
  obtain ⟨hedge, hsource, htarget⟩ := h
  obtain ⟨hsource', htarget'⟩ := not_or.mp hnot
  exact ⟨hedge, List.not_mem_cons_of_ne_of_not_mem hsource' hsource,
    List.not_mem_cons_of_ne_of_not_mem htarget' htarget⟩

theorem remaining_cons_subset_remaining :
    spaces.remaining (ptr :: gone) ⊆ spaces.remaining gone := by
  rintro edge ⟨hedge, hsource, htarget⟩
  exact ⟨hedge, fun hmem => hsource (List.mem_cons_of_mem _ hmem),
    fun hmem => htarget (List.mem_cons_of_mem _ hmem)⟩

theorem remaining_cons_subset (htouches : Touches edge ptr)
    (hkept : spaces.remaining (ptr :: gone) ⊆ edges) :
    spaces.remaining (ptr :: gone) ⊆ edges \ {edge} := by
  intro other hother
  refine ⟨hkept hother, ?_⟩
  rintro rfl
  exact not_touches_of_remaining hother htouches

/-! ## §2  Spaces from which nodes have gone -/

/-- The spaces hold a graph of their own nodes. -/
abbrev Inv (spaces : AddressSpaces A) (edges : Set Edge) : Prop :=
  SpaceWorld.Inv ⟨spaces, []⟩ edges

/-- Spaces from which some nodes have gone, with the edges that are left. -/
structure Left (spaces : AddressSpaces A) (gone : List NodePtr) (edges : Set Edge)
    (spaces' : AddressSpaces A) : Prop where
  inv : spaces'.Inv edges
  within : edges ⊆ spaces.remaining gone
  nodeMap : ∀ place ptr, spaces'.nodeMap place = some ptr ↔
    spaces.nodeMap place = some ptr ∧ ptr ∉ gone
  idOf : ∀ ptr ∉ gone, spaces'.heap.idOf ptr = spaces.heap.idOf ptr
  classOf : ∀ ptr ∉ gone, spaces'.heap.classOf ptr = spaces.heap.classOf ptr
  next : spaces'.heap.next = spaces.heap.next
  order : NodeHeap.KeepsOrder spaces.heap spaces'.heap

/-- In the beginning. -/
theorem Left.refl (h : spaces.Inv spaces.heap.edgeSet) :
    spaces.Left [] (spaces.remaining []) spaces where
  inv := by
    have hall : spaces.remaining [] = spaces.heap.edgeSet := by
      ext edge
      simp [remaining]
    rw [hall]
    exact h
  within := Set.Subset.rfl
  nodeMap place ptr := by simp
  idOf ptr _ := rfl
  classOf ptr _ := rfl
  next := rfl
  order ptr node hnode := ⟨node, hnode, List.Sublist.refl _⟩

/-- The types of edges that are left are still there. -/
theorem Left.type_not_mem (h : spaces.Left gone edges spaces') (hedge : edge ∈ edges) :
    edge.type ∉ gone := by
  obtain ⟨⟨place, hplace⟩, -⟩ := h.inv.present edge hedge
  exact ((h.nodeMap place edge.type).mp hplace).2

theorem Left.deleteReference (h : spaces.Left gone edges spaces') {heap : NodeHeap A}
    (hs : spaces'.heap.deleteReference edge.type edge.source edge.target = some heap) :
    spaces.Left gone (edges \ {edge}) { spaces' with heap } := by
  obtain ⟨hsame, -, hrepresents⟩ := h.inv.represents.deleteReference hs
  have hinv := h.inv.setHeap hsame hrepresents fun edge hedge => h.inv.present edge hedge.1
  constructor
  case inv => exact hinv
  case within => exact Set.sdiff_subset.trans h.within
  case nodeMap => exact h.nodeMap
  case idOf =>
    intro ptr hptr
    rw [← h.idOf ptr hptr]
    exact congrFun hsame.idOf ptr
  case classOf =>
    intro ptr hptr
    rw [← h.classOf ptr hptr]
    exact congrFun hsame.classOf ptr
  case next => exact hsame.next.trans h.next
  case order => exact h.order.trans (NodeHeap.keepsOrder_of_deleteReference hs)

/-- What takes a node out of the heap or leaves it there. -/
theorem keepsOrder_of_free {heap heap' : NodeHeap A}
    (h : heap' = heap ∨ heap' = heap.set ptr none) :
    NodeHeap.KeepsOrder heap heap' := by
  intro q node hnode
  refine ⟨node, ?_, List.Sublist.refl _⟩
  rcases h with rfl | rfl
  · exact hnode
  · rw [NodeHeap.nodes_set] at hnode
    split at hnode
    · cases hnode
    · exact hnode

theorem Left.eraseNode (h : spaces.Left gone edges spaces') {node : Node A}
    (hedges : edges = spaces.remaining (ptr :: gone))
    (hplace : spaces'.nodeMap place = some ptr) (hnode : spaces'.heap.nodes ptr = some node)
    (htype : ∀ edge ∈ edges, edge.type ≠ ptr)
    (hs : spaces'.eraseNode place = some spaces'') :
    spaces.Left (ptr :: gone) edges spaces'' := by
  have hempty : ∀ forward, node.references forward = [] := by
    refine (h.inv.represents.alone hnode).mpr fun edge hedge => ?_
    rw [hedges] at hedge
    exact not_or.mp (not_touches_of_remaining hedge)
  have hunused : ¬ SpaceWorld.TypeInUse ⟨spaces', []⟩ ptr := by
    rw [h.inv.typeInUse_iff]
    rintro ⟨edge, hedge, heq⟩
    exact htype edge hedge heq
  obtain ⟨hmap, hheap⟩ := SpaceWorld.Inv.eraseNode_spec (w := ⟨spaces', []⟩) hplace hs
  have hsame : ∀ q ∉ ptr :: gone, spaces''.heap.nodes q = spaces'.heap.nodes q := by
    intro q hq
    have hne : q ≠ ptr := fun heq => hq (heq ▸ List.mem_cons_self)
    rcases hheap with hheap | hheap <;> rw [hheap]
    rw [NodeHeap.nodes_set, if_neg hne]
  have hkept : ∀ q ∉ ptr :: gone, q ∉ gone := fun q hq hmem => hq (List.mem_cons_of_mem _ hmem)
  constructor
  case inv => exact h.inv.eraseNode hplace hnode hempty hunused hs []
  case within => exact hedges.subset
  case nodeMap =>
    intro place' q
    rw [hmap, Function.update_apply]
    split
    · rename_i heq
      subst heq
      refine iff_of_false (by simp) ?_
      rintro ⟨hq, hnot⟩
      have hold := (h.nodeMap place' q).mpr ⟨hq, hkept q hnot⟩
      cases hplace.symm.trans hold
      exact hnot List.mem_cons_self
    · rename_i hne
      rw [h.nodeMap place' q, List.mem_cons, not_or]
      refine and_congr_right fun hq => ⟨fun hnot => ⟨?_, hnot⟩, And.right⟩
      rintro rfl
      exact hne (h.inv.once place' place q ((h.nodeMap place' q).mpr ⟨hq, hnot⟩) hplace)
  case idOf =>
    intro q hq
    rw [NodeHeap.idOf, hsame q hq]
    exact h.idOf q (hkept q hq)
  case classOf =>
    intro q hq
    rw [NodeHeap.classOf, hsame q hq]
    exact h.classOf q (hkept q hq)
  case next =>
    rcases hheap with hheap | hheap <;> rw [hheap]
    · exact h.next
    · exact h.next
  case order => exact h.order.trans (keepsOrder_of_free hheap)

theorem Left.exists_node (h : spaces.Left gone edges spaces') (hptr : ptr ∉ gone)
    (hnode : spaces.heap.nodes ptr = some node) :
    ∃ node', spaces'.heap.nodes ptr = some node' ∧ node'.id = node.id ∧
      node'.nodeClass = node.nodeClass := by
  have hid := h.idOf ptr hptr
  have hclass := h.classOf ptr hptr
  rw [NodeHeap.idOf, NodeHeap.idOf, hnode] at hid
  rw [NodeHeap.classOf, NodeHeap.classOf, hnode] at hclass
  obtain ⟨node', hnode', hid⟩ := Option.map_eq_some_iff.mp hid
  rw [hnode'] at hclass
  exact ⟨node', hnode', hid, Option.some_inj.mp hclass⟩

/-! ## §3  Supertypes that stay -/

/-- The type and its supertypes. -/
def Supertypes (spaces : AddressSpaces A) (type supertype : NodePtr) : Prop :=
  ReflTransGen (fun ptr above => ∃ node, spaces.heap.nodes ptr = some node ∧
    node.supertype = some above) type supertype

theorem isSubtypeOfWalk_succ {heap : NodeHeap A} (hnode : heap.nodes ptr = some node)
    (id : NodeId) (fuel : ℕ) :
    heap.isSubtypeOfWalk id (fuel + 1) ptr =
      if node.id = id then some true
      else (node.supertype.map (heap.isSubtypeOfWalk id fuel)).getD (some false) := by
  rw [NodeHeap.isSubtypeOfWalk, hnode]
  cases hsuper : node.supertype <;> simp [hsuper]

/-- A supertype is the source of an edge. -/
theorem supertype_iff {edges : Set Edge} (h : spaces.Inv edges)
    (hnode : spaces.heap.nodes ptr = some node) :
    node.supertype = some supertype ↔ ∃ type, ⟨type, supertype, ptr⟩ ∈ edges ∧
      spaces.heap.IsCached node false ⟨type, supertype⟩ :=
  h.represents.holds.cache ptr node hnode false supertype

theorem Left.isCached_iff (h : spaces.Left gone edges spaces')
    (hclass : node'.nodeClass = node.nodeClass) (htype : type ∉ gone) :
    spaces'.heap.IsCached node' false ⟨type, supertype⟩ ↔
      spaces.heap.IsCached node false ⟨type, supertype⟩ := by
  rw [NodeHeap.IsCached, NodeHeap.IsCached, hclass, h.idOf type htype]

section

variable (h : spaces.Left gone edges spaces') (hinv : spaces.Inv spaces.heap.edgeSet)
include h hinv

/-- No supertype is new. -/
theorem Left.supertype_of_left (hnode : spaces.heap.nodes ptr = some node)
    (hnode' : spaces'.heap.nodes ptr = some node') (hclass : node'.nodeClass = node.nodeClass)
    (hsuper : node'.supertype = some supertype) : node.supertype = some supertype := by
  obtain ⟨type, hedge, hcached⟩ := (supertype_iff h.inv hnode').mp hsuper
  have htype := h.type_not_mem hedge
  exact (supertype_iff hinv hnode).mpr
    ⟨type, (h.within hedge).1, (h.isCached_iff hclass htype).mp hcached⟩

/-- A supertype stays with its edge. -/
theorem Left.supertype_left (hkept : spaces.remaining more ⊆ edges) (hptr : ptr ∉ more)
    (habove : supertype ∉ more) (hnode : spaces.heap.nodes ptr = some node)
    (hnode' : spaces'.heap.nodes ptr = some node') (hclass : node'.nodeClass = node.nodeClass)
    (hsuper : node.supertype = some supertype) : node'.supertype = some supertype := by
  obtain ⟨type, hedge, hcached⟩ := (supertype_iff hinv hnode).mp hsuper
  have hleft : ⟨type, supertype, ptr⟩ ∈ edges := hkept ⟨hedge, habove, hptr⟩
  have htype := h.type_not_mem hleft
  exact (supertype_iff h.inv hnode').mpr ⟨type, hleft, (h.isCached_iff hclass htype).mpr hcached⟩

/-- **A walk along supertypes that stay** finds what it found. -/
theorem Left.isSubtypeOfWalk_eq (hsub : gone ⊆ more) (hkept : spaces.remaining more ⊆ edges)
    (hstay : ∀ above, spaces.Supertypes type above → above ∉ more) (id : NodeId) (fuel : ℕ) :
    spaces'.heap.isSubtypeOfWalk id fuel type = spaces.heap.isSubtypeOfWalk id fuel type := by
  induction fuel generalizing type with
  | zero => rfl
  | succ fuel ih =>
      have hmore : type ∉ more := hstay type .refl
      have hgone : type ∉ gone := fun hmem => hmore (hsub hmem)
      cases hnode : spaces.heap.nodes type with
      | none =>
          have hid := h.idOf type hgone
          rw [NodeHeap.idOf, NodeHeap.idOf, hnode, Option.map_none, Option.map_eq_none_iff] at hid
          rw [NodeHeap.isSubtypeOfWalk, NodeHeap.isSubtypeOfWalk, hnode, hid]
          rfl
      | some node =>
          obtain ⟨node', hnode', hid, hclass⟩ := h.exists_node hgone hnode
          have habove : ∀ above, node.supertype = some above → spaces.Supertypes type above :=
            fun above hsuper => .single ⟨node, hnode, hsuper⟩
          have hsame : node'.supertype = node.supertype := by
            refine Option.ext fun above => ⟨fun hsuper => ?_, fun hsuper => ?_⟩
            · exact h.supertype_of_left hinv hnode hnode' hclass hsuper
            · have hstay' := hstay above (habove above hsuper)
              exact h.supertype_left hinv hkept hmore hstay' hnode hnode' hclass hsuper
          rw [isSubtypeOfWalk_succ hnode, isSubtypeOfWalk_succ hnode', hid, hsame]
          cases hsuper : node.supertype with
          | none => rfl
          | some above =>
              have hrest : spaces'.heap.isSubtypeOfWalk id fuel above =
                  spaces.heap.isSubtypeOfWalk id fuel above :=
                ih fun x hx => hstay x (ReflTransGen.head ⟨node, hnode, hsuper⟩ hx)
              rw [Option.map_some, Option.map_some, hrest]

/-- A walk that ends does so too when it is cut short. -/
theorem Left.isSubtypeOfWalk_ne_none
    (hstay : ∀ above, spaces.Supertypes type above → above ∉ gone) {id : NodeId} {fuel : ℕ}
    (htold : spaces.heap.isSubtypeOfWalk id fuel type ≠ none) :
    spaces'.heap.isSubtypeOfWalk id fuel type ≠ none := by
  induction fuel generalizing type with
  | zero => exact htold
  | succ fuel ih =>
      cases hnode : spaces.heap.nodes type with
      | none =>
          rw [NodeHeap.isSubtypeOfWalk, hnode] at htold
          exact absurd rfl htold
      | some node =>
          obtain ⟨node', hnode', hid, hclass⟩ := h.exists_node (hstay type .refl) hnode
          rw [isSubtypeOfWalk_succ hnode] at htold
          rw [isSubtypeOfWalk_succ hnode', hid]
          split
          · exact Option.some_ne_none _
          · rename_i hne
            rw [if_neg hne] at htold
            cases hsuper' : node'.supertype with
            | none => exact Option.some_ne_none _
            | some above =>
                have hsuper := h.supertype_of_left hinv hnode hnode' hclass hsuper'
                rw [hsuper] at htold
                exact ih (fun x hx => hstay x (ReflTransGen.head ⟨node, hnode, hsuper⟩ hx)) htold

theorem Left.isHierarchical_eq (hsub : gone ⊆ more) (hkept : spaces.remaining more ⊆ edges)
    (hstay : ∀ above, spaces.Supertypes type above → above ∉ more) :
    spaces'.isHierarchical type = spaces.isHierarchical type := by
  rw [isHierarchical, isHierarchical, NodeHeap.isSubtypeOf, NodeHeap.isSubtypeOf, h.next]
  exact h.isSubtypeOfWalk_eq hinv hsub hkept hstay _ _

theorem Left.isHierarchical_ne_none (hstay : ∀ above, spaces.Supertypes type above → above ∉ gone)
    (htold : spaces.isHierarchical type ≠ none) : spaces'.isHierarchical type ≠ none := by
  rw [isHierarchical, NodeHeap.isSubtypeOf, h.next]
  exact h.isSubtypeOfWalk_ne_none hinv hstay htold

end

end AddressSpaces

end ScadaCommon.AddressSpace
