import ScadaCommon.AddressSpace.NodesetLoading
import ScadaCommon.Foundation.BreadthFirst

/-!
# All nodes

`GetAllNodes` searches the graph from the root folder, along the references of both
directions. The root folder is not noted as seen when it is put into the queue, and
every node next to it has a reference back to it.

§1 the search · §2 when it lists each node once · §3 graphs with both halves of each
edge.
-/

namespace ScadaCommon.AddressSpace

open Foundation Relation GenericNodeFactory

variable {A : Type}

/-! ## §1  The search -/

/-- The targets of the references of a node, the forward ones first. -/
def NodeHeap.targets (heap : NodeHeap A) (ptr : NodePtr) : Option (List NodePtr) :=
  (heap.nodes ptr).map fun node =>
    (node.forwardReferences ++ node.inverseReferences).map Reference.node

namespace AddressSpaces

variable (spaces : AddressSpaces A) (chain : List SpaceId)

/-- `GetAllNodes`; `none` when it reads a dangling pointer. -/
def getAllNodes : Option (List NodePtr) :=
  match spaces.getNode chain StandardId.rootFolder with
  | none => some []
  | some root => breadthFirst spaces.heap.targets (spaces.heap.next + 2) [] [root]

/-- `MakeNodeStates`, with what `MakeNodeState` makes of a node. -/
def makeNodeStates {S : Type} (makeNodeState : Node A → S) : Option (List S) := do
  let nodes ← (← spaces.getAllNodes chain).mapM spaces.heap.nodes
  return nodes.map makeNodeState

/-- A reference of the first node leads to the second one. -/
def Adjacent (ptr ptr' : NodePtr) : Prop :=
  ∃ node, spaces.heap.nodes ptr = some node ∧
    ∃ forward, ∃ ref ∈ node.references forward, ref.node = ptr'

/-- References lead from the root folder to the node. -/
def Connected (ptr : NodePtr) : Prop :=
  ∃ root, spaces.getNode chain StandardId.rootFolder = some root ∧
    ReflTransGen spaces.Adjacent root ptr

/-- The nodes that are connected to the root folder are listed, each once, and no
others. -/
def ListsEachOnce : Prop :=
  ∃ ptrs, spaces.getAllNodes chain = some ptrs ∧ ptrs.Nodup ∧
    (∀ ptr, ptr ∈ ptrs ↔ spaces.Connected chain ptr) ∧ ∀ ptr ∈ ptrs, spaces.heap.Alive ptr

/-! ## §2  When it lists each node once -/

variable {spaces chain} {ptrs : List NodePtr} {root ptr : NodePtr} {edges : Set Edge}

theorem joins_targets : Joins spaces.heap.targets = spaces.Adjacent := by
  funext ptr ptr'
  refine propext ⟨?_, ?_⟩
  · rintro ⟨ptrs, hptrs, hmem⟩
    obtain ⟨node, hnode, rfl⟩ := Option.map_eq_some_iff.mp hptrs
    obtain ⟨ref, href, rfl⟩ := List.mem_map.mp hmem
    rcases List.mem_append.mp href with href | href
    · exact ⟨node, hnode, true, ref, href, rfl⟩
    · exact ⟨node, hnode, false, ref, href, rfl⟩
  · rintro ⟨node, hnode, forward, ref, href, rfl⟩
    refine ⟨_, Option.map_eq_some_iff.mpr ⟨node, hnode, rfl⟩, List.mem_map_of_mem ?_⟩
    cases forward with
    | true => exact List.mem_append_left _ href
    | false => exact List.mem_append_right _ href

theorem alive_of_targets {ptrs : List NodePtr} (h : spaces.heap.targets ptr = some ptrs) :
    spaces.heap.Alive ptr := by
  obtain ⟨node, hnode, -⟩ := Option.map_eq_some_iff.mp h
  exact NodeHeap.alive_iff.mpr ⟨node, hnode⟩

/-- **The root folder comes first**, and then, once, each node that a chain of references
leads to from there. -/
theorem getAllNodes_spec (hroot : spaces.getNode chain StandardId.rootFolder = some root)
    (h : spaces.getAllNodes chain = some ptrs) :
    ∃ found, ptrs = root :: found ∧ found.Nodup ∧
      (∀ ptr, ptr ∈ found ↔ TransGen spaces.Adjacent root ptr) ∧
        ∀ ptr, ReflTransGen spaces.Adjacent root ptr → spaces.heap.Alive ptr := by
  rw [getAllNodes, hroot] at h
  obtain ⟨found, hptrs, hnodup, hfound, hlooked⟩ := breadthFirst_start h
  rw [joins_targets] at hfound hlooked
  refine ⟨found, hptrs, hnodup, hfound, fun ptr hptr => ?_⟩
  obtain ⟨targets, htargets⟩ := hlooked ptr hptr
  exact alive_of_targets htargets

/-- There is a list unless a chain of references leads to a dangling pointer. -/
theorem exists_getAllNodes (hbounded : ∀ ptr, spaces.heap.Alive ptr → ptr < spaces.heap.next)
    (hroot : spaces.getNode chain StandardId.rootFolder = some root)
    (halive : ∀ ptr, ReflTransGen spaces.Adjacent root ptr → spaces.heap.Alive ptr) :
    ∃ ptrs, spaces.getAllNodes chain = some ptrs := by
  classical
  rw [getAllNodes, hroot]
  let vertices := (Finset.range spaces.heap.next).filter (ReflTransGen spaces.Adjacent root)
  have hvertex : ∀ ptr, ReflTransGen spaces.Adjacent root ptr → ptr ∈ vertices := fun ptr hptr =>
    Finset.mem_filter.mpr ⟨Finset.mem_range.mpr (hbounded ptr (halive ptr hptr)), hptr⟩
  have hcard : vertices.card ≤ spaces.heap.next := by
    simpa using Finset.card_filter_le (Finset.range spaces.heap.next) _
  have hlook : ∀ ptr ∈ vertices, ∃ targets, spaces.heap.targets ptr = some targets ∧
      ∀ target ∈ targets, target ∈ vertices := by
    intro ptr hptr
    have hway := (Finset.mem_filter.mp hptr).2
    obtain ⟨node, hnode⟩ := NodeHeap.alive_iff.mp (halive ptr hway)
    refine ⟨_, Option.map_eq_some_iff.mpr ⟨node, hnode, rfl⟩, fun target htarget => ?_⟩
    have hedge : Joins spaces.heap.targets ptr target :=
      ⟨_, Option.map_eq_some_iff.mpr ⟨node, hnode, rfl⟩, htarget⟩
    rw [joins_targets] at hedge
    exact hvertex target (hway.tail hedge)
  refine exists_breadthFirst hlook (fun ptr hptr => ?_) ?_
  · rw [List.mem_singleton.mp hptr]
    exact hvertex root .refl
  · rw [List.length_singleton, List.toFinset_nil, Finset.sdiff_empty]
    omega

theorem connected_iff (hroot : spaces.getNode chain StandardId.rootFolder = some root) :
    spaces.Connected chain ptr ↔ ReflTransGen spaces.Adjacent root ptr := by
  constructor
  · rintro ⟨root', hroot', hway⟩
    obtain rfl := Option.some.inj (hroot.symm.trans hroot')
    exact hway
  · exact fun hway => ⟨root, hroot, hway⟩

theorem listsEachOnce_iff (hbounded : ∀ ptr, spaces.heap.Alive ptr → ptr < spaces.heap.next) :
    spaces.ListsEachOnce chain ↔
      ∀ root, spaces.getNode chain StandardId.rootFolder = some root →
        (∀ ptr, ReflTransGen spaces.Adjacent root ptr → spaces.heap.Alive ptr) ∧
          ¬ TransGen spaces.Adjacent root root := by
  constructor
  · rintro ⟨ptrs, hptrs, hnodup, -, -⟩ root hroot
    obtain ⟨found, rfl, -, hfound, halive⟩ := getAllNodes_spec hroot hptrs
    exact ⟨halive, fun hback => (List.nodup_cons.mp hnodup).1 ((hfound root).mpr hback)⟩
  · intro h
    cases hroot : spaces.getNode chain StandardId.rootFolder with
    | none =>
        refine ⟨[], by rw [getAllNodes, hroot], List.nodup_nil, fun ptr => ?_, nofun⟩
        refine iff_of_false List.not_mem_nil ?_
        rintro ⟨root, hroot', -⟩
        cases hroot.symm.trans hroot'
    | some root =>
        obtain ⟨halive, hback⟩ := h root hroot
        obtain ⟨ptrs, hptrs⟩ := exists_getAllNodes hbounded hroot halive
        obtain ⟨found, rfl, hnodup, hfound, -⟩ := getAllNodes_spec hroot hptrs
        have hmem : ∀ ptr, ptr ∈ root :: found ↔ ReflTransGen spaces.Adjacent root ptr := by
          intro ptr
          rw [List.mem_cons, hfound, reflTransGen_iff_eq_or_transGen]
        refine ⟨_, hptrs, List.nodup_cons.mpr ⟨fun h => hback ((hfound root).mp h), hnodup⟩,
          fun ptr => (hmem ptr).trans (connected_iff hroot).symm, fun ptr hptr => ?_⟩
        exact halive ptr ((hmem ptr).mp hptr)

/-! ## §3  Graphs with both halves of each edge -/

theorem adjacent_symm (hrepresents : spaces.heap.Represents edges) {ptr' : NodePtr}
    (h : spaces.Adjacent ptr ptr') : spaces.Adjacent ptr' ptr := by
  obtain ⟨node, hnode, forward, ref, href, rfl⟩ := h
  have hhalf := (hrepresents.holds.references ptr node hnode forward ref).mp href
  have hmirror : (⟨ref.node, !forward, ⟨ref.type, ptr⟩⟩ : HalfEdge) ∈ NodeHeap.halvesOf edges := by
    cases forward <;> exact hhalf
  obtain ⟨other, hother⟩ := NodeHeap.alive_iff.mp (hrepresents.holds.alive _ hmirror)
  exact ⟨other, hother, !forward, ⟨ref.type, ptr⟩,
    (hrepresents.holds.references ref.node other hother (!forward) _).mpr hmirror, rfl⟩

/-- Where an edge leads there is a node. -/
theorem alive_of_adjacent (hrepresents : spaces.heap.Represents edges) {ptr' : NodePtr}
    (h : spaces.Adjacent ptr ptr') : spaces.heap.Alive ptr' := by
  obtain ⟨node, hnode, -⟩ := adjacent_symm hrepresents h
  exact NodeHeap.alive_iff.mpr ⟨node, hnode⟩

/-- **`GetAllNodes`** lists each node once unless a dangling pointer or a way back to the
root folder is found; in a graph that has both halves of each edge that is unless the
root folder has a reference. -/
theorem all_nodes_once_iff (hbounded : ∀ ptr, spaces.heap.Alive ptr → ptr < spaces.heap.next) :
    (spaces.ListsEachOnce chain ↔
      ∀ root, spaces.getNode chain StandardId.rootFolder = some root →
        (∀ ptr, ReflTransGen spaces.Adjacent root ptr → spaces.heap.Alive ptr) ∧
          ¬ TransGen spaces.Adjacent root root) ∧
    ∀ edges, spaces.heap.Represents edges →
      (∀ root, spaces.getNode chain StandardId.rootFolder = some root → spaces.heap.Alive root) →
        (spaces.ListsEachOnce chain ↔
          ∀ root node, spaces.getNode chain StandardId.rootFolder = some root →
            spaces.heap.nodes root = some node →
              node.forwardReferences = [] ∧ node.inverseReferences = []) := by
  refine ⟨listsEachOnce_iff hbounded, fun edges hrepresents hplaced => ?_⟩
  rw [listsEachOnce_iff hbounded]
  constructor
  · intro h root node hroot hnode
    obtain ⟨-, hback⟩ := h root hroot
    -- The other half of a reference of the root folder leads back to it.
    have hnone : ∀ forward, node.references forward = [] := by
      intro forward
      refine List.eq_nil_iff_forall_not_mem.mpr fun ref href => ?_
      have hedge : spaces.Adjacent root ref.node := ⟨node, hnode, forward, ref, href, rfl⟩
      exact hback ((TransGen.single hedge).tail (adjacent_symm hrepresents hedge))
    exact ⟨hnone true, hnone false⟩
  · intro h root hroot
    refine ⟨fun ptr hptr => ?_, fun hback => ?_⟩
    · rcases ReflTransGen.cases_tail hptr with heq | ⟨ptr', -, hedge⟩
      · exact heq ▸ hplaced root hroot
      · exact alive_of_adjacent hrepresents hedge
    · obtain ⟨ptr, ⟨node, hnode, forward, ref, href, -⟩, -⟩ := TransGen.head'_iff.mp hback
      obtain ⟨hforward, hinverse⟩ := h root node hroot hnode
      cases forward with
      | true =>
          rw [Node.references, if_pos rfl, hforward] at href
          cases href
      | false =>
          rw [Node.references, if_neg Bool.false_ne_true, hinverse] at href
          cases href

/-- A root folder with no references. -/
def loneRoot : Spaces ℕ :=
  spacesOf [{ id := StandardId.rootFolder, nodeClass := .object, attributes := { value := 0 } }]

theorem all_nodes_once_iff_lone_root : loneRoot.ListsEachOnce [0] := by
  have hbounded : ∀ ptr, loneRoot.heap.Alive ptr → ptr < loneRoot.heap.next := by
    intro ptr hptr
    obtain ⟨node, hnode⟩ := NodeHeap.alive_iff.mp hptr
    exact (List.getElem?_eq_some_iff.mp hnode).1
  refine (all_nodes_once_iff hbounded).1.mpr fun root hroot => ?_
  have hroot' : loneRoot.getNode [0] StandardId.rootFolder = some 0 := by decide
  obtain rfl := Option.some.inj (hroot'.symm.trans hroot)
  have hedge : ∀ ptr, ¬ loneRoot.Adjacent 0 ptr := by
    rintro ptr ⟨node, hnode, forward, ref, href, -⟩
    cases hnode
    cases forward <;> cases href
  refine ⟨fun ptr hptr => ?_, fun hback => ?_⟩
  · rcases ReflTransGen.cases_head hptr with rfl | ⟨ptr', hptr', -⟩
    · exact nofun
    · exact absurd hptr' (hedge ptr')
  · obtain ⟨ptr, hptr, -⟩ := TransGen.head'_iff.mp hback
    exact hedge ptr hptr

/-- A root folder that organizes one folder. -/
def rootWithFolder : Spaces ℕ :=
  spacesOf [
    { id := StandardId.rootFolder, nodeClass := .object, attributes := { value := 0 },
      forwardReferences := [⟨1, 2⟩] },
    { id := StandardId.organizes, nodeClass := .referenceType, attributes := { value := 0 } },
    { id := .numeric 1 7, nodeClass := .object, attributes := { value := 0 },
      inverseReferences := [⟨1, 0⟩] }]

/-- The root folder is exported twice. -/
theorem root_is_listed_twice :
    rootWithFolder.makeNodeStates [0] Node.id =
        some [StandardId.rootFolder, .numeric 1 7, StandardId.rootFolder] ∧
      ¬ rootWithFolder.ListsEachOnce [0] := by
  refine ⟨by decide, ?_⟩
  rintro ⟨ptrs, hptrs, hnodup, -⟩
  have htwice : rootWithFolder.getAllNodes [0] = some [0, 2, 0] := by decide
  rw [← Option.some.inj (htwice.symm.trans hptrs)] at hnodup
  exact absurd hnodup (by decide)

end AddressSpaces

end ScadaCommon.AddressSpace
