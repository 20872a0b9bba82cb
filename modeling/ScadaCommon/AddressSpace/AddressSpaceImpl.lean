import ScadaCommon.Foundation.Machine
import ScadaCommon.AddressSpace.NodeGraph

/-!
# Address spaces

An `AddressSpaceImpl` maps ids to nodes, and looks into its parent for what it
does not have. References cross spaces. `DeleteNode` runs in steps: it deletes
the children of its node one by one, each in a call of its own, then the
references, one by one, and takes the node out at last.

§1 spaces · §2 calls · §3 the invariant · §4 one step · §5 runs.
-/

namespace ScadaCommon.AddressSpace

open Foundation

/-! ## §1  Spaces -/

abbrev SpaceId := ℕ

/-- An entry of the node map of some space. -/
abbrev Place := SpaceId × NodeId

/-- The spaces above one heap of nodes. -/
structure AddressSpaces (A : Type) where
  heap : NodeHeap A
  nodeMap : Place → Option NodePtr
  /-- Whether the space owns the node. -/
  staticNodes : Place → Bool

variable {A : Type}

namespace AddressSpaces

/-- `GetNode`, with the space and its parents, the nearest first. -/
def getNode (spaces : AddressSpaces A) (chain : List SpaceId) (nodeId : NodeId) : Option NodePtr :=
  chain.findSome? fun space => spaces.nodeMap (space, nodeId)

def addNode (spaces : AddressSpaces A) (chain : List SpaceId) (space : SpaceId) (id : NodeId)
    (nodeClass : NodeClass) (attributes : A) (owned : Bool) : Option (AddressSpaces A) := do
  check (id ≠ .null)
  check (spaces.getNode chain id = none)
  check (spaces.nodeMap (space, id) = none)
  let (heap, ptr) := spaces.heap.allocate { id, nodeClass, attributes }
  return {
    heap
    nodeMap := Function.update spaces.nodeMap (space, id) (some ptr)
    staticNodes := Function.update spaces.staticNodes (space, id) owned }

/-- The end of `DeleteNode`; the destructor of a node checks that it has no
references. -/
def eraseNode (spaces : AddressSpaces A) (place : Place) : Option (AddressSpaces A) := do
  let ptr ← spaces.nodeMap place
  let node ← spaces.heap.nodes ptr
  let nodeMap := Function.update spaces.nodeMap place none
  let staticNodes := Function.update spaces.staticNodes place false
  if spaces.staticNodes place then
    check (node.forwardReferences = [])
    check (node.inverseReferences = [])
    return { heap := spaces.heap.set ptr none, nodeMap, staticNodes }
  return { spaces with nodeMap, staticNodes }

end AddressSpaces

/-! ## §2  Calls -/

/-- A call of `DeleteNode` that runs, and whether it is past the children. -/
structure DeleteNodeFrame where
  place : Place
  node : NodePtr
  clearing : Bool
deriving DecidableEq

structure SpaceWorld (A : Type) extends AddressSpaces A where
  /-- The innermost call first. -/
  calls : List DeleteNodeFrame

inductive SpaceAction (A : Type) where
  | addNode (place : Place) (nodeClass : NodeClass) (attributes : A) (owned : Bool)
  | addReference (type source target : Place)
  | deleteReference (type source target : Place)
  | deleteNode (place : Place)
  /-- `DeleteNode` goes on. -/
  | proceed

namespace SpaceWorld

def setHeap (w : SpaceWorld A) (heap : NodeHeap A) : SpaceWorld A :=
  { w with heap }

/-- Enters `DeleteNode`, which returns at once when there is no such node. -/
def callDeleteNode (w : SpaceWorld A) (place : Place) : SpaceWorld A :=
  match w.nodeMap place with
  | none => w
  | some node => { w with calls := ⟨place, node, false⟩ :: w.calls }

/-- The front of `GetChildren`, if there is one. -/
def firstChild (w : SpaceWorld A) (node : Node A) : Option (Option Reference) :=
  w.heap.findFirst StandardId.hierarchicalReferences node.forwardReferences

/-- One round of the loop over the children. -/
def deleteChild (w : SpaceWorld A) (frame : DeleteNodeFrame) (rest : List DeleteNodeFrame) :
    Option (SpaceWorld A) := do
  let node ← w.heap.nodes frame.node
  match ← w.firstChild node with
  | none => return { w with calls := { frame with clearing := true } :: rest }
  | some child =>
      let childNode ← w.heap.nodes child.node
      return w.callDeleteNode (frame.place.1, childNode.id)

/-- One round of `DeleteAllReferences`, or the end of the call. -/
def clearReference (w : SpaceWorld A) (frame : DeleteNodeFrame) (rest : List DeleteNodeFrame) :
    Option (SpaceWorld A) := do
  let node ← w.heap.nodes frame.node
  match node.inverseReferences.getLast?, node.forwardReferences.getLast? with
  | some ref, _ => (w.heap.deleteReference ref.type ref.node frame.node).map w.setHeap
  | none, some ref => (w.heap.deleteReference ref.type frame.node ref.node).map w.setHeap
  | none, none => do
      check (w.nodeMap frame.place = some frame.node)
      let spaces ← w.toAddressSpaces.eraseNode frame.place
      return { toAddressSpaces := spaces, calls := rest }

def proceed (w : SpaceWorld A) : Option (SpaceWorld A) :=
  match w.calls with
  | [] => none
  | frame :: rest => if frame.clearing then w.clearReference frame rest else w.deleteChild frame rest

/-- `chain` gives each space with its parents. -/
def step (chain : SpaceId → List SpaceId) (w : SpaceWorld A) : SpaceAction A →
    Option (SpaceWorld A)
  | .addNode place nodeClass attributes owned => do
      let spaces ← w.toAddressSpaces.addNode (chain place.1) place.1 place.2 nodeClass attributes
        owned
      return { w with toAddressSpaces := spaces }
  | .addReference type source target => do
      let type ← w.nodeMap type
      let source ← w.nodeMap source
      let target ← w.nodeMap target
      (w.heap.addReference type source target).map w.setHeap
  | .deleteReference type source target => do
      let type ← w.nodeMap type
      let source ← w.nodeMap source
      let target ← w.nodeMap target
      (w.heap.deleteReference type source target).map w.setHeap
  | .deleteNode place => some (w.callDeleteNode place)
  | .proceed => w.proceed

/-- The type of a reference is a `ReferenceType`. -/
def IsReferenceType (w : SpaceWorld A) (place : Place) : Prop :=
  (w.nodeMap place).bind w.heap.classOf = some .referenceType

/-- Calls come one after the other, with nodes that are there. -/
def Enabled (w : SpaceWorld A) : SpaceAction A → Prop
  | .addNode _ _ _ _ | .deleteNode _ => w.calls = []
  | .addReference type source target | .deleteReference type source target =>
      w.calls = [] ∧ w.IsReferenceType type ∧ w.nodeMap source ≠ none ∧ w.nodeMap target ≠ none
  | .proceed => w.calls ≠ []

def initial : SpaceWorld A where
  heap := { nodes := fun _ => none, next := 0 }
  nodeMap _ := none
  staticNodes _ := false
  calls := []

def machine (A : Type) (chain : SpaceId → List SpaceId) :
    Machine (SpaceWorld A) (SpaceAction A) where
  init := initial
  enabled := Enabled
  step := step chain

/-! ## §3  The invariant -/

variable {w w' : SpaceWorld A} {chain : SpaceId → List SpaceId} {a : SpaceAction A}

def Present (w : SpaceWorld A) (ptr : NodePtr) : Prop :=
  ∃ place, w.nodeMap place = some ptr

/-- The references and caches of the nodes fit together. -/
structure Intact (w : SpaceWorld A) : Prop where
  once : ∀ ptr node, w.heap.nodes ptr = some node →
    node.forwardReferences.Nodup ∧ node.inverseReferences.Nodup
  mirror : ∀ source node target node', w.heap.nodes source = some node →
    w.heap.nodes target = some node' → ∀ type,
      node.forwardReferences.count ⟨type, target⟩ = 1 ↔
        node'.inverseReferences.count ⟨type, source⟩ = 1
  present : ∀ ptr node, w.heap.nodes ptr = some node → ∀ forward,
    ∀ ref ∈ node.references forward, w.Present ref.type ∧ w.Present ref.node
  typeDefinition : ∀ ptr node, w.heap.nodes ptr = some node → ∀ other,
    node.typeDefinition = some other ↔ ∃ type, ⟨type, other⟩ ∈ node.forwardReferences ∧
      w.heap.idOf type = some StandardId.hasTypeDefinition
  supertype : ∀ ptr node, w.heap.nodes ptr = some node → node.nodeClass.isTypeDefinition = true →
    ∀ other, node.supertype = some other ↔ ∃ type, ⟨type, other⟩ ∈ node.inverseReferences ∧
      w.heap.idOf type = some StandardId.hasSubtype

/-- Some reference has the node as its type. -/
def TypeInUse (w : SpaceWorld A) (type : NodePtr) : Prop :=
  ∃ source < w.heap.next, ∃ node ∈ w.heap.nodes source, ∃ ref ∈ node.forwardReferences,
    ref.type = type

/-- The node that `DeleteNode` takes out next. -/
def leaving (w : SpaceWorld A) : Option NodePtr := do
  let frame ← w.calls.head?
  let node ← w.heap.nodes frame.node
  if frame.clearing ∧ node.inverseReferences = [] ∧ node.forwardReferences = [] then frame.node
  else none

/-- No node is taken out while references between other nodes have it as their
type. -/
def KeepsTypes (w : SpaceWorld A) : SpaceAction A → Prop
  | .proceed => ∀ type ∈ w.leaving, ¬ w.TypeInUse type
  | _ => True

/-- The spaces hold a graph of their own nodes. -/
structure Inv (w : SpaceWorld A) (edges : Set Edge) : Prop where
  represents : w.heap.Represents edges
  placed : ∀ place ptr, w.nodeMap place = some ptr → w.heap.Alive ptr
  once : ∀ place place' ptr, w.nodeMap place = some ptr → w.nodeMap place' = some ptr →
    place = place'
  present : ∀ edge ∈ edges, w.Present edge.type ∧ w.Present edge.source ∧ w.Present edge.target

/-- The node whose references are all deleted is the one that goes. -/
theorem leaving_of_cleared {frame : DeleteNodeFrame} {rest : List DeleteNodeFrame} {node : Node A}
    (hcalls : w.calls = frame :: rest) (hnode : w.heap.nodes frame.node = some node)
    (hclearing : frame.clearing = true) (hinverse : node.inverseReferences.getLast? = none)
    (hforward : node.forwardReferences.getLast? = none) :
    (∀ forward, node.references forward = []) ∧ w.leaving = some frame.node := by
  rw [List.getLast?_eq_none_iff] at hinverse hforward
  constructor
  · rintro (_ | _)
    · exact hinverse
    · exact hforward
  · simp [leaving, hcalls, hnode, hclearing, hinverse, hforward]

theorem Inv.initial : (initial : SpaceWorld A).Inv ∅ where
  represents := by
    constructor
    · constructor <;> simp [SpaceWorld.initial, NodeHeap.halvesOf]
    · rintro edge ⟨⟩
    · intro ptr hptr
      exact (hptr rfl).elim
  placed place ptr h := by cases h
  once place place' ptr h := by cases h
  present := by rintro edge ⟨⟩

theorem count_eq_one_iff {refs : List Reference} (h : refs.Nodup) {ref : Reference} :
    refs.count ref = 1 ↔ ref ∈ refs := by
  rw [h.count]
  split <;> simp_all

theorem Inv.intact {edges : Set Edge} (h : w.Inv edges) : w.Intact := by
  have hreferences := h.represents.holds.references
  constructor
  case once =>
    intro ptr node hnode
    exact ⟨h.represents.holds.nodup ptr node hnode true, h.represents.holds.nodup ptr node hnode false⟩
  case mirror =>
    intro source node target node' hnode hnode' type
    have hsource := hreferences source node hnode true ⟨type, target⟩
    have htarget := hreferences target node' hnode' false ⟨type, source⟩
    have honce := h.represents.holds.nodup source node hnode true
    have honce' := h.represents.holds.nodup target node' hnode' false
    exact (count_eq_one_iff honce).trans ((hsource.trans htarget.symm).trans
      (count_eq_one_iff honce').symm)
  case present =>
    intro ptr node hnode forward ref href
    have hedge := h.present _ ((hreferences ptr node hnode forward ref).mp href)
    cases forward
    · exact ⟨hedge.1, hedge.2.1⟩
    · exact ⟨hedge.1, hedge.2.2⟩
  case typeDefinition =>
    intro ptr node hnode other
    have hcache := h.represents.holds.cache ptr node hnode true other
    rw [show node.typeDefinition = node.cache true from rfl, hcache]
    refine exists_congr fun type => and_congr (hreferences ptr node hnode true _).symm ?_
    simp [NodeHeap.IsCached, Node.Caches]
  case supertype =>
    intro ptr node hnode htype other
    have hcache := h.represents.holds.cache ptr node hnode false other
    rw [show node.supertype = node.cache false from rfl, hcache]
    refine exists_congr fun type => and_congr (hreferences ptr node hnode false _).symm ?_
    simp [NodeHeap.IsCached, Node.Caches, htype]

/-! ## §4  One step -/

namespace Inv

variable {edges : Set Edge}

/-- Calls that do not touch the nodes. -/
theorem setCalls (h : w.Inv edges) (calls : List DeleteNodeFrame) : Inv { w with calls } edges :=
  ⟨h.represents, h.placed, h.once, h.present⟩

theorem callDeleteNode (h : w.Inv edges) (place : Place) : (w.callDeleteNode place).Inv edges := by
  unfold SpaceWorld.callDeleteNode
  split
  · exact h
  · exact h.setCalls _

/-- Another heap of the same objects. -/
theorem setHeap (h : w.Inv edges) {heap : NodeHeap A} (hsame : w.heap.SameObjects heap)
    {edges' : Set Edge} (hrepresents : heap.Represents edges')
    (hpresent : ∀ edge ∈ edges', w.Present edge.type ∧ w.Present edge.source ∧
      w.Present edge.target) : (w.setHeap heap).Inv edges' where
  represents := hrepresents
  placed place ptr hplace := hsame.alive.mpr (h.placed place ptr hplace)
  once := h.once
  present := hpresent

theorem addReference (h : w.Inv edges) {type source target : Place}
    (hs : w.step chain (.addReference type source target) = some w') :
    ∃ edges', w'.Inv edges' := by
  obtain ⟨t, ht, hs⟩ := Option.bind_eq_some_iff.mp hs
  obtain ⟨s, hsource, hs⟩ := Option.bind_eq_some_iff.mp hs
  obtain ⟨d, htarget, hs⟩ := Option.bind_eq_some_iff.mp hs
  obtain ⟨heap, hadd, rfl⟩ := Option.map_eq_some_iff.mp hs
  obtain ⟨hsame, -, hrepresents⟩ := h.represents.addReference hadd
  refine ⟨_, h.setHeap hsame hrepresents ?_⟩
  rintro edge (rfl | hedge)
  · exact ⟨⟨type, ht⟩, ⟨source, hsource⟩, ⟨target, htarget⟩⟩
  · exact h.present edge hedge

theorem deleteEdge (h : w.Inv edges) {type source target : NodePtr}
    (hs : (w.heap.deleteReference type source target).map w.setHeap = some w') :
    ∃ edges', w'.Inv edges' := by
  obtain ⟨heap, hdelete, rfl⟩ := Option.map_eq_some_iff.mp hs
  obtain ⟨hsame, -, hrepresents⟩ := h.represents.deleteReference hdelete
  exact ⟨_, h.setHeap hsame hrepresents fun edge hedge => h.present edge hedge.1⟩

theorem addNode (h : w.Inv edges) {place : Place} {nodeClass : NodeClass} {attributes : A}
    {owned : Bool} (hs : w.step chain (.addNode place nodeClass attributes owned) = some w') :
    w'.Inv edges := by
  obtain ⟨spaces, hspaces, hs⟩ := Option.bind_eq_some_iff.mp hs
  obtain ⟨-, hspaces⟩ := check_bind_eq_some.mp hspaces
  obtain ⟨-, hspaces⟩ := check_bind_eq_some.mp hspaces
  obtain ⟨hfree, hspaces⟩ := check_bind_eq_some.mp hspaces
  cases hspaces
  cases hs
  have hdead : ¬ w.heap.Alive w.heap.next := fun halive => (h.represents.bounded _ halive).false
  have hnew : ∀ place' ptr, w.nodeMap place' = some ptr → ptr ≠ w.heap.next := by
    rintro place' ptr hplace rfl
    exact hdead (h.placed place' _ hplace)
  have hkeep : ∀ ptr, w.Present ptr → ∃ place', Function.update w.nodeMap place
      (some w.heap.next) place' = some ptr := by
    rintro ptr ⟨place', hplace'⟩
    refine ⟨place', ?_⟩
    have hne : place' ≠ place := by
      rintro rfl
      rw [hfree] at hplace'
      cases hplace'
    rwa [Function.update_of_ne hne]
  refine ⟨h.represents.allocate ?_, ?_, ?_, ?_⟩
  · intro forward
    cases forward <;> exact ⟨rfl, rfl⟩
  · intro place' ptr hplace
    simp only [Function.update_apply] at hplace
    split at hplace
    · obtain rfl := Option.some.inj hplace
      simp [NodeHeap.Alive, NodeHeap.idOf]
    · have hne := hnew place' ptr hplace
      have halive := h.placed place' ptr hplace
      simpa [NodeHeap.Alive, NodeHeap.idOf, NodeHeap.allocate, hne] using halive
  · intro place₁ place₂ ptr h₁ h₂
    simp only [Function.update_apply] at h₁ h₂
    split at h₁ <;> split at h₂
    · simp_all
    · obtain rfl := Option.some.inj h₁
      exact (hnew place₂ _ h₂ rfl).elim
    · obtain rfl := Option.some.inj h₂
      exact (hnew place₁ _ h₁ rfl).elim
    · exact h.once place₁ place₂ ptr h₁ h₂
  · intro edge hedge
    obtain ⟨ht, hsource, htarget⟩ := h.present edge hedge
    exact ⟨hkeep _ ht, hkeep _ hsource, hkeep _ htarget⟩

theorem typeInUse_iff (h : w.Inv edges) {type : NodePtr} :
    w.TypeInUse type ↔ ∃ edge ∈ edges, edge.type = type := by
  have hreferences := h.represents.holds.references
  constructor
  · rintro ⟨source, -, node, hnode, ref, href, rfl⟩
    exact ⟨_, (hreferences source node hnode true ref).mp href, rfl⟩
  · rintro ⟨edge, hedge, rfl⟩
    have halive := h.represents.holds.alive (edge.half true) (by simpa [NodeHeap.halvesOf] using hedge)
    obtain ⟨node, hnode⟩ := NodeHeap.alive_iff.mp halive
    refine ⟨edge.source, h.represents.bounded _ halive, node, hnode, ⟨edge.type, edge.target⟩, ?_,
      rfl⟩
    exact (hreferences edge.source node hnode true _).mpr hedge

theorem eraseNode_spec {place : Place} {ptr : NodePtr} (hplace : w.nodeMap place = some ptr)
    {spaces : AddressSpaces A} (hs : w.toAddressSpaces.eraseNode place = some spaces) :
    spaces.nodeMap = Function.update w.nodeMap place none ∧
      (spaces.heap = w.heap ∨ spaces.heap = w.heap.set ptr none) := by
  obtain ⟨ptr', hptr, hs⟩ := Option.bind_eq_some_iff.mp hs
  obtain rfl := Option.some.inj (hplace.symm.trans hptr)
  obtain ⟨node, -, hs⟩ := Option.bind_eq_some_iff.mp hs
  split at hs
  · obtain ⟨-, hs⟩ := check_bind_eq_some.mp hs
    obtain ⟨-, hs⟩ := check_bind_eq_some.mp hs
    cases hs
    exact ⟨rfl, .inr rfl⟩
  · cases hs
    exact ⟨rfl, .inl rfl⟩

/-- The call ends, and its node is gone. -/
theorem eraseNode (h : w.Inv edges) {place : Place} {ptr : NodePtr} {node : Node A}
    (hplace : w.nodeMap place = some ptr) (hnode : w.heap.nodes ptr = some node)
    (hempty : ∀ forward, node.references forward = []) (htype : ¬ w.TypeInUse ptr)
    {spaces : AddressSpaces A} (hs : w.toAddressSpaces.eraseNode place = some spaces)
    (calls : List DeleteNodeFrame) : Inv ⟨spaces, calls⟩ edges := by
  have huntouched : NodeHeap.Untouched edges ptr := by
    intro edge hedge
    refine ⟨?_, (h.represents.alone hnode).mp hempty edge hedge⟩
    rintro heq
    exact htype (h.typeInUse_iff.mpr ⟨edge, hedge, heq⟩)
  have hrest : ∀ place' q, Function.update w.nodeMap place none place' = some q →
      q ≠ ptr ∧ w.nodeMap place' = some q := by
    intro place' q hq
    rw [Function.update_apply] at hq
    split at hq
    · cases hq
    · rename_i hne
      refine ⟨?_, hq⟩
      rintro rfl
      exact hne (h.once place' place q hq hplace)
  have hkeep : ∀ q, q ≠ ptr → w.Present q →
      ∃ place', Function.update w.nodeMap place none place' = some q := by
    rintro q hq ⟨place', hplace'⟩
    refine ⟨place', ?_⟩
    have hne : place' ≠ place := by
      rintro rfl
      exact hq (Option.some.inj (hplace'.symm.trans hplace))
    rwa [Function.update_of_ne hne]
  obtain ⟨hmap, hheap⟩ := eraseNode_spec hplace hs
  have hrepresents : spaces.heap.Represents edges := by
    rcases hheap with hheap | hheap <;> rw [hheap]
    · exact h.represents
    · exact h.represents.free huntouched
  have halive : ∀ q, q ≠ ptr → w.heap.Alive q → spaces.heap.Alive q := by
    intro q hq halive
    rcases hheap with hheap | hheap <;> rw [hheap]
    · exact halive
    · simpa [NodeHeap.Alive, NodeHeap.idOf, NodeHeap.nodes_set, hq] using halive
  refine ⟨hrepresents, ?_, ?_, ?_⟩
  · intro place' q hq
    rw [hmap] at hq
    obtain ⟨hne, hold⟩ := hrest place' q hq
    exact halive q hne (h.placed place' q hold)
  · intro place₁ place₂ q h₁ h₂
    rw [hmap] at h₁ h₂
    exact h.once place₁ place₂ q (hrest place₁ q h₁).2 (hrest place₂ q h₂).2
  · intro edge hedge
    obtain ⟨htype, hsource, htarget⟩ := huntouched edge hedge
    obtain ⟨ht, hs, hd⟩ := h.present edge hedge
    simp only [Present, hmap]
    exact ⟨hkeep _ htype ht, hkeep _ hsource hs, hkeep _ htarget hd⟩

theorem deleteChild (h : w.Inv edges) {frame : DeleteNodeFrame} {rest : List DeleteNodeFrame}
    (hs : w.deleteChild frame rest = some w') : w'.Inv edges := by
  obtain ⟨node, -, hs⟩ := Option.bind_eq_some_iff.mp hs
  obtain ⟨child, -, hs⟩ := Option.bind_eq_some_iff.mp hs
  cases child with
  | none =>
      cases hs
      exact h.setCalls _
  | some child =>
      obtain ⟨childNode, -, hs⟩ := Option.bind_eq_some_iff.mp hs
      cases hs
      exact h.callDeleteNode _

theorem clearReference (h : w.Inv edges) {frame : DeleteNodeFrame} {rest : List DeleteNodeFrame}
    (hcalls : w.calls = frame :: rest) (hclearing : frame.clearing = true)
    (hok : w.KeepsTypes .proceed) (hs : w.clearReference frame rest = some w') :
    ∃ edges', w'.Inv edges' := by
  obtain ⟨node, hnode, hs⟩ := Option.bind_eq_some_iff.mp hs
  split at hs
  · exact h.deleteEdge hs
  · exact h.deleteEdge hs
  · rename_i hinverse hforward
    obtain ⟨hplace, hs⟩ := check_bind_eq_some.mp hs
    obtain ⟨spaces, hspaces, hs⟩ := Option.bind_eq_some_iff.mp hs
    cases hs
    obtain ⟨hempty, hleaving⟩ := leaving_of_cleared hcalls hnode hclearing hinverse hforward
    exact ⟨edges, h.eraseNode hplace hnode hempty (hok frame.node hleaving) hspaces rest⟩

theorem step (h : w.Inv edges) (hok : w.KeepsTypes a) (hs : w.step chain a = some w') :
    ∃ edges', w'.Inv edges' := by
  cases a with
  | addNode place nodeClass attributes owned => exact ⟨edges, h.addNode hs⟩
  | addReference type source target => exact h.addReference hs
  | deleteReference type source target =>
      obtain ⟨t, -, hs⟩ := Option.bind_eq_some_iff.mp hs
      obtain ⟨s, -, hs⟩ := Option.bind_eq_some_iff.mp hs
      obtain ⟨d, -, hs⟩ := Option.bind_eq_some_iff.mp hs
      exact h.deleteEdge hs
  | deleteNode place =>
      cases hs
      exact ⟨edges, h.callDeleteNode place⟩
  | proceed =>
      simp only [SpaceWorld.step, SpaceWorld.proceed] at hs
      split at hs
      · cases hs
      · rename_i frame rest hcalls
        split at hs
        · rename_i hclearing
          exact h.clearReference hcalls hclearing hok hs
        · exact ⟨edges, h.deleteChild hs⟩

end Inv

theorem leaving_eq_some {ptr : NodePtr} (h : w.leaving = some ptr) :
    ∃ frame rest node, w.calls = frame :: rest ∧ frame.node = ptr ∧ frame.clearing = true ∧
      w.heap.nodes ptr = some node ∧ node.inverseReferences = [] ∧ node.forwardReferences = [] := by
  obtain ⟨frame, hframe, h⟩ := Option.bind_eq_some_iff.mp h
  obtain ⟨node, hnode, h⟩ := Option.bind_eq_some_iff.mp h
  obtain ⟨rest, hcalls⟩ := List.head?_eq_some_iff.mp hframe
  split at h
  · rename_i hempty
    obtain ⟨hclearing, hinverse, hforward⟩ := hempty
    obtain rfl := Option.some.inj h
    exact ⟨frame, rest, node, hcalls, rfl, hclearing, hnode, hinverse, hforward⟩
  · cases h

/-- A node that goes while references have it as their type is missed there. -/
theorem Intact.keepsTypes {edges : Set Edge} (hinv : w.Inv edges) (h : w'.Intact)
    (hs : w.step chain a = some w') : w.KeepsTypes a := by
  cases a with
  | proceed =>
      rintro type htype ⟨source, -, node, hnode, ref, href, hreftype⟩
      obtain ⟨frame, rest, typeNode, hcalls, rfl, hclearing, htypeNode, hinverse, hforward⟩ :=
        leaving_eq_some htype
      simp only [SpaceWorld.step, SpaceWorld.proceed, hcalls, hclearing, if_true,
        clearReference] at hs
      obtain ⟨typeNode', htypeNode', hs⟩ := Option.bind_eq_some_iff.mp hs
      obtain rfl := Option.some.inj (htypeNode.symm.trans htypeNode')
      simp only [hinverse, hforward, List.getLast?_nil] at hs
      obtain ⟨hplace, hs⟩ := check_bind_eq_some.mp hs
      obtain ⟨spaces, hspaces, hs⟩ := Option.bind_eq_some_iff.mp hs
      cases hs
      obtain ⟨hmap, hheap⟩ := Inv.eraseNode_spec hplace hspaces
      have hsource : source ≠ frame.node := by
        rintro rfl
        obtain rfl := Option.some.inj (htypeNode.symm.trans hnode)
        rw [hforward] at href
        cases href
      have hnode' : spaces.heap.nodes source = some node := by
        rcases hheap with hheap | hheap <;> rw [hheap]
        · exact hnode
        · rw [NodeHeap.nodes_set, if_neg hsource]
          exact hnode
      obtain ⟨⟨place, hpresent⟩, -⟩ := h.present source node hnode' true ref href
      rw [hreftype, hmap, Function.update_apply] at hpresent
      split at hpresent
      · cases hpresent
      · rename_i hne
        exact hne (hinv.once place frame.place frame.node hpresent hplace)
  | _ => trivial

/-! ## §5  Runs -/

theorem graph_intact (h : (machine A chain).Reaches KeepsTypes w) :
    w.Intact ∧ ∀ a w', w.step chain a = some w' → (w'.Intact ↔ w.KeepsTypes a) := by
  obtain ⟨edges, hinv⟩ : ∃ edges, w.Inv edges :=
    h.invariant (I := fun w => ∃ edges, w.Inv edges) ⟨∅, Inv.initial⟩
      fun _ _ _ ⟨_, ht⟩ _ hok hs => ht.step hok hs
  refine ⟨hinv.intact, fun a w' hs => ⟨fun hintact => hintact.keepsTypes hinv hs, fun hok => ?_⟩⟩
  obtain ⟨edges', hinv'⟩ := hinv.step hok hs
  exact hinv'.intact

instance (w : SpaceWorld A) (place : Place) : Decidable (w.IsReferenceType place) :=
  inferInstanceAs (Decidable (_ = _))

instance (w : SpaceWorld A) : ∀ a, Decidable (w.Enabled a)
  | .addNode _ _ _ _ | .deleteNode _ =>
      decidable_of_iff (w.calls.isEmpty = true) List.isEmpty_iff
  | .addReference type source target | .deleteReference type source target =>
      decidable_of_iff (w.calls.isEmpty = true ∧ w.IsReferenceType type ∧
        (w.nodeMap source).isSome ∧ (w.nodeMap target).isSome)
        (by simp [Enabled, Option.isSome_iff_ne_none])
  | .proceed => decidable_of_iff (w.calls.isEmpty = false) (by simp [Enabled])

instance (w : SpaceWorld A) (a : SpaceAction A) : Decidable ((machine A chain).enabled w a) :=
  inferInstanceAs (Decidable (w.Enabled a))

instance (w : SpaceWorld A) (type : NodePtr) : Decidable (w.TypeInUse type) := by
  unfold TypeInUse
  infer_instance

instance (w : SpaceWorld A) : ∀ a, Decidable (w.KeepsTypes a)
  | .proceed => inferInstanceAs (Decidable (∀ type ∈ w.leaving, ¬ w.TypeInUse type))
  | .addNode .. | .addReference .. | .deleteReference .. | .deleteNode .. =>
      inferInstanceAs (Decidable True)

/-- Two nodes are deleted with the one call, and the type of their edge after
them. -/
theorem graph_intact_deleted : ∃ w : SpaceWorld ℕ, w.calls = [] ∧
    w.nodeMap (1, .numeric 100 7) = none ∧ w.nodeMap (1, .numeric 101 7) = none ∧
      w.nodeMap (0, StandardId.hierarchicalReferences) = none ∧ w.Intact := by
  obtain ⟨w, hw, hp⟩ := Machine.exists_reaches_of_exec
    (M := machine ℕ fun space => if space = 1 then [1, 0] else [space]) KeepsTypes
    (p := fun w => decide (w.calls = [] ∧ w.nodeMap (1, .numeric 100 7) = none ∧
      w.nodeMap (1, .numeric 101 7) = none ∧
      w.nodeMap (0, StandardId.hierarchicalReferences) = none))
    [.addNode (0, StandardId.hierarchicalReferences) .referenceType 0 true,
      .addNode (1, .numeric 100 7) .object 0 true, .addNode (1, .numeric 101 7) .object 0 false,
      .addReference (0, StandardId.hierarchicalReferences) (1, .numeric 100 7) (1, .numeric 101 7),
      .deleteNode (1, .numeric 100 7), .proceed, .proceed, .proceed, .proceed, .proceed, .proceed,
      .deleteNode (0, StandardId.hierarchicalReferences), .proceed, .proceed]
    (by decide +kernel)
  obtain ⟨hcalls, hfirst, hsecond, htype⟩ := of_decide_eq_true hp
  exact ⟨w, hcalls, hfirst, hsecond, htype, (graph_intact hw).1⟩

/-- The type of a reference between two other nodes is deleted, and destroyed:
the reference stays. -/
theorem deleted_type_is_still_referenced : ∃ w : SpaceWorld ℕ,
    (machine ℕ fun space => [space]).Reachable w ∧ w.calls = [] ∧
      w.nodeMap (0, .numeric 500 7) = none ∧ w.heap.nodes 0 = none ∧
      (w.heap.nodes 1).map Node.forwardReferences = some [⟨0, 2⟩] := by
  obtain ⟨w, hw, hp⟩ := Machine.exists_reachable_of_exec (M := machine ℕ fun space => [space])
    (p := fun w => decide (w.calls = [] ∧ w.nodeMap (0, .numeric 500 7) = none ∧
      w.heap.nodes 0 = none ∧ (w.heap.nodes 1).map Node.forwardReferences = some [⟨0, 2⟩]))
    [.addNode (0, .numeric 500 7) .referenceType 0 true,
      .addNode (0, .numeric 100 7) .object 0 true, .addNode (0, .numeric 101 7) .object 0 true,
      .addReference (0, .numeric 500 7) (0, .numeric 100 7) (0, .numeric 101 7),
      .deleteNode (0, .numeric 500 7), .proceed, .proceed]
    (by decide +kernel)
  exact ⟨w, hw, of_decide_eq_true hp⟩

end SpaceWorld

end ScadaCommon.AddressSpace
