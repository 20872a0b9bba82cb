import ScadaCommon.AddressSpace.AddressSpaceImpl
import ScadaCommon.Foundation.Walks

/-!
# Deleting a node

`DeleteNode` takes the first child that a node still has and deletes what it finds
under the id of the child, until there is none; then the references go, and the node.

§1 the code as a function · §2 reading children · §3 a round of each loop · §4 more
fuel · §5 what calls take away · §6 the calls one by one.
-/

namespace ScadaCommon.AddressSpace

open Foundation

variable {A : Type}

namespace AddressSpaces

/-! ## §1  The code as a function -/

/-- Its notification asks whether the type is hierarchical. -/
def deleteReference (spaces : AddressSpaces A) (type source target : NodePtr) :
    Option (AddressSpaces A) := do
  let heap ← spaces.heap.deleteReference type source target
  let _ ← heap.isSubtypeOf type StandardId.hierarchicalReferences
  return { spaces with heap }

def deleteAllReferences (ptr : NodePtr) : ℕ → AddressSpaces A → Option (AddressSpaces A)
  | 0, _ => none
  | rounds + 1, spaces => do
      let node ← spaces.heap.nodes ptr
      match node.inverseReferences.getLast?, node.forwardReferences.getLast? with
      | some ref, _ =>
          let spaces ← spaces.deleteReference ref.type ref.node ptr
          deleteAllReferences ptr rounds spaces
      | none, some ref =>
          let spaces ← spaces.deleteReference ref.type ptr ref.node
          deleteAllReferences ptr rounds spaces
      | none, none => return spaces

/-- The loop over the children, which reads them anew in each round. -/
def deleteChildren (delete : AddressSpaces A → Place → Option (AddressSpaces A)) (space : SpaceId)
    (ptr : NodePtr) : ℕ → AddressSpaces A → Option (AddressSpaces A)
  | 0, _ => none
  | rounds + 1, spaces => do
      let node ← spaces.heap.nodes ptr
      match ← spaces.heap.findFirst StandardId.hierarchicalReferences node.forwardReferences with
      | none => return spaces
      | some child =>
          let childNode ← spaces.heap.nodes child.node
          let spaces ← delete spaces (space, childNode.id)
          deleteChildren delete space ptr rounds spaces

/-- With calls inside of calls at most `fuel` deep, and as many rounds of each loop. -/
def deleteNode : ℕ → AddressSpaces A → Place → Option (AddressSpaces A)
  | 0, _, _ => none
  | fuel + 1, spaces, place =>
      match spaces.nodeMap place with
      | none => some spaces
      | some ptr => do
          let spaces ← deleteChildren (deleteNode fuel) place.1 ptr fuel spaces
          let spaces ← deleteAllReferences ptr fuel spaces
          check (spaces.nodeMap place = some ptr)
          spaces.eraseNode place

/-! ## §2  Reading children -/

/-- The type is a subtype of `HierarchicalReferences`; `none` when that cannot be
told. -/
def isHierarchical (spaces : AddressSpaces A) (type : NodePtr) : Option Bool :=
  spaces.heap.isSubtypeOf type StandardId.hierarchicalReferences

/-- `GetChildren`. -/
def children (spaces : AddressSpaces A) (ptr : NodePtr) : List NodePtr :=
  match spaces.heap.nodes ptr with
  | none => []
  | some node => (node.forwardReferences.filter fun ref =>
      spaces.isHierarchical ref.type = some true).map Reference.node

variable {spaces spaces' between : AddressSpaces A} {ptr c : NodePtr} {space : SpaceId}
  {place : Place} {rounds more fuel : ℕ}
  {delete : AddressSpaces A → Place → Option (AddressSpaces A)}

theorem findFirst_eq_some {heap : NodeHeap A} {typeId : NodeId} {refs : List Reference}
    {found : Option Reference} (h : heap.findFirst typeId refs = some found) :
    found = (refs.filter fun ref => heap.isSubtypeOf ref.type typeId = some true).head? := by
  induction refs with
  | nil =>
      cases h
      rfl
  | cons ref refs ih =>
      obtain ⟨isSubtype, hsubtype, h⟩ := Option.bind_eq_some_iff.mp h
      cases isSubtype with
      | true =>
          cases h
          rw [List.filter_cons_of_pos (by simpa using hsubtype)]
          rfl
      | false =>
          rw [List.filter_cons_of_neg (by simp [hsubtype])]
          exact ih h

theorem findFirst_of_told {heap : NodeHeap A} {typeId : NodeId} {refs : List Reference}
    (h : ∀ ref ∈ refs, heap.isSubtypeOf ref.type typeId ≠ none) :
    heap.findFirst typeId refs =
      some (refs.filter fun ref => heap.isSubtypeOf ref.type typeId = some true).head? := by
  induction refs with
  | nil => rfl
  | cons ref refs ih =>
      obtain ⟨hhead, htail⟩ := List.forall_mem_cons.mp h
      obtain ⟨isSubtype, hsubtype⟩ := Option.ne_none_iff_exists'.mp hhead
      rw [NodeHeap.findFirst, hsubtype]
      cases isSubtype with
      | true =>
          rw [List.filter_cons_of_pos (by simpa using hsubtype)]
          rfl
      | false =>
          rw [List.filter_cons_of_neg (by simp [hsubtype])]
          exact ih htail

theorem children_of_node {node : Node A} (hnode : spaces.heap.nodes ptr = some node) :
    spaces.children ptr = (node.forwardReferences.filter fun ref =>
      spaces.isHierarchical ref.type = some true).map Reference.node := by
  rw [children, hnode]

/-! ## §3  A round of each loop -/

/-- A round that returns finds no child, or deletes what is found for the first. -/
theorem deleteChildren_cases
    (h : deleteChildren delete space ptr (rounds + 1) spaces = some spaces') :
    (spaces.children ptr = [] ∧ spaces' = spaces) ∨
      ∃ c cs id between, spaces.children ptr = c :: cs ∧ spaces.heap.idOf c = some id ∧
        delete spaces (space, id) = some between ∧
        deleteChildren delete space ptr rounds between = some spaces' := by
  obtain ⟨node, hnode, h⟩ := Option.bind_eq_some_iff.mp h
  obtain ⟨first, hfirst, h⟩ := Option.bind_eq_some_iff.mp h
  have hchildren := children_of_node hnode
  cases hrefs : node.forwardReferences.filter fun ref =>
      spaces.isHierarchical ref.type = some true with
  | nil =>
      have hnone : first = none := (findFirst_eq_some hfirst).trans (congrArg List.head? hrefs)
      subst hnone
      cases h
      rw [hrefs] at hchildren
      exact .inl ⟨hchildren, rfl⟩
  | cons child refs =>
      have hsome : first = some child :=
        (findFirst_eq_some hfirst).trans (congrArg List.head? hrefs)
      subst hsome
      obtain ⟨childNode, hchild, h⟩ := Option.bind_eq_some_iff.mp h
      obtain ⟨between, hdelete, h⟩ := Option.bind_eq_some_iff.mp h
      rw [hrefs] at hchildren
      refine .inr ⟨child.node, _, childNode.id, between, hchildren, ?_, hdelete, h⟩
      rw [NodeHeap.idOf, hchild]
      rfl

section

variable {node : Node A} (hnode : spaces.heap.nodes ptr = some node)
  (htold : ∀ ref ∈ node.forwardReferences, spaces.isHierarchical ref.type ≠ none)
include hnode htold

theorem deleteChildren_of_nil (hchildren : spaces.children ptr = []) :
    deleteChildren delete space ptr (rounds + 1) spaces = some spaces := by
  rw [children_of_node hnode, List.map_eq_nil_iff] at hchildren
  have hfirst := findFirst_of_told htold
  have hnone : (node.forwardReferences.filter fun ref =>
    spaces.heap.isSubtypeOf ref.type StandardId.hierarchicalReferences = some true) = [] :=
      hchildren
  rw [hnone] at hfirst
  refine Option.bind_eq_some_iff.mpr ⟨node, hnode, ?_⟩
  exact Option.bind_eq_some_iff.mpr ⟨none, hfirst, rfl⟩

theorem deleteChildren_of_cons {cs : List NodePtr} {id : NodeId}
    (hchildren : spaces.children ptr = c :: cs) (hid : spaces.heap.idOf c = some id)
    (hdelete : delete spaces (space, id) = some between)
    (hrest : deleteChildren delete space ptr rounds between = some spaces') :
    deleteChildren delete space ptr (rounds + 1) spaces = some spaces' := by
  rw [children_of_node hnode, List.map_eq_cons_iff] at hchildren
  obtain ⟨child, refs, hrefs, rfl, -⟩ := hchildren
  obtain ⟨childNode, hchild, rfl⟩ := Option.map_eq_some_iff.mp hid
  have hfirst := findFirst_of_told htold
  have hsome : (node.forwardReferences.filter fun ref =>
    spaces.heap.isSubtypeOf ref.type StandardId.hierarchicalReferences = some true) =
      child :: refs := hrefs
  rw [hsome] at hfirst
  refine Option.bind_eq_some_iff.mpr ⟨node, hnode, ?_⟩
  refine Option.bind_eq_some_iff.mpr ⟨some child, hfirst, ?_⟩
  refine Option.bind_eq_some_iff.mpr ⟨childNode, hchild, ?_⟩
  exact Option.bind_eq_some_iff.mpr ⟨between, hdelete, hrest⟩

end

theorem deleteReference_eq_some {type source target : NodePtr}
    (h : spaces.deleteReference type source target = some spaces') :
    ∃ heap, spaces.heap.deleteReference type source target = some heap ∧
      spaces' = { spaces with heap } ∧ spaces'.isHierarchical type ≠ none := by
  obtain ⟨heap, hheap, h⟩ := Option.bind_eq_some_iff.mp h
  obtain ⟨told, htold, h⟩ := Option.bind_eq_some_iff.mp h
  cases h
  refine ⟨heap, hheap, rfl, ?_⟩
  rw [isHierarchical, htold]
  exact Option.some_ne_none _

theorem deleteReference_of_told {type source target : NodePtr} {heap : NodeHeap A}
    (hheap : spaces.heap.deleteReference type source target = some heap)
    (htold : isHierarchical { spaces with heap } type ≠ none) :
    spaces.deleteReference type source target = some { spaces with heap } := by
  obtain ⟨told, htold⟩ := Option.ne_none_iff_exists'.mp htold
  refine Option.bind_eq_some_iff.mpr ⟨heap, hheap, ?_⟩
  exact Option.bind_eq_some_iff.mpr ⟨told, htold, rfl⟩

/-! ## §4  More fuel -/

theorem steady_deleteAllReferences (ptr : NodePtr) (spaces : AddressSpaces A) :
    Steady (deleteAllReferences ptr · spaces) := by
  intro rounds r more hr hle
  induction rounds generalizing spaces more with
  | zero => cases hr
  | succ rounds ih =>
      obtain ⟨more, rfl⟩ := Nat.exists_eq_add_of_le' (Nat.lt_of_lt_of_le rounds.succ_pos hle)
      have hle := Nat.le_of_succ_le_succ hle
      obtain ⟨node, hnode, hr⟩ := Option.bind_eq_some_iff.mp hr
      refine Option.bind_eq_some_iff.mpr ⟨node, hnode, ?_⟩
      split at hr
      · obtain ⟨between, hdelete, hrest⟩ := Option.bind_eq_some_iff.mp hr
        exact Option.bind_eq_some_iff.mpr ⟨between, hdelete, ih between more hrest hle⟩
      · obtain ⟨between, hdelete, hrest⟩ := Option.bind_eq_some_iff.mp hr
        exact Option.bind_eq_some_iff.mpr ⟨between, hdelete, ih between more hrest hle⟩
      · exact hr

theorem deleteChildren_mono {delete delete' : AddressSpaces A → Place → Option (AddressSpaces A)}
    (hmono : ∀ s place s', delete s place = some s' → delete' s place = some s')
    (h : deleteChildren delete space ptr rounds spaces = some spaces') (hle : rounds ≤ more) :
    deleteChildren delete' space ptr more spaces = some spaces' := by
  induction rounds generalizing spaces more with
  | zero => cases h
  | succ rounds ih =>
      obtain ⟨more, rfl⟩ := Nat.exists_eq_add_of_le' (Nat.lt_of_lt_of_le rounds.succ_pos hle)
      have hle := Nat.le_of_succ_le_succ hle
      obtain ⟨node, hnode, h⟩ := Option.bind_eq_some_iff.mp h
      obtain ⟨first, hfirst, h⟩ := Option.bind_eq_some_iff.mp h
      refine Option.bind_eq_some_iff.mpr ⟨node, hnode, ?_⟩
      refine Option.bind_eq_some_iff.mpr ⟨first, hfirst, ?_⟩
      cases first with
      | none => exact h
      | some child =>
          obtain ⟨childNode, hchild, h⟩ := Option.bind_eq_some_iff.mp h
          obtain ⟨between, hdelete, hrest⟩ := Option.bind_eq_some_iff.mp h
          refine Option.bind_eq_some_iff.mpr ⟨childNode, hchild, ?_⟩
          exact Option.bind_eq_some_iff.mpr ⟨between, hmono _ _ _ hdelete, ih hrest hle⟩

theorem steady_deleteNode (spaces : AddressSpaces A) (place : Place) :
    Steady (deleteNode · spaces place) := by
  intro fuel r more hr hle
  induction fuel generalizing spaces place r more with
  | zero => cases hr
  | succ fuel ih =>
      obtain ⟨more, rfl⟩ := Nat.exists_eq_add_of_le' (Nat.lt_of_lt_of_le fuel.succ_pos hle)
      have hle := Nat.le_of_succ_le_succ hle
      dsimp only at hr ⊢
      rw [deleteNode] at hr ⊢
      cases hplace : spaces.nodeMap place with
      | none =>
          rw [hplace] at hr
          exact hr
      | some ptr =>
          rw [hplace] at hr
          obtain ⟨s, hchildren, hr⟩ := Option.bind_eq_some_iff.mp hr
          obtain ⟨s', hreferences, hr⟩ := Option.bind_eq_some_iff.mp hr
          refine Option.bind_eq_some_iff.mpr ⟨s, ?_, Option.bind_eq_some_iff.mpr ⟨s', ?_, hr⟩⟩
          · exact deleteChildren_mono (fun s place s' hs => ih s place s' more hs hle) hchildren hle
          · exact steady_deleteAllReferences ptr s fuel s' more hreferences hle

/-! ## §5  What calls take away -/

/-- Some place loses the node. -/
def Loses (spaces spaces' : AddressSpaces A) (ptr : NodePtr) : Prop :=
  ∃ place, spaces.nodeMap place = some ptr ∧ spaces'.nodeMap place = none

/-- Nodes go, and edges only with their nodes. -/
structure Shrinks (spaces spaces' : AddressSpaces A) : Prop where
  nodeMap : ∀ place ptr, spaces'.nodeMap place = some ptr → spaces.nodeMap place = some ptr
  edges : ∀ edge ∈ spaces.heap.edgeSet, edge ∈ spaces'.heap.edgeSet ∨
    spaces.Loses spaces' edge.source ∨ spaces.Loses spaces' edge.target

theorem Shrinks.refl (spaces : AddressSpaces A) : spaces.Shrinks spaces :=
  ⟨fun _ _ h => h, fun _ h => .inl h⟩

theorem Shrinks.eq_none (h : spaces.Shrinks spaces') (hnone : spaces.nodeMap place = none) :
    spaces'.nodeMap place = none := by
  refine Option.eq_none_iff_forall_not_mem.mpr fun ptr hptr => ?_
  have hold := h.nodeMap place ptr hptr
  rw [hnone] at hold
  cases hold

theorem Shrinks.trans (h : spaces.Shrinks between) (h' : between.Shrinks spaces') :
    spaces.Shrinks spaces' where
  nodeMap place ptr hptr := h.nodeMap place ptr (h'.nodeMap place ptr hptr)
  edges := by
    have hfirst : ∀ {ptr}, spaces.Loses between ptr → spaces.Loses spaces' ptr :=
      fun ⟨place, hplace, hnone⟩ => ⟨place, hplace, h'.eq_none hnone⟩
    have hsecond : ∀ {ptr}, between.Loses spaces' ptr → spaces.Loses spaces' ptr :=
      fun ⟨place, hplace, hnone⟩ => ⟨place, h.nodeMap _ _ hplace, hnone⟩
    intro edge hedge
    rcases h.edges edge hedge with hedge | hloses
    · rcases h'.edges edge hedge with hedge | hloses
      · exact .inl hedge
      · exact .inr (hloses.imp hsecond hsecond)
    · exact .inr (hloses.imp hfirst hfirst)

/-- Only edges of the node are deleted. -/
theorem deleteAllReferences_spec (h : deleteAllReferences ptr rounds spaces = some spaces') :
    spaces'.nodeMap = spaces.nodeMap ∧ ∀ edge ∈ spaces.heap.edgeSet, edge.source ≠ ptr →
      edge.target ≠ ptr → edge ∈ spaces'.heap.edgeSet := by
  induction rounds generalizing spaces with
  | zero => cases h
  | succ rounds ih =>
      have hround : ∀ {type source target : NodePtr} {s : AddressSpaces A},
          source = ptr ∨ target = ptr → spaces.deleteReference type source target = some s →
          deleteAllReferences ptr rounds s = some spaces' →
          spaces'.nodeMap = spaces.nodeMap ∧ ∀ edge ∈ spaces.heap.edgeSet, edge.source ≠ ptr →
            edge.target ≠ ptr → edge ∈ spaces'.heap.edgeSet := by
        intro type source target s htouches hdelete hrest
        obtain ⟨heap, hheap, rfl, -⟩ := deleteReference_eq_some hdelete
        obtain ⟨hmap, hedges⟩ := ih hrest
        refine ⟨hmap, fun edge hedge hsource htarget => hedges edge ?_ hsource htarget⟩
        refine NodeHeap.mem_edgeSet_of_deleteReference hheap hedge ?_
        rintro rfl
        exact htouches.elim hsource htarget
      obtain ⟨node, -, h⟩ := Option.bind_eq_some_iff.mp h
      split at h
      · obtain ⟨s, hdelete, hrest⟩ := Option.bind_eq_some_iff.mp h
        exact hround (.inr rfl) hdelete hrest
      · obtain ⟨s, hdelete, hrest⟩ := Option.bind_eq_some_iff.mp h
        exact hround (.inl rfl) hdelete hrest
      · cases h
        exact ⟨rfl, fun edge hedge _ _ => hedge⟩

theorem eraseNode_spec (hplace : spaces.nodeMap place = some ptr)
    (h : spaces.eraseNode place = some spaces') :
    spaces'.nodeMap = Function.update spaces.nodeMap place none ∧
      (spaces'.heap = spaces.heap ∨ spaces'.heap = spaces.heap.set ptr none) :=
  SpaceWorld.Inv.eraseNode_spec (w := ⟨spaces, []⟩) hplace h

theorem nodeMap_of_eraseNode (h : spaces.eraseNode place = some spaces') {place' : Place}
    (hptr : spaces'.nodeMap place' = some ptr) : spaces.nodeMap place' = some ptr := by
  obtain ⟨q, hq, -⟩ := Option.bind_eq_some_iff.mp h
  obtain ⟨hmap, -⟩ := eraseNode_spec hq h
  rw [hmap, Function.update_apply] at hptr
  split at hptr
  · cases hptr
  · exact hptr

/-- The node and its edges, at the end of a call. -/
theorem shrinks_of_erase (hreferences : deleteAllReferences ptr rounds spaces = some between)
    (hplace : between.nodeMap place = some ptr) (h : between.eraseNode place = some spaces') :
    spaces.Shrinks spaces' := by
  obtain ⟨hsame, hedges⟩ := deleteAllReferences_spec hreferences
  obtain ⟨hmap, hheap⟩ := eraseNode_spec hplace h
  have hloses : spaces.Loses spaces' ptr := by
    refine ⟨place, ?_, ?_⟩
    · rw [← hsame]
      exact hplace
    · rw [hmap, Function.update_self]
  constructor
  case nodeMap =>
    intro place' q hq
    rw [← hsame]
    exact nodeMap_of_eraseNode h hq
  case edges =>
    intro edge hedge
    by_cases hsource : edge.source = ptr
    · exact .inr (.inl (hsource ▸ hloses))
    by_cases htarget : edge.target = ptr
    · exact .inr (.inr (htarget ▸ hloses))
    obtain ⟨node, hnode, href⟩ := hedges edge hedge hsource htarget
    refine .inl ⟨node, ?_, href⟩
    rcases hheap with hheap | hheap <;> rw [hheap]
    · exact hnode
    · rw [NodeHeap.nodes_set, if_neg hsource]
      exact hnode

theorem shrinks_deleteChildren
    (hdelete : ∀ {s s' place}, delete s place = some s' → s.Shrinks s')
    (h : deleteChildren delete space ptr rounds spaces = some spaces') :
    spaces.Shrinks spaces' := by
  induction rounds generalizing spaces with
  | zero => cases h
  | succ rounds ih =>
      rcases deleteChildren_cases h with ⟨-, rfl⟩ | ⟨_, _, id, s, -, -, hcall, hrest⟩
      · exact .refl _
      · exact (hdelete hcall).trans (ih hrest)

theorem shrinks_deleteNode (h : deleteNode fuel spaces place = some spaces') :
    spaces.Shrinks spaces' := by
  induction fuel generalizing spaces spaces' place with
  | zero => cases h
  | succ fuel ih =>
      rw [deleteNode] at h
      split at h
      · cases h
        exact .refl _
      · obtain ⟨s, hchildren, h⟩ := Option.bind_eq_some_iff.mp h
        obtain ⟨s', hreferences, h⟩ := Option.bind_eq_some_iff.mp h
        obtain ⟨hplace, h⟩ := check_bind_eq_some.mp h
        exact (shrinks_deleteChildren ih hchildren).trans (shrinks_of_erase hreferences hplace h)

theorem deleteNode_of_none (hnone : spaces.nodeMap place = none)
    (h : deleteNode fuel spaces place = some spaces') : spaces' = spaces := by
  cases fuel with
  | zero => cases h
  | succ fuel =>
      rw [deleteNode, hnone] at h
      cases h
      rfl

/-- The loop does not get past a child that is not found under its id. -/
theorem deleteChildren_stuck {delete : AddressSpaces A → Place → Option (AddressSpaces A)}
    (hdelete : ∀ {s s' place}, s.nodeMap place = none → delete s place = some s' → s' = s)
    {cs : List NodePtr} (hchildren : spaces.children ptr = c :: cs)
    (hfound : ∀ id, spaces.heap.idOf c = some id → spaces.nodeMap (space, id) = none) :
    deleteChildren delete space ptr rounds spaces ≠ some spaces' := by
  induction rounds with
  | zero => exact fun h => by cases h
  | succ rounds ih =>
      intro h
      rcases deleteChildren_cases h with ⟨hnil, -⟩ | ⟨d, ds, id, between, hcons, hid, hcall, hrest⟩
      · rw [hchildren] at hnil
        cases hnil
      · rw [hchildren] at hcons
        cases hcons
        rw [hdelete (hfound id hid) hcall] at hrest
        exact ih hrest

/-- A node that is its own child is deleted again inside of each call. -/
theorem deleteNode_of_own_child {spaces : AddressSpaces A} {place : Place} {ptr : NodePtr}
    {cs : List NodePtr} (hplace : spaces.nodeMap place = some ptr)
    (hid : spaces.heap.idOf ptr = some place.2) (hchildren : spaces.children ptr = ptr :: cs)
    (fuel : ℕ) : spaces.deleteNode fuel place = none := by
  induction fuel with
  | zero => rfl
  | succ fuel ih =>
      cases hs : spaces.deleteNode (fuel + 1) place with
      | none => rfl
      | some spaces' =>
          rw [deleteNode, hplace] at hs
          obtain ⟨s, hloop, -⟩ := Option.bind_eq_some_iff.mp hs
          cases fuel with
          | zero => cases hloop
          | succ fuel =>
              rcases deleteChildren_cases hloop with
                ⟨hnil, -⟩ | ⟨c, cs, id, between, hcons, hc, hcall, -⟩
              · rw [hchildren] at hnil
                cases hnil
              · rw [hchildren] at hcons
                cases hcons
                cases hid.symm.trans hc
                rw [ih] at hcall
                cases hcall

end AddressSpaces

/-! ## §6  The calls one by one -/

namespace SpaceWorld

variable {w w' : SpaceWorld A} {spaces spaces' spaces'' : AddressSpaces A}
  {calls : List DeleteNodeFrame} {chain : SpaceId → List SpaceId} {ptr : NodePtr} {place : Place}
  {rounds fuel : ℕ}

/-- Some steps of the calls lead from the one to the other. -/
abbrev Proceeds (chain : SpaceId → List SpaceId) (w w' : SpaceWorld A) : Prop :=
  (machine A chain).ReachesFrom (fun _ a => a = .proceed) w w'

theorem Proceeds.of_proceed (hcalls : w.calls ≠ []) (hs : w.proceed = some w') :
    Proceeds chain w w' :=
  .tail .refl (a := .proceed) hcalls rfl hs

theorem proceeds_deleteAllReferences
    (h : AddressSpaces.deleteAllReferences ptr rounds spaces = some spaces')
    (hplace : spaces'.nodeMap place = some ptr) (hs : spaces'.eraseNode place = some spaces'') :
    Proceeds chain ⟨spaces, ⟨place, ptr, true⟩ :: calls⟩ ⟨spaces'', calls⟩ := by
  induction rounds generalizing spaces with
  | zero => cases h
  | succ rounds ih =>
      obtain ⟨node, hnode, h⟩ := Option.bind_eq_some_iff.mp h
      have hround : ∀ {type source target : NodePtr} {between : AddressSpaces A},
          proceed ⟨spaces, ⟨place, ptr, true⟩ :: calls⟩ =
            (spaces.heap.deleteReference type source target).map
              (setHeap ⟨spaces, ⟨place, ptr, true⟩ :: calls⟩) →
          spaces.deleteReference type source target = some between →
          Proceeds chain ⟨spaces, ⟨place, ptr, true⟩ :: calls⟩
            ⟨between, ⟨place, ptr, true⟩ :: calls⟩ := by
        intro type source target between hproceed hdelete
        obtain ⟨heap, hheap, rfl, -⟩ := AddressSpaces.deleteReference_eq_some hdelete
        refine .of_proceed (List.cons_ne_nil _ _) (hproceed.trans ?_)
        exact Option.map_eq_some_iff.mpr ⟨heap, hheap, rfl⟩
      split at h
      · rename_i ref hinverse
        obtain ⟨between, hdelete, hrest⟩ := Option.bind_eq_some_iff.mp h
        refine (hround ?_ hdelete).trans (ih hrest)
        simp [proceed, clearReference, hnode, hinverse]
      · rename_i ref hinverse hforward
        obtain ⟨between, hdelete, hrest⟩ := Option.bind_eq_some_iff.mp h
        refine (hround ?_ hdelete).trans (ih hrest)
        simp [proceed, clearReference, hnode, hinverse, hforward]
      · rename_i hinverse hforward
        cases h
        refine .of_proceed (List.cons_ne_nil _ _) ?_
        simp [proceed, clearReference, hnode, hinverse, hforward, hplace, hs, check]

theorem proceeds_deleteChildren {delete : AddressSpaces A → Place → Option (AddressSpaces A)}
    (hdelete : ∀ {s s' place} calls, delete s place = some s' →
      Proceeds chain (callDeleteNode ⟨s, calls⟩ place) ⟨s', calls⟩)
    (h : AddressSpaces.deleteChildren delete place.1 ptr rounds spaces = some spaces') :
    Proceeds chain ⟨spaces, ⟨place, ptr, false⟩ :: calls⟩
      ⟨spaces', ⟨place, ptr, true⟩ :: calls⟩ := by
  induction rounds generalizing spaces with
  | zero => cases h
  | succ rounds ih =>
      obtain ⟨node, hnode, h⟩ := Option.bind_eq_some_iff.mp h
      obtain ⟨first, hfirst, h⟩ := Option.bind_eq_some_iff.mp h
      cases first with
      | none =>
          cases h
          refine .of_proceed (List.cons_ne_nil _ _) ?_
          simp [proceed, SpaceWorld.deleteChild, firstChild, hnode, hfirst]
      | some child =>
          obtain ⟨childNode, hchild, h⟩ := Option.bind_eq_some_iff.mp h
          obtain ⟨between, hcall, hrest⟩ := Option.bind_eq_some_iff.mp h
          have hstep : proceed ⟨spaces, ⟨place, ptr, false⟩ :: calls⟩ =
              some (callDeleteNode ⟨spaces, ⟨place, ptr, false⟩ :: calls⟩
                (place.1, childNode.id)) := by
            simp [proceed, SpaceWorld.deleteChild, firstChild, hnode, hfirst, hchild]
          exact (Proceeds.of_proceed (List.cons_ne_nil _ _) hstep).trans
            ((hdelete _ hcall).trans (ih hrest))

/-- **The function runs as the calls do**, one inside of the other. -/
theorem proceeds_deleteNode (calls : List DeleteNodeFrame)
    (h : spaces.deleteNode fuel place = some spaces') :
    Proceeds chain (callDeleteNode ⟨spaces, calls⟩ place) ⟨spaces', calls⟩ := by
  induction fuel generalizing spaces spaces' place calls with
  | zero => cases h
  | succ fuel ih =>
      rw [AddressSpaces.deleteNode] at h
      unfold callDeleteNode
      cases hplace : spaces.nodeMap place with
      | none =>
          rw [hplace] at h
          cases h
          exact .refl
      | some ptr =>
          rw [hplace] at h
          obtain ⟨s, hchildren, h⟩ := Option.bind_eq_some_iff.mp h
          obtain ⟨s', hreferences, h⟩ := Option.bind_eq_some_iff.mp h
          obtain ⟨hplace', hs'⟩ := check_bind_eq_some.mp h
          exact (proceeds_deleteChildren (fun calls hs => ih calls hs) hchildren).trans
            (proceeds_deleteAllReferences hreferences hplace' hs')

end SpaceWorld

end ScadaCommon.AddressSpace
