import ScadaCommon.AddressSpace.SubtreeDeletion

/-!
# Deleted subtrees

`DeleteNode` takes out the nodes of its space that can be reached from a node along
hierarchical references, and leaves no reference to them, where the subtree has no
cycle and all of it is found in the space. Elsewhere it does not return.

§1 what is deleted · §2 what a call does · §3 spaces that are reached · §4 when a
subtree goes.
-/

namespace ScadaCommon.AddressSpace

open Foundation Relation

variable {A : Type}

namespace AddressSpaces

/-! ## §1  What is deleted -/

/-- What can be reached from the node that an id names. -/
def Below (spaces : AddressSpaces A) (chain : List SpaceId) (id : NodeId) (ptr : NodePtr) : Prop :=
  ∃ root, spaces.getNode chain id = some root ∧ ReflTransGen spaces.HasChild root ptr

/-- `DeleteNode` returns, the nodes of the space that can be reached are what it takes
out, and no reference is left to what it takes out. -/
structure DeletesSubtree (spaces : AddressSpaces A) (parents : List SpaceId) (place : Place) :
    Prop where
  returns : Converges (deleteNode · spaces place)
  removes : ∀ fuel spaces', deleteNode fuel spaces place = some spaces' → ∀ place' ptr,
    spaces'.nodeMap place' = some ptr ↔ spaces.nodeMap place' = some ptr ∧
      ¬ (place'.1 = place.1 ∧ spaces.Below (place.1 :: parents) place.2 ptr)
  clean : ∀ fuel spaces', deleteNode fuel spaces place = some spaces' → ∀ ptr node,
    spaces'.heap.nodes ptr = some node → ∀ forward, ∀ ref ∈ node.references forward, ∀ id,
      spaces.nodeMap (place.1, id) = some ref.type ∨ spaces.nodeMap (place.1, id) = some ref.node →
        spaces'.nodeMap (place.1, id) ≠ none

variable {spaces spaces' : AddressSpaces A} {parents : List SpaceId} {place : Place}
  {root ptr : NodePtr} {fuel : ℕ}

/-! ## §2  What a call does -/

theorem getNode_of_here (h : spaces.nodeMap place = some root) :
    spaces.getNode (place.1 :: parents) place.2 = some root := by
  rw [getNode, List.findSome?_cons, h]

section

variable (hinv : spaces.Inv spaces.heap.edgeSet) (hnamed : spaces.Named)
  (hplace : spaces.nodeMap place = some root)

include hplace in
theorem below_iff :
    spaces.Below (place.1 :: parents) place.2 ptr ↔ ReflTransGen spaces.HasChild root ptr := by
  rw [Below, getNode_of_here hplace]
  simp

include hplace in
/-- A node that goes was not the type of a reference elsewhere. -/
theorem DeletesSubtree.not_type (h : spaces.DeletesSubtree parents place)
    (hs : deleteNode fuel spaces place = some spaces') {edge : Edge}
    (hedge : edge ∈ spaces.heap.edgeSet)
    (helsewhere : ∀ ptr, ReflTransGen spaces.HasChild root ptr → ¬ Touches edge ptr) {id : NodeId}
    (hold : spaces.nodeMap (place.1, id) = some edge.type) :
    spaces'.nodeMap (place.1, id) ≠ none := by
  have hstays : ∀ {ptr}, Touches edge ptr → ¬ spaces.Loses spaces' ptr := by
    rintro ptr htouches ⟨place', hptr, hnone⟩
    refine helsewhere ptr ?_ htouches
    by_contra hnot
    have hleft := (h.removes fuel spaces' hs place' ptr).mpr
      ⟨hptr, fun hgoes => hnot ((below_iff hplace).mp hgoes.2)⟩
    rw [hnone] at hleft
    cases hleft
  rcases (shrinks_deleteNode hs).edges edge hedge with ⟨node, hnode, href⟩ | hsource | htarget
  · exact h.clean fuel spaces' hs edge.source node hnode true _ href id (.inl hold)
  · exact absurd hsource (hstays (.inl rfl))
  · exact absurd htarget (hstays (.inr rfl))

include hinv hnamed hplace

/-- What has gone when the call returns. -/
theorem exists_gone (hkeeps : spaces.KeepsItsTypes place.1 root)
    (h : deleteNode fuel spaces place = some spaces')
    (hdangles : ¬ spaces.Dangles place.1 root spaces') :
    ∃ gone, spaces.Gone place.1 root gone spaces' ∧ ∀ ptr, ptr ∈ gone ↔
      ReflTransGen spaces.HasChild root ptr := by
  rcases (deletes_deleteNode hinv hnamed fuel).visits [] spaces spaces' root place.2 (.nil hinv)
    .refl List.not_mem_nil (hnamed place root hplace) hplace hkeeps h with
    ⟨gone, hvisits, hgone⟩ | hdangles'
  case inr => exact absurd hdangles' hdangles
  refine ⟨gone, hgone, fun ptr => ⟨fun hptr => ?_, fun hptr => ?_⟩⟩
  · rcases hvisits.leadsTo ptr hptr with hptr | ⟨a, ha, haptr⟩
    · cases hptr
    · cases List.mem_singleton.mp ha
      -- Calls are for children as long as all is gone behind them.
      have hboth : ReflTransGen spaces.HasChild root ptr ∧ ptr ∈ gone := by
        clear hptr
        induction haptr with
        | refl => exact ⟨.refl, hvisits.todo_subset List.mem_cons_self⟩
        | @tail b c _ hcall ih =>
            obtain ⟨hb, hbgone⟩ := ih
            have hcalls : spaces.calls place.1 b = spaces.children b := callsFor_of_found
              fun child hchild => hgone.found child (hgone.children b hbgone child hchild)
            have hchild : spaces.HasChild b c := by
              rw [HasChild, ← hcalls]
              exact hcall
            exact ⟨hb.tail hchild, hgone.children b hbgone c hchild⟩
      exact hboth.1
  · induction hptr with
    | refl => exact hvisits.todo_subset List.mem_cons_self
    | tail _ hchild ih => exact hgone.children _ ih _ hchild

/-- **A subtree that goes as it should** has no cycle and is found under its ids, and
its types could be told and are not missed. -/
theorem DeletesSubtree.deletable (hkeeps : spaces.KeepsItsTypes place.1 root)
    (h : spaces.DeletesSubtree parents place) : spaces.Deletable place.1 root := by
  obtain ⟨fuel, spaces', hs⟩ := h.returns
  have hdangles : ¬ spaces.Dangles place.1 root spaces' := by
    rintro ⟨id, edge, hedge, helsewhere, -, hold, hnone⟩
    refine h.not_type hplace hs hedge (fun ptr hptr => helsewhere ptr ?_) hold hnone
    exact ReflTransGen.mono (fun _ _ hchild => .inr hchild) _ _ hptr
  obtain ⟨gone, hgone, hmem⟩ := exists_gone hinv hnamed hplace hkeeps hs hdangles
  constructor
  case cycle => exact hgone.cycle root ((hmem root).mpr .refl)
  case found => exact fun ptr hptr => hgone.found ptr ((hmem ptr).mpr hptr)
  case told => exact fun ptr hptr => hgone.told ptr ((hmem ptr).mpr hptr)
  case types =>
    intro edge hedge helsewhere htype
    have hgoes := (hmem edge.type).mpr htype
    obtain ⟨id, -, hold⟩ := Option.bind_eq_some_iff.mp (hgone.found edge.type hgoes)
    refine h.not_type hplace hs hedge helsewhere hold ?_
    refine hgone.nodeMap_eq_none fun m hm => ?_
    obtain rfl := Option.some_inj.mp (hold.symm.trans hm)
    exact hgoes

/-- **A subtree like that goes as it should.** -/
theorem Deletable.deletesSubtree (hkeeps : spaces.KeepsItsTypes place.1 root)
    (h : spaces.Deletable place.1 root) : spaces.DeletesSubtree parents place := by
  have hready : spaces.Ready place.1 root root [] spaces :=
    ⟨.nil hinv, .refl, .refl, List.not_mem_nil⟩
  constructor
  case returns =>
    exact h.returns hinv hnamed [] spaces place.2 hready (hnamed place root hplace) hplace hkeeps
  case removes =>
    intro fuel spaces' hs place' ptr
    obtain ⟨gone, hgone, hmem⟩ := exists_gone hinv hnamed hplace hkeeps hs h.not_dangles
    rw [hgone.left.nodeMap place' ptr, below_iff hplace, ← hmem]
    refine and_congr_right fun hptr => not_congr ⟨fun hgoes => ⟨?_, hgoes⟩, And.right⟩
    obtain ⟨id, -, hfound⟩ := Option.bind_eq_some_iff.mp (hgone.found ptr hgoes)
    rw [hinv.once place' (place.1, id) ptr hptr hfound]
  case clean =>
    intro fuel spaces' hs ptr node hnode forward ref href id hold hnone
    obtain ⟨gone, hgone, -⟩ := exists_gone hinv hnamed hplace hkeeps hs h.not_dangles
    have hedge := (hgone.left.inv.represents.holds.references ptr node hnode forward ref).mp href
    have htype := hgone.left.type_not_mem hedge
    obtain ⟨-, hsource, htarget⟩ := hgone.left.within hedge
    have hstays : ∀ {q}, spaces.nodeMap (place.1, id) = some q → q ∉ gone → False := by
      intro q hq hnot
      have hleft := (hgone.left.nodeMap (place.1, id) q).mpr ⟨hq, hnot⟩
      rw [hnone] at hleft
      cases hleft
    rcases hold with hold | hold
    · cases forward
      · exact hstays hold htype
      · exact hstays hold htype
    · cases forward
      · exact hstays hold hsource
      · exact hstays hold htarget

end

/-- An id that the space does not have: nothing is done. -/
theorem deletesSubtree_iff_of_none (hnone : spaces.nodeMap place = none) :
    spaces.DeletesSubtree parents place ↔
      ∀ ptr, spaces.Below (place.1 :: parents) place.2 ptr →
        ∀ id, spaces.nodeMap (place.1, id) ≠ some ptr := by
  have hcall : deleteNode 1 spaces place = some spaces := by
    rw [deleteNode, hnone]
  constructor
  · intro h ptr hbelow id hid
    have hleft := (h.removes 1 spaces hcall (place.1, id) ptr).mp hid
    exact hleft.2 ⟨rfl, hbelow⟩
  · intro h
    refine ⟨⟨1, spaces, hcall⟩, ?_, ?_⟩
    · intro fuel spaces' hs place' ptr
      obtain rfl := deleteNode_of_none hnone hs
      refine ⟨fun hptr => ⟨hptr, ?_⟩, And.left⟩
      rintro ⟨hspace, hbelow⟩
      refine h ptr hbelow place'.2 ?_
      rw [← hspace]
      exact hptr
    · intro fuel spaces' hs ptr node hnode forward ref href id hold hnone'
      obtain rfl := deleteNode_of_none hnone hs
      rw [hnone'] at hold
      rcases hold with hold | hold <;> cases hold

end AddressSpaces

/-! ## §3  Spaces that are reached -/

namespace SpaceWorld

variable {w w' : SpaceWorld A} {chain : SpaceId → List SpaceId} {a : SpaceAction A}

/-- Each map has nodes under their ids. -/
theorem named_step {edges : Set Edge} (hinv : w.Inv edges) (h : w.Named)
    (hs : w.step chain a = some w') : w'.Named := by
  have hheap : ∀ {type source target : NodePtr},
      (w.heap.deleteReference type source target).map w.setHeap = some w' → w'.Named := by
    intro type source target hs
    obtain ⟨heap, hdelete, rfl⟩ := Option.map_eq_some_iff.mp hs
    obtain ⟨hsame, -⟩ := hinv.represents.deleteReference hdelete
    exact fun place ptr hptr => (congrFun hsame.idOf ptr).trans (h place ptr hptr)
  have hcall : ∀ place, (w.callDeleteNode place).Named := by
    intro place
    unfold callDeleteNode
    split
    · exact h
    · exact h
  cases a with
  | addNode place nodeClass attributes owned =>
      obtain ⟨spaces, hspaces, hs⟩ := Option.bind_eq_some_iff.mp hs
      obtain ⟨-, hspaces⟩ := check_bind_eq_some.mp hspaces
      obtain ⟨-, hspaces⟩ := check_bind_eq_some.mp hspaces
      obtain ⟨-, hspaces⟩ := check_bind_eq_some.mp hspaces
      cases hspaces
      cases hs
      intro place' ptr hptr
      simp only [Function.update_apply] at hptr
      split at hptr
      · rename_i heq
        cases hptr
        subst heq
        simp [NodeHeap.idOf]
      · have hne : ptr ≠ w.heap.next := fun heq =>
          (hinv.represents.bounded ptr (hinv.placed place' ptr hptr)).ne heq
        have hid := h place' ptr hptr
        simpa [NodeHeap.idOf, NodeHeap.allocate, hne] using hid
  | addReference type source target =>
      obtain ⟨t, -, hs⟩ := Option.bind_eq_some_iff.mp hs
      obtain ⟨s, -, hs⟩ := Option.bind_eq_some_iff.mp hs
      obtain ⟨d, -, hs⟩ := Option.bind_eq_some_iff.mp hs
      obtain ⟨heap, hadd, rfl⟩ := Option.map_eq_some_iff.mp hs
      obtain ⟨hsame, -⟩ := hinv.represents.addReference hadd
      exact fun place ptr hptr => (congrFun hsame.idOf ptr).trans (h place ptr hptr)
  | deleteReference type source target =>
      obtain ⟨t, -, hs⟩ := Option.bind_eq_some_iff.mp hs
      obtain ⟨s, -, hs⟩ := Option.bind_eq_some_iff.mp hs
      obtain ⟨d, -, hs⟩ := Option.bind_eq_some_iff.mp hs
      exact hheap hs
  | deleteNode place =>
      cases hs
      exact hcall place
  | proceed =>
      simp only [SpaceWorld.step, SpaceWorld.proceed] at hs
      split at hs
      · cases hs
      · rename_i frame rest hcalls
        split at hs
        · obtain ⟨node, -, hs⟩ := Option.bind_eq_some_iff.mp hs
          split at hs
          · exact hheap hs
          · exact hheap hs
          · obtain ⟨hplace, hs⟩ := check_bind_eq_some.mp hs
            obtain ⟨spaces, hspaces, hs⟩ := Option.bind_eq_some_iff.mp hs
            cases hs
            obtain ⟨hmap, hheap⟩ := Inv.eraseNode_spec hplace hspaces
            intro place ptr hptr
            have hold := AddressSpaces.nodeMap_of_eraseNode hspaces hptr
            have hne : ptr ≠ frame.node := by
              rintro rfl
              obtain rfl := hinv.once place frame.place frame.node hold hplace
              simp only [hmap, Function.update_self] at hptr
              cases hptr
            have hid := h place ptr hold
            rcases hheap with hheap | hheap
            · simpa only [hheap] using hid
            · simpa only [hheap, NodeHeap.idOf, NodeHeap.nodes_set, if_neg hne] using hid
        · obtain ⟨node, -, hs⟩ := Option.bind_eq_some_iff.mp hs
          obtain ⟨child, -, hs⟩ := Option.bind_eq_some_iff.mp hs
          cases child with
          | none =>
              cases hs
              exact h
          | some child =>
              obtain ⟨childNode, -, hs⟩ := Option.bind_eq_some_iff.mp hs
              cases hs
              exact hcall _

theorem inv_of_reaches (h : (machine A chain).Reaches KeepsTypes w) :
    w.toAddressSpaces.Inv w.heap.edgeSet ∧ w.Named := by
  obtain ⟨⟨edges, hinv⟩, hnamed⟩ : (∃ edges, w.Inv edges) ∧ w.Named := by
    refine h.invariant (I := fun w => (∃ edges, w.Inv edges) ∧ w.Named)
      ⟨⟨∅, Inv.initial⟩, ?_⟩ ?_
    · intro place ptr hptr
      cases hptr
    · rintro t a t' ⟨⟨edges, hinv⟩, hnamed⟩ - hok hs
      exact ⟨hinv.step hok hs, named_step hinv hnamed hs⟩
  refine ⟨?_, hnamed⟩
  rw [hinv.represents.edgeSet_eq]
  exact hinv.setCalls []

/-! ## §4  When a subtree goes -/

/-- **When `DeleteNode` deletes a subtree.** In spaces made by adding and deleting: a
node of the space goes as it should, where types outlive the references that are read,
just when its subtree has no cycle, is found under its ids, and its types can be told
and are not missed; an id that the space does not have, when nothing of it is below. -/
theorem delete_node_iff (parents : SpaceId → List SpaceId)
    (h : (machine A fun space => space :: parents space).Reaches KeepsTypes w) (place : Place)
    (hkeeps : ∀ root, w.nodeMap place = some root → w.KeepsItsTypes place.1 root) :
    w.DeletesSubtree (parents place.1) place ↔
      (∀ root, w.nodeMap place = some root → w.Deletable place.1 root) ∧
      (w.nodeMap place = none → ∀ ptr, w.Below (place.1 :: parents place.1) place.2 ptr →
        ∀ id, w.nodeMap (place.1, id) ≠ some ptr) := by
  obtain ⟨hinv, hnamed⟩ := inv_of_reaches h
  cases hplace : w.nodeMap place with
  | none =>
      rw [AddressSpaces.deletesSubtree_iff_of_none hplace]
      simp
  | some root =>
      constructor
      · intro hdeletes
        refine ⟨?_, fun hnone => by cases hnone⟩
        rintro _ ⟨⟩
        exact hdeletes.deletable hinv hnamed hplace (hkeeps root hplace)
      · rintro ⟨hdeletable, -⟩
        exact (hdeletable root rfl).deletesSubtree hinv hnamed hplace (hkeeps root hplace)

theorem delete_node_pair : ∃ w : SpaceWorld ℕ,
    w.nodeMap (1, .numeric 101 7) ≠ none ∧ w.DeletesSubtree [0] (1, .numeric 100 7) := by
  obtain ⟨w, hw, hp⟩ := Machine.exists_reaches_of_exec
    (M := machine ℕ fun space => space :: if space = 1 then [0] else []) KeepsTypes
    (p := fun w => decide ((w.nodeMap (1, .numeric 100 7) = some 1 ∧
      w.nodeMap (1, .numeric 101 7) = some 2) ∧
      (w.children 1 = [2] ∧ w.children 2 = []) ∧ (w.found 1 1 = some 1 ∧ w.found 1 2 = some 2) ∧
      (∀ source < w.heap.next, ∀ node ∈ w.heap.nodes source,
        ∀ ref ∈ node.forwardReferences, ref.type = 0) ∧
      w.isHierarchical 0 ≠ none ∧ (w.heap.nodes 0).bind Node.supertype = none))
    [.addNode (0, StandardId.hierarchicalReferences) .referenceType 0 true,
      .addNode (1, .numeric 100 7) .object 0 true, .addNode (1, .numeric 101 7) .object 0 true,
      .addReference (0, StandardId.hierarchicalReferences) (1, .numeric 100 7) (1, .numeric 101 7)]
    (by decide +kernel)
  obtain ⟨⟨hroot, hother⟩, ⟨hchildren, hleaf⟩, ⟨hfound, hfound'⟩, htypes, htold, htop⟩ :=
    of_decide_eq_true hp
  have htype : ∀ edge ∈ w.heap.edgeSet, edge.type = 0 := by
    rintro edge ⟨node, hnode, href⟩
    have halive := NodeHeap.alive_iff.mpr ⟨node, hnode⟩
    exact htypes edge.source ((inv_of_reaches hw).1.represents.bounded _ halive) node hnode _ href
  have hpair : ∀ {ptr}, ReflTransGen w.HasChild 1 ptr → ptr = 1 ∨ ptr = 2 := by
    intro ptr hptr
    induction hptr with
    | refl => exact .inl rfl
    | tail _ hchild ih =>
        unfold AddressSpaces.HasChild at hchild
        rcases ih with rfl | rfl
        · rw [hchildren] at hchild
          exact .inr (List.mem_singleton.mp hchild)
        · rw [hleaf] at hchild
          cases hchild
  have habove : ∀ {above}, w.Supertypes 0 above → above = 0 := by
    intro above h
    rcases ReflTransGen.cases_head h with rfl | ⟨next, ⟨node, hnode, hsuper⟩, -⟩
    · rfl
    · rw [hnode, Option.bind_some, hsuper] at htop
      cases htop
  have hdeletable : w.Deletable 1 1 := by
    constructor
    case cycle =>
      intro hcycle
      obtain ⟨child, hchild, hcycle⟩ := hcycle.exists_step
      rw [AddressSpaces.HasChild, hchildren] at hchild
      cases List.mem_singleton.mp hchild
      obtain ⟨child, hchild, -⟩ := hcycle.exists_step
      rw [AddressSpaces.HasChild, hleaf] at hchild
      cases hchild
    case found =>
      intro ptr hptr
      rcases hpair hptr with rfl | rfl
      · exact hfound
      · exact hfound'
    case told =>
      intro ptr hptr edge hedge _
      rw [htype edge hedge]
      exact htold
    case types =>
      intro edge hedge _ hgoes
      rw [htype edge hedge] at hgoes
      rcases hpair hgoes with h | h <;> cases h
  refine ⟨w, by simp [hother], (delete_node_iff _ hw (1, .numeric 100 7) ?_).mpr ⟨?_, ?_⟩⟩
  · intro root hplace
    cases hroot.symm.trans hplace
    refine AddressSpaces.keepsItsTypes_of_types fun ptr hcalled edge hedge hsuper => ?_
    rw [htype edge hedge] at hsuper
    rcases hpair (hdeletable.called_iff.mp hcalled) with rfl | rfl <;> cases habove hsuper
  · intro root hplace
    cases hroot.symm.trans hplace
    exact hdeletable
  · intro hnone
    rw [hroot] at hnone
    cases hnone

/-- The root folder organizes itself. -/
theorem own_child_never_goes : ∃ w : SpaceWorld ℕ,
    (machine ℕ fun space => [space]).Reaches KeepsTypes w ∧
      ¬ w.DeletesSubtree [] (0, .numeric 100 7) := by
  obtain ⟨w, hw, hp⟩ := Machine.exists_reaches_of_exec (M := machine ℕ fun space => [space])
    KeepsTypes
    (p := fun w => decide (w.nodeMap (0, .numeric 100 7) = some 1 ∧
      w.heap.idOf 1 = some (.numeric 100 7) ∧ w.children 1 = [1]))
    [.addNode (0, StandardId.hierarchicalReferences) .referenceType 0 true,
      .addNode (0, .numeric 100 7) .object 0 true,
      .addReference (0, StandardId.hierarchicalReferences) (0, .numeric 100 7) (0, .numeric 100 7)]
    (by decide +kernel)
  obtain ⟨hplace, hid, hchildren⟩ := of_decide_eq_true hp
  refine ⟨w, hw, fun hdeletes => ?_⟩
  obtain ⟨fuel, spaces', hs⟩ := hdeletes.returns
  have hnone := AddressSpaces.deleteNode_of_own_child hplace hid hchildren fuel
  exact Option.some_ne_none _ (hs.symm.trans hnone)

end SpaceWorld

end ScadaCommon.AddressSpace
