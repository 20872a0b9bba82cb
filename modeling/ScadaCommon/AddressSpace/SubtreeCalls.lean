import ScadaCommon.AddressSpace.LeftNodes
import ScadaCommon.Foundation.PostOrder

/-!
# The calls for a subtree

The loop over the children of a node makes calls for them, up to a child that is not
found under its id. When the turn of a node comes its references go, and what their
types are is still asked.

§1 what calls get to · §2 the turn of a node · §3 references that go.
-/

namespace ScadaCommon.AddressSpace

open Foundation Relation

variable {A : Type}

namespace AddressSpaces

/-! ## §1  What calls get to -/

section

variable (spaces : AddressSpaces A)

def HasChild (ptr child : NodePtr) : Prop := child ∈ spaces.children ptr

/-- The node that the space has under the id of a node. -/
def found (space : SpaceId) (ptr : NodePtr) : Option NodePtr :=
  (spaces.heap.idOf ptr).bind fun id => spaces.nodeMap (space, id)

/-- The nodes that the loop deletes for some children: itself, where a child is found
under its id, up to the first child that is not. -/
def callsFor (space : SpaceId) : List NodePtr → List NodePtr
  | [] => []
  | child :: children =>
      if spaces.found space child = some child then child :: callsFor space children
      else (spaces.found space child).toList

def calls (space : SpaceId) (ptr : NodePtr) : List NodePtr :=
  spaces.callsFor space (spaces.children ptr)

/-- Reached from a node along children and calls for them. -/
def Called (space : SpaceId) (root ptr : NodePtr) : Prop :=
  ReflTransGen (fun ptr next => next ∈ spaces.calls space ptr ∨ spaces.HasChild ptr next) root ptr

/-- The maps have the nodes under their ids. -/
def Named : Prop :=
  ∀ place ptr, spaces.nodeMap place = some ptr → spaces.heap.idOf ptr = some place.2

/-- The subtree has no cycle, its nodes are found under their ids, the types of all
their references can be told, and they are not the types of others. -/
structure Deletable (space : SpaceId) (root : NodePtr) : Prop where
  cycle : ¬ MeetsCycle spaces.HasChild root
  found : ∀ ptr, ReflTransGen spaces.HasChild root ptr → spaces.found space ptr = some ptr
  told : ∀ ptr, ReflTransGen spaces.HasChild root ptr → ∀ edge ∈ spaces.heap.edgeSet,
    Touches edge ptr → spaces.isHierarchical edge.type ≠ none
  types : ∀ edge ∈ spaces.heap.edgeSet,
    (∀ ptr, ReflTransGen spaces.HasChild root ptr → ¬ Touches edge ptr) →
      ¬ ReflTransGen spaces.HasChild root edge.type

end

variable {spaces spaces' spaces'' : AddressSpaces A} {space : SpaceId} {root ptr c m : NodePtr}
  {gone : List NodePtr} {edges : Set Edge} {edge : Edge} {node : Node A} {rounds : ℕ} {id : NodeId}
  {place : Place}

theorem callsFor_append {before after : List NodePtr}
    (h : ∀ c ∈ before, spaces.found space c = some c) :
    spaces.callsFor space (before ++ after) = before ++ spaces.callsFor space after := by
  induction before with
  | nil => rfl
  | cons c before ih =>
      obtain ⟨hc, hrest⟩ := List.forall_mem_cons.mp h
      rw [List.cons_append, callsFor, if_pos hc, ih hrest, List.cons_append]

theorem callsFor_of_found {cs : List NodePtr} (h : ∀ c ∈ cs, spaces.found space c = some c) :
    spaces.callsFor space cs = cs := by
  have happend : spaces.callsFor space (cs ++ []) = cs ++ spaces.callsFor space [] :=
    callsFor_append h
  rw [List.append_nil, callsFor, List.append_nil] at happend
  exact happend

theorem found_eq_some_iff (hid : spaces.heap.idOf c = some id) :
    spaces.found space c = some m ↔ spaces.nodeMap (space, id) = some m := by
  rw [found, hid, Option.bind_some]

/-- Calls are for children where all are found under their ids. -/
theorem Deletable.calls_eq (h : spaces.Deletable space root)
    (hptr : ReflTransGen spaces.HasChild root ptr) : spaces.calls space ptr = spaces.children ptr :=
  callsFor_of_found fun c hc => h.found c (hptr.tail hc)

theorem Deletable.hasChild_of_calls (h : spaces.Deletable space root)
    (hptr : ReflTransGen spaces.HasChild root ptr)
    (hc : ReflTransGen (fun ptr call => call ∈ spaces.calls space ptr) ptr c) :
    ReflTransGen spaces.HasChild ptr c := by
  induction hc with
  | refl => exact .refl
  | tail _ hcall ih =>
      rw [h.calls_eq (hptr.trans ih)] at hcall
      exact ih.tail hcall

theorem Deletable.called_iff (h : spaces.Deletable space root) :
    spaces.Called space root ptr ↔ ReflTransGen spaces.HasChild root ptr := by
  constructor
  · intro hptr
    induction hptr with
    | refl => exact .refl
    | tail _ hnext ih =>
        rw [h.calls_eq ih] at hnext
        exact ih.tail (hnext.elim id id)
  · exact ReflTransGen.mono (fun _ _ hchild => .inr hchild) _ _

/-! ## §2  The turn of a node -/

section

variable (spaces : AddressSpaces A) (space : SpaceId) (root : NodePtr)

/-- The node is not the type, nor a supertype of the type, of a reference that is left
to be read or deleted, unless it is one of its own and can be told. -/
def TypesOutlive (ptr : NodePtr) (before : List NodePtr) : Prop :=
  ∀ edge ∈ spaces.remaining before,
    (∃ called, spaces.Called space root called ∧ Touches edge called) →
      spaces.Supertypes edge.type ptr → Touches edge ptr ∧ spaces.isHierarchical edge.type ≠ none

/-- That holds when the turn of each node comes. -/
def KeepsItsTypes : Prop :=
  ∀ ptr before, Turn (spaces.calls space) [root] [] ptr before →
    spaces.TypesOutlive space root ptr before

/-- What calls still read of types does not change. -/
def KeepsSupertypes (gone : List NodePtr) : Prop :=
  ∀ edge ∈ spaces.remaining gone,
    (∃ called, spaces.Called space root called ∧ Touches edge called) →
    ∀ above, spaces.Supertypes edge.type above → above ∉ gone

end

/-- Subtrees that hold no types of their references. -/
theorem keepsItsTypes_of_types
    (h : ∀ ptr, spaces.Called space root ptr → ∀ edge ∈ spaces.heap.edgeSet,
      ¬ spaces.Supertypes edge.type ptr) : spaces.KeepsItsTypes space root := by
  intro ptr before hturn edge hedge _ habove
  obtain ⟨a, ha, hcalled⟩ := hturn.leadsTo
  cases List.mem_singleton.mp ha
  have hcalled' : spaces.Called space root ptr := ReflTransGen.mono (fun _ _ => .inl) _ _ hcalled
  exact absurd habove (h ptr hcalled' edge hedge.1)

/-- A type of an edge elsewhere has been taken out. -/
def Dangles (spaces : AddressSpaces A) (space : SpaceId) (root : NodePtr)
    (spaces' : AddressSpaces A) : Prop :=
  ∃ id, ∃ edge ∈ spaces.heap.edgeSet,
    (∀ ptr, spaces.Called space root ptr → ¬ Touches edge ptr) ∧
    spaces.Called space root edge.type ∧ spaces.nodeMap (space, id) = some edge.type ∧
    spaces'.nodeMap (space, id) = none

theorem Dangles.shrinks (h : spaces.Dangles space root spaces') (hs : spaces'.Shrinks spaces'') :
    spaces.Dangles space root spaces'' := by
  obtain ⟨id, edge, hedge, helsewhere, hcalled, hold, hnone⟩ := h
  exact ⟨id, edge, hedge, helsewhere, hcalled, hold, hs.eq_none hnone⟩

theorem Deletable.not_dangles (h : spaces.Deletable space root) :
    ¬ spaces.Dangles space root spaces' := by
  rintro ⟨id, edge, hedge, helsewhere, hcalled, -⟩
  refine h.types edge hedge (fun ptr hptr => ?_) (h.called_iff.mp hcalled)
  exact helsewhere ptr (h.called_iff.mpr hptr)

/-- The turn of a node whose references are deleted. -/
structure AtTurn (spaces : AddressSpaces A) (space : SpaceId) (root ptr : NodePtr)
    (gone : List NodePtr) : Prop where
  inv : spaces.Inv spaces.heap.edgeSet
  called : spaces.Called space root ptr
  outlive : spaces.TypesOutlive space root ptr gone
  supertypes : spaces.KeepsSupertypes space root gone

/-- Whether the type of an edge can be told is not lost when the edge goes. -/
theorem AtTurn.told_iff (h : spaces.AtTurn space root ptr gone)
    (hleft : spaces.Left gone edges spaces') (hkept : spaces.remaining (ptr :: gone) ⊆ edges)
    (hedge : edge ∈ spaces.remaining gone) (htouches : Touches edge ptr) :
    spaces'.isHierarchical edge.type ≠ none ↔ spaces.isHierarchical edge.type ≠ none := by
  have hstay := h.supertypes edge hedge ⟨ptr, h.called, htouches⟩
  constructor
  · intro htold
    by_cases hptr : spaces.Supertypes edge.type ptr
    · exact (h.outlive edge hedge ⟨ptr, h.called, htouches⟩ hptr).2
    · have hstay' : ∀ above, spaces.Supertypes edge.type above → above ∉ ptr :: gone := by
        intro above habove hmem
        rcases List.mem_cons.mp hmem with rfl | hmem
        · exact hptr habove
        · exact hstay above habove hmem
      rw [← hleft.isHierarchical_eq h.inv (List.subset_cons_self _ _) hkept hstay']
      exact htold
  · exact hleft.isHierarchical_ne_none h.inv hstay

/-! ## §3  References that go -/

/-- A round deletes an edge of the node, if it has one. -/
theorem deleteAllReferences_succ (h : spaces.Inv edges)
    (hnode : spaces.heap.nodes ptr = some node) :
    ((∀ edge ∈ edges, ¬ Touches edge ptr) ∧
      ∀ rounds, deleteAllReferences ptr (rounds + 1) spaces = some spaces) ∨
    ∃ edge ∈ edges, Touches edge ptr ∧
      ∀ rounds, deleteAllReferences ptr (rounds + 1) spaces =
        (spaces.deleteReference edge.type edge.source edge.target).bind
          (deleteAllReferences ptr rounds) := by
  have hreferences := h.represents.holds.references ptr node hnode
  cases hinverse : node.inverseReferences.getLast? with
  | some ref =>
      have hmem : ref ∈ node.references false := List.mem_of_getLast? hinverse
      refine .inr ⟨⟨ref.type, ref.node, ptr⟩, (hreferences false ref).mp hmem, .inr rfl, ?_⟩
      intro rounds
      rw [deleteAllReferences, hnode]
      simp only [Option.bind_eq_bind, Option.bind_some, hinverse]
  | none =>
      cases hforward : node.forwardReferences.getLast? with
      | some ref =>
          have hmem : ref ∈ node.references true := List.mem_of_getLast? hforward
          refine .inr ⟨⟨ref.type, ptr, ref.node⟩, (hreferences true ref).mp hmem, .inl rfl, ?_⟩
          intro rounds
          rw [deleteAllReferences, hnode]
          simp only [Option.bind_eq_bind, Option.bind_some, hinverse, hforward]
      | none =>
          rw [List.getLast?_eq_none_iff] at hinverse hforward
          have hempty : ∀ forward, node.references forward = [] := by
            intro forward
            cases forward
            · exact hinverse
            · exact hforward
          refine .inl ⟨fun edge hedge htouches => ?_, fun rounds => ?_⟩
          · have halone := (h.represents.alone hnode).mp hempty edge hedge
            exact htouches.elim halone.1 halone.2
          · rw [deleteAllReferences, hnode]
            simp only [Option.bind_eq_bind, Option.bind_some, hinverse, hforward, List.getLast?_nil]
            rfl

/-- **`DeleteAllReferences`** leaves no edge of the node. -/
theorem AtTurn.deleteAllReferences (h : spaces.AtTurn space root ptr gone)
    (hleft : spaces.Left gone edges spaces') (hkept : spaces.remaining (ptr :: gone) ⊆ edges)
    (hs : deleteAllReferences ptr rounds spaces' = some spaces'') :
    spaces.Left gone (spaces.remaining (ptr :: gone)) spaces'' ∧
      spaces''.nodeMap = spaces'.nodeMap ∧
      ∀ edge ∈ edges, Touches edge ptr → spaces.isHierarchical edge.type ≠ none := by
  induction rounds generalizing edges spaces' with
  | zero => cases hs
  | succ rounds ih =>
      obtain ⟨node, hnode, -⟩ := Option.bind_eq_some_iff.mp hs
      rcases deleteAllReferences_succ hleft.inv hnode with
        ⟨hnone, heq⟩ | ⟨edge, hedge, htouches, heq⟩
      · rw [heq] at hs
        cases hs
        have hedges : edges = spaces.remaining (ptr :: gone) := by
          refine Set.Subset.antisymm (fun edge hedge => ?_) hkept
          exact mem_remaining_cons (hleft.within hedge) (hnone edge hedge)
        rw [hedges] at hleft hnone
        refine ⟨hleft, rfl, fun edge hedge htouches => ?_⟩
        exact absurd htouches (hnone edge (hedges ▸ hedge))
      · rw [heq] at hs
        obtain ⟨between, hdelete, hrest⟩ := Option.bind_eq_some_iff.mp hs
        obtain ⟨heap, hheap, rfl, htold⟩ := deleteReference_eq_some hdelete
        have hleft' := hleft.deleteReference hheap
        have hkept' := remaining_cons_subset htouches hkept
        obtain ⟨hend, hmap, htolds⟩ := ih hleft' hkept' hrest
        refine ⟨hend, hmap, fun other hother hother' => ?_⟩
        by_cases hsame : other = edge
        · subst hsame
          exact (h.told_iff hleft' hkept' (hleft.within hother) hother').mp htold
        · exact htolds other ⟨hother, hsame⟩ hother'

theorem finite_touching (h : spaces.Inv edges) (hnode : spaces.heap.nodes ptr = some node) :
    {edge | edge ∈ edges ∧ Touches edge ptr}.Finite := by
  have hreferences := h.represents.holds.references ptr node hnode
  refine (List.finite_toSet ((node.forwardReferences.map fun ref => ⟨ref.type, ptr, ref.node⟩) ++
    node.inverseReferences.map fun ref => ⟨ref.type, ref.node, ptr⟩)).subset ?_
  rintro ⟨type, source, target⟩ ⟨hedge, htouches⟩
  refine List.mem_append.mpr (htouches.imp ?_ ?_)
  · rintro rfl
    exact List.mem_map.mpr ⟨⟨type, target⟩, (hreferences true _).mpr hedge, rfl⟩
  · rintro rfl
    exact List.mem_map.mpr ⟨⟨type, source⟩, (hreferences false _).mpr hedge, rfl⟩

theorem ncard_touching_lt (h : spaces.Inv edges) (hnode : spaces.heap.nodes ptr = some node)
    {edge : Edge} (hedge : edge ∈ edges) (htouches : Touches edge ptr) :
    {other | other ∈ edges \ {edge} ∧ Touches other ptr}.ncard <
      {other | other ∈ edges ∧ Touches other ptr}.ncard := by
  refine Set.ncard_lt_ncard ?_ (finite_touching h hnode)
  refine ⟨fun other hother => ⟨hother.1.1, hother.2⟩, fun hsub => ?_⟩
  exact (hsub ⟨hedge, htouches⟩).1.2 rfl

/-- It ends when the types can be told. -/
theorem AtTurn.exists_deleteAllReferences (h : spaces.AtTurn space root ptr gone)
    (hptr : ptr ∉ gone) (halive : spaces.heap.Alive ptr)
    (hleft : spaces.Left gone edges spaces') (hkept : spaces.remaining (ptr :: gone) ⊆ edges)
    (htold : ∀ edge ∈ edges, Touches edge ptr → spaces.isHierarchical edge.type ≠ none) :
    ∃ rounds spaces'', AddressSpaces.deleteAllReferences ptr rounds spaces' = some spaces'' := by
  induction hn : {edge | edge ∈ edges ∧ Touches edge ptr}.ncard using Nat.strong_induction_on
    generalizing edges spaces' with
  | _ n ih =>
      obtain ⟨node, hnode⟩ := NodeHeap.alive_iff.mp halive
      obtain ⟨node', hnode', -⟩ := hleft.exists_node hptr hnode
      rcases deleteAllReferences_succ hleft.inv hnode' with ⟨-, heq⟩ | ⟨edge, hedge, htouches, heq⟩
      · exact ⟨1, spaces', heq 0⟩
      · obtain ⟨heap, hheap⟩ := hleft.inv.represents.exists_deleteReference hedge
        have hleft' := hleft.deleteReference hheap
        have hkept' := remaining_cons_subset htouches hkept
        have htold' := (h.told_iff hleft' hkept' (hleft.within hedge) htouches).mpr
          (htold edge hedge htouches)
        have hcard := ncard_touching_lt hleft.inv hnode' hedge htouches
        rw [hn] at hcard
        obtain ⟨rounds, spaces'', hrest⟩ := ih _ hcard hleft' hkept'
          (fun other hother => htold other hother.1) rfl
        refine ⟨rounds + 1, spaces'', ?_⟩
        rw [heq, deleteReference_of_told hheap htold']
        exact hrest

/-- A node without edges can be taken out. -/
theorem exists_eraseNode {edges : Set Edge} (h : spaces.Inv edges)
    (hplace : spaces.nodeMap place = some ptr) (halone : ∀ edge ∈ edges, ¬ Touches edge ptr) :
    ∃ spaces', spaces.eraseNode place = some spaces' := by
  obtain ⟨node, hnode⟩ := NodeHeap.alive_iff.mp (h.placed place ptr hplace)
  have hempty := (h.represents.alone hnode).mpr fun edge hedge => not_or.mp (halone edge hedge)
  have hforward : node.forwardReferences = [] := hempty true
  have hinverse : node.inverseReferences = [] := hempty false
  unfold AddressSpaces.eraseNode
  have hnode' : spaces.heap.nodes ptr = some node := hnode
  simp only [hplace, hnode', Option.bind_eq_bind, Option.bind_some, hforward, hinverse, check]
  split
  · exact ⟨_, rfl⟩
  · exact ⟨_, rfl⟩

end AddressSpaces

end ScadaCommon.AddressSpace
