import Mathlib.Data.List.Find
import Mathlib.Data.Prod.Lex
import Mathlib.Data.String.Basic
import Mathlib.Order.RelIso.Basic
import ScadaCommon.NodeService.Static.StaticGraph

/-!
# The answers of a static node service

The answers are compared with the graph that the added states state. A reference
stated at both ends is listed twice, `GetReference` compares the id of the type
with the id of the target, and a property has the data type of its declaration
only when that was added first.

§1 data types · §2 listed references · §3 the reference to a target · §4 all answers.
-/

namespace ScadaCommon.Static

open Foundation V3 StaticNodeService

variable {V : Type} {core : Core} {less : Edge → Edge → Prop} [DecidableRel less]
  {states done : List (NodeState V)} {state : NodeState V}

/-! ## §1  Data types -/

variable (core) in
/-- No two of the nodes that a list adds have one id. -/
def DistinctIds (states : List (NodeState V)) : Prop :=
  (states.flatMap (leafIds core)).Nodup

theorem DistinctIds.perm {others : List (NodeState V)} (h : DistinctIds core states)
    (hperm : states.Perm others) : DistinctIds core others :=
  (hperm.flatMap_right (leafIds core)).nodup_iff.mp h

theorem DistinctIds.nodup (h : DistinctIds core states) : states.Nodup := by
  obtain ⟨_, hdisjoint⟩ := List.nodup_flatMap.mp h
  refine List.Pairwise.imp ?_ hdisjoint
  rintro state _ hdisj rfl
  have hmem : state.nodeId ∈ leafIds core state := by simp [leafIds]
  exact hdisj hmem hmem

/-- Two nodes with one id are one node. -/
theorem DistinctIds.unique {other : NodeState V} {n : NodeId} (h : DistinctIds core states)
    (hstate : state ∈ states) (hother : other ∈ states) (hn : n ∈ leafIds core state)
    (hn' : n ∈ leafIds core other) : state = other := by
  obtain ⟨_, hdisjoint⟩ := List.nodup_flatMap.mp h
  have : Std.Symm (Function.onFun List.Disjoint (StaticNodeService.leafIds (V := V) core)) :=
    ⟨fun _ _ h => h.symm⟩
  by_contra hne
  exact hdisjoint.forall hstate hother hne hn hn'

theorem DistinctIds.leafIds (h : DistinctIds core states) (hstate : state ∈ states) :
    (leafIds core state).Nodup :=
  (List.nodup_flatMap.mp h).1 state hstate

theorem DistinctIds.left {rest : List (NodeState V)} (h : DistinctIds core (done ++ rest)) :
    DistinctIds core done := by
  unfold DistinctIds at h
  rw [List.flatMap_append] at h
  exact h.of_append_left

/-- The nodes between two properties have none of the ids that follow. -/
theorem between_none {before : List (NodeId × NodeState V)} {n : NodeId}
    (h : DistinctIds core (done ++ [state])) (hn : n ∈ leafIds core state)
    (hbefore : n ∉ before.map (·.2.nodeId)) :
    (between core less done state before).nodes n = none := by
  rw [← Option.not_isSome_iff_eq_none, isSome_between_iff]
  rintro (⟨other, hother, hin⟩ | hin)
  · have hmem : other ∈ done ++ [state] := List.mem_append_left _ hother
    obtain rfl := h.unique hmem (by simp) hin hn
    exact (List.nodup_append.mp h.nodup).2.2 other hother other (by simp) rfl
  · exact hbefore hin

/-- A state keeps what it says. -/
theorem node_of_mem (h : DistinctIds core states) (hstate : state ∈ states) :
    (empty.addedAll core less states).nodes state.nodeId =
      some { relocated state with properties := [] } := by
  obtain ⟨done, rest, rfl⟩ := List.append_of_mem hstate
  rw [← List.singleton_append, ← List.append_assoc] at h ⊢
  unfold addedAll
  rw [List.foldl_append]
  refine addedAll_keeps rest ?_
  show ((empty.addedAll core less (done ++ [state])).nodes state.nodeId) = _
  rw [addedAll_append_singleton, added_addedAll_eq]
  have hids := h.left.leafIds (List.mem_append_right done (List.mem_singleton_self state))
  have hself : state.nodeId ∈ leafIds core state :=
    List.mem_append_right _ (List.mem_singleton_self _)
  have hnone : (between core less done state (propStates core state)).nodes state.nodeId = none :=
    between_none h.left hself fun hin =>
      (List.nodup_append.mp hids).2.2 _ hin _ (List.mem_singleton_self _) rfl
  exact tryEmplace_nodes_new rfl hnone

section

variable {before after : List (NodeId × NodeState V)} {property : NodeId × NodeState V}
  {declaration : NodeState V}

theorem addedProperty_node {service : StaticNodeService V}
    (h : service.nodes property.2.nodeId = none) :
    (service.addedProperty less property).nodes property.2.nodeId =
      some { relocated (service.carryDataType property.1 property.2) with properties := [] } := by
  refine tryEmplace_nodes_new (carryDataType_nodeId property.1) ?_
  rw [indexAll_nodes, h]

variable (less) in
/-- A property has the data type of its declaration when both were added before. -/
theorem carried_dataType (h : DistinctIds core (done ++ [state]))
    (hsplit : propStates core state = before ++ property :: after) (hdeclaration : declaration ∈ done)
    (hid : declaration.nodeId = property.1)
    (hdataType : (∃ other ∈ done, declaration.attributes.dataType ∈ leafIds core other) ∨
      declaration.attributes.dataType ∈ before.map (·.2.nodeId)) :
    ∃ node, (empty.addedAll core less (done ++ [state])).nodes property.2.nodeId = some node ∧
      node.attributes.dataType = declaration.attributes.dataType := by
  have hnode : (between core less done state before).nodes property.1 =
      some { relocated declaration with properties := [] } := by
    refine addedProperties_keeps before ?_
    rw [indexAll_nodes, ← hid]
    exact node_of_mem h.left hdeclaration
  have hsome := (isSome_between_iff core less done state before _).mpr hdataType
  have hcarried : ((between core less done state before).carryDataType property.1
      property.2).attributes.dataType = declaration.attributes.dataType := by
    unfold carryDataType
    rw [hnode]
    exact if_pos hsome
  have hids : (leafIds core state).Nodup := h.leafIds (by simp)
  have hnone : (between core less done state before).nodes property.2.nodeId = none := by
    refine between_none h (mem_leafIds_of_split hsplit) fun hin => ?_
    unfold StaticNodeService.leafIds at hids
    rw [hsplit, List.map_append, List.append_assoc] at hids
    exact (List.nodup_append.mp hids).2.2 _ hin property.2.nodeId (by simp) rfl
  rw [addedAll_append_singleton, added_addedAll_eq, hsplit]
  unfold between
  rw [List.foldl_append]
  exact ⟨_, tryEmplace_keeps (addedProperties_keeps after (addedProperty_node hnone)), hcarried⟩

end

variable (core) in
/-- The ids of the properties that become nodes. -/
def propertyIds (states : List (NodeState V)) : List NodeId :=
  states.flatMap fun state => (propStates core state).map (·.2.nodeId)

theorem mem_propertyIds {n : NodeId} :
    n ∈ propertyIds core states ↔
      ∃ state ∈ states, n ∈ (propStates core state).map (·.2.nodeId) :=
  List.mem_flatMap

/-- A null data type is not a node, whatever is added later. -/
theorem getDataType_of_null {service : StaticNodeService V} {n : NodeId} {node : NodeState V}
    (hnode : service.nodes n = some node) (hnull : node.attributes.dataType = .null) :
    service.getDataType n = .null := by
  unfold getDataType
  rw [hnode]
  show service.getNode node.attributes.dataType = .null
  rw [hnull]
  exact ite_self _

variable (less) in
/-- Where no property has its declaration and its data type elsewhere, the data
type of a property is null. -/
theorem getDataType_of_not_late {n : NodeId} (h : DistinctIds core states)
    (hlate : ¬ LateDataType core states) (hn : n ∈ propertyIds core states) :
    ∃ node, (empty.addedAll core less states).nodes n = some node ∧
      node.attributes.dataType = .null := by
  obtain ⟨state, hstate, hn⟩ := mem_propertyIds.mp hn
  have hmem : n ∈ leafIds core state := List.mem_append_left _ hn
  have hsome := (isSome_addedAll_iff core less states n).mpr ⟨state, hstate, hmem⟩
  obtain ⟨node, hnode⟩ := Option.isSome_iff_exists.mp hsome
  refine ⟨node, hnode, ?_⟩
  by_contra hne
  obtain ⟨other, hother, hid, _⟩ := saidDataTypes_addedAll h.nodup hlate n node hnode hne
  have hself : n ∈ leafIds core other := List.mem_append_right _ (by simp [hid])
  obtain rfl := h.unique hstate hother hmem hself
  exact (List.nodup_append.mp (h.leafIds hstate)).2.2 n hn n (by simp [hid]) rfl

theorem not_lateDataType_singleton (state : NodeState V) : ¬ LateDataType core [state] := by
  rintro ⟨state', hstate, _, _, _, _, declaration, hdeclaration, hne, _⟩
  obtain rfl := List.mem_singleton.mp hstate
  exact hne (List.mem_singleton.mp hdeclaration)

theorem Accepted.nodeId_ne_null {n : NodeId} (h : Accepted core state)
    (hn : n ∈ leafIds core state) : n ≠ .null := by
  rcases List.mem_append.mp hn with hin | hin
  · obtain ⟨⟨declId, propState⟩, hproperty, rfl⟩ := List.mem_map.mp hin
    unfold propStates at hproperty
    split at hproperty
    · rename_i hinstance
      obtain ⟨⟨_, value⟩, hvalue, heq⟩ := List.mem_filterMap.mp hproperty
      obtain ⟨_, hmake, ⟨⟩⟩ := Option.map_eq_some_iff.mp heq
      obtain ⟨propState', hmake', haccepted⟩ := h.2 hinstance _ hvalue
      obtain rfl := Option.some.inj (hmake.symm.trans hmake')
      exact haccepted.1
    · cases hproperty
  · obtain rfl := List.mem_singleton.mp hin
    exact h.1.1

section

variable {before after : List (NodeId × NodeState V)} {property : NodeId × NodeState V}
  {declaration : NodeState V}

theorem property_mem_propertyIds (hstate : state ∈ states)
    (hsplit : propStates core state = before ++ property :: after) :
    property.2.nodeId ∈ propertyIds core states := by
  refine mem_propertyIds.mpr ⟨state, hstate, List.mem_map_of_mem ?_⟩
  rw [hsplit]
  exact List.mem_append_right before List.mem_cons_self

/-- The properties of the state that is added first have no data type. -/
theorem getDataType_first {rest : List (NodeState V)} (h : DistinctIds core (state :: rest))
    (hsplit : propStates core state = before ++ property :: after) :
    (empty.addedAll core less (state :: rest)).getDataType property.2.nodeId = .null := by
  rw [← List.singleton_append] at h
  obtain ⟨node, hnode, hnull⟩ := getDataType_of_not_late less h.left
    (not_lateDataType_singleton state)
    (property_mem_propertyIds (List.mem_singleton_self state) hsplit)
  exact getDataType_of_null (addedAll_keeps rest hnode) hnull

/-- The properties of the state that is added last have all data types. -/
theorem getDataType_last (h : DistinctIds core (done ++ [state]))
    (hsplit : propStates core state = before ++ property :: after) (hdeclaration : declaration ∈ done)
    (hid : declaration.nodeId = property.1)
    (hdataType : (∃ other ∈ done, declaration.attributes.dataType ∈ leafIds core other) ∨
      declaration.attributes.dataType ∈ before.map (·.2.nodeId)) :
    (empty.addedAll core less (done ++ [state])).getDataType property.2.nodeId =
      declaration.attributes.dataType := by
  obtain ⟨node, hnode, heq⟩ := carried_dataType less h hsplit hdeclaration hid hdataType
  have hsome : ((empty.addedAll core less (done ++ [state])).nodes
      declaration.attributes.dataType).isSome := by
    refine (isSome_addedAll_iff core less _ _).mpr ?_
    rcases hdataType with ⟨other, hother, hin⟩ | hin
    · exact ⟨other, List.mem_append_left _ hother, hin⟩
    · refine ⟨state, List.mem_append_right _ (List.mem_singleton_self state), ?_⟩
      unfold leafIds
      rw [hsplit, List.map_append]
      exact List.mem_append_left _ (List.mem_append_left _ hin)
  unfold getDataType
  rw [hnode]
  show getNode _ node.attributes.dataType = _
  rw [heq]
  exact if_pos hsome

end

theorem LateDataType.perm {others : List (NodeState V)} (hperm : others.Perm states)
    (hlate : ¬ LateDataType core states) : ¬ LateDataType core others :=
  mt (lateDataType_mono hperm.subset) hlate

variable (less) in
/-- **Data types and the order.** The data types of the properties are the same
for all orders exactly when no property has its declaration and its data type
elsewhere in the list. -/
theorem dataTypes_iff (h : DistinctIds core states)
    (haccepted : ∀ state ∈ states, Accepted core state) :
    (∀ others, others.Perm states → ∀ n ∈ propertyIds core states,
        (empty.addedAll core less others).getDataType n =
          (empty.addedAll core less states).getDataType n) ↔
      ¬ LateDataType core states := by
  constructor
  · rintro hsame ⟨state, hstate, before, property, after, hsplit, declaration, hdeclaration, hne,
      hid, hdataType⟩
    have hn := property_mem_propertyIds hstate hsplit
    obtain ⟨front, back, rfl⟩ := List.append_of_mem hstate
    -- The state of the property goes first in one order and last in the other.
    have hfirst : (state :: (front ++ back)).Perm (front ++ state :: back) :=
      List.perm_middle.symm
    have hlast : ((front ++ back) ++ [state]).Perm (front ++ state :: back) :=
      (List.perm_append_singleton _ _).trans hfirst
    have hrest : ∀ other ∈ front ++ state :: back, other ≠ state → other ∈ front ++ back := by
      intro other hother hne
      simp only [List.mem_append, List.mem_cons] at hother ⊢
      tauto
    have helsewhere : (∃ other ∈ front ++ back,
          declaration.attributes.dataType ∈ leafIds core other) ∨
        declaration.attributes.dataType ∈ before.map (·.2.nodeId) := by
      rcases hdataType with hin | ⟨other, hother, hne, hin⟩
      · exact Or.inr hin
      · exact Or.inl ⟨other, hrest other hother hne, hin⟩
    have hnull : declaration.attributes.dataType = .null :=
      calc declaration.attributes.dataType
          = (empty.addedAll core less ((front ++ back) ++ [state])).getDataType
              property.2.nodeId :=
            (getDataType_last (h.perm hlast.symm) hsplit (hrest declaration hdeclaration hne) hid
              helsewhere).symm
        _ = (empty.addedAll core less (state :: (front ++ back))).getDataType
              property.2.nodeId :=
            (hsame _ hlast _ hn).trans (hsame _ hfirst _ hn).symm
        _ = .null := getDataType_first (h.perm hfirst.symm) hsplit
    rcases hdataType with hin | ⟨other, hother, _, hin⟩
    · refine (haccepted state hstate).nodeId_ne_null ?_ hnull
      unfold leafIds
      rw [hsplit, List.map_append]
      exact List.mem_append_left _ (List.mem_append_left _ hin)
    · exact (haccepted other hother).nodeId_ne_null hin hnull
  · intro hlate others hperm n hn
    have hn' : n ∈ propertyIds core others := by
      rw [mem_propertyIds] at hn ⊢
      obtain ⟨state, hstate, hin⟩ := hn
      exact ⟨state, hperm.mem_iff.mpr hstate, hin⟩
    obtain ⟨node, hnode, hnull⟩ := getDataType_of_not_late less (h.perm hperm.symm)
      (LateDataType.perm hperm hlate) hn'
    obtain ⟨node', hnode', hnull'⟩ := getDataType_of_not_late less h hlate hn
    rw [getDataType_of_null hnode hnull, getDataType_of_null hnode' hnull']

/-! ## §2  Listed references -/

variable (core) in
/-- The state of a node states an edge. -/
def Stated (states : List (NodeState V)) (n : NodeId) (edge : Edge) : Prop :=
  ∃ state ∈ allStates core states, state.nodeId = n ∧
    edge ∈ (relocatedReferences state).map (·.toEdge)

variable (core) in
/-- The state at the other end of an edge states it. -/
def StatedBack (states : List (NodeState V)) (n : NodeId) (edge : Edge) : Prop :=
  Stated core states edge.nodeId
    { referenceTypeId := edge.referenceTypeId, forward := !edge.forward, nodeId := n }

variable (core) in
/-- An edge of a node in the symmetric closure of the stated edges. -/
def Incident (states : List (NodeState V)) (n : NodeId) (edge : Edge) : Prop :=
  Stated core states n edge ∨ StatedBack core states n edge

/-- An edge that a query for a reference type and a direction asks for. -/
def Matches (isSubtype : NodeId → NodeId → Prop) (referenceTypeId : NodeId) (forward : Bool)
    (edge : Edge) : Prop :=
  edge.forward = forward ∧ isSubtype edge.referenceTypeId referenceTypeId

variable (core) in
/-- The types of all edges are standard ones: the core library knows their
supertypes, and a type unknown to it is none of them. -/
def StandardTypes (isSubtype : NodeId → NodeId → Prop) (states : List (NodeState V)) : Prop :=
  ∀ n edge, Stated core states n edge → ∀ referenceTypeId,
    match core.isStandardReferenceSubtype edge.referenceTypeId referenceTypeId with
    | some known => known = true ↔ isSubtype edge.referenceTypeId referenceTypeId
    | none => edge.referenceTypeId = referenceTypeId ↔
        isSubtype edge.referenceTypeId referenceTypeId

/-- The matching edges that the state of a node states. -/
def matchingOwn (core : Core) (state : NodeState V) (referenceTypeId : NodeId) (forward : Bool) :
    List Edge :=
  ((relocatedReferences state).map (·.toEdge)).filter
    (matchesReference core referenceTypeId forward)

section

variable {isSubtype : NodeId → NodeId → Prop} {service : StaticNodeService V} {n : NodeId}
  {referenceTypeId : NodeId} {forward : Bool} {edge : Edge}

theorem matchesReference_iff (h : StandardTypes core isSubtype states)
    (hedge : Incident core states n edge) :
    matchesReference core referenceTypeId forward edge = true ↔
      Matches isSubtype referenceTypeId forward edge := by
  have hknown : match core.isStandardReferenceSubtype edge.referenceTypeId referenceTypeId with
      | some known => known = true ↔ isSubtype edge.referenceTypeId referenceTypeId
      | none => edge.referenceTypeId = referenceTypeId ↔
          isSubtype edge.referenceTypeId referenceTypeId := by
    rcases hedge with hstated | hback
    · exact h n edge hstated referenceTypeId
    · exact h edge.nodeId _ hback referenceTypeId
  unfold matchesReference Matches
  by_cases hforward : edge.forward = forward
  · cases hcore : core.isStandardReferenceSubtype edge.referenceTypeId referenceTypeId with
    | some known =>
        rw [hcore] at hknown
        simpa [hforward] using hknown
    | none =>
        rw [hcore] at hknown
        simpa [hforward] using hknown
  · simp [hforward]

variable [IsStrictTotalOrder Edge less]

theorem mem_inverseReferences_iff (states : List (NodeState V)) :
    edge ∈ (empty.addedAll core less states).inverseReferences n ↔
      StatedBack core states n edge := by
  rw [(holdsIndex_addedAll core less states).mem_iff]
  unfold StatedBack Stated
  constructor
  · rintro ⟨state, hstate, desc, hdesc, rfl, rfl⟩
    refine ⟨state, hstate, rfl, List.mem_map.mpr ⟨desc, hdesc, ?_⟩⟩
    simp [ReferenceDescription.mirror]
  · rintro ⟨state, hstate, hid, hin⟩
    obtain ⟨desc, hdesc, heq⟩ := List.mem_map.mp hin
    refine ⟨state, hstate, desc, hdesc, congrArg Edge.nodeId heq, ?_⟩
    cases edge
    simp_all [ReferenceDescription.mirror]

end

/-- Leaves with one id are one state. -/
theorem leaf_unique {leaf other : NodeState V} (h : DistinctIds core states)
    (hleaf : leaf ∈ allStates core states) (hother : other ∈ allStates core states)
    (hid : leaf.nodeId = other.nodeId) : leaf = other := by
  obtain ⟨state, hstate, hleaf⟩ := hleaf
  obtain ⟨state', hstate', hother⟩ := hother
  obtain rfl := h.unique hstate hstate' (mem_leafIds.mpr ⟨leaf, hleaf, rfl⟩)
    (mem_leafIds.mpr ⟨other, hother, hid.symm⟩)
  have hids : (((propStates core state).map (·.2) ++ [state]).map (·.nodeId)).Nodup := by
    rw [List.map_append, List.map_map]
    exact h.leafIds hstate
  have hlist : ∀ leaf ∈ leafStates core state,
      leaf ∈ (propStates core state).map (·.2) ++ [state] := by
    rintro leaf (rfl | ⟨property, hproperty, rfl⟩)
    · exact List.mem_append_right _ (List.mem_singleton_self _)
    · exact List.mem_append_left _ (List.mem_map_of_mem hproperty)
  exact List.inj_on_of_nodup_map hids (hlist leaf hleaf) (hlist other hother) hid

section

variable [IsStrictTotalOrder Edge less] {isSubtype : NodeId → NodeId → Prop} {n : NodeId}
  {edge : Edge}

omit [IsStrictTotalOrder Edge less] in
/-- What `GetReferences` lists, by edges. -/
theorem getReferences_eq (h : DistinctIds core states) (hstate : state ∈ allStates core states)
    (referenceTypeId : NodeId) (forward : Bool) :
    (empty.addedAll core less states).getReferences core state.nodeId referenceTypeId forward =
      (matchingOwn core state referenceTypeId forward ++
        ((empty.addedAll core less states).inverseReferences state.nodeId).filter
          (matchesReference core referenceTypeId forward)).map
        (empty.addedAll core less states).toReference := by
  have hnodes := holdsNodes_addedAll core less states
  obtain ⟨node, hnode⟩ := Option.isSome_iff_exists.mp
    ((hnodes.isSome_iff state.nodeId).mpr ⟨state, hstate, rfl⟩)
  obtain ⟨other, hother, hid, hreferences⟩ := hnodes.references _ node hnode
  obtain rfl := leaf_unique h hother hstate hid
  unfold getReferences matchingOwn
  rw [hnode]
  show (((node.references.map (·.toEdge)).filter _ ++ _).map _) = _
  rw [hreferences]

/-- The edges behind the list are the matching edges of the node. -/
theorem mem_listed_iff (h : DistinctIds core states) (htypes : StandardTypes core isSubtype states)
    (hstate : state ∈ allStates core states) (referenceTypeId : NodeId) (forward : Bool) :
    edge ∈ matchingOwn core state referenceTypeId forward ++
        ((empty.addedAll core less states).inverseReferences state.nodeId).filter
          (matchesReference core referenceTypeId forward) ↔
      Incident core states state.nodeId edge ∧ Matches isSubtype referenceTypeId forward edge := by
  have hstated : edge ∈ (relocatedReferences state).map (·.toEdge) ↔
      Stated core states state.nodeId edge := by
    constructor
    · exact fun hin => ⟨state, hstate, rfl, hin⟩
    · rintro ⟨other, hother, hid, hin⟩
      obtain rfl := leaf_unique h hother hstate hid
      exact hin
  unfold matchingOwn
  rw [List.mem_append, List.mem_filter, List.mem_filter, mem_inverseReferences_iff, hstated,
    ← or_and_right]
  exact and_congr_right fun hincident => matchesReference_iff htypes hincident

variable (core) in
/-- `GetReferences` lists each matching edge of the node once. -/
def ListsOnce (isSubtype : NodeId → NodeId → Prop) (states : List (NodeState V))
    (service : StaticNodeService V) (n referenceTypeId : NodeId) (forward : Bool) : Prop :=
  ∃ edges : List Edge, edges.Nodup ∧
    (∀ edge, edge ∈ edges ↔
      Incident core states n edge ∧ Matches isSubtype referenceTypeId forward edge) ∧
    (service.getReferences core n referenceTypeId forward).Perm (edges.map service.toReference)

/-- **Listed once.** The matching edges of a node are listed once each exactly
when its state has none of them twice and no other state has one of them too. -/
theorem listsOnce_iff (h : DistinctIds core states) (htypes : StandardTypes core isSubtype states)
    (hstate : state ∈ allStates core states) (referenceTypeId : NodeId) (forward : Bool) :
    ListsOnce core isSubtype states (empty.addedAll core less states) state.nodeId
        referenceTypeId forward ↔
      (matchingOwn core state referenceTypeId forward).Nodup ∧
        ∀ edge ∈ matchingOwn core state referenceTypeId forward,
          ¬ StatedBack core states state.nodeId edge := by
  set listed := matchingOwn core state referenceTypeId forward ++
    ((empty.addedAll core less states).inverseReferences state.nodeId).filter
      (matchesReference core referenceTypeId forward) with hlisted
  have hmem : ∀ edge, edge ∈ listed ↔ Incident core states state.nodeId edge ∧
      Matches isSubtype referenceTypeId forward edge := fun edge =>
    mem_listed_iff h htypes hstate referenceTypeId forward
  have honce : ListsOnce core isSubtype states (empty.addedAll core less states) state.nodeId
      referenceTypeId forward ↔ listed.Nodup := by
    unfold ListsOnce
    rw [getReferences_eq h hstate, ← hlisted]
    constructor
    · rintro ⟨edges, hnodup, hedges, hperm⟩
      -- Equally many elements, and the list without repetitions is among them.
      have hlength : listed.length ≤ edges.length := by
        simpa using hperm.length_eq.le
      have hsubperm : edges.Subperm listed :=
        hnodup.subperm fun edge hedge => (hmem edge).mpr ((hedges edge).mp hedge)
      exact (hsubperm.perm_of_length_le hlength).nodup_iff.mp hnodup
    · exact fun hnodup => ⟨listed, hnodup, hmem, List.Perm.refl _⟩
  have hinverse : ((empty.addedAll core less states).inverseReferences state.nodeId).Nodup :=
    ((holdsIndex_addedAll core less states).sorted state.nodeId).nodup
  rw [honce, hlisted, List.nodup_append, and_iff_right (hinverse.filter _)]
  refine and_congr_right fun _ => ⟨fun hne edge hedge hback => ?_, fun hback a ha b hb => ?_⟩
  · have hmatches := (List.mem_filter.mp hedge).2
    exact hne edge hedge edge
      (List.mem_filter.mpr ⟨(mem_inverseReferences_iff states).mpr hback, hmatches⟩) rfl
  · rintro rfl
    exact hback a ha ((mem_inverseReferences_iff states).mp (List.mem_filter.mp hb).1)

/-! ## §3  The reference to a target -/

/-- `GetReference` finds a reference to a target exactly when one is listed. -/
def FindsReference (core : Core) (service : StaticNodeService V) (n referenceTypeId : NodeId)
    (forward : Bool) (target : NodeId) : Prop :=
  (service.getReference core n referenceTypeId forward target ∈
      service.getReferences core n referenceTypeId forward ∧
    (service.getReference core n referenceTypeId forward target).target = target) ↔
  ∃ ref ∈ service.getReferences core n referenceTypeId forward, ref.target = target

omit [DecidableRel less] [IsStrictTotalOrder Edge less] in
theorem forward_of_mem {service : StaticNodeService V} {referenceTypeId : NodeId} {forward : Bool}
    {ref : NodeRefReference}
    (h : ref ∈ service.getReferences core n referenceTypeId forward) : ref.forward = forward := by
  unfold getReferences at h
  split at h
  · obtain ⟨desc, hdesc, rfl⟩ := List.mem_map.mp h
    rw [← List.filter_append] at hdesc
    have hmatches := (List.mem_filter.mp hdesc).2
    unfold matchesReference at hmatches
    by_contra hne
    rw [if_pos (show desc.forward ≠ forward from hne)] at hmatches
    cases hmatches
  · cases h

omit [DecidableRel less] [IsStrictTotalOrder Edge less] in
/-- Only one target is ever found, and only by a reference that has it for its type, too. -/
theorem getReference_iff {service : StaticNodeService V} {referenceTypeId target : NodeId}
    {forward : Bool} (hbool : core.ConvertsBool) (hne : target ≠ .null) :
    (service.getReference core n referenceTypeId forward target ∈
        service.getReferences core n referenceTypeId forward ∧
      (service.getReference core n referenceTypeId forward target).target = target) ↔
    target = core.nodeIdOfBool true ∧
      ∃ ref ∈ service.getReferences core n referenceTypeId forward,
        ref.target = target ∧ ref.referenceType = target := by
  unfold getReference findReference
  cases hfind : (service.getReferences core n referenceTypeId forward).find? _ with
  | some ref =>
      have hmem := List.mem_of_find?_eq_some hfind
      have hprop := List.find?_some hfind
      rw [decide_eq_true_eq] at hprop
      by_cases hfits : ref.forward = forward ∧ ref.referenceType = target ∧ ref.target = target
      · rw [decide_eq_true hfits] at hprop
        obtain ⟨-, htype, htarget⟩ := hfits
        exact iff_of_true ⟨hmem, htarget⟩ ⟨hprop.symm, ref, hmem, htarget, htype⟩
      · rw [decide_eq_false hfits, hbool.false_null] at hprop
        exact absurd hprop.symm hne
  | none =>
      have hnone := List.find?_eq_none.mp hfind
      refine iff_of_false ?_ ?_
      · -- The answer for no reference has no target.
        rintro ⟨-, htarget⟩
        exact hne htarget.symm
      · rintro ⟨htrue, ref, hmem, htarget, htype⟩
        have hfits : ref.forward = forward ∧ ref.referenceType = target ∧ ref.target = target :=
          ⟨forward_of_mem hmem, htype, htarget⟩
        refine hnone ref hmem (decide_eq_true ?_)
        rw [decide_eq_true hfits, htrue]

/-- **The reference to a target.** A listed reference to a target is found exactly when the
target is the id that `true` becomes, and one of those listed has it for its type, too. -/
theorem findsReference_iff (hbool : core.ConvertsBool) (h : DistinctIds core states)
    (htypes : StandardTypes core isSubtype states) (hstate : state ∈ allStates core states)
    (referenceTypeId : NodeId) (forward : Bool) {target : NodeId} (hne : target ≠ .null) :
    FindsReference core (empty.addedAll core less states) state.nodeId referenceTypeId forward
        target ↔
      ∀ edge, Incident core states state.nodeId edge → Matches isSubtype referenceTypeId forward edge →
        (empty.addedAll core less states).getNode edge.nodeId = target →
        target = core.nodeIdOfBool true ∧ ∃ edge', Incident core states state.nodeId edge' ∧
          Matches isSubtype referenceTypeId forward edge' ∧
          (empty.addedAll core less states).getNode edge'.nodeId = target ∧
          (empty.addedAll core less states).getNode edge'.referenceTypeId = target := by
  set service := empty.addedAll core less states with hservice
  have hmem : ∀ ref, ref ∈ service.getReferences core state.nodeId referenceTypeId forward ↔
      ∃ edge, (Incident core states state.nodeId edge ∧
        Matches isSubtype referenceTypeId forward edge) ∧ service.toReference edge = ref := by
    intro ref
    rw [hservice, getReferences_eq h hstate, List.mem_map]
    exact exists_congr fun edge =>
      and_congr_left fun _ => mem_listed_iff h htypes hstate referenceTypeId forward
  unfold FindsReference
  rw [getReference_iff hbool hne]
  constructor
  · intro hfinds edge hincident hmatches htarget
    obtain ⟨htrue, ref, href, htarget', htype⟩ :=
      hfinds.mpr ⟨_, (hmem _).mpr ⟨edge, ⟨hincident, hmatches⟩, rfl⟩, htarget⟩
    obtain ⟨edge', ⟨hincident', hmatches'⟩, rfl⟩ := (hmem ref).mp href
    exact ⟨htrue, edge', hincident', hmatches', htarget', htype⟩
  · intro hloops
    constructor
    · rintro ⟨-, ref, href, htarget, -⟩
      exact ⟨ref, href, htarget⟩
    · rintro ⟨ref, href, htarget⟩
      obtain ⟨edge, ⟨hincident, hmatches⟩, rfl⟩ := (hmem ref).mp href
      obtain ⟨htrue, edge', hincident', hmatches', htarget', htype⟩ :=
        hloops edge hincident hmatches htarget
      exact ⟨htrue, _, (hmem _).mpr ⟨edge', ⟨hincident', hmatches'⟩, rfl⟩, htarget', htype⟩

/-- The first reference of which a node is there has no target there; where there is none,
the answer for no reference looks like those listed. -/
def FirstLacksTarget (refs : List NodeRefReference) (forward : Bool) : Prop :=
  match refs.find? fun ref => decide ¬(ref.referenceType = .null ∧ ref.target = .null) with
  | some ref => ref.target = .null
  | none => forward = false

omit [DecidableRel less] [IsStrictTotalOrder Edge less] in
/-- **The null target** is answered with the first reference of which a node is there. -/
theorem findsReference_null_iff {service : StaticNodeService V} {referenceTypeId : NodeId}
    {forward : Bool} (hbool : core.ConvertsBool) :
    FindsReference core service n referenceTypeId forward .null ↔
      ((∃ ref ∈ service.getReferences core n referenceTypeId forward, ref.target = .null) →
        FirstLacksTarget (service.getReferences core n referenceTypeId forward) forward) := by
  have hfits : ∀ ref ∈ service.getReferences core n referenceTypeId forward,
      decide (core.nodeIdOfBool (ref.forward = forward ∧ ref.referenceType = .null ∧
        ref.target = .null) = .null) =
        decide ¬(ref.referenceType = .null ∧ ref.target = .null) := by
    intro ref href
    have hforward := forward_of_mem href
    by_cases hnull : ref.referenceType = .null ∧ ref.target = .null
    · simp [hforward, hnull, hbool.true_ne_null]
    · simp [hforward, hnull, hbool.false_null]
  unfold FindsReference FirstLacksTarget getReference findReference
  rw [List.find?_congr hfits]
  cases hfind : (service.getReferences core n referenceTypeId forward).find? _ with
  | some ref =>
      have hmem := List.mem_of_find?_eq_some hfind
      refine ⟨fun h hlisted => (h.mpr hlisted).2, fun h => ⟨?_, fun hlisted => ⟨hmem, h hlisted⟩⟩⟩
      rintro ⟨-, htarget⟩
      exact ⟨ref, hmem, htarget⟩
  | none =>
      have hnone : ∀ ref ∈ service.getReferences core n referenceTypeId forward,
          ref = { forward } := by
        intro ref href
        have hnull : ref.referenceType = .null ∧ ref.target = .null := by
          simpa using List.find?_eq_none.mp hfind ref href
        rw [← forward_of_mem href, ← hnull.1]
        cases ref
        simp_all
      constructor
      · rintro h hlisted
        exact (forward_of_mem (h.mpr hlisted).1).symm
      · intro h
        refine ⟨fun ⟨hmem, htarget⟩ => ⟨_, hmem, htarget⟩, fun hlisted => ⟨?_, rfl⟩⟩
        obtain ⟨ref, hmem, -⟩ := id hlisted
        obtain rfl := h hlisted
        exact hnone ref hmem ▸ hmem

variable (core) in
omit [DecidableRel less] [IsStrictTotalOrder Edge less] in
theorem allStates_perm {others : List (NodeState V)} (hperm : others.Perm states) :
    allStates core others = allStates core states := by
  ext leaf
  exact exists_congr fun state => and_congr_left fun _ => hperm.mem_iff

omit [IsStrictTotalOrder Edge less] in
theorem getNode_perm {others : List (NodeState V)} (hperm : others.Perm states) (n : NodeId) :
    (empty.addedAll core less others).getNode n = (empty.addedAll core less states).getNode n := by
  have hsome : ((empty.addedAll core less others).nodes n).isSome ↔
      ((empty.addedAll core less states).nodes n).isSome := by
    rw [isSome_addedAll_iff, isSome_addedAll_iff]
    exact exists_congr fun state => and_congr_left fun _ => hperm.mem_iff
  unfold getNode
  simp only [hsome]

variable (less) in
/-- **References and the order.** What is listed does not depend on the order. -/
theorem getReferences_perm {others : List (NodeState V)} (h : DistinctIds core states)
    (hperm : others.Perm states) (n referenceTypeId : NodeId) (forward : Bool) :
    (empty.addedAll core less others).getReferences core n referenceTypeId forward =
      (empty.addedAll core less states).getReferences core n referenceTypeId forward := by
  have hall := allStates_perm core hperm
  by_cases hn : ∃ state ∈ allStates core states, state.nodeId = n
  · obtain ⟨state, hstate, rfl⟩ := hn
    rw [getReferences_eq h hstate, getReferences_eq (h.perm hperm.symm) (hall ▸ hstate)]
    have hinverse : (empty.addedAll core less others).inverseReferences state.nodeId =
        (empty.addedAll core less states).inverseReferences state.nodeId := by
      refine List.Pairwise.eq_of_mem_iff
        ((holdsIndex_addedAll core less others).sorted state.nodeId)
        ((holdsIndex_addedAll core less states).sorted state.nodeId) fun edge => ?_
      rw [mem_inverseReferences_iff, mem_inverseReferences_iff]
      unfold StatedBack Stated
      rw [hall]
    rw [hinverse]
    refine List.map_congr_left fun edge _ => ?_
    unfold toReference
    rw [getNode_perm hperm, getNode_perm hperm]
  · have hnone : ∀ list : List (NodeState V), allStates core list = allStates core states →
        (empty.addedAll core less list).nodes n = none := by
      intro list heq
      rw [← Option.not_isSome_iff_eq_none, (holdsNodes_addedAll core less list).isSome_iff, heq]
      exact hn
    unfold getReferences
    rw [hnone others hall, hnone states rfl]

end

/-! ## §4  All answers -/

/-- **The answers of a static service.** `GetReferences` lists each edge of a
node once exactly when no matching edge is stated twice, at one end or at both;
`GetReference` finds a listed target exactly when it is the one id that `true`
becomes and one of the edges to it has it for its type, too; neither depends on
the order of the states, and data types of properties do exactly when a
declaration and its data type can be added late. -/
theorem answers_iff [IsStrictTotalOrder Edge less] {isSubtype : NodeId → NodeId → Prop}
    {service : StaticNodeService V} (hbool : core.ConvertsBool)
    (hids : DistinctIds core states) (htypes : StandardTypes core isSubtype states)
    (hadd : empty.addAll core less states = some service) :
    (∀ state ∈ allStates core states, ∀ referenceTypeId forward,
      ListsOnce core isSubtype states service state.nodeId referenceTypeId forward ↔
        (matchingOwn core state referenceTypeId forward).Nodup ∧
          ∀ edge ∈ matchingOwn core state referenceTypeId forward,
            ¬ StatedBack core states state.nodeId edge) ∧
    (∀ state ∈ allStates core states, ∀ referenceTypeId forward target, target ≠ .null →
      (FindsReference core service state.nodeId referenceTypeId forward target ↔
        ∀ edge, Incident core states state.nodeId edge →
          Matches isSubtype referenceTypeId forward edge → service.getNode edge.nodeId = target →
          target = core.nodeIdOfBool true ∧ ∃ edge', Incident core states state.nodeId edge' ∧
            Matches isSubtype referenceTypeId forward edge' ∧
            service.getNode edge'.nodeId = target ∧
            service.getNode edge'.referenceTypeId = target)) ∧
    (∀ n referenceTypeId forward,
      FindsReference core service n referenceTypeId forward .null ↔
        ((∃ ref ∈ service.getReferences core n referenceTypeId forward, ref.target = .null) →
          FirstLacksTarget (service.getReferences core n referenceTypeId forward) forward)) ∧
    (∀ others, others.Perm states → ∃ service', empty.addAll core less others = some service' ∧
      ∀ n referenceTypeId forward,
        service'.getReferences core n referenceTypeId forward =
            service.getReferences core n referenceTypeId forward ∧
          ∀ target, service'.getReference core n referenceTypeId forward target =
            service.getReference core n referenceTypeId forward target) ∧
    ((∀ others, others.Perm states → ∀ service',
        empty.addAll core less others = some service' → ∀ n ∈ propertyIds core states,
          service'.getDataType n = service.getDataType n) ↔
      ¬ LateDataType core states) := by
  obtain ⟨haccepted, rfl⟩ := addAll_eq_some.mp hadd
  have hothers : ∀ others, others.Perm states →
      empty.addAll core less others = some (empty.addedAll core less others) := by
    intro others hperm
    exact addAll_eq_some.mpr ⟨fun state h => haccepted state (hperm.mem_iff.mp h), rfl⟩
  refine ⟨fun state hstate => listsOnce_iff hids htypes hstate,
    fun state hstate referenceTypeId forward _ =>
      findsReference_iff hbool hids htypes hstate referenceTypeId forward,
    fun _ _ _ => findsReference_null_iff hbool, ?_, ?_⟩
  · intro others hperm
    refine ⟨_, hothers others hperm, fun n referenceTypeId forward => ?_⟩
    have hlist := getReferences_perm less hids hperm n referenceTypeId forward
    refine ⟨hlist, fun target => ?_⟩
    unfold getReference
    rw [hlist]
  · rw [← dataTypes_iff less hids haccepted]
    constructor
    · exact fun hsame others hperm => hsame others hperm _ (hothers others hperm)
    · rintro hsame others hperm service' hadd'
      obtain rfl := Option.some.inj ((hothers others hperm).symm.trans hadd')
      exact hsame others hperm

/-! An order of edges, and two nodes. -/

def nodeIdKey : NodeId → ℕ ×ₗ ℕ ×ₗ ℕ ×ₗ String
  | .null => toLex (0, toLex (0, toLex (0, "")))
  | .numeric id namespaceIndex => toLex (namespaceIndex, toLex (1, toLex (id, "")))
  | .string id namespaceIndex => toLex (namespaceIndex, toLex (2, toLex (0, id)))
  | .opaqueId id namespaceIndex => toLex (namespaceIndex, toLex (3, toLex (0,
      String.ofList (id.map Char.ofUInt8))))

/-- Each byte has a character of its own. -/
theorem ofUInt8_injective : Function.Injective Char.ofUInt8 := by
  intro a b h
  exact UInt8.toUInt32_inj.mp (congrArg Char.val h)

theorem nodeIdKey_injective : Function.Injective nodeIdKey := by
  intro a b h
  cases a <;> cases b <;>
    simp_all [nodeIdKey, String.ofList_inj, (List.map_injective_iff.mpr ofUInt8_injective).eq_iff]

def edgeKey (edge : Edge) :
    (ℕ ×ₗ ℕ ×ₗ ℕ ×ₗ String) ×ₗ Bool ×ₗ (ℕ ×ₗ ℕ ×ₗ ℕ ×ₗ String) :=
  toLex (nodeIdKey edge.referenceTypeId, toLex (edge.forward, nodeIdKey edge.nodeId))

theorem edgeKey_injective : Function.Injective edgeKey := by
  intro a b h
  obtain ⟨htype, hforward, hid⟩ : nodeIdKey a.referenceTypeId = nodeIdKey b.referenceTypeId ∧
      a.forward = b.forward ∧ nodeIdKey a.nodeId = nodeIdKey b.nodeId := by
    simpa [edgeKey] using h
  cases a
  cases b
  simp_all [nodeIdKey_injective.eq_iff]

/-- The lexicographic order of the fields. -/
def edgeLess (a b : Edge) : Prop := edgeKey a < edgeKey b

instance : DecidableRel edgeLess := fun a b =>
  inferInstanceAs (Decidable (edgeKey a < edgeKey b))

instance : IsStrictTotalOrder Edge edgeLess :=
  RelEmbedding.isStrictTotalOrder
    (⟨⟨edgeKey, edgeKey_injective⟩, Iff.rfl⟩ : RelEmbedding edgeLess (· < ·))

/-- The part of the core library that the two nodes below need. -/
def organizesCore : Core where
  isStandardReferenceSubtype subtype supertype :=
    if subtype = StandardId.organizes then
      some (supertype ∈
        [StandardId.organizes, StandardId.hierarchicalReferences, StandardId.references])
    else if subtype = StandardId.hasTypeDefinition then
      some (supertype ∈ [StandardId.hasTypeDefinition,
        StandardId.nonHierarchicalReferences, StandardId.references])
    else none
  isInstance nodeClass := !nodeClass.isTypeDefinition
  makeAggregateId _ _ := none
  nodeIdOfBool b := if b then .numeric 1 0 else .null

theorem convertsBool_organizesCore : organizesCore.ConvertsBool :=
  ⟨rfl, nofun⟩

/-- A supertype that the core library knows, or the type itself. -/
def KnownSubtype (core : Core) (subtype supertype : NodeId) : Prop :=
  match core.isStandardReferenceSubtype subtype supertype with
  | some known => known = true
  | none => subtype = supertype

theorem standardTypes_knownSubtype (core : Core) (states : List (NodeState V)) :
    StandardTypes core (KnownSubtype core) states := by
  intro n edge _ referenceTypeId
  unfold KnownSubtype
  cases core.isStandardReferenceSubtype edge.referenceTypeId referenceTypeId with
  | some known => exact Iff.rfl
  | none => exact Iff.rfl

def folder (id : ℕ) (references : List ReferenceDescription) : NodeState ℕ :=
  { nodeId := .numeric id 1, typeDefinitionId := StandardId.folderType, references }

/-- A folder below another. -/
def subfolder : NodeState ℕ :=
  { folder 2 [] with parentId := .numeric 1 1, referenceTypeId := StandardId.organizes }

/-- A folder that states its edge to the one below it, too. -/
def superfolder : NodeState ℕ :=
  folder 1 [{ referenceTypeId := StandardId.organizes, forward := true, nodeId := .numeric 2 1 }]

/-- One edge, stated at the lower end: it is listed once at the upper end, and the search for
its target does not find it. -/
theorem answers_iff_subfolder :
    ∃ service, empty.addAll organizesCore edgeLess [subfolder, folder 1 []] = some service ∧
      ListsOnce organizesCore (KnownSubtype organizesCore) [subfolder, folder 1 []] service
        (.numeric 1 1) StandardId.hierarchicalReferences true ∧
      ¬ FindsReference organizesCore service (.numeric 1 1) StandardId.hierarchicalReferences true
        (.numeric 2 1) := by
  obtain ⟨service, hadded⟩ := (Option.any_eq_true _ _).mp
    (by decide +kernel : (empty.addAll organizesCore edgeLess [subfolder, folder 1 []]).any
      fun service => decide (service.getNode (.numeric 2 1) = .numeric 2 1))
  obtain ⟨hadd, hnode⟩ := hadded
  have hids : DistinctIds organizesCore [subfolder, folder 1 []] := by
    unfold DistinctIds
    decide
  have hupper : folder 1 [] ∈ allStates organizesCore [subfolder, folder 1 []] :=
    ⟨folder 1 [], by simp, Or.inl rfl⟩
  obtain ⟨hlists, hfinds, -⟩ :=
    answers_iff convertsBool_organizesCore hids (standardTypes_knownSubtype _ _) hadd
  refine ⟨service, hadd, (hlists _ hupper _ _).mpr ?_, fun hfound => ?_⟩
  · have hown :
        matchingOwn organizesCore (folder 1 []) StandardId.hierarchicalReferences true = [] := by
      decide
    rw [hown]
    exact ⟨List.nodup_nil, List.forall_mem_nil _⟩
  · have hback : StatedBack organizesCore [subfolder, folder 1 []] (.numeric 1 1)
        ⟨StandardId.organizes, true, .numeric 2 1⟩ :=
      ⟨subfolder, ⟨subfolder, List.mem_cons_self, Or.inl rfl⟩, rfl, by decide⟩
    have hne : NodeId.numeric 2 1 ≠ .null := by decide
    obtain ⟨htrue, -⟩ := (hfinds _ hupper _ _ _ hne).mp hfound _ (Or.inr hback)
      ⟨rfl, rfl⟩ (of_decide_eq_true hnode)
    cases htrue

/-- **An edge stated at both ends.** It is listed twice, and the search for its
target finds none of the two. -/
theorem edge_at_both_ends :
    ∃ service, empty.addAll organizesCore edgeLess [subfolder, superfolder] = some service ∧
      service.getReferences organizesCore (.numeric 1 1) StandardId.hierarchicalReferences true =
        List.replicate 2 { referenceType := .null, target := .numeric 2 1, forward := true } ∧
      ¬ ListsOnce organizesCore (KnownSubtype organizesCore) [subfolder, superfolder] service
        (.numeric 1 1) StandardId.hierarchicalReferences true ∧
      ¬ FindsReference organizesCore service (.numeric 1 1) StandardId.hierarchicalReferences true
        (.numeric 2 1) := by
  have hids : DistinctIds organizesCore [subfolder, superfolder] := by
    unfold DistinctIds
    decide
  have hlisted : ((empty.addAll organizesCore edgeLess [subfolder, superfolder]).any
      fun service => decide (service.getReferences organizesCore (.numeric 1 1)
          StandardId.hierarchicalReferences true =
        List.replicate 2 { referenceType := .null, target := .numeric 2 1, forward := true })) =
      true := by
    decide +kernel
  obtain ⟨service, hadd, hlist⟩ := (Option.any_eq_true _ _).mp hlisted
  rw [decide_eq_true_eq] at hlist
  refine ⟨service, hadd, hlist, ?_, ?_⟩
  · obtain ⟨_, rfl⟩ := addAll_eq_some.mp hadd
    have hupper : superfolder ∈ allStates organizesCore [subfolder, superfolder] :=
      ⟨superfolder, List.mem_cons_of_mem _ (List.mem_singleton_self _), Or.inl rfl⟩
    intro honce
    obtain ⟨_, hback⟩ := (listsOnce_iff hids (standardTypes_knownSubtype _ _) hupper
      StandardId.hierarchicalReferences true).mp honce
    refine hback ⟨StandardId.organizes, true, .numeric 2 1⟩ (by decide) ?_
    exact ⟨subfolder, ⟨subfolder, List.mem_cons_self, Or.inl rfl⟩, rfl, by decide⟩
  · unfold FindsReference
    rw [getReference_iff convertsBool_organizesCore (by decide), hlist]
    decide

end ScadaCommon.Static
