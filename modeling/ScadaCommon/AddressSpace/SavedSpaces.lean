import ScadaCommon.AddressSpace.FileOrder
import ScadaCommon.AddressSpace.MakeNodeState

/-!
# Saving a space and loading it again

`SaveAddressSpaceXml` writes the states of the nodes of a space, and they are applied to a
standard space that has some of the nodes already. A node that is there already is passed
over, with its parent and its type definition. So a reference comes back if it is one of
those, or is described, or is between types, or leads to a new node from its parent.

§1 what is saved · §2 what comes back · §3 the states that are saved · §4 the nodes · §5 the
references · §6 loading · §7 a space that comes back.
-/

namespace ScadaCommon.AddressSpace

open Foundation Relation

variable {V : Type}

/-! ## §1  What is saved -/

/-- What can be read of a node: an id or a name stands for a name that is missing, and what
the class of the node does not have is not there. -/
def NodeView.shown [Inhabited V] (factory : GenericNodeFactory) (id : NodeId) (view : NodeView V) :
    NodeView V :=
  let browseName :=
    if view.browseName.name = "" then { name := factory.nodeIdToScadaString id }
    else view.browseName
  let hasValue := view.nodeClass = .variable ∨ view.nodeClass = .variableType
  { nodeClass := view.nodeClass
    browseName
    displayName := if view.displayName = "" then browseName.name else view.displayName
    inverseName := if view.nodeClass = .referenceType then view.inverseName else ""
    dataType := if hasValue then view.dataType else none
    value := if hasValue then view.value else default }

namespace GenericNodeFactory

variable (factory : GenericNodeFactory)

/-- The state of an entry of the node map. -/
def savedState (spaces : Spaces V) (id : NodeId) : Option (NodeState V) := do
  let ptr ← spaces.nodeMap (factory.space, id)
  factory.makeNodeState spaces.heap ptr

/-- The states that `SaveAddressSpaceXml` writes, where `ids` are those of the node map in the
order of their texts. -/
def savedStates (spaces : Spaces V) (ids : List NodeId) : Option (List (NodeState V)) :=
  ids.mapM (factory.savedState spaces)

/-! ## §2  What comes back -/

variable (base spaces : Spaces V)

/-- The reference is told by a state that is applied. -/
def IsSaved (triple : Triple) : Prop :=
  IsDescribed spaces triple ∨
  (triple.typeId = StandardId.hasSubtype ∧ IsType (factory.nodeView spaces) triple.targetId) ∨
  (factory.nodeView base triple.targetId = none ∧ IsParentReference spaces triple) ∨
  (factory.nodeView base triple.sourceId = none ∧
    triple.typeId = StandardId.hasTypeDefinition ∧ triple.sourceId ≠ triple.targetId)

/-- A new node passes the checks of the factory. -/
structure IsCreatable (id : NodeId) (view : NodeView V) : Prop where
  noView : view.nodeClass ≠ .view
  objectType : view.nodeClass = .object →
    ∃ typeId, ⟨StandardId.hasTypeDefinition, id, typeId⟩ ∈ factory.triples spaces ∧
      IsOf (factory.nodeView spaces) .objectType typeId
  variableType : view.nodeClass = .variable →
    ∃ typeId, ⟨StandardId.hasTypeDefinition, id, typeId⟩ ∈ factory.triples spaces ∧
      IsOf (factory.nodeView spaces) .variableType typeId
  dataType : view.nodeClass = .variable ∨ view.nodeClass = .variableType →
    ∃ typeId, view.dataType = some typeId ∧ IsOf (factory.nodeView spaces) .dataType typeId
  parent : id ≠ StandardId.rootFolder → view.nodeClass.isTypeDefinition = false →
    ∃ typeId parentId, IsParentReference spaces ⟨typeId, parentId, id⟩

/-- The space has all that the other one has, its references are of reference types and lead
to types where they must, and its other nodes could have been created. -/
structure Extending : Prop where
  nodes : ∀ id view, factory.nodeView base id = some view → factory.nodeView spaces id = some view
  references : factory.triples base ⊆ factory.triples spaces
  referenceTypes : ∀ triple ∈ factory.triples spaces,
    IsOf (factory.nodeView spaces) .referenceType triple.typeId
  definitions : ∀ sourceId targetId,
    ⟨StandardId.hasTypeDefinition, sourceId, targetId⟩ ∈ factory.triples spaces →
      IsType (factory.nodeView spaces) targetId
  supertypes : ∀ sourceId targetId,
    ⟨StandardId.hasSubtype, sourceId, targetId⟩ ∈ factory.triples spaces →
      IsType (factory.nodeView spaces) targetId → IsType (factory.nodeView spaces) sourceId
  created : ∀ id view, factory.nodeView spaces id = some view → factory.nodeView base id = none →
    factory.IsCreatable spaces id view

/-- The node has the other one as its type definition, its supertype, its parent or its data
type, or as the type of the reference to one of these. -/
def Needs (id other : NodeId) : Prop :=
  (∃ triple ∈ factory.triples spaces, triple.typeId = StandardId.hasTypeDefinition ∧
    triple.sourceId = id ∧ (other = triple.typeId ∨ other = triple.targetId)) ∨
  (∃ triple ∈ factory.triples spaces,
    (triple.typeId = StandardId.hasSubtype ∨ IsParentReference spaces triple) ∧
    triple.targetId = id ∧ (other = triple.typeId ∨ other = triple.sourceId)) ∨
  ∃ view, factory.nodeView spaces id = some view ∧
    (view.nodeClass = .variable ∨ view.nodeClass = .variableType) ∧ view.dataType = some other

/-- The node is not there before the states are applied. -/
def IsNew (id : NodeId) : Prop :=
  factory.nodeView spaces id ≠ none ∧ factory.nodeView base id = none

/-- The order of the states makes no difference. -/
structure Orderly : Prop where
  needs : ∀ id other, factory.IsNew base spaces id → factory.IsNew base spaces other →
    other ≠ id → factory.Needs spaces id other → ¬ ReflTransGen (factory.Needs spaces) other id
  /-- The types of new nodes have no properties that would be created. -/
  plain : factory.createProperties = true → ∀ id typeId, factory.IsNew base spaces id →
    ⟨StandardId.hasTypeDefinition, id, typeId⟩ ∈ factory.triples spaces →
      ∀ triple ∈ factory.triples spaces,
        ReflTransGen (Above (factory.triples spaces)) typeId triple.sourceId →
          ¬ ReflTransGen (Above (factory.triples spaces)) triple.typeId StandardId.hasProperty
  /-- No two references between the same nodes are of a type and of a subtype of it. -/
  apart : ∀ triple ∈ factory.triples spaces, ∀ typeId,
    ⟨typeId, triple.sourceId, triple.targetId⟩ ∈ factory.triples spaces →
      ReflTransGen (Above (factory.triples spaces)) typeId triple.typeId → typeId = triple.typeId
  acyclic : ∀ id, ¬ TransGen (Above (factory.triples spaces)) id id

/-- What there is once the states have been applied. -/
def restoredView [Inhabited V] (id : NodeId) : Option (NodeView V) :=
  (factory.nodeView base id).or ((factory.nodeView spaces id).map (NodeView.shown factory id))

end GenericNodeFactory

/-! ## §3  The states that are saved -/

/-- The state says of its node what can be read of it. -/
structure NodeState.Shows [Inhabited V] (factory : GenericNodeFactory) (view : NodeView V)
    (state : NodeState V) : Prop where
  nodeClass : state.nodeClass = view.nodeClass
  browseName : state.attributes.browseName = (view.shown factory state.nodeId).browseName
  displayName : state.attributes.displayName = (view.shown factory state.nodeId).displayName
  inverseName : state.attributes.inverseName = (view.shown factory state.nodeId).inverseName
  dataType : view.nodeClass = .variable ∨ view.nodeClass = .variableType →
    view.dataType = some state.attributes.dataType
  noDataType : ¬ (view.nodeClass = .variable ∨ view.nodeClass = .variableType) →
    state.attributes.dataType = .null
  value : state.attributes.value =
    if view.nodeClass = .variable ∨ view.nodeClass = .variableType then some view.value else none

namespace GenericNodeFactory

/-- The states are one for each node, and say what there is. -/
structure Snapshot [Inhabited V] (factory : GenericNodeFactory) (spaces : Spaces V)
    (states : List (NodeState V)) : Prop where
  distinct : (states.map NodeState.nodeId).Nodup
  every : ∀ id, factory.nodeView spaces id ≠ none → ∃ state ∈ states, state.nodeId = id
  shows : ∀ state ∈ states, ∃ view, factory.nodeView spaces state.nodeId = some view ∧
    state.Shows factory view
  tells : ∀ state ∈ states, factory.Tells spaces state
  children : ∀ state ∈ states, state.children = []

/-- The states are those of a sound space that has all that the other one has. -/
structure Saved [Inhabited V] (factory : GenericNodeFactory) (base spaces : Spaces V)
    (edges : Set Edge) (states : List (NodeState V)) : Prop
    extends factory.Snapshot spaces states where
  sound : Sound factory spaces edges
  indexed : factory.Indexed spaces
  extending : factory.Extending base spaces

section

variable [Inhabited V] {factory : GenericNodeFactory} {base spaces : Spaces V} {edges : Set Edge}
  {states : List (NodeState V)} {state : NodeState V} {ids : List NodeId}

theorem shows_of_reads {ptr : NodePtr} {node : Node (NodeData V)}
    (h : factory.Reads spaces.heap ptr node state) :
    state.Shows factory (spaces.heap.dataView node.nodeClass node.attributes) := by
  have hdataType := h.dataType
  unfold getDataTypeId at hdataType
  constructor
  case nodeClass => exact h.nodeClass
  case browseName =>
    rw [h.browseName, h.nodeId]
    rfl
  case displayName =>
    rw [h.displayName, h.nodeId]
    unfold shownDisplayName shownBrowseName NodeView.shown NodeHeap.dataView
    rfl
  case inverseName => exact h.inverseName
  case dataType =>
    intro hclass
    have hclass : node.nodeClass = .variable ∨ node.nodeClass = .variableType := hclass
    rw [if_pos hclass] at hdataType
    exact hdataType
  case noDataType =>
    intro hclass
    have hclass : ¬ (node.nodeClass = .variable ∨ node.nodeClass = .variableType) := hclass
    rw [if_neg hclass] at hdataType
    exact (Option.some.inj hdataType).symm
  case value => exact h.value

/-- **What is saved is a snapshot.** -/
theorem snapshot_of_savedStates (hsound : Sound factory spaces edges)
    (hindexed : factory.Indexed spaces) (hparents : factory.parents = []) (hnodup : ids.Nodup)
    (hids : ∀ id, id ∈ ids ↔ (spaces.nodeMap (factory.space, id)).isSome = true)
    (hsaved : factory.savedStates spaces ids = some states) : factory.Snapshot spaces states := by
  have hgetNode : ∀ id, factory.getNode spaces id = spaces.nodeMap (factory.space, id) := by
    intro id
    simp [getNode, AddressSpaces.getNode, hparents]
  have hmade : ∀ id state, factory.savedState spaces id = some state → ∃ ptr node,
      factory.getNode spaces id = some ptr ∧ spaces.heap.nodes ptr = some node ∧ node.id = id ∧
        factory.makeNodeState spaces.heap ptr = some state := by
    intro id state hstate
    obtain ⟨ptr, hptr, hmake⟩ := Option.bind_eq_some_iff.mp hstate
    obtain ⟨node, hnode, hid⟩ := Option.map_eq_some_iff.mp (hsound.wellFormed.mapped _ ptr hptr)
    exact ⟨ptr, node, (hgetNode id).trans hptr, hnode, hid, hmake⟩
  have hread : ∀ ptr node state, spaces.heap.nodes ptr = some node →
      factory.makeNodeState spaces.heap ptr = some state →
        factory.Reads spaces.heap ptr node state := fun ptr node state hnode hmake =>
    reads_of_makeNodeState hnode (hsound.named ptr node hnode) hmake
  have hback : states.map NodeState.nodeId = ids := by
    refine map_of_mapM (fun id state hstate => ?_) hsaved
    obtain ⟨ptr, node, -, hnode, rfl, hmake⟩ := hmade id state hstate
    exact (hread ptr node state hnode hmake).nodeId
  constructor
  case distinct => rwa [hback]
  case every =>
    intro id hid
    obtain ⟨ptr, hptr⟩ := (getNode_isSome hsound).mpr hid
    have hmem : id ∈ states.map NodeState.nodeId := by
      rw [hback, hids, ← hgetNode, hptr]
      rfl
    exact List.mem_map.mp hmem
  all_goals
    intro state hstate
    obtain ⟨id, -, hstate⟩ := (mem_of_mapM hsaved).mp hstate
    obtain ⟨ptr, node, hptr, hnode, rfl, hmake⟩ := hmade id state hstate
    have hreads := hread ptr node state hnode hmake
  case shows =>
    refine ⟨_, ?_, shows_of_reads hreads⟩
    rw [hreads.nodeId, nodeView, hptr]
    simp [hnode]
  case tells => exact hsound.tells hindexed hnode hmake
  case children => exact hreads.children

/-! ## §4  The nodes -/

theorem restoredView_nodeClass (h : factory.Extending base spaces) (id : NodeId) :
    (factory.restoredView base spaces id).map NodeView.nodeClass =
      (factory.nodeView spaces id).map NodeView.nodeClass := by
  unfold restoredView
  cases hbase : factory.nodeView base id with
  | some view => rw [h.nodes id view hbase, Option.some_or]
  | none =>
      rw [Option.none_or, Option.map_map]
      rfl

theorem isOf_restoredView (h : factory.Extending base spaces) {nodeClass : NodeClass}
    {id : NodeId} : IsOf (factory.restoredView base spaces) nodeClass id ↔
      IsOf (factory.nodeView spaces) nodeClass id := by
  rw [IsOf, IsOf, restoredView_nodeClass h]

omit [Inhabited V] in
theorem isType_iff_of_nodeClass {nodes nodes' : NodeId → Option (NodeView V)} {id : NodeId}
    (h : (nodes id).map NodeView.nodeClass = (nodes' id).map NodeView.nodeClass) :
    IsType nodes id ↔ IsType nodes' id := by
  have hany : ∀ found : Option (NodeView V),
      found.any (·.nodeClass.isTypeDefinition) =
        (found.map NodeView.nodeClass).any NodeClass.isTypeDefinition := by
    intro found
    cases found <;> rfl
  rw [IsType, IsType, hany, hany, h]

theorem isType_restoredView (h : factory.Extending base spaces) {id : NodeId} :
    IsType (factory.restoredView base spaces) id ↔ IsType (factory.nodeView spaces) id :=
  isType_iff_of_nodeClass (restoredView_nodeClass h id)

theorem restoredView_eq_none (h : factory.Extending base spaces) {id : NodeId} :
    factory.restoredView base spaces id = none ↔ factory.nodeView spaces id = none := by
  rw [← Option.map_eq_none_iff (f := NodeView.nodeClass), restoredView_nodeClass h,
    Option.map_eq_none_iff]

omit [Inhabited V] in
/-- A node of another class is another node. -/
theorem isOf_without {nodes : NodeId → Option (NodeView V)} {nodeClass nodeClass' : NodeClass}
    {id other : NodeId} (hid : IsOf nodes nodeClass' id) (hne : nodeClass ≠ nodeClass')
    (h : IsOf nodes nodeClass other) : IsOf (without nodes id) nodeClass other := by
  have hother : other ≠ id := by
    rintro rfl
    exact hne (Option.some.inj (h.symm.trans hid))
  rwa [IsOf, without, Function.update_of_ne hother]

omit [Inhabited V] in
theorem ne_null_of_isOf (hsound : Sound factory spaces edges) {nodeClass : NodeClass} {id : NodeId}
    (h : IsOf (factory.nodeView spaces) nodeClass id) : id ≠ .null := by
  rintro rfl
  rw [IsOf, hsound.nodeView_eq_none.mpr hsound.getNode_null] at h
  cases h

/-- The checks of the data type and of the type definition are passed. -/
theorem dataTypeIn_of_creatable (hsound : Sound factory spaces edges)
    (hext : factory.Extending base spaces) {view : NodeView V}
    (hview : factory.nodeView spaces state.nodeId = some view)
    (hcreatable : factory.IsCreatable spaces state.nodeId view)
    (hshows : state.Shows factory view) (htells : factory.Tells spaces state) :
    state.dataTypeIn (without (factory.restoredView base spaces) state.nodeId) =
      .ok (view.shown factory state.nodeId).dataType := by
  have hself : IsOf (factory.restoredView base spaces) view.nodeClass state.nodeId := by
    rw [isOf_restoredView hext, IsOf, hview, Option.map_some]
  have hother : ∀ {nodeClass : NodeClass} {id : NodeId}, nodeClass ≠ view.nodeClass →
      IsOf (factory.nodeView spaces) nodeClass id →
        IsOf (without (factory.restoredView base spaces) state.nodeId) nodeClass id :=
    fun hne hisOf => isOf_without hself hne ((isOf_restoredView hext).mpr hisOf)
  have hdefinition : ∀ {nodeClass : NodeClass}, nodeClass ≠ view.nodeClass →
      (∃ typeId, ⟨StandardId.hasTypeDefinition, state.nodeId, typeId⟩ ∈ factory.triples spaces ∧
        IsOf (factory.nodeView spaces) nodeClass typeId) →
      IsOf (without (factory.restoredView base spaces) state.nodeId) nodeClass
        state.typeDefinitionId := by
    rintro nodeClass hne ⟨typeId, hmem, hisOf⟩
    rw [(htells.definition typeId (ne_null_of_isOf hsound hisOf)).mpr hmem]
    exact hother hne hisOf
  have hdataType : view.nodeClass = .variable ∨ view.nodeClass = .variableType →
      state.attributes.dataType ≠ .null ∧
        IsOf (without (factory.restoredView base spaces) state.nodeId) .dataType
          state.attributes.dataType := by
    intro hclass
    obtain ⟨typeId, htype, hisOf⟩ := hcreatable.dataType hclass
    obtain rfl : typeId = state.attributes.dataType :=
      Option.some.inj (htype.symm.trans (hshows.dataType hclass))
    refine ⟨ne_null_of_isOf hsound hisOf, hother ?_ hisOf⟩
    rcases hclass with hclass | hclass <;> rw [hclass] <;> decide
  unfold NodeState.dataTypeIn NodeView.shown
  rw [hshows.nodeClass]
  cases hclass : view.nodeClass with
  | object =>
      have hisOf := hdefinition (by rw [hclass]; decide) (hcreatable.objectType hclass)
      simp [hisOf]
  | «variable» =>
      have hisOf := hdefinition (by rw [hclass]; decide) (hcreatable.variableType hclass)
      obtain ⟨hnull, hisData⟩ := hdataType (Or.inl hclass)
      simp [hisOf, hnull, hisData, hshows.dataType (Or.inl hclass)]
  | variableType =>
      obtain ⟨hnull, hisData⟩ := hdataType (Or.inr hclass)
      simp [hisData, hshows.dataType (Or.inr hclass)]
  | view => exact absurd hclass hcreatable.noView
  | objectType => simp
  | referenceType => simp
  | dataType => simp
  | method => simp

theorem valueOf_of_shows {view : NodeView V} (h : state.Shows factory view) :
    valueOf state = .ok (view.shown factory state.nodeId).value := by
  unfold valueOf NodeView.shown
  rw [h.value, h.nodeClass]
  by_cases hclass : view.nodeClass = .variable ∨ view.nodeClass = .variableType
  · simp [hclass]
  · simp [hclass]

/-- A new node is created as it is seen. -/
theorem validateView_of_creatable (hsound : Sound factory spaces edges)
    (hext : factory.Extending base spaces) {view : NodeView V}
    (hview : factory.nodeView spaces state.nodeId = some view)
    (hcreatable : factory.IsCreatable spaces state.nodeId view)
    (hshows : state.Shows factory view) (htells : factory.Tells spaces state) :
    validateView (without (factory.restoredView base spaces) state.nodeId) state =
      .ok (view.shown factory state.nodeId) := by
  have hparent : state.NeedsParent → state.parentId ≠ .null := by
    rintro ⟨hroot, hclass⟩ hnull
    rw [hshows.nodeClass] at hclass
    obtain ⟨typeId, parentId, hparent⟩ := hcreatable.parent hroot hclass
    have hparentId : parentId ≠ .null := by
      rintro rfl
      obtain ⟨ptr, node, ref, -, -, -, -, hsource⟩ := hparent
      obtain ⟨source, hnode, hid⟩ := Option.map_eq_some_iff.mp hsource
      exact hsound.named ref.node source hnode hid
    exact hparentId (((htells.parent typeId parentId hparentId).mpr hparent).2.symm.trans hnull)
  have hself : without (factory.restoredView base spaces) state.nodeId state.nodeId = none :=
    Function.update_self _ _ _
  unfold validateView
  rw [if_neg htells.notNull, if_neg fun h => hparent h.1 h.2,
    if_neg fun h => hparent h.1 (htells.parentNull.mpr h.2), hself, Option.isSome_none,
    if_neg Bool.false_ne_true, dataTypeIn_of_creatable hsound hext hview hcreatable hshows htells,
    valueOf_of_shows hshows, hshows.nodeClass, hshows.browseName, hshows.displayName,
    hshows.inverseName]
  unfold NodeView.shown
  by_cases hclass : view.nodeClass = .referenceType
  · simp [hclass]
    rfl
  · simp [hclass]
    rfl

omit [Inhabited V] in
/-- What a state names as its type definition, and its parent. -/
theorem namedSlots_subset (hsound : Sound factory spaces edges) (hindexed : factory.Indexed spaces)
    (htells : factory.Tells spaces state) : state.namedSlots ⊆ factory.triples spaces := by
  rintro triple (⟨rfl, hnull⟩ | ⟨rfl, hnull⟩)
  · exact (htells.definition _ hnull).mp rfl
  · exact (hsound.mem_of_isParentReference hindexed ((htells.parent _ _ hnull).mp ⟨rfl, rfl⟩)).1

theorem parentIn_of_tells (hsound : Sound factory spaces edges)
    (hindexed : factory.Indexed spaces) (hext : factory.Extending base spaces) {view : NodeView V}
    (hview : factory.nodeView spaces state.nodeId = some view) (hshows : state.Shows factory view)
    (htells : factory.Tells spaces state) (hnull : state.parentId ≠ .null) :
    ParentIn (factory.restoredView base spaces) state := by
  have hmem := namedSlots_subset hsound hindexed htells (Or.inr ⟨rfl, hnull⟩)
  have hisType : IsType (factory.nodeView spaces) state.nodeId ↔
      state.nodeClass.isTypeDefinition = true := by
    rw [IsType, hview, hshows.nodeClass]
    rfl
  constructor
  case known =>
    rw [Ne, restoredView_eq_none hext, ← Ne, ← getNode_isSome hsound]
    obtain ⟨edge, -, -, hsource, -⟩ := (hsound.mem_triples hindexed).mp hmem
    exact ⟨edge.source, hindexed _ _ hsource⟩
  case referenceType => exact (isOf_restoredView hext).mpr (hext.referenceTypes _ hmem)
  case definition =>
    intro htype
    rw [htype] at hmem
    exact hisType.mp (hext.definitions _ _ hmem)
  case supertype =>
    intro htype hclass
    rw [htype] at hmem
    exact (isType_restoredView hext).mpr (hext.supertypes _ _ hmem (hisType.mpr hclass))

/-- **The nodes are created as they are seen.** -/
theorem Saved.creates (h : Saved factory base spaces edges states) :
    Creates factory base states (factory.restoredView base spaces) := by
  have hfound : ∀ state ∈ states, Fresh factory base state →
      ∃ view, factory.nodeView spaces state.nodeId = some view ∧ state.Shows factory view ∧
        factory.Tells spaces state ∧
          factory.restoredView base spaces state.nodeId =
            some (view.shown factory state.nodeId) := by
    intro state hstate hfresh
    obtain ⟨view, hview, hshows⟩ := h.shows state hstate
    refine ⟨view, hview, hshows, h.tells state hstate, ?_⟩
    rw [restoredView, hview, show factory.nodeView base state.nodeId = none from hfresh]
    rfl
  constructor
  case null =>
    exact (restoredView_eq_none h.extending).mpr (h.sound.nodeView_eq_none.mpr h.sound.getNode_null)
  case keeps =>
    intro id view hview
    rw [restoredView, hview, Option.some_or]
  case only =>
    intro id hid
    exact Or.inr (h.every id (mt (restoredView_eq_none h.extending).mpr hid))
  case checked =>
    intro state hstate hfresh
    obtain ⟨view, hview, hshows, htells, hrestored⟩ := hfound state hstate hfresh
    exact ⟨_, hrestored, validateView_of_creatable h.sound h.extending hview
      (h.extending.created _ view hview hfresh) hshows htells⟩
  case parent =>
    intro state hstate hfresh
    obtain ⟨view, hview, hshows, htells, -⟩ := hfound state hstate hfresh
    by_cases hnull : state.parentId = .null
    · exact Or.inl hnull
    · exact Or.inr (parentIn_of_tells h.sound h.indexed h.extending hview hshows htells hnull)

/-! ## §5  The references -/

/-- The references that the states are linked by. -/
def linked (states : List (NodeState V)) : Set Triple :=
  {triple | ∃ link ∈ states.flatMap NodeState.links, link.triple = triple}

omit [Inhabited V] in
theorem mem_linked {triple : Triple} : triple ∈ linked states ↔ ∃ state ∈ states,
    (state.supertypeId ≠ .null ∧
      triple = ⟨StandardId.hasSubtype, state.supertypeId, state.nodeId⟩) ∨
    ∃ reference ∈ state.references, triple =
      if reference.forward then ⟨reference.referenceTypeId, state.nodeId, reference.nodeId⟩
      else ⟨reference.referenceTypeId, reference.nodeId, state.nodeId⟩ := by
  unfold linked NodeState.links
  simp only [Set.mem_ofPred_eq, List.mem_flatMap, List.mem_append, List.mem_map]
  constructor
  · rintro ⟨link, ⟨state, hstate, hlink | ⟨reference, href, rfl⟩⟩, rfl⟩
    · split at hlink
      · rename_i hnull
        rw [List.mem_singleton.mp hlink]
        exact ⟨state, hstate, Or.inl ⟨hnull, rfl⟩⟩
      · cases hlink
    · refine ⟨state, hstate, Or.inr ⟨reference, href, ?_⟩⟩
      cases reference.forward <;> simp [Link.triple]
  · rintro ⟨state, hstate, ⟨hnull, rfl⟩ | ⟨reference, href, rfl⟩⟩
    · have hlink : ∀ link : Link, link ∈ if state.supertypeId ≠ .null then [link] else [] := by
        intro link
        rw [if_pos hnull]
        exact List.mem_singleton_self link
      exact ⟨_, ⟨state, hstate, Or.inl (hlink _)⟩, rfl⟩
    · refine ⟨_, ⟨state, hstate, Or.inr ⟨reference, href, rfl⟩⟩, ?_⟩
      cases reference.forward <;> simp [Link.triple]

/-- What is created is named by the states of new nodes. -/
theorem createdSlots_named (h : Saved factory base spaces edges states) :
    createdSlots factory base states (factory.restoredView base spaces) ⊆
      factory.askedSlots base states := by
  rintro triple ⟨state, hstate, hfresh, hslot⟩
  have hnull : without (factory.restoredView base spaces) state.nodeId .null = none := by
    rw [without, Function.update_of_ne (h.tells state hstate).notNull.symm]
    exact (restoredView_eq_none h.extending).mpr (h.sound.nodeView_eq_none.mpr h.sound.getNode_null)
  exact Or.inr ⟨state, hstate, hfresh, slots_subset hnull state hslot⟩

theorem askedSlots_subset (h : Saved factory base spaces edges states) :
    factory.askedSlots base states ⊆ factory.triples spaces := by
  rintro triple (hbase | ⟨state, hstate, -, hslot⟩)
  · exact h.extending.references hbase
  · exact namedSlots_subset h.sound h.indexed (h.tells state hstate) hslot

theorem createdSlots_subset (h : Saved factory base spaces edges states) :
    createdSlots factory base states (factory.restoredView base spaces) ⊆
      factory.triples spaces :=
  (createdSlots_named h).trans (askedSlots_subset h)

theorem linked_subset (h : factory.Snapshot spaces states) :
    linked states ⊆ factory.triples spaces := by
  intro triple hmem
  obtain ⟨state, hstate, ⟨hnull, rfl⟩ | ⟨reference, href, rfl⟩⟩ := mem_linked.mp hmem
  · exact (((h.tells state hstate).supertype _ hnull).mp rfl).2
  · obtain ⟨hforward, hmem, -⟩ := ((h.tells state hstate).references reference).mp href
    rw [if_pos hforward]
    exact hmem

omit [Inhabited V] in
/-- The ends of a reference are nodes. -/
theorem ends_of_mem (hsound : Sound factory spaces edges) (hindexed : factory.Indexed spaces)
    {triple : Triple} (hmem : triple ∈ factory.triples spaces) :
    (triple.sourceId ≠ .null ∧ factory.nodeView spaces triple.sourceId ≠ none) ∧
      triple.targetId ≠ .null ∧ factory.nodeView spaces triple.targetId ≠ none := by
  have hend : ∀ {ptr : NodePtr} {id : NodeId}, spaces.heap.idOf ptr = some id →
      id ≠ .null ∧ factory.nodeView spaces id ≠ none := by
    intro ptr id hid
    refine ⟨?_, (getNode_isSome hsound).mp ⟨ptr, hindexed ptr id hid⟩⟩
    obtain ⟨node, hnode, rfl⟩ := Option.map_eq_some_iff.mp hid
    exact hsound.named ptr node hnode
  obtain ⟨edge, -, -, hsource, htarget⟩ := (hsound.mem_triples hindexed).mp hmem
  exact ⟨hend hsource, hend htarget⟩

/-- A reference that is saved is told by the state of one of its ends. -/
theorem mem_of_isSaved (h : Saved factory base spaces edges states) {triple : Triple}
    (hmem : triple ∈ factory.triples spaces) (hsaved : factory.IsSaved base spaces triple) :
    triple ∈ createdSlots factory base states (factory.restoredView base spaces) ∪
      linked states := by
  obtain ⟨typeId, sourceId, targetId⟩ := triple
  obtain ⟨⟨hsourceNull, hsource⟩, htargetNull, htarget⟩ := ends_of_mem h.sound h.indexed hmem
  obtain ⟨sourceState, hsourceState, rfl⟩ := h.every _ hsource
  obtain ⟨targetState, htargetState, rfl⟩ := h.every _ htarget
  have htellsSource := h.tells sourceState hsourceState
  have htellsTarget := h.tells targetState htargetState
  rcases hsaved with hdescribed | ⟨rfl, hisType⟩ | ⟨hnew, hparent⟩ | ⟨hnew, rfl, hne⟩
  · refine Or.inr (mem_linked.mpr ⟨sourceState, hsourceState, Or.inr ?_⟩)
    exact ⟨⟨typeId, true, targetState.nodeId⟩,
      (htellsSource.references _).mpr ⟨rfl, hmem, hdescribed⟩, rfl⟩
  · obtain ⟨view, hview, hshows⟩ := h.shows targetState htargetState
    rw [IsType, hview, Option.any_some, ← hshows.nodeClass] at hisType
    have hsupertype := (htellsTarget.supertype _ hsourceNull).mpr ⟨hisType, hmem⟩
    refine Or.inr (mem_linked.mpr ⟨targetState, htargetState, Or.inl ⟨?_, ?_⟩⟩)
    · rwa [hsupertype]
    · rw [hsupertype]
  · obtain ⟨rfl, hparentId⟩ := (htellsTarget.parent _ _ hsourceNull).mpr hparent
    refine Or.inl ⟨targetState, htargetState, hnew, Or.inr ⟨?_, ?_⟩⟩
    · rw [hparentId]
    · rwa [hparentId]
  · have hdefinition := (htellsSource.definition _ htargetNull).mpr hmem
    refine Or.inl ⟨sourceState, hsourceState, hnew, Or.inl ⟨?_, ?_⟩⟩
    · rw [hdefinition]
    · rw [hdefinition, IsType, without, Function.update_of_ne hne.symm]
      exact (isType_restoredView h.extending).mpr (h.extending.definitions _ _ hmem)

/-- **Which references come back.** -/
theorem restored_triples (h : Saved factory base spaces edges states) :
    createdSlots factory base states (factory.restoredView base spaces) ∪ linked states =
      {triple ∈ factory.triples spaces | factory.IsSaved base spaces triple} := by
  refine Set.Subset.antisymm ?_ fun triple hboth =>
    mem_of_isSaved h hboth.1 hboth.2
  rintro triple (hcreated | hlinked)
  · refine ⟨createdSlots_subset h hcreated, ?_⟩
    obtain ⟨state, hstate, hfresh, ⟨rfl, hisType⟩ | ⟨rfl, hnull⟩⟩ := hcreated
    · refine Or.inr (Or.inr (Or.inr ⟨hfresh, rfl, ?_⟩))
      intro hself
      have hself : state.nodeId = state.typeDefinitionId := hself
      rw [IsType, without, ← hself, Function.update_self] at hisType
      cases hisType
    · have hparent := ((h.tells state hstate).parent _ _ hnull).mp ⟨rfl, rfl⟩
      exact Or.inr (Or.inr (Or.inl ⟨hfresh, hparent⟩))
  · refine ⟨linked_subset h.toSnapshot hlinked, ?_⟩
    obtain ⟨state, hstate, ⟨hnull, rfl⟩ | ⟨reference, href, rfl⟩⟩ := mem_linked.mp hlinked
    · obtain ⟨hclass, -⟩ := ((h.tells state hstate).supertype _ hnull).mp rfl
      obtain ⟨view, hview, hshows⟩ := h.shows state hstate
      refine Or.inr (Or.inl ⟨rfl, ?_⟩)
      rwa [IsType, hview, Option.any_some, ← hshows.nodeClass]
    · obtain ⟨hforward, -, hdescribed⟩ := ((h.tells state hstate).references reference).mp href
      rw [if_pos hforward]
      exact Or.inl hdescribed

/-! ## §6  Loading -/

omit [Inhabited V] in
theorem Above.mono {triples triples' : Set Triple} (hsubset : triples ⊆ triples') {id id' : NodeId}
    (h : ReflTransGen (Above triples) id id') : ReflTransGen (Above triples') id id' :=
  ReflTransGen.mono (fun _ _ hmem => hsubset hmem) _ _ h

/-- What a state names its node needs. -/
theorem needs_of_mem_neighborIds (h : Saved factory base spaces edges states)
    (hstate : state ∈ states) {other : NodeId} (hother : other ∈ state.neighborIds) :
    factory.Needs spaces state.nodeId other := by
  have htells := h.tells state hstate
  have hsupertype : state.supertypeId ≠ .null →
      ⟨StandardId.hasSubtype, state.supertypeId, state.nodeId⟩ ∈ factory.triples spaces :=
    fun hnull => ((htells.supertype _ hnull).mp rfl).2
  have hdefinition : state.typeDefinitionId ≠ .null →
      ⟨StandardId.hasTypeDefinition, state.nodeId, state.typeDefinitionId⟩ ∈
        factory.triples spaces := fun hnull => (htells.definition _ hnull).mp rfl
  have hparent : state.parentId ≠ .null →
      IsParentReference spaces ⟨state.referenceTypeId, state.parentId, state.nodeId⟩ :=
    fun hnull => (htells.parent _ _ hnull).mp ⟨rfl, rfl⟩
  have hparentMem : state.parentId ≠ .null →
      ⟨state.referenceTypeId, state.parentId, state.nodeId⟩ ∈ factory.triples spaces :=
    fun hnull => (h.sound.mem_of_isParentReference h.indexed (hparent hnull)).1
  cases NodeState.mem_neighborIds_iff.mp hother with
  | hasSubtype hsuper => exact Or.inr (Or.inl ⟨_, hsupertype hsuper, Or.inl rfl, rfl, Or.inl rfl⟩)
  | hasTypeDefinition hdef => exact Or.inl ⟨_, hdefinition hdef, rfl, rfl, Or.inl rfl⟩
  | supertype hnull => exact Or.inr (Or.inl ⟨_, hsupertype hnull, Or.inl rfl, rfl, Or.inr rfl⟩)
  | referenceType hnull =>
      have hparentNull := mt htells.parentNull.mp hnull
      exact Or.inr (Or.inl ⟨_, hparentMem hparentNull, Or.inr (hparent hparentNull), rfl,
        Or.inl rfl⟩)
  | parent hnull =>
      exact Or.inr (Or.inl ⟨_, hparentMem hnull, Or.inr (hparent hnull), rfl, Or.inr rfl⟩)
  | typeDefinition hnull => exact Or.inl ⟨_, hdefinition hnull, rfl, rfl, Or.inr rfl⟩
  | dataType hnull =>
      obtain ⟨view, hview, hshows⟩ := h.shows state hstate
      by_cases hclass : view.nodeClass = .variable ∨ view.nodeClass = .variableType
      · exact Or.inr (Or.inr ⟨view, hview, hclass, hshows.dataType hclass⟩)
      · exact absurd (hshows.noDataType hclass) hnull

theorem asked_subset (h : Saved factory base spaces edges states) :
    factory.asked base states ⊆ factory.triples spaces := by
  rintro triple (hslot | ⟨state, hstate, link, hlink, rfl⟩)
  · exact askedSlots_subset h hslot
  · exact linked_subset h.toSnapshot ⟨link, List.mem_flatMap.mpr ⟨state, hstate, hlink⟩, rfl⟩

/-- Where the order makes no difference in the space, it makes none for its states. -/
theorem Orderly.orderFree (horderly : factory.Orderly base spaces)
    (h : Saved factory base spaces edges states) : OrderFree factory base states := by
  have hslots := askedSlots_subset h
  have hasked := asked_subset h
  have hnew : ∀ state ∈ states, Fresh factory base state →
      factory.IsNew base spaces state.nodeId := by
    intro state hstate hfresh
    obtain ⟨view, hview, -⟩ := h.shows state hstate
    exact ⟨hview ▸ Option.some_ne_none view, hfresh⟩
  constructor
  case namesFirst =>
    rintro state hstate other ⟨hfresh, hother, hotherFresh, hid, hnull, hne⟩ hnames
    have hneeds := needs_of_mem_neighborIds h hstate (mem_neighborIds hid hnull)
    refine horderly.needs _ _ (hnew state hstate hfresh) (hnew other hother hotherFresh) hne
      hneeds (ReflTransGen.mono ?_ _ _ hnames)
    rintro _ _ ⟨naming, hnaming, rfl, hmem, -⟩
    exact needs_of_mem_neighborIds h hnaming hmem
  case plain =>
    intro hcreate state hstate hfresh triple hmem habove
    have habove := Above.mono hslots habove
    have hsource := (ends_of_mem h.sound h.indexed (hslots hmem)).1.1
    have hdefinition : state.typeDefinitionId ≠ .null := by
      intro hnull
      rw [hnull] at habove
      rcases habove.cases_head with heq | ⟨above, hstep, -⟩
      · exact hsource heq.symm
      · exact (ends_of_mem h.sound h.indexed hstep).2.1 rfl
    have hmemDefinition := ((h.tells state hstate).definition _ hdefinition).mp rfl
    exact mt (Above.mono hslots) (horderly.plain hcreate _ _ (hnew state hstate hfresh)
      hmemDefinition triple (hslots hmem) habove)
  case apart =>
    intro state hstate link hlink typeId hmem habove
    have hlink : link.triple ∈ factory.triples spaces :=
      linked_subset h.toSnapshot ⟨link, List.mem_flatMap.mpr ⟨state, hstate, hlink⟩, rfl⟩
    exact horderly.apart _ hlink typeId (hasked hmem) (Above.mono hasked habove)
  case acyclic =>
    intro id hcycle
    exact horderly.acyclic id (TransGen.mono (fun _ _ hmem => hasked hmem) _ _ hcycle)

/-- No parent is looked for among references that all lead away from their nodes. -/
theorem promoteHierarchicalParents_eq (h : factory.Snapshot spaces states) :
    promoteHierarchicalParents states = states := by
  refine (List.map_congr_left fun state hstate => ?_).trans (List.map_id states)
  unfold promoteParent
  split
  · rfl
  · have hnone : state.references.find? (fun reference =>
        !reference.forward && isHierarchical states 64 reference.referenceTypeId) = none := by
      rw [List.find?_eq_none]
      intro reference href
      rw [(((h.tells state hstate).references reference).mp href).1]
      simp
    dsimp only
    rw [hnone]
    rfl

theorem shown_shown (id : NodeId) (view : NodeView V) :
    (view.shown factory id).shown factory id = view.shown factory id := by
  have hbrowse : ((view.shown factory id).shown factory id).browseName =
      (view.shown factory id).browseName := by
    unfold NodeView.shown
    by_cases hname : view.browseName.name = ""
    · simp [hname]
    · simp [hname]
  have hdisplay : ((view.shown factory id).shown factory id).displayName =
      (view.shown factory id).displayName := by
    show (if (view.shown factory id).displayName = "" then
      ((view.shown factory id).shown factory id).browseName.name else _) = _
    rw [hbrowse]
    unfold NodeView.shown
    by_cases hname : view.displayName = ""
    · simp [hname]
    · simp [hname]
  have hinverse : ((view.shown factory id).shown factory id).inverseName =
      (view.shown factory id).inverseName := by
    unfold NodeView.shown
    by_cases hclass : view.nodeClass = .referenceType <;> simp [hclass]
  have hvalue : ((view.shown factory id).shown factory id).dataType =
        (view.shown factory id).dataType ∧
      ((view.shown factory id).shown factory id).value = (view.shown factory id).value := by
    unfold NodeView.shown
    by_cases hclass : view.nodeClass = .variable ∨ view.nodeClass = .variableType <;> simp [hclass]
  exact (NodeView.mk.injEq ..).mpr ⟨rfl, hbrowse, hdisplay, hinverse, hvalue.1, hvalue.2⟩

theorem restoredView_shown (h : factory.Extending base spaces) (id : NodeId) :
    (factory.restoredView base spaces id).map (NodeView.shown factory id) =
      (factory.nodeView spaces id).map (NodeView.shown factory id) := by
  unfold restoredView
  cases hbase : factory.nodeView base id with
  | some view => rw [h.nodes id view hbase, Option.some_or]
  | none =>
      rw [Option.none_or, Option.map_map]
      exact congrArg (Option.map · _) (funext (shown_shown id))

/-- The links of a snapshot go through, in any order. -/
theorem Saved.leadsTo (h : Saved factory base spaces edges states)
    (start : Set Triple) : LeadsTo (factory.restoredView base spaces) start
      (factory.triples spaces) (states.flatMap NodeState.links) := by
  have hmem : ∀ link ∈ states.flatMap NodeState.links, link.triple ∈ factory.triples spaces :=
    fun link hlink => linked_subset h.toSnapshot ⟨link, hlink, rfl⟩
  constructor
  case oneDefinition => exact oneDefinition_triples h.sound h.indexed
  case oneSupertype =>
    intro sourceId sourceId' targetId hisType
    exact oneSupertype_triples h.sound h.indexed sourceId sourceId' targetId
      ((isType_restoredView h.extending).mp hisType)
  case mem => exact hmem
  case source =>
    intro link hlink
    exact mt (restoredView_eq_none h.extending).mp
      (ends_of_mem h.sound h.indexed (hmem link hlink)).1.2
  case fits =>
    intro link hlink
    have hlink := hmem link hlink
    refine Or.inr ⟨(isOf_restoredView h.extending).mpr (h.extending.referenceTypes _ hlink),
      mt (restoredView_eq_none h.extending).mp (ends_of_mem h.sound h.indexed hlink).2.2, ?_, ?_⟩
    · intro htype
      rw [Link.triple, htype] at hlink
      exact (isType_restoredView h.extending).mpr (h.extending.definitions _ _ hlink)
    · intro htype hisType
      rw [Link.triple, htype] at hlink
      exact (isType_restoredView h.extending).mpr
        (h.extending.supertypes _ _ hlink ((isType_restoredView h.extending).mp hisType))

/-- **A space that is saved is loaded again**, with all of its nodes as they can be read, and
with just the references that are saved. -/
theorem saved_space_loads {base spaces : Spaces V} {edges baseEdges : Set Edge}
    (hbase : Sound factory base baseEdges) (hbaseIndexed : factory.Indexed base)
    (hsound : Sound factory spaces edges) (hindexed : factory.Indexed spaces)
    (hparents : factory.parents = []) (hext : factory.Extending base spaces)
    (horderly : factory.Orderly base spaces) {ids : List NodeId} (hnodup : ids.Nodup)
    (hids : ∀ id, id ∈ ids ↔ (spaces.nodeMap (factory.space, id)).isSome = true) (fuel : ℕ) :
    ∃ states loaded, factory.savedStates spaces ids = some states ∧
      factory.applyNodeStates (fuel + 2) states base = some (.good, loaded) ∧
      (∀ id, (factory.nodeView loaded id).map (NodeView.shown factory id) =
        (factory.nodeView spaces id).map (NodeView.shown factory id)) ∧
      factory.triples loaded = factory.triples base ∪
        {triple ∈ factory.triples spaces | factory.IsSaved base spaces triple} := by
  obtain ⟨states, hsaved⟩ : ∃ states, factory.savedStates spaces ids = some states := by
    refine exists_mapM fun id hid => ?_
    obtain ⟨ptr, hptr⟩ := Option.isSome_iff_exists.mp ((hids id).mp hid)
    obtain ⟨node, hnode, -⟩ := Option.map_eq_some_iff.mp (hsound.wellFormed.mapped _ ptr hptr)
    obtain ⟨state, hstate⟩ : ∃ state, factory.makeNodeState spaces.heap ptr = some state :=
      hsound.exists_makeNodeState hnode
    exact ⟨state, Option.bind_eq_some_iff.mpr ⟨ptr, hptr, hstate⟩⟩
  have hsnap := snapshot_of_savedStates hsound hindexed hparents hnodup hids hsaved
  have hsaving : Saved factory base spaces edges states := ⟨hsnap, hsound, hindexed, hext⟩
  have hfree := horderly.orderFree hsaving
  -- The nodes are created in the sorted order.
  obtain ⟨sorted, hsorted, hperm⟩ := sortNodesHierarchically_perm states
  have hordered := hfree.namesFirst.precedes hsnap.distinct hsorted
  have hcreated := createdSlots_subset hsaving
  have hwithin : factory.triples base ∪
      createdSlots factory base states (factory.restoredView base spaces) ⊆
        factory.triples spaces := Set.union_subset hext.references hcreated
  have hone : OneDefinition (factory.triples base ∪
      createdSlots factory base states (factory.restoredView base spaces)) :=
    fun _ _ _ hmem hmem' =>
      oneDefinition_triples hsound hindexed _ _ _ (hwithin hmem) (hwithin hmem')
  obtain ⟨created, hcreate, hcreatedSound, hcreatedIndexed, hnodes, htriples⟩ :=
    run_of_creates hbase hbaseIndexed (hfree.asks hsnap.children)
      hsaving.creates hone hperm hsnap.distinct hordered fuel
  -- Then they are linked.
  have hlinking : Linking factory (factory.asked base states) (factory.restoredView base spaces)
      created := by
    refine ⟨hcreatedSound, hcreatedIndexed, hnodes, ?_⟩
    rw [htriples]
    refine (Set.union_subset (fun _ hmem => Or.inl hmem) ?_).trans Set.subset_union_left
    exact createdSlots_named hsaving
  have hlinks : ∀ link, link ∈ sorted.flatMap NodeState.links ↔
      link ∈ states.flatMap NodeState.links := by
    simp only [List.mem_flatMap, hperm.mem_iff, implies_true]
  obtain ⟨loaded, hlink, hlast, hloaded⟩ := (hsaving.leadsTo _).run
    hfree.linksApart (fun link hlink => (hlinks link).mp hlink) hlinking subset_rfl
      (by rw [htriples]; exact hwithin)
  refine ⟨states, loaded, hsaved, ?_, fun id => ?_, ?_⟩
  · rw [applyNodeStates, promoteHierarchicalParents_eq hsnap, hsorted]
    exact andThen_eq_some.mpr (.inl ⟨created, hcreate, hlink⟩)
  · rw [hlast.nodes]
    exact restoredView_shown hext id
  · rw [hloaded, htriples, ← restored_triples hsaving, Set.union_assoc]
    simp only [hlinks]
    rfl

end

/-! ## §7  A space that comes back -/

theorem mem_ids_of_nodeView {factory : GenericNodeFactory} {nodes : List (Node (NodeData V))}
    {id : NodeId} (h : factory.nodeView (spacesOf nodes) id ≠ none) (hspace : factory.space = 0)
    (hparents : factory.parents = []) : id ∈ nodes.map Node.id := by
  by_contra hnone
  have hnot : nodes.findIdx? (·.id = id) = none := by
    rw [List.findIdx?_eq_none_iff]
    intro node hnode
    apply decide_eq_false
    rintro rfl
    exact hnone (List.mem_map_of_mem hnode)
  have hget : factory.getNode (spacesOf nodes) id = none := by
    rw [getNode, AddressSpaces.getNode, hspace, hparents]
    simp [spacesOf, hnot]
  apply h
  rw [nodeView, hget]
  rfl

theorem mem_ids_iff (nodes : List (Node (NodeData V))) (id : NodeId) :
    id ∈ nodes.map Node.id ↔ ((spacesOf nodes).nodeMap (0, id)).isSome = true := by
  show _ ↔ (if (0 : SpaceId) = 0 then nodes.findIdx? (·.id = id) else none).isSome = true
  rw [if_pos rfl, List.findIdx?_isSome, List.any_eq_true, List.mem_map]
  simp

/-- Two types, an object of the first one at the root, and below it one of the second. The
first type refers to the object below. -/
def plantNodes : List (Node (NodeData ℕ)) := [
  { id := .numeric 1 7, nodeClass := .objectType, attributes := { value := 0 },
    forwardReferences := [⟨2, 9⟩, ⟨3, 11⟩], inverseReferences := [⟨4, 10⟩] },
  { id := .numeric 2 7, nodeClass := .objectType, attributes := { value := 0 },
    inverseReferences := [⟨2, 8⟩, ⟨4, 11⟩], supertype := some 8 },
  { id := StandardId.rootFolder, nodeClass := .object, attributes := { value := 0 },
    forwardReferences := [⟨4, 8⟩, ⟨1, 11⟩], typeDefinition := some 8 },
  { id := .numeric 3 7, nodeClass := .object, attributes := { value := 0 },
    forwardReferences := [⟨4, 9⟩], inverseReferences := [⟨1, 10⟩, ⟨3, 8⟩],
    typeDefinition := some 9 }]

def plantSpaces : Spaces ℕ := spacesOf (baseTypes ++ plantNodes)

theorem sound_plantSpaces :
    Sound rootFactory plantSpaces (edgesOf (baseTypes ++ plantNodes)) := by
  have hcomplete : Complete (baseTypes ++ plantNodes) := by
    constructor
    case mirrored => unfold Mirrored; decide
    all_goals decide
  exact hcomplete.sound ⟨4, by decide⟩ ⟨2, by decide⟩

theorem indexed_plantSpaces : rootFactory.Indexed plantSpaces :=
  indexed_spacesOf rfl (by decide)

theorem mem_plantTriples {triple : Triple} (h : triple ∈ rootFactory.triples plantSpaces) :
    triple ∈ triplesOf (baseTypes ++ plantNodes) :=
  mem_triplesOf sound_plantSpaces indexed_plantSpaces h

theorem mem_plantNodes_of_isNew {id : NodeId}
    (h : rootFactory.IsNew (spacesOf baseTypes) plantSpaces id) : id ∈ plantNodes.map Node.id := by
  have hview : rootFactory.nodeView (spacesOf (baseTypes ++ plantNodes)) id ≠ none := h.1
  have hid : id ∈ (baseTypes ++ plantNodes).map Node.id := mem_ids_of_nodeView hview rfl rfl
  rw [List.map_append, List.mem_append] at hid
  refine hid.resolve_left fun hbase => ?_
  have hthere : ∀ id ∈ baseTypes.map Node.id,
      rootFactory.nodeView (spacesOf baseTypes) id ≠ none := by
    decide
  exact hthere id hbase h.2

theorem isParentReference_plant : IsParentReference plantSpaces
    ⟨StandardId.hierarchicalReferences, StandardId.rootFolder, .numeric 3 7⟩ :=
  ⟨11, _, ⟨1, 10⟩, rfl, rfl, by decide, rfl, rfl⟩

theorem extending_plantSpaces : rootFactory.Extending (spacesOf baseTypes) plantSpaces := by
  constructor
  case nodes =>
    intro id view hview
    have hsame : ∀ id ∈ baseTypes.map Node.id,
        rootFactory.nodeView plantSpaces id = rootFactory.nodeView (spacesOf baseTypes) id := by
      decide
    have hsome : rootFactory.nodeView (spacesOf baseTypes) id ≠ none :=
      ne_of_eq_of_ne hview (Option.some_ne_none view)
    rw [hsame id (mem_ids_of_nodeView hsome rfl rfl), hview]
  case references =>
    intro triple hmem
    have hthere : ∀ triple ∈ triplesOf baseTypes, (triple.typeId, triple.targetId) ∈
        rootFactory.referencesOf plantSpaces triple.sourceId := by
      decide
    exact hthere triple (mem_triplesOf sound_baseTypes indexed_baseTypes hmem)
  case referenceTypes =>
    intro triple hmem
    have htypes : ∀ triple ∈ triplesOf (baseTypes ++ plantNodes),
        IsOf (rootFactory.nodeView plantSpaces) .referenceType triple.typeId := by
      decide
    exact htypes triple (mem_plantTriples hmem)
  case definitions =>
    intro sourceId targetId hmem
    have htypes : ∀ triple ∈ triplesOf (baseTypes ++ plantNodes),
        triple.typeId = StandardId.hasTypeDefinition →
          IsType (rootFactory.nodeView plantSpaces) triple.targetId := by
      unfold IsType
      decide
    exact htypes _ (mem_plantTriples hmem) rfl
  case supertypes =>
    intro sourceId targetId hmem _
    have htypes : ∀ triple ∈ triplesOf (baseTypes ++ plantNodes),
        triple.typeId = StandardId.hasSubtype →
          IsType (rootFactory.nodeView plantSpaces) triple.sourceId := by
      unfold IsType
      decide
    exact htypes _ (mem_plantTriples hmem) rfl
  case created =>
    intro id view hview hnone
    have hnew := mem_plantNodes_of_isNew ⟨hview ▸ Option.some_ne_none view, hnone⟩
    have hclass : ∀ id ∈ plantNodes.map Node.id, ∀ view ∈ rootFactory.nodeView plantSpaces id,
        view.nodeClass = .objectType ∨ view.nodeClass = .object ∧
          (id ≠ StandardId.rootFolder → id = .numeric 3 7) ∧
          ∃ reference ∈ rootFactory.referencesOf plantSpaces id,
            reference.1 = StandardId.hasTypeDefinition ∧
              IsOf (rootFactory.nodeView plantSpaces) .objectType reference.2 := by
      decide
    rcases hclass id hnew view hview with htype | ⟨hobject, hparent, reference, hmem, hfirst, hisOf⟩
    · constructor <;> rw [htype] <;> simp [NodeClass.isTypeDefinition]
    · constructor
      case objectType =>
        intro _
        refine ⟨reference.2, ?_, hisOf⟩
        show (_, _) ∈ rootFactory.referencesOf plantSpaces id
        rwa [← hfirst]
      case parent =>
        intro hroot _
        obtain rfl := hparent hroot
        exact ⟨_, _, isParentReference_plant⟩
      all_goals
        rw [hobject]
        simp

/-- The base comes first, then each node after those that it needs. -/
def plantRank (id : NodeId) : ℕ :=
  ((plantNodes.map Node.id).idxOf id + 1) % 5

theorem plantRank_le_of_needs {id other : NodeId} (h : rootFactory.Needs plantSpaces id other) :
    plantRank other ≤ plantRank id := by
  rcases h with ⟨triple, hmem, htype, rfl, hother⟩ | ⟨triple, hmem, hparent, rfl, hother⟩ |
    ⟨view, hview, -, htype⟩
  · have hrank : ∀ triple ∈ triplesOf (baseTypes ++ plantNodes),
        triple.typeId = StandardId.hasTypeDefinition →
          plantRank triple.typeId ≤ plantRank triple.sourceId ∧
            plantRank triple.targetId ≤ plantRank triple.sourceId := by
      decide
    obtain ⟨htypeId, htarget⟩ := hrank triple (mem_plantTriples hmem) htype
    rcases hother with rfl | rfl
    · exact htypeId
    · exact htarget
  · have hrank : ∀ triple ∈ triplesOf (baseTypes ++ plantNodes),
        triple.typeId ≠ StandardId.hasTypeDefinition →
          plantRank triple.typeId ≤ plantRank triple.targetId ∧
            plantRank triple.sourceId ≤ plantRank triple.targetId := by
      decide
    have hne : triple.typeId ≠ StandardId.hasTypeDefinition := by
      rcases hparent with htype | hparent
      · rw [htype]
        decide
      · intro htype
        obtain ⟨-, type, hid, hbelow⟩ :=
          sound_plantSpaces.mem_of_isParentReference indexed_plantSpaces hparent
        rw [htype] at hid
        have hat : rootFactory.getNode plantSpaces StandardId.hasTypeDefinition = some type :=
          indexed_plantSpaces type _ hid
        obtain rfl : 4 = type := Option.some.inj hat
        exact absurd hbelow (by decide)
    obtain ⟨htypeId, hsource⟩ := hrank triple (mem_plantTriples hmem) hne
    rcases hother with rfl | rfl
    · exact htypeId
    · exact hsource
  · have hrank : ∀ id ∈ (baseTypes ++ plantNodes).map Node.id,
        ∀ view ∈ rootFactory.nodeView plantSpaces id, ∀ other ∈ view.dataType,
          plantRank other ≤ plantRank id := by
      decide
    have hsome : rootFactory.nodeView (spacesOf (baseTypes ++ plantNodes)) id ≠ none :=
      ne_of_eq_of_ne hview (Option.some_ne_none view)
    exact hrank id (mem_ids_of_nodeView hsome rfl rfl) view hview other htype

theorem orderly_plantSpaces : rootFactory.Orderly (spacesOf baseTypes) plantSpaces := by
  constructor
  case needs =>
    intro id other hid hother hne hneeds hback
    have hranks : ∀ {id other : NodeId}, ReflTransGen (rootFactory.Needs plantSpaces) id other →
        plantRank other ≤ plantRank id := by
      intro id other h
      induction h with
      | refl => exact le_refl _
      | tail _ hstep ih => exact (plantRank_le_of_needs hstep).trans ih
    have hinj : ∀ id ∈ plantNodes.map Node.id, ∀ other ∈ plantNodes.map Node.id,
        plantRank other = plantRank id → other = id := by
      decide
    exact hne (hinj id (mem_plantNodes_of_isNew hid) other (mem_plantNodes_of_isNew hother)
      (le_antisymm (plantRank_le_of_needs hneeds) (hranks hback)))
  case plain =>
    intro _ id typeId _ _ triple hmem _ habove
    have hnone : ∀ triple ∈ triplesOf (baseTypes ++ plantNodes),
        triple.typeId ≠ StandardId.hasProperty ∧
          (triple.typeId = StandardId.hasSubtype → triple.sourceId ≠ StandardId.hasProperty) := by
      decide
    rcases habove.cases_tail with heq | ⟨below, -, hstep⟩
    · exact (hnone triple (mem_plantTriples hmem)).1 heq.symm
    · exact (hnone _ (mem_plantTriples hstep)).2 rfl rfl
  case apart =>
    intro triple hmem typeId hmem' _
    have hone : ∀ triple ∈ triplesOf (baseTypes ++ plantNodes),
        ∀ triple' ∈ triplesOf (baseTypes ++ plantNodes), triple'.sourceId = triple.sourceId →
          triple'.targetId = triple.targetId → triple'.typeId = triple.typeId := by
      decide
    exact hone triple (mem_plantTriples hmem) _ (mem_plantTriples hmem') rfl rfl
  case acyclic =>
    let order : List NodeId := (baseTypes ++ plantNodes).map Node.id
    have hrank : ∀ triple ∈ triplesOf (baseTypes ++ plantNodes),
        triple.typeId = StandardId.hasSubtype →
          order.idxOf triple.sourceId < order.idxOf triple.targetId := by
      decide
    exact acyclic_of_rank order.idxOf fun triple hmem => hrank triple (mem_plantTriples hmem)

/-- Loaded over the base alone, the space is there again: the reference of the first type and
the two that make the object below. -/
theorem saved_space_loads_plant : ∃ states loaded,
    rootFactory.savedStates plantSpaces ((baseTypes ++ plantNodes).map Node.id) = some states ∧
      rootFactory.applyNodeStates 2 states (spacesOf baseTypes) = some (.good, loaded) ∧
      (rootFactory.nodeView loaded (.numeric 3 7)).isSome = true ∧
      ⟨StandardId.hierarchicalReferences, StandardId.rootFolder, .numeric 3 7⟩ ∈
        rootFactory.triples loaded ∧
      ⟨StandardId.nonHierarchicalReferences, .numeric 1 7, .numeric 3 7⟩ ∈
        rootFactory.triples loaded := by
  obtain ⟨states, loaded, hsaved, hload, hnodes, htriples⟩ := saved_space_loads sound_baseTypes
    indexed_baseTypes sound_plantSpaces indexed_plantSpaces rfl extending_plantSpaces
    orderly_plantSpaces (by decide) (mem_ids_iff (baseTypes ++ plantNodes)) 0
  refine ⟨states, loaded, hsaved, hload, ?_, ?_, ?_⟩
  · rw [← Option.isSome_map, hnodes]
    decide
  · rw [htriples]
    refine Or.inr ⟨?_, Or.inr (Or.inr (Or.inl ⟨by decide, isParentReference_plant⟩))⟩
    show (_, _) ∈ rootFactory.referencesOf plantSpaces _
    decide
  · rw [htriples]
    refine Or.inr ⟨?_, Or.inl (Or.inl ⟨3, rfl, by decide⟩)⟩
    show (_, _) ∈ rootFactory.referencesOf plantSpaces _
    decide

end GenericNodeFactory

end ScadaCommon.AddressSpace
