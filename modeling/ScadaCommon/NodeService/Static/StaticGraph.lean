import Mathlib.Data.List.Sort
import ScadaCommon.NodeService.Static.StaticNodeService

/-!
# The graph that a static node service holds

`Add` refuses a state for what the state says and never for what was added
before, so that it has a total form. The nodes and the index of a service are
then read off the set of the states that were added.

§1 the total form · §2 nodes · §3 the index · §4 whole lists · §5 data types.
-/

namespace ScadaCommon.Static

open Foundation V3

variable {V : Type}

/-! ## §1  The total form -/

section

variable {α β : Type*} {f : β → α → Option β} {g : β → α → β} {P : α → Prop}

/-- A loop whose rounds are refused for the element alone. -/
theorem foldlM_eq_some (h : ∀ b a b', f b a = some b' ↔ P a ∧ b' = g b a) (as : List α)
    (b b' : β) : as.foldlM f b = some b' ↔ (∀ a ∈ as, P a) ∧ b' = as.foldl g b := by
  induction as generalizing b with
  | nil =>
      rw [List.foldlM_nil, List.foldl_nil, Option.pure_def, Option.some_inj, eq_comm]
      exact (and_iff_right (List.forall_mem_nil P)).symm
  | cons a as ih =>
      rw [List.foldlM_cons, List.foldl_cons, Option.bind_eq_bind, Option.bind_eq_some_iff,
        List.forall_mem_cons, and_assoc]
      constructor
      · rintro ⟨c, hc, hrest⟩
        obtain ⟨ha, rfl⟩ := (h b a c).mp hc
        exact ⟨ha, (ih _).mp hrest⟩
      · rintro ⟨ha, hrest⟩
        exact ⟨g b a, (h b a _).mpr ⟨ha, rfl⟩, (ih _).mpr hrest⟩

end

variable (core : Core) (less : Edge → Edge → Prop) [DecidableRel less]

/-- What `Add` checks of a state without its properties. -/
def AcceptedReferences (state : NodeState V) : Prop :=
  state.nodeId ≠ .null ∧
    core.isInstance state.nodeClass ≠ decide (state.typeDefinitionId = .null) ∧
    (state.parentId ≠ .null → state.referenceTypeId ≠ .null) ∧
    ∀ desc ∈ relocatedReferences state, desc.referenceTypeId ≠ .null ∧ desc.nodeId ≠ .null

/-- What `Add` checks of a state. -/
def Accepted (state : NodeState V) : Prop :=
  AcceptedReferences core state ∧
    (core.isInstance state.nodeClass = true → ∀ property ∈ state.properties,
      ∃ propState,
        StaticNodeService.makePropNodeState core state.nodeId property.1 property.2 =
          some propState ∧
        AcceptedReferences core propState)

/-- The properties that become nodes: their declarations and their states. -/
def propStates (state : NodeState V) : List (NodeId × NodeState V) :=
  if core.isInstance state.nodeClass then
    state.properties.filterMap fun property =>
      (StaticNodeService.makePropNodeState core state.nodeId property.1 property.2).map
        (property.1, ·)
  else []

namespace StaticNodeService

/-- `AddInverseReference` once its checks passed. -/
def index (nodeId : NodeId) (service : StaticNodeService V) (desc : ReferenceDescription) :
    StaticNodeService V :=
  { service with
    inverseReferences := Function.update service.inverseReferences desc.nodeId
      (OrderedSet.insert less (desc.mirror nodeId).toEdge
        (service.inverseReferences desc.nodeId)) }

def indexAll (service : StaticNodeService V) (state : NodeState V) : StaticNodeService V :=
  (relocatedReferences state).foldl (index less state.nodeId) service

/-- `Add` of a state without properties, once its checks passed. -/
def addedLeaf (service : StaticNodeService V) (state : NodeState V) : StaticNodeService V :=
  (service.indexAll less state).tryEmplace { relocated state with properties := [] }

def addedProperty (service : StaticNodeService V) (property : NodeId × NodeState V) :
    StaticNodeService V :=
  service.addedLeaf less (service.carryDataType property.1 property.2)

/-- `Add` once its checks passed. -/
def added (service : StaticNodeService V) (state : NodeState V) : StaticNodeService V :=
  ((propStates core state).foldl (addedProperty less) (service.indexAll less state)).tryEmplace
    { relocated state with properties := [] }

variable {core less}

theorem addInverseReference_eq_some {nodeId : NodeId} (h : nodeId ≠ .null)
    (service : StaticNodeService V) (desc : ReferenceDescription)
    (service' : StaticNodeService V) :
    addInverseReference less nodeId service desc = some service' ↔
      (desc.referenceTypeId ≠ .null ∧ desc.nodeId ≠ .null) ∧
        service' = index less nodeId service desc := by
  unfold addInverseReference
  simp [h, check_bind_eq_some, and_assoc, index, eq_comm (b := service')]

theorem addWith_eq_some
    {addProperties : StaticNodeService V → NodeState V → Option (StaticNodeService V)}
    {service service' : StaticNodeService V} {state : NodeState V} :
    addWith core less addProperties service state = some service' ↔
      AcceptedReferences core state ∧ ∃ between,
        (if core.isInstance state.nodeClass then
            addProperties (service.indexAll less state) (relocated state)
          else some (service.indexAll less state)) = some between ∧
        service' = between.tryEmplace { relocated state with properties := [] } := by
  unfold addWith AcceptedReferences
  simp only [Option.bind_eq_bind, check_bind_eq_some]
  simp only [Option.bind_eq_some_iff, relocateReferences_eq_some, Option.pure_def]
  constructor
  · rintro ⟨hid, hclass, _, ⟨htype, rfl⟩, indexed, hindexed, between, hbetween, hservice⟩
    obtain ⟨hdescs, rfl⟩ := (foldlM_eq_some (addInverseReference_eq_some hid) _ _ _).mp hindexed
    exact ⟨⟨hid, hclass, htype, hdescs⟩, between, hbetween, (Option.some.inj hservice).symm⟩
  · rintro ⟨⟨hid, hclass, htype, hdescs⟩, between, hbetween, hservice⟩
    exact ⟨hid, hclass, _, ⟨htype, rfl⟩, _,
      (foldlM_eq_some (addInverseReference_eq_some hid) _ _ _).mpr ⟨hdescs, rfl⟩,
      between, hbetween, congrArg some hservice.symm⟩

theorem addLeaf_eq_some {service service' : StaticNodeService V} {state : NodeState V} :
    service.addLeaf core less state = some service' ↔
      AcceptedReferences core state ∧ service' = service.addedLeaf less state := by
  unfold addLeaf
  rw [addWith_eq_some]
  simp only [ite_self, Option.some_inj, exists_eq_left']
  rfl

theorem carryDataType_eq (service : StaticNodeService V) (propDeclId : NodeId)
    (propState : NodeState V) :
    service.carryDataType propDeclId propState =
      { propState with attributes := (service.carryDataType propDeclId propState).attributes } := by
  unfold carryDataType
  split <;> rfl

theorem addProperty_eq_some {nodeId : NodeId} (service : StaticNodeService V)
    (property : NodeId × V) (service' : StaticNodeService V) :
    addProperty core less nodeId service property = some service' ↔
      (∃ propState, makePropNodeState core nodeId property.1 property.2 = some propState ∧
        AcceptedReferences core propState) ∧
      service' = ((makePropNodeState core nodeId property.1 property.2).map
        (property.1, ·)).toList.foldl (addedProperty less) service := by
  unfold addProperty
  rw [Option.bind_eq_bind, Option.bind_eq_some_iff]
  cases hmake : makePropNodeState core nodeId property.1 property.2 with
  | none => simp
  | some propState =>
      simp only [Option.some_inj, exists_eq_left', addLeaf_eq_some]
      refine and_congr ?_ Iff.rfl
      rw [carryDataType_eq]
      unfold AcceptedReferences
      rw [relocatedReferences_attributes]

/-- **Adding a state.** `Add` refuses a state for what it says alone. -/
theorem add_eq_some (service : StaticNodeService V) (state : NodeState V)
    (service' : StaticNodeService V) :
    service.add core less state = some service' ↔
      Accepted core state ∧ service' = service.added core less state := by
  unfold add Accepted added propStates
  rw [addWith_eq_some]
  by_cases hinstance : core.isInstance state.nodeClass = true
  · simp only [hinstance, if_true, true_implies, and_assoc]
    refine and_congr_right fun _ => ?_
    rw [List.filterMap_eq_flatMap_toList, List.foldl_flatMap]
    constructor
    · rintro ⟨between, hbetween, rfl⟩
      obtain ⟨hproperties, rfl⟩ := (foldlM_eq_some addProperty_eq_some _ _ _).mp hbetween
      exact ⟨hproperties, rfl⟩
    · rintro ⟨hproperties, rfl⟩
      exact ⟨_, (foldlM_eq_some addProperty_eq_some _ _ _).mpr ⟨hproperties, rfl⟩, rfl⟩
  · simp [hinstance]

variable (core less) in
/-- `AddAll` once its checks passed. -/
def addedAll (service : StaticNodeService V) (states : List (NodeState V)) :
    StaticNodeService V :=
  states.foldl (added core less) service

theorem addAll_eq_some {service service' : StaticNodeService V} {states : List (NodeState V)} :
    service.addAll core less states = some service' ↔
      (∀ state ∈ states, Accepted core state) ∧ service' = service.addedAll core less states :=
  foldlM_eq_some add_eq_some states service service'

/-! ## §2  Nodes -/

/-- The nodes of a service are those of a set of states. -/
structure HoldsNodes (service : StaticNodeService V) (states : Set (NodeState V)) : Prop where
  isSome_iff : ∀ n, (service.nodes n).isSome ↔ ∃ state ∈ states, state.nodeId = n
  references : ∀ n node, service.nodes n = some node →
    ∃ state ∈ states, state.nodeId = n ∧ node.references = relocatedReferences state

variable {service : StaticNodeService V} {states : Set (NodeState V)} {state node : NodeState V}

theorem tryEmplace_of_some (h : (service.nodes node.nodeId).isSome) :
    service.tryEmplace node = service :=
  if_pos h

theorem tryEmplace_nodes_new {n : NodeId} (hn : node.nodeId = n) (h : service.nodes n = none) :
    (service.tryEmplace node).nodes n = some node := by
  subst hn
  unfold tryEmplace
  rw [if_neg (by simp [h])]
  exact Function.update_self _ _ _

theorem tryEmplace_nodes_of_ne {n : NodeId} (h : n ≠ node.nodeId) :
    (service.tryEmplace node).nodes n = service.nodes n := by
  unfold tryEmplace
  split
  · rfl
  · exact Function.update_of_ne h _ _

@[simp] theorem tryEmplace_inverseReferences :
    (service.tryEmplace node).inverseReferences = service.inverseReferences := by
  unfold tryEmplace
  split <;> rfl

/-- A node stays as it is. -/
theorem tryEmplace_keeps {n : NodeId} {old : NodeState V} (h : service.nodes n = some old) :
    (service.tryEmplace node).nodes n = some old := by
  by_cases hn : n = node.nodeId
  · subst hn
    rw [tryEmplace_of_some (by simp [h]), h]
  · rw [tryEmplace_nodes_of_ne hn, h]

theorem HoldsNodes.tryEmplace (h : service.HoldsNodes states) (hid : node.nodeId = state.nodeId)
    (hreferences : node.references = relocatedReferences state) :
    (service.tryEmplace node).HoldsNodes (insert state states) := by
  cases hold : service.nodes node.nodeId with
  | some old =>
      rw [tryEmplace_of_some (by simp [hold])]
      refine ⟨fun n => ?_, fun n other hother => ?_⟩
      · rw [h.isSome_iff]
        simp only [Set.mem_insert_iff, exists_eq_or_imp]
        refine (or_iff_right_of_imp fun hn => ?_).symm
        rw [← h.isSome_iff, ← hn, ← hid, hold]
        rfl
      · obtain ⟨found, hfound, hn, href⟩ := h.references n other hother
        exact ⟨found, Or.inr hfound, hn, href⟩
  | none =>
      have hself := tryEmplace_nodes_new rfl hold
      refine ⟨fun n => ?_, fun n other hother => ?_⟩
      · simp only [Set.mem_insert_iff, exists_eq_or_imp]
        by_cases hn : n = node.nodeId
        · subst hn
          exact iff_of_true (by rw [hself]; rfl) (Or.inl hid.symm)
        · rw [tryEmplace_nodes_of_ne hn, h.isSome_iff]
          exact (or_iff_right fun heq => hn (heq.symm.trans hid.symm)).symm
      · by_cases hn : n = node.nodeId
        · subst hn
          obtain rfl := Option.some.inj (hself.symm.trans hother)
          exact ⟨state, Or.inl rfl, hid.symm, hreferences⟩
        · rw [tryEmplace_nodes_of_ne hn] at hother
          obtain ⟨found, hfound, hn, href⟩ := h.references n other hother
          exact ⟨found, Or.inr hfound, hn, href⟩

/-! ## §3  The index -/

/-- The index of a service has the references of a set of states, each at its
target. -/
structure HoldsIndex (less : Edge → Edge → Prop) (service : StaticNodeService V)
    (states : Set (NodeState V)) : Prop where
  sorted : ∀ n, OrderedSet.Sorted less (service.inverseReferences n)
  mem_iff : ∀ n edge, edge ∈ service.inverseReferences n ↔
    ∃ state ∈ states, ∃ desc ∈ relocatedReferences state,
      desc.nodeId = n ∧ edge = (desc.mirror state.nodeId).toEdge

@[simp] theorem indexAll_nodes : (service.indexAll less state).nodes = service.nodes := by
  unfold indexAll
  induction relocatedReferences state generalizing service with
  | nil => rfl
  | cons desc descs ih => exact ih

theorem index_inverseReferences (nodeId : NodeId) (desc : ReferenceDescription) :
    (service.index less nodeId desc).inverseReferences =
      Function.update service.inverseReferences desc.nodeId
        (OrderedSet.insert less (desc.mirror nodeId).toEdge
          (service.inverseReferences desc.nodeId)) := rfl

section

variable [IsStrictTotalOrder Edge less]

theorem mem_index {nodeId n : NodeId} {desc : ReferenceDescription} {edge : Edge} :
    edge ∈ (service.index less nodeId desc).inverseReferences n ↔
      (desc.nodeId = n ∧ edge = (desc.mirror nodeId).toEdge) ∨
        edge ∈ service.inverseReferences n := by
  rw [index_inverseReferences]
  by_cases hn : n = desc.nodeId
  · subst hn
    rw [Function.update_self, OrderedSet.mem_insert]
    simp
  · rw [Function.update_of_ne hn]
    exact (or_iff_right fun h => hn h.1.symm).symm

theorem mem_indexAll {n : NodeId} {edge : Edge} :
    edge ∈ (service.indexAll less state).inverseReferences n ↔
      (∃ desc ∈ relocatedReferences state,
        desc.nodeId = n ∧ edge = (desc.mirror state.nodeId).toEdge) ∨
      edge ∈ service.inverseReferences n := by
  unfold indexAll
  induction relocatedReferences state generalizing service with
  | nil => simp
  | cons desc descs ih =>
      rw [List.foldl_cons, ih, mem_index]
      simp only [List.mem_cons, exists_eq_or_imp, or_assoc]
      exact or_left_comm

theorem sorted_index {nodeId : NodeId} {desc : ReferenceDescription}
    (h : ∀ n, OrderedSet.Sorted less (service.inverseReferences n)) (n : NodeId) :
    OrderedSet.Sorted less ((service.index less nodeId desc).inverseReferences n) := by
  rw [index_inverseReferences]
  by_cases hn : n = desc.nodeId
  · subst hn
    rw [Function.update_self]
    exact (h _).insert _
  · rw [Function.update_of_ne hn]
    exact h n

theorem HoldsIndex.indexAll (h : service.HoldsIndex less states) (state : NodeState V) :
    (service.indexAll less state).HoldsIndex less (insert state states) where
  sorted := by
    have hsorted := h.sorted
    unfold StaticNodeService.indexAll
    clear h
    induction relocatedReferences state generalizing service with
    | nil => exact hsorted
    | cons desc descs ih => exact ih (sorted_index hsorted)
  mem_iff n edge := by
    rw [mem_indexAll, h.mem_iff]
    simp only [Set.mem_insert_iff, exists_eq_or_imp]

end

/-! ## §4  Whole lists -/

variable (core) in
/-- The states that the adding of a state adds: its properties and itself. -/
def leafStates (state : NodeState V) : Set (NodeState V) :=
  insert state {propState | ∃ property ∈ propStates core state, property.2 = propState}

variable (core) in
def allStates (states : List (NodeState V)) : Set (NodeState V) :=
  {leaf | ∃ state ∈ states, leaf ∈ leafStates core state}

theorem union_properties_cons (property : NodeId × NodeState V)
    (properties : List (NodeId × NodeState V)) (states : Set (NodeState V)) :
    states ∪ {propState | ∃ p ∈ property :: properties, p.2 = propState} =
      insert property.2 states ∪ {propState | ∃ p ∈ properties, p.2 = propState} := by
  ext leaf
  simp [or_left_comm, or_assoc, eq_comm]

theorem carryDataType_nodeId (declId : NodeId) :
    (service.carryDataType declId state).nodeId = state.nodeId := by
  rw [carryDataType_eq]

theorem relocatedReferences_carryDataType (declId : NodeId) :
    relocatedReferences (service.carryDataType declId state) = relocatedReferences state := by
  rw [carryDataType_eq, relocatedReferences_attributes]

variable (less) in
theorem HoldsNodes.indexAll (h : service.HoldsNodes states) (state : NodeState V) :
    (service.indexAll less state).HoldsNodes states := by
  constructor
  · rw [indexAll_nodes]
    exact h.isSome_iff
  · rw [indexAll_nodes]
    exact h.references

variable (less) in
theorem HoldsNodes.addedProperty (h : service.HoldsNodes states)
    (property : NodeId × NodeState V) :
    (service.addedProperty less property).HoldsNodes (insert property.2 states) := by
  have hindexed := h.indexAll less (service.carryDataType property.1 property.2)
  exact hindexed.tryEmplace (carryDataType_nodeId _) (relocatedReferences_carryDataType _)

variable (less) in
theorem HoldsNodes.addedProperties (properties : List (NodeId × NodeState V))
    (h : service.HoldsNodes states) :
    (properties.foldl (StaticNodeService.addedProperty less) service).HoldsNodes
      (states ∪ {propState | ∃ property ∈ properties, property.2 = propState}) := by
  induction properties generalizing service states with
  | nil => simpa using h
  | cons property properties ih =>
      rw [union_properties_cons]
      exact ih (h.addedProperty less property)

theorem HoldsNodes.added (h : service.HoldsNodes states) (state : NodeState V) :
    (service.added core less state).HoldsNodes (states ∪ leafStates core state) := by
  have hproperties := (h.indexAll less state).addedProperties less (propStates core state)
  unfold leafStates
  rw [Set.union_insert]
  exact hproperties.tryEmplace rfl rfl

omit [DecidableRel less] in
theorem HoldsIndex.tryEmplace (h : service.HoldsIndex less states) :
    (service.tryEmplace node).HoldsIndex less states := by
  constructor
  · rw [tryEmplace_inverseReferences]
    exact h.sorted
  · rw [tryEmplace_inverseReferences]
    exact h.mem_iff

omit [DecidableRel less] in
/-- The index looks at ids and references of the states. -/
theorem HoldsIndex.replace {other : NodeState V} (hid : other.nodeId = state.nodeId)
    (hreferences : relocatedReferences other = relocatedReferences state)
    (h : service.HoldsIndex less (insert other states)) :
    service.HoldsIndex less (insert state states) where
  sorted := h.sorted
  mem_iff n edge := by
    rw [h.mem_iff]
    simp only [Set.mem_insert_iff, exists_eq_or_imp, hid, hreferences]

section

variable [IsStrictTotalOrder Edge less]

theorem HoldsIndex.addedProperty (h : service.HoldsIndex less states)
    (property : NodeId × NodeState V) :
    (service.addedProperty less property).HoldsIndex less (insert property.2 states) := by
  have hindexed := h.indexAll (service.carryDataType property.1 property.2)
  exact (hindexed.replace (carryDataType_nodeId _)
    (relocatedReferences_carryDataType _)).tryEmplace

theorem HoldsIndex.addedProperties (properties : List (NodeId × NodeState V))
    (h : service.HoldsIndex less states) :
    (properties.foldl (StaticNodeService.addedProperty less) service).HoldsIndex less
      (states ∪ {propState | ∃ property ∈ properties, property.2 = propState}) := by
  induction properties generalizing service states with
  | nil => simpa using h
  | cons property properties ih =>
      rw [union_properties_cons]
      exact ih (h.addedProperty property)

theorem HoldsIndex.added (h : service.HoldsIndex less states) (state : NodeState V) :
    (service.added core less state).HoldsIndex less (states ∪ leafStates core state) := by
  have hproperties := (h.indexAll state).addedProperties (propStates core state)
  unfold leafStates
  rw [Set.union_insert, ← Set.insert_union]
  exact hproperties.tryEmplace

end

theorem allStates_append_singleton (done : List (NodeState V)) (state : NodeState V) :
    allStates core (done ++ [state]) = allStates core done ∪ leafStates core state := by
  ext leaf
  simp [allStates, or_and_right, exists_or]

theorem addedAll_append_singleton (done : List (NodeState V)) (state : NodeState V) :
    service.addedAll core less (done ++ [state]) =
      (service.addedAll core less done).added core less state :=
  List.foldl_concat ..

variable (core less) in
/-- **The nodes.** After a list was added, the nodes are its states and their
properties. -/
theorem holdsNodes_addedAll (states : List (NodeState V)) :
    (empty.addedAll core less states).HoldsNodes (allStates core states) := by
  induction states using List.reverseRecOn with
  | nil =>
      refine ⟨fun n => ?_, fun n node hnode => ?_⟩
      · simp [allStates, addedAll, empty]
      · cases hnode
  | append_singleton done state ih =>
      rw [allStates_append_singleton, addedAll_append_singleton]
      exact ih.added state

variable (core less) in
/-- **The index.** After a list was added, the index has all references of its
states and of their properties. -/
theorem holdsIndex_addedAll [IsStrictTotalOrder Edge less] (states : List (NodeState V)) :
    (empty.addedAll core less states).HoldsIndex less (allStates core states) := by
  induction states using List.reverseRecOn with
  | nil =>
      refine ⟨fun n => List.Pairwise.nil, fun n edge => ?_⟩
      simp [allStates, addedAll, empty]
  | append_singleton done state ih =>
      rw [allStates_append_singleton, addedAll_append_singleton]
      exact ih.added state

/-! ## §5  Data types -/

theorem addedProperty_keeps {n : NodeId} (h : service.nodes n = some node)
    (property : NodeId × NodeState V) :
    (service.addedProperty less property).nodes n = some node := by
  refine tryEmplace_keeps ?_
  rw [indexAll_nodes]
  exact h

theorem addedProperties_keeps {n : NodeId} (properties : List (NodeId × NodeState V))
    (h : service.nodes n = some node) :
    (properties.foldl (addedProperty less) service).nodes n = some node := by
  induction properties generalizing service with
  | nil => exact h
  | cons property properties ih => exact ih (addedProperty_keeps h property)

theorem added_keeps {n : NodeId} (h : service.nodes n = some node) :
    (service.added core less state).nodes n = some node := by
  refine tryEmplace_keeps (addedProperties_keeps _ ?_)
  rw [indexAll_nodes]
  exact h

/-- **No node changes.** What a node is was decided when it was added. -/
theorem addedAll_keeps {n : NodeId} (states : List (NodeState V))
    (h : service.nodes n = some node) :
    (service.addedAll core less states).nodes n = some node := by
  induction states generalizing service with
  | nil => exact h
  | cons state states ih => exact ih (added_keeps h)

variable (core) in
/-- The ids that the adding of a state adds. -/
def leafIds (state : NodeState V) : List NodeId :=
  (propStates core state).map (·.2.nodeId) ++ [state.nodeId]

variable (core) in
/-- A property whose declaration and its data type can be added before it and
after it: the declaration is another state of the list, and the data type comes
from another state or from a property further up. -/
def LateDataType (states : List (NodeState V)) : Prop :=
  ∃ state ∈ states, ∃ before property after, propStates core state = before ++ property :: after ∧
    ∃ declaration ∈ states, declaration ≠ state ∧ declaration.nodeId = property.1 ∧
      (declaration.attributes.dataType ∈ before.map (·.2.nodeId) ∨
        ∃ other ∈ states, other ≠ state ∧
          declaration.attributes.dataType ∈ leafIds core other)

/-- Data types of nodes are those that states of the list say. -/
def SaidDataTypes (service : StaticNodeService V) (states : List (NodeState V)) : Prop :=
  ∀ n node, service.nodes n = some node → node.attributes.dataType ≠ .null →
    ∃ state ∈ states, state.nodeId = n ∧ node.attributes.dataType = state.attributes.dataType

theorem getNode_ne_null {n : NodeId} (h : service.getNode n ≠ .null) :
    service.getNode n = n ∧ (service.nodes n).isSome := by
  unfold getNode at *
  split at h
  · rename_i hsome
    exact ⟨if_pos hsome, hsome⟩
  · exact absurd rfl h

theorem SaidDataTypes.tryEmplace {states : List (NodeState V)} (h : service.SaidDataTypes states)
    (hnode : node.attributes.dataType ≠ .null → ∃ state ∈ states,
      state.nodeId = node.nodeId ∧ node.attributes.dataType = state.attributes.dataType) :
    (service.tryEmplace node).SaidDataTypes states := by
  intro n other hother hne
  cases hold : service.nodes node.nodeId with
  | some old =>
      rw [tryEmplace_of_some (by simp [hold])] at hother
      exact h n other hother hne
  | none =>
      by_cases hn : n = node.nodeId
      · subst hn
        obtain rfl := Option.some.inj ((tryEmplace_nodes_new rfl hold).symm.trans hother)
        exact hnode hne
      · rw [tryEmplace_nodes_of_ne hn] at hother
        exact h n other hother hne

theorem exists_property_iff {properties : List (NodeId × NodeState V)} {n : NodeId} :
    (∃ leaf ∈ {propState | ∃ property ∈ properties, property.2 = propState}, leaf.nodeId = n) ↔
      n ∈ properties.map (·.2.nodeId) := by
  rw [List.mem_map]
  constructor
  · rintro ⟨_, ⟨property, hproperty, rfl⟩, hn⟩
    exact ⟨property, hproperty, hn⟩
  · rintro ⟨property, hproperty, hn⟩
    exact ⟨property.2, ⟨property, hproperty, rfl⟩, hn⟩

theorem mem_leafIds {n : NodeId} :
    n ∈ leafIds core state ↔ ∃ leaf ∈ leafStates core state, leaf.nodeId = n := by
  unfold leafIds leafStates
  rw [List.mem_append, List.mem_singleton, ← exists_property_iff, or_comm]
  simp only [Set.mem_insert_iff, exists_eq_or_imp, eq_comm (a := n)]

theorem mem_leafIds_of_split {before after : List (NodeId × NodeState V)}
    {property : NodeId × NodeState V} (h : propStates core state = before ++ property :: after) :
    property.2.nodeId ∈ leafIds core state := by
  unfold leafIds
  rw [h]
  simp

variable (core less) in
theorem isSome_addedAll_iff (states : List (NodeState V)) (n : NodeId) :
    ((empty.addedAll core less states).nodes n).isSome ↔
      ∃ state ∈ states, n ∈ leafIds core state := by
  rw [(holdsNodes_addedAll core less states).isSome_iff]
  constructor
  · rintro ⟨leaf, ⟨state, hstate, hleaf⟩, hn⟩
    exact ⟨state, hstate, mem_leafIds.mpr ⟨leaf, hleaf, hn⟩⟩
  · rintro ⟨state, hstate, hn⟩
    obtain ⟨leaf, hleaf, hn⟩ := mem_leafIds.mp hn
    exact ⟨leaf, ⟨state, hstate, hleaf⟩, hn⟩

variable (core less) in
/-- A service in the loop over the properties of a state, after some of them. -/
def between (done : List (NodeState V)) (state : NodeState V)
    (before : List (NodeId × NodeState V)) : StaticNodeService V :=
  before.foldl (addedProperty less) ((empty.addedAll core less done).indexAll less state)

variable (core less) in
theorem isSome_between_iff (done : List (NodeState V)) (state : NodeState V)
    (before : List (NodeId × NodeState V)) (n : NodeId) :
    ((between core less done state before).nodes n).isSome ↔
      (∃ other ∈ done, n ∈ leafIds core other) ∨ n ∈ before.map (·.2.nodeId) := by
  have hdone := holdsNodes_addedAll core less done
  have hbetween : (between core less done state before).HoldsNodes _ :=
    (hdone.indexAll less state).addedProperties less before
  have hiff := isSome_addedAll_iff core less done n
  rw [← hiff, hbetween.isSome_iff, hdone.isSome_iff, ← exists_property_iff]
  simp only [Set.mem_union, or_and_right, exists_or]

variable {states done : List (NodeState V)} {before after : List (NodeId × NodeState V)}
  {property : NodeId × NodeState V}

theorem carryDataType_dataType {declId : NodeId}
    (hnull : state.attributes.dataType = .null)
    (h : (service.carryDataType declId state).attributes.dataType ≠ .null) :
    ∃ declaration, service.nodes declId = some declaration ∧
      declaration.attributes.dataType ≠ .null ∧
      (service.nodes declaration.attributes.dataType).isSome := by
  unfold carryDataType at h
  split at h
  · rename_i declaration hdeclaration
    obtain ⟨heq, hsome⟩ := getNode_ne_null h
    exact ⟨declaration, hdeclaration, heq ▸ h, hsome⟩
  · exact absurd hnull h

theorem propStates_dataType (h : property ∈ propStates core state) :
    property.2.attributes.dataType = .null := by
  unfold propStates at h
  split at h
  · obtain ⟨⟨declId, value⟩, _, heq⟩ := List.mem_filterMap.mp h
    obtain ⟨propState, hmake, rfl⟩ := Option.map_eq_some_iff.mp heq
    obtain ⟨propId, _, hpropId⟩ := Option.bind_eq_some_iff.mp hmake
    obtain rfl := Option.some.inj hpropId
    rfl
  · cases h

variable (less) in
/-- The property of a state gets no data type when its declaration or the data
type of the declaration is missing. -/
theorem SaidDataTypes.addedProperty (h : service.SaidDataTypes states)
    (hproperty : property ∈ propStates core state)
    (hmissing : ∀ declaration ∈ states, declaration.nodeId = property.1 →
      ¬ (service.nodes declaration.attributes.dataType).isSome) :
    (service.addedProperty less property).SaidDataTypes states := by
  have hindexed : (service.indexAll less
      (service.carryDataType property.1 property.2)).SaidDataTypes states := by
    unfold SaidDataTypes
    rw [indexAll_nodes]
    exact h
  refine hindexed.tryEmplace fun hne => ?_
  obtain ⟨node, hnode, hdataType, hsome⟩ :=
    carryDataType_dataType (propStates_dataType hproperty) hne
  obtain ⟨declaration, hdeclaration, hid, heq⟩ := h property.1 node hnode hdataType
  exact absurd (heq ▸ hsome) (hmissing declaration hdeclaration hid)

theorem lateDataType_mono {others : List (NodeState V)} (h : states ⊆ others)
    (hlate : LateDataType core states) : LateDataType core others := by
  obtain ⟨state, hstate, before, property, after, hsplit, declaration, hdeclaration, hne, hid,
    hdataType⟩ := hlate
  refine ⟨state, h hstate, before, property, after, hsplit, declaration, h hdeclaration, hne, hid,
    hdataType.imp_right ?_⟩
  rintro ⟨other, hother, hrest⟩
  exact ⟨other, h hother, hrest⟩

theorem saidDataTypes_between (hdone : (empty.addedAll core less done).SaidDataTypes done)
    (hstate : state ∉ done) (hlate : ¬ LateDataType core (done ++ [state]))
    (hsplit : propStates core state = before ++ after) :
    (between core less done state before).SaidDataTypes done := by
  induction before using List.reverseRecOn generalizing after with
  | nil =>
      unfold between SaidDataTypes
      rw [List.foldl_nil, indexAll_nodes]
      exact hdone
  | append_singleton before property ih =>
      rw [List.append_assoc] at hsplit
      have hproperty : property ∈ propStates core state := by simp [hsplit]
      have hmissing : ∀ declaration ∈ done, declaration.nodeId = property.1 →
          ¬ ((between core less done state before).nodes
            declaration.attributes.dataType).isSome := by
        intro declaration hdeclaration hid hsome
        have hmem : ∀ other ∈ done, other ∈ done ++ [state] ∧ other ≠ state := fun other h =>
          ⟨List.mem_append_left _ h, ne_of_mem_of_not_mem h hstate⟩
        refine hlate ⟨state, by simp, before, property, after, hsplit, declaration,
          (hmem _ hdeclaration).1, (hmem _ hdeclaration).2, hid, ?_⟩
        rcases (isSome_between_iff core less done state before _).mp hsome with ⟨other, hother, hin⟩ | hin
        · exact Or.inr ⟨other, (hmem _ hother).1, (hmem _ hother).2, hin⟩
        · exact Or.inl hin
      have hsaid := (ih hsplit).addedProperty less hproperty hmissing
      unfold between at hsaid ⊢
      rwa [List.foldl_concat]

theorem added_addedAll_eq :
    (empty.addedAll core less done).added core less state =
      (between core less done state (propStates core state)).tryEmplace
        { relocated state with properties := [] } := rfl

/-- **No data type is carried.** Where no property has its declaration and its
data type elsewhere in the list, no property gets a data type. -/
theorem saidDataTypes_addedAll (hnodup : states.Nodup) (hlate : ¬ LateDataType core states) :
    (empty.addedAll core less states).SaidDataTypes states := by
  induction states using List.reverseRecOn with
  | nil =>
      intro n node hnode
      cases hnode
  | append_singleton done state ih =>
      obtain ⟨hdoneNodup, _, hdisjoint⟩ := List.nodup_append.mp hnodup
      have hstate : state ∉ done := fun h =>
        hdisjoint state h state (List.mem_singleton_self state) rfl
      have hdone := ih hdoneNodup
        (mt (lateDataType_mono (List.subset_append_left done [state])) hlate)
      have hbetween := saidDataTypes_between hdone hstate hlate
        (List.append_nil (propStates core state)).symm
      rw [addedAll_append_singleton, added_addedAll_eq]
      refine SaidDataTypes.tryEmplace ?_ fun _ => ⟨state, by simp, rfl, rfl⟩
      intro n node hnode hne
      obtain ⟨other, hother, hrest⟩ := hbetween n node hnode hne
      exact ⟨other, List.mem_append_left _ hother, hrest⟩

end StaticNodeService

end ScadaCommon.Static
