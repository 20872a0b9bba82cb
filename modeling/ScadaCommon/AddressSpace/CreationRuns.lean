import ScadaCommon.AddressSpace.NodesetLoading
import ScadaCommon.AddressSpace.PlainCreation

/-!
# Creating nodes in one order or another

If states come after the states that they name, each node is created with what it
names as it will be in the end. So it does not matter in which such order the
nodes are created.

§1 one state · §2 what a state looks at · §3 runs · §4 what was created · §5 another
order.
-/

namespace ScadaCommon.AddressSpace

open Foundation

variable {V : Type} {factory : GenericNodeFactory} {spaces spaces' base : Spaces V}
  {edges : Set Edge} {state : NodeState V}

/-! ## §1  One state -/

namespace NodeState

/-- No node is made its own supertype. -/
def NotSelfSubtype (state : NodeState V) : Prop :=
  state.parentId ≠ .null → state.parentId = state.nodeId →
    state.referenceTypeId = StandardId.hasSubtype → state.nodeClass.isTypeDefinition = false

/-- The nodes that its creation looks at, beside its own. -/
def lookedAt (state : NodeState V) : List NodeId :=
  [state.typeDefinitionId, state.attributes.dataType, state.parentId, state.referenceTypeId]

/-- The references that its creation may add. -/
def namedSlots (state : NodeState V) : Set Triple :=
  {triple | (triple = ⟨StandardId.hasTypeDefinition, state.nodeId, state.typeDefinitionId⟩ ∧
      state.typeDefinitionId ≠ .null) ∨
    (triple = ⟨state.referenceTypeId, state.parentId, state.nodeId⟩ ∧ state.parentId ≠ .null)}

end NodeState

namespace GenericNodeFactory

/-- The node is there, or it has no properties. -/
def Plain (factory : GenericNodeFactory) (spaces : Spaces V) (state : NodeState V) : Prop :=
  factory.nodeView spaces state.nodeId = none → factory.NewProperties spaces state []

theorem getNode_isSome (h : Sound factory spaces edges) {id : NodeId} :
    (∃ ptr, factory.getNode spaces id = some ptr) ↔ factory.nodeView spaces id ≠ none := by
  rw [Ne, h.nodeView_eq_none, ← Ne, Option.ne_none_iff_exists']

theorem createState_of_known [Inhabited V] (h : Sound factory spaces edges) (fuel : ℕ)
    (hknown : factory.nodeView spaces state.nodeId ≠ none) :
    factory.createState fuel spaces state = some (.good, spaces) := by
  obtain ⟨ptr, hptr⟩ := (getNode_isSome h).mpr hknown
  rw [createState, hptr]

/-- The node is new, and what is seen of it and its references is known. -/
theorem createState_extends [Inhabited V] {fuel : ℕ} (hsound : Sound factory spaces edges)
    (hindexed : factory.Indexed spaces) (hchildren : state.children = [])
    (hplain : factory.Plain spaces state) (hself : state.NotSelfSubtype)
    (hnew : factory.nodeView spaces state.nodeId = none)
    (h : factory.createState fuel spaces state = some (.good, spaces')) :
    ∃ view, validateView (factory.nodeView spaces) state = .ok view ∧
      Extends factory spaces state view (slots (factory.nodeView spaces) state) spaces' ∧
        (state.parentId = .null ∨ ParentIn (factory.nodeView spaces') state) := by
  rw [createState, hsound.nodeView_eq_none.mp hnew] at h
  have hcleared : ({ state with properties := [] } : NodeState V).children = [] := hchildren
  obtain ⟨view, hchecked, hextends, hparent⟩ := createPlain_extends hsound hindexed hcleared rfl
    (hplain hnew) hself h
  exact ⟨view, hchecked, ⟨hextends.sound, hextends.indexed, hextends.nodes, hextends.triples⟩,
    hparent.imp_right fun h => ⟨h.known, h.referenceType, h.definition, h.supertype⟩⟩

theorem createState_good [Inhabited V] {view : NodeView V} (hsound : Sound factory spaces edges)
    (hindexed : factory.Indexed spaces) (hchildren : state.children = [])
    (hplain : factory.Plain spaces state) (hnew : factory.nodeView spaces state.nodeId = none)
    (hchecked : validateView (factory.nodeView spaces) state = .ok view)
    (hparent : state.parentId = .null ∨
      ParentHasRoom (factory.nodeView spaces) (factory.triples spaces) state) (fuel : ℕ) :
    ∃ spaces', factory.createState (fuel + 2) spaces state = some (.good, spaces') := by
  rw [createState, hsound.nodeView_eq_none.mp hnew]
  have hcleared : ({ state with properties := [] } : NodeState V).children = [] := hchildren
  exact createPlain_good hsound hindexed hcleared rfl (hplain hnew) hchecked
    (hparent.imp_right fun h => ⟨h.known, h.referenceType, h.definition, h.supertype⟩) fuel

/-! ## §2  What a state looks at -/

/-- What is seen of the other nodes. -/
def without (nodes : NodeId → Option (NodeView V)) (id : NodeId) : NodeId → Option (NodeView V) :=
  Function.update nodes id none

theorem validateView_congr [Inhabited V] {nodes nodes' : NodeId → Option (NodeView V)}
    (hself : nodes' state.nodeId = nodes state.nodeId)
    (h : ∀ id ∈ state.lookedAt, nodes' id = nodes id) :
    validateView nodes' state = validateView nodes state := by
  have htype := h state.typeDefinitionId (by simp [NodeState.lookedAt])
  have hdataType := h state.attributes.dataType (by simp [NodeState.lookedAt])
  have hin : state.dataTypeIn nodes' = state.dataTypeIn nodes := by
    simp only [NodeState.dataTypeIn, IsOf, htype, hdataType]
    rfl
  rw [validateView, validateView, hself, hin]

theorem slots_congr {nodes nodes' : NodeId → Option (NodeView V)}
    (h : ∀ id ∈ state.lookedAt, nodes' id = nodes id) :
    slots nodes' state = slots nodes state := by
  have htype := h state.typeDefinitionId (by simp [NodeState.lookedAt])
  simp only [slots, definitionSlot, IsType, htype]

theorem validateView_nodeClass [Inhabited V] {nodes : NodeId → Option (NodeView V)} {view : NodeView V}
    (h : validateView nodes state = .ok view) : view.nodeClass = state.nodeClass := by
  unfold validateView at h
  obtain ⟨-, h⟩ := ite_error_eq_ok_iff.mp h
  obtain ⟨-, h⟩ := ite_error_eq_ok_iff.mp h
  obtain ⟨-, h⟩ := ite_error_eq_ok_iff.mp h
  obtain ⟨-, h⟩ := ite_error_eq_ok_iff.mp h
  obtain ⟨dataType, -, h⟩ := bind_eq_ok_iff.mp h
  obtain ⟨value, -, h⟩ := bind_eq_ok_iff.mp h
  cases h
  rfl

theorem slots_subset {nodes : NodeId → Option (NodeView V)} (hnull : nodes .null = none)
    (state : NodeState V) : slots nodes state ⊆ state.namedSlots := by
  rintro triple (⟨rfl, hisType⟩ | hparent)
  · refine .inl ⟨rfl, fun heq => ?_⟩
    rw [IsType, heq, hnull] at hisType
    cases hisType
  · exact .inr hparent

theorem ParentIn.mono {nodes nodes' : NodeId → Option (NodeView V)} (h : ParentIn nodes state)
    (hinto : ∀ id view, nodes id = some view → nodes' id = some view) :
    ParentIn nodes' state := by
  refine ⟨?_, h.referenceType.mono hinto, h.definition, fun hsubtype hisType =>
    (h.supertype hsubtype hisType).mono hinto⟩
  obtain ⟨view, hview⟩ := Option.ne_none_iff_exists'.mp h.known
  rw [hinto _ view hview]
  nofun

/-! ## §3  Runs -/

/-- The state is of a node that is not there in the beginning. -/
def Fresh (factory : GenericNodeFactory) (base : Spaces V) (state : NodeState V) : Prop :=
  factory.nodeView base state.nodeId = none

/-- What is said of the states, and of the references that creating them may add. -/
structure Asks (factory : GenericNodeFactory) (base : Spaces V) (states : List (NodeState V))
    (asked : Set Triple) : Prop where
  children : ∀ state ∈ states, state.children = []
  notSelfSubtype : ∀ state ∈ states, Fresh factory base state → state.NotSelfSubtype
  start : factory.triples base ⊆ asked
  slots : ∀ state ∈ states, Fresh factory base state → state.namedSlots ⊆ asked
  plain : ∀ spaces edges, Sound factory spaces edges → factory.Indexed spaces →
    factory.triples spaces ⊆ asked → ∀ state ∈ states, Fresh factory base state →
      factory.Plain spaces state

/-- The states `earlier` have been gone through. -/
structure Partway (factory : GenericNodeFactory) (base : Spaces V) (asked : Set Triple)
    (earlier : List (NodeState V)) (spaces : Spaces V) : Prop where
  sound : ∃ edges, Sound factory spaces edges
  indexed : factory.Indexed spaces
  within : factory.triples spaces ⊆ asked
  keeps : ∀ id view, factory.nodeView base id = some view → factory.nodeView spaces id = some view
  created : ∀ state ∈ earlier, factory.nodeView spaces state.nodeId ≠ none
  only : ∀ id, factory.nodeView spaces id ≠ none →
    factory.nodeView base id ≠ none ∨ ∃ state ∈ earlier, state.nodeId = id

variable {earlier states : List (NodeState V)} {asked : Set Triple}

theorem Partway.start (hsound : Sound factory base edges) (hindexed : factory.Indexed base)
    (hwithin : factory.triples base ⊆ asked) : Partway factory base asked [] base :=
  ⟨⟨edges, hsound⟩, hindexed, hwithin, fun _ _ h => h, nofun, fun _ h => .inl h⟩

theorem Partway.of_known (h : Partway factory base asked earlier spaces)
    (hknown : factory.nodeView spaces state.nodeId ≠ none) :
    Partway factory base asked (earlier ++ [state]) spaces := by
  refine ⟨h.sound, h.indexed, h.within, h.keeps, fun other hother => ?_, fun id hid => ?_⟩
  · rcases List.mem_append.mp hother with hother | hother
    · exact h.created other hother
    · rwa [List.mem_singleton.mp hother]
  · exact (h.only id hid).imp_right fun ⟨other, hother, hid⟩ =>
      ⟨other, List.mem_append_left _ hother, hid⟩

theorem Extends.keeps {view : NodeView V} {own : Set Triple}
    (h : Extends factory spaces state view own spaces')
    (hnew : factory.nodeView spaces state.nodeId = none) {id : NodeId} {other : NodeView V}
    (hother : factory.nodeView spaces id = some other) :
    factory.nodeView spaces' id = some other := by
  rw [h.nodes, Function.update_of_ne ?_, hother]
  rintro rfl
  rw [hnew] at hother
  cases hother

theorem Partway.of_extends (h : Partway factory base asked earlier spaces) {view : NodeView V}
    {own : Set Triple} (hextends : Extends factory spaces state view own spaces')
    (hnew : factory.nodeView spaces state.nodeId = none) (hown : own ⊆ asked) :
    Partway factory base asked (earlier ++ [state]) spaces' := by
  refine ⟨hextends.sound, hextends.indexed, ?_, fun id other hother =>
    hextends.keeps hnew (h.keeps id other hother), fun other hother => ?_, fun id hid => ?_⟩
  · rw [hextends.triples]
    exact Set.union_subset h.within hown
  · rw [hextends.nodes, Function.update_apply]
    split
    · nofun
    · rename_i hne
      rcases List.mem_append.mp hother with hother | hother
      · exact h.created other hother
      · exact absurd (congrArg NodeState.nodeId (List.mem_singleton.mp hother)) hne
  · rw [hextends.nodes, Function.update_apply] at hid
    split at hid
    · rename_i heq
      exact .inr ⟨state, List.mem_append_right _ List.mem_cons_self, heq.symm⟩
    · exact (h.only id hid).imp_right fun ⟨other, hother, hid⟩ =>
        ⟨other, List.mem_append_left _ hother, hid⟩

/-- Where no earlier state is of the node, it is not there yet. -/
theorem Partway.new (h : Partway factory base asked earlier spaces)
    (hfresh : Fresh factory base state) (hother : ∀ other ∈ earlier, other.nodeId ≠ state.nodeId) :
    factory.nodeView spaces state.nodeId = none := by
  by_contra hknown
  rcases h.only state.nodeId hknown with hbase | ⟨other, hmem, hid⟩
  · exact hbase hfresh
  · exact hother other hmem hid

theorem Partway.known (h : Partway factory base asked earlier spaces)
    (hold : ¬ Fresh factory base state) : factory.nodeView spaces state.nodeId ≠ none := by
  obtain ⟨view, hview⟩ := Option.ne_none_iff_exists'.mp hold
  rw [h.keeps state.nodeId view hview]
  nofun

section

variable [Inhabited V] (hasks : Asks factory base states asked) {fuel : ℕ}

include hasks

/-- One state is gone through. -/
theorem Partway.step (h : Partway factory base asked earlier spaces) (hstate : state ∈ states)
    (hcreate : factory.createState fuel spaces state = some (.good, spaces')) :
    Partway factory base asked (earlier ++ [state]) spaces' ∧
      ∀ id view, factory.nodeView spaces id = some view → factory.nodeView spaces' id = some view := by
  obtain ⟨edges, hsound⟩ := h.sound
  by_cases hknown : factory.nodeView spaces state.nodeId = none
  · have hfresh : Fresh factory base state := by
      rw [Fresh, Option.eq_none_iff_forall_ne_some]
      intro view hview
      rw [h.keeps _ view hview] at hknown
      cases hknown
    obtain ⟨view, -, hextends, -⟩ := createState_extends hsound h.indexed
      (hasks.children state hstate)
      (hasks.plain spaces edges hsound h.indexed h.within state hstate hfresh)
      (hasks.notSelfSubtype state hstate hfresh) hknown hcreate
    have hown := (slots_subset (hsound.nodeView_eq_none.mpr hsound.getNode_null) state).trans
      (hasks.slots state hstate hfresh)
    exact ⟨h.of_extends hextends hknown hown, fun id view hview => hextends.keeps hknown hview⟩
  · rw [createState_of_known hsound fuel hknown] at hcreate
    cases hcreate
    exact ⟨h.of_known hknown, fun _ _ hview => hview⟩

theorem Partway.run (h : Partway factory base asked earlier spaces) {rest : List (NodeState V)}
    (hrest : ∀ state ∈ rest, state ∈ states)
    (hcreate : applyAll (factory.createState fuel) rest spaces = some (.good, spaces')) :
    Partway factory base asked (earlier ++ rest) spaces' ∧
      ∀ id view, factory.nodeView spaces id = some view → factory.nodeView spaces' id = some view := by
  induction rest generalizing earlier spaces with
  | nil =>
      cases hcreate
      exact ⟨by rwa [List.append_nil], fun _ _ hview => hview⟩
  | cons state rest ih =>
      obtain ⟨hstate, hrest⟩ := List.forall_mem_cons.mp hrest
      rcases andThen_eq_some.mp hcreate with ⟨spaces₁, hfirst, hlater⟩ | ⟨hbad, -⟩
      · obtain ⟨hnext, hkeeps⟩ := h.step hasks hstate hfirst
        obtain ⟨hlast, hkeeps'⟩ := ih hnext hrest hlater
        rw [List.append_assoc, List.singleton_append] at hlast
        exact ⟨hlast, fun id view hview => hkeeps' id view (hkeeps id view hview)⟩
      · exact absurd rfl hbad

end

/-! ## §4  What was created -/

/-- The references that the new nodes come with. -/
def createdSlots (factory : GenericNodeFactory) (base : Spaces V) (states : List (NodeState V))
    (nodes : NodeId → Option (NodeView V)) : Set Triple :=
  {triple | ∃ state ∈ states, Fresh factory base state ∧
    triple ∈ slots (without nodes state.nodeId) state}

/-- These are the nodes that there are once the states have been gone through. -/
structure Creates [Inhabited V] (factory : GenericNodeFactory) (base : Spaces V)
    (states : List (NodeState V)) (nodes : NodeId → Option (NodeView V)) : Prop where
  null : nodes .null = none
  keeps : ∀ id view, factory.nodeView base id = some view → nodes id = some view
  only : ∀ id, nodes id ≠ none →
    factory.nodeView base id ≠ none ∨ ∃ state ∈ states, state.nodeId = id
  checked : ∀ state ∈ states, Fresh factory base state →
    ∃ view, nodes state.nodeId = some view ∧
      validateView (without nodes state.nodeId) state = .ok view
  parent : ∀ state ∈ states, Fresh factory base state →
    state.parentId = .null ∨ ParentIn nodes state

/-- The state of a new node looks at another one. -/
def LooksAt (factory : GenericNodeFactory) (base : Spaces V) (states : List (NodeState V))
    (state other : NodeState V) : Prop :=
  Fresh factory base state ∧ other ∈ states ∧ Fresh factory base other ∧
    other.nodeId ∈ state.lookedAt ∧ other.nodeId ≠ .null ∧ other.nodeId ≠ state.nodeId

/-- The earlier states have been gone through, and what is seen is of the nodes. -/
structure Reached (factory : GenericNodeFactory) (base : Spaces V) (asked : Set Triple)
    (nodes : NodeId → Option (NodeView V)) (earlier : List (NodeState V)) (spaces : Spaces V) :
    Prop extends Partway factory base asked earlier spaces where
  into : ∀ id view, factory.nodeView spaces id = some view → nodes id = some view
  triples : factory.triples spaces = factory.triples base ∪ createdSlots factory base earlier nodes

variable {nodes : NodeId → Option (NodeView V)}

theorem createdSlots_append (earlier : List (NodeState V)) (state : NodeState V) :
    createdSlots factory base (earlier ++ [state]) nodes = createdSlots factory base earlier nodes ∪
      {triple | Fresh factory base state ∧ triple ∈ slots (without nodes state.nodeId) state} := by
  ext triple
  simp [createdSlots, or_and_right, exists_or]

theorem createdSlots_congr {states' : List (NodeState V)}
    (h : ∀ state, state ∈ states' ↔ state ∈ states) :
    createdSlots factory base states' nodes = createdSlots factory base states nodes := by
  simp only [createdSlots, h]

/-- What is there of the nodes that a state looks at is there already. -/
theorem Reached.lookedAt (h : Reached factory base asked nodes earlier spaces)
    (hstate : Fresh factory base state) (hnull : nodes .null = none) (honly : ∀ id, nodes id ≠ none →
      factory.nodeView base id ≠ none ∨ ∃ state ∈ states, state.nodeId = id)
    (hlooked : ∀ other, LooksAt factory base states state other → other ∈ earlier)
    (hnew : factory.nodeView spaces state.nodeId = none) :
    ∀ id ∈ state.lookedAt, without nodes state.nodeId id = factory.nodeView spaces id := by
  intro id hid
  unfold without
  by_cases hself : id = state.nodeId
  · rw [hself, Function.update_self, hnew]
  · rw [Function.update_of_ne hself]
    cases hview : factory.nodeView spaces id with
    | some view => exact h.into id view hview
    | none =>
        by_contra hknown
        rcases honly id hknown with hbase | ⟨other, hother, rfl⟩
        · obtain ⟨view, hold⟩ := Option.ne_none_iff_exists'.mp hbase
          rw [h.keeps id view hold] at hview
          cases hview
        · have hother' : other.nodeId ≠ .null := fun heq => hknown (heq ▸ hnull)
          by_cases hfresh : Fresh factory base other
          · exact h.created other (hlooked other ⟨hstate, hother, hfresh, hid, hother', hself⟩) hview
          · exact h.known hfresh hview

theorem Reached.of_known (h : Reached factory base asked nodes earlier spaces)
    (hold : ¬ Fresh factory base state) :
    Reached factory base asked nodes (earlier ++ [state]) spaces := by
  refine ⟨h.toPartway.of_known (h.known hold), h.into, ?_⟩
  have hnone : {triple | Fresh factory base state ∧
      triple ∈ slots (without nodes state.nodeId) state} = ∅ := by
    ext triple
    simp [hold]
  rw [createdSlots_append, hnone, Set.union_empty, h.triples]

theorem Reached.of_extends (h : Reached factory base asked nodes earlier spaces)
    {view : NodeView V} (hfresh : Fresh factory base state)
    (hextends : Extends factory spaces state view (slots (factory.nodeView spaces) state) spaces')
    (hnext : Partway factory base asked (earlier ++ [state]) spaces')
    (hlooked : ∀ id ∈ state.lookedAt, without nodes state.nodeId id = factory.nodeView spaces id)
    (hview : nodes state.nodeId = some view) :
    Reached factory base asked nodes (earlier ++ [state]) spaces' := by
  refine ⟨hnext, fun id other hother => ?_, ?_⟩
  · rw [hextends.nodes, Function.update_apply] at hother
    split at hother
    · rename_i heq
      cases hother
      rw [heq, hview]
    · exact h.into id other hother
  · have hslots : {triple | Fresh factory base state ∧
        triple ∈ slots (without nodes state.nodeId) state} =
          slots (factory.nodeView spaces) state := by
      rw [slots_congr hlooked]
      ext triple
      simp [hfresh]
    rw [createdSlots_append, hslots, hextends.triples, h.triples, Set.union_assoc]

/-- In the end the nodes are seen. -/
theorem Reached.nodeView_eq (h : Reached factory base asked nodes states spaces)
    (honly : ∀ id, nodes id ≠ none →
      factory.nodeView base id ≠ none ∨ ∃ state ∈ states, state.nodeId = id) :
    factory.nodeView spaces = nodes := by
  funext id
  cases hview : factory.nodeView spaces id with
  | some view => exact (h.into id view hview).symm
  | none =>
      by_contra hknown
      rcases honly id (Ne.symm hknown) with hbase | ⟨state, hstate, rfl⟩
      · obtain ⟨view, hold⟩ := Option.ne_none_iff_exists'.mp hbase
        rw [h.keeps id view hold] at hview
        cases hview
      · exact h.created state hstate hview

/-! ## §5  Another order -/

theorem distinct_of_nodup {rest : List (NodeState V)}
    (h : ((earlier ++ state :: rest).map NodeState.nodeId).Nodup) :
    ∀ other ∈ earlier, other.nodeId ≠ state.nodeId := by
  intro other hother heq
  rw [List.map_append, List.map_cons] at h
  exact (List.nodup_append.mp h).2.2 _ (List.mem_map_of_mem hother) _ List.mem_cons_self heq

section

variable [Inhabited V] {rest : List (NodeState V)} {fuel : ℕ}

/-- What a run from here creates. -/
theorem Reached.created_run (hasks : Asks factory base states asked)
    (h : Reached factory base asked nodes earlier spaces) (hnull : nodes .null = none)
    (honly : ∀ id, nodes id ≠ none →
      factory.nodeView base id ≠ none ∨ ∃ state ∈ states, state.nodeId = id)
    (hdistinct : ((earlier ++ rest).map NodeState.nodeId).Nodup)
    (hordered : Precedes (LooksAt factory base states) earlier rest)
    (hrest : ∀ state ∈ rest, state ∈ states)
    (hcreate : applyAll (factory.createState fuel) rest spaces = some (.good, spaces'))
    (hlast : ∀ id view, factory.nodeView spaces' id = some view → nodes id = some view) :
    Reached factory base asked nodes (earlier ++ rest) spaces' ∧
      ∀ state ∈ rest, Fresh factory base state →
        (∃ view, nodes state.nodeId = some view ∧
          validateView (without nodes state.nodeId) state = .ok view) ∧
        (state.parentId = .null ∨ ParentIn nodes state) := by
  induction rest generalizing earlier spaces with
  | nil =>
      cases hcreate
      exact ⟨by rwa [List.append_nil], nofun⟩
  | cons state rest ih =>
      obtain ⟨hstate, hrest⟩ := List.forall_mem_cons.mp hrest
      rcases andThen_eq_some.mp hcreate with ⟨spaces₁, hfirst, hlater⟩ | ⟨hbad, -⟩
      · obtain ⟨hnext, -⟩ := h.toPartway.step hasks hstate hfirst
        have hinto : ∀ id view, factory.nodeView spaces₁ id = some view → nodes id = some view :=
          fun id view hview => hlast id view ((hnext.run hasks hrest hlater).2 id view hview)
        have hdistinct' : ((earlier ++ [state] ++ rest).map NodeState.nodeId).Nodup := by
          rwa [List.append_assoc, List.singleton_append]
        obtain ⟨edges, hsound⟩ := h.sound
        by_cases hfresh : Fresh factory base state
        · have hnew := h.new hfresh (distinct_of_nodup hdistinct)
          obtain ⟨view, hchecked, hextends, hparent⟩ := createState_extends hsound h.indexed
            (hasks.children state hstate)
            (hasks.plain spaces edges hsound h.indexed h.within state hstate hfresh)
            (hasks.notSelfSubtype state hstate hfresh) hnew hfirst
          have hlooked := h.lookedAt hfresh hnull honly hordered.1 hnew
          have hview : nodes state.nodeId = some view := by
            refine hinto _ view ?_
            rw [hextends.nodes, Function.update_self]
          have hself : without nodes state.nodeId state.nodeId =
              factory.nodeView spaces state.nodeId := by
            rw [without, Function.update_self, hnew]
          obtain ⟨hreached, hlaterStates⟩ := ih (h.of_extends hfresh hextends hnext hlooked hview)
            hdistinct' hordered.2 hrest hlater
          rw [List.append_assoc, List.singleton_append] at hreached
          refine ⟨hreached, List.forall_mem_cons.mpr ⟨fun _ => ⟨⟨view, hview, ?_⟩, ?_⟩,
            hlaterStates⟩⟩
          · rw [validateView_congr hself hlooked, hchecked]
          · exact hparent.imp_right fun hparent => hparent.mono hinto
        · rw [createState_of_known hsound fuel (h.known hfresh)] at hfirst
          cases hfirst
          obtain ⟨hreached, hlaterStates⟩ := ih (h.of_known hfresh) hdistinct' hordered.2 hrest hlater
          rw [List.append_assoc, List.singleton_append] at hreached
          exact ⟨hreached, List.forall_mem_cons.mpr ⟨fun h => absurd h hfresh, hlaterStates⟩⟩
      · exact absurd rfl hbad

end

/-- A node has at most one type definition among the references. -/
def OneDefinition (triples : Set Triple) : Prop :=
  ∀ sourceId targetId targetId', ⟨StandardId.hasTypeDefinition, sourceId, targetId⟩ ∈ triples →
    ⟨StandardId.hasTypeDefinition, sourceId, targetId'⟩ ∈ triples → targetId = targetId'

theorem createdSlots_mono {states' : List (NodeState V)} (h : ∀ state ∈ states', state ∈ states) :
    createdSlots factory base states' nodes ⊆ createdSlots factory base states nodes :=
  fun _ ⟨state, hstate, hslot⟩ => ⟨state, h state hstate, hslot⟩

theorem Reached.parentHasRoom [Inhabited V]
    (h : Reached factory base asked nodes earlier spaces)
    (hcreates : Creates factory base states nodes)
    (hone : OneDefinition (factory.triples base ∪ createdSlots factory base states nodes))
    (hearlier : ∀ state ∈ earlier, state ∈ states) (hstate : state ∈ states)
    (hfresh : Fresh factory base state) (hnew : factory.nodeView spaces state.nodeId = none)
    (hself : state.NotSelfSubtype)
    (hlooked : ∀ id ∈ state.lookedAt, without nodes state.nodeId id = factory.nodeView spaces id)
    (hparent : ParentIn nodes state) (hnull : state.parentId ≠ .null) :
    ParentHasRoom (factory.nodeView spaces) (factory.triples spaces) state := by
  obtain ⟨edges, hsound⟩ := h.sound
  have hthere : ∀ id ∈ state.lookedAt, id ≠ state.nodeId → factory.nodeView spaces id = nodes id := by
    intro id hid hne
    rw [← hlooked id hid, without, Function.update_of_ne hne]
  have hparentId : state.parentId ∈ state.lookedAt := by simp [NodeState.lookedAt]
  have hwithin : factory.triples spaces ⊆
      factory.triples base ∪ createdSlots factory base states nodes := by
    rw [h.triples]
    exact Set.union_subset_union_right _ (createdSlots_mono hearlier)
  constructor
  case known =>
    by_cases hid : state.parentId = state.nodeId
    · exact .inr hid
    · rw [hthere _ hparentId hid]
      exact .inl hparent.known
  case referenceType =>
    by_cases hid : state.referenceTypeId = state.nodeId
    · obtain ⟨view, hview, hchecked⟩ := hcreates.checked state hstate hfresh
      have hclass := hparent.referenceType
      rw [IsOf, hid, hview, Option.map_some, Option.some_inj,
        validateView_nodeClass hchecked] at hclass
      exact .inr ⟨hid, hclass⟩
    · have hclass := hparent.referenceType
      rw [IsOf, ← hthere _ (by simp [NodeState.lookedAt]) hid] at hclass
      exact .inl hclass
  case definition =>
    intro htype
    have hslot : ⟨StandardId.hasTypeDefinition, state.parentId, state.nodeId⟩ ∈
        factory.triples base ∪ createdSlots factory base states nodes :=
      .inr ⟨state, hstate, hfresh, .inr ⟨by rw [htype], hnull⟩⟩
    have hgone : ∀ sourceId targetId, ⟨StandardId.hasTypeDefinition, sourceId, targetId⟩ ∈
        factory.triples spaces → targetId ≠ state.nodeId := by
      rintro sourceId targetId hmem rfl
      obtain ⟨edge, -, -, -, htarget⟩ := (hsound.mem_triples h.indexed).mp hmem
      have hfound := h.indexed edge.target _ htarget
      rw [hsound.nodeView_eq_none.mp hnew] at hfound
      cases hfound
    refine ⟨hparent.definition htype, fun targetId hmem => ?_, fun hid hisType => ?_⟩
    · exact hgone _ _ hmem (hone _ _ _ (hwithin hmem) hslot)
    · have hne : state.typeDefinitionId ≠ state.nodeId := by
        intro heq
        rw [IsType, heq, hnew] at hisType
        cases hisType
      have hisType' : IsType (without nodes state.nodeId) state.typeDefinitionId := by
        rw [IsType, hlooked _ (by simp [NodeState.lookedAt])]
        exact hisType
      have hdefinition : ⟨StandardId.hasTypeDefinition, state.nodeId, state.typeDefinitionId⟩ ∈
          factory.triples base ∪ createdSlots factory base states nodes :=
        .inr ⟨state, hstate, hfresh, .inl ⟨rfl, hisType'⟩⟩
      rw [hid] at hslot
      exact hne (hone _ _ _ hdefinition hslot)
  case supertype =>
    intro htype hclass
    have hne : state.parentId ≠ state.nodeId := by
      intro hid
      rw [hself hnull hid htype] at hclass
      cases hclass
    refine ⟨?_, hne⟩
    rw [IsType, hthere _ hparentId hne]
    exact hparent.supertype htype hclass

/-- **The nodes are created in any order** in which what a state looks at comes
before it. -/
theorem Reached.run [Inhabited V] (hasks : Asks factory base states asked)
    (hcreates : Creates factory base states nodes)
    (hone : OneDefinition (factory.triples base ∪ createdSlots factory base states nodes))
    {rest : List (NodeState V)} (h : Reached factory base asked nodes earlier spaces)
    (hdistinct : ((earlier ++ rest).map NodeState.nodeId).Nodup)
    (hordered : Precedes (LooksAt factory base states) earlier rest)
    (hearlier : ∀ state ∈ earlier, state ∈ states) (hrest : ∀ state ∈ rest, state ∈ states)
    (fuel : ℕ) :
    ∃ spaces', applyAll (factory.createState (fuel + 2)) rest spaces = some (.good, spaces') ∧
      Reached factory base asked nodes (earlier ++ rest) spaces' := by
  induction rest generalizing earlier spaces with
  | nil => exact ⟨spaces, rfl, by rwa [List.append_nil]⟩
  | cons state rest ih =>
      obtain ⟨hstate, hrest⟩ := List.forall_mem_cons.mp hrest
      have hdistinct' : ((earlier ++ [state] ++ rest).map NodeState.nodeId).Nodup := by
        rwa [List.append_assoc, List.singleton_append]
      have hearlier' : ∀ other ∈ earlier ++ [state], other ∈ states := by
        intro other hother
        rcases List.mem_append.mp hother with hother | hother
        · exact hearlier other hother
        · rwa [List.mem_singleton.mp hother]
      obtain ⟨edges, hsound⟩ := h.sound
      have hstep : ∃ spaces₁, factory.createState (fuel + 2) spaces state = some (.good, spaces₁) ∧
          Reached factory base asked nodes (earlier ++ [state]) spaces₁ := by
        by_cases hfresh : Fresh factory base state
        · have hnew := h.new hfresh (distinct_of_nodup hdistinct)
          have hlooked := h.lookedAt hfresh hcreates.null hcreates.only hordered.1 hnew
          have hself : without nodes state.nodeId state.nodeId =
              factory.nodeView spaces state.nodeId := by
            rw [without, Function.update_self, hnew]
          obtain ⟨view, hview, hchecked⟩ := hcreates.checked state hstate hfresh
          rw [validateView_congr hself hlooked] at hchecked
          have hparent : state.parentId = .null ∨
              ParentHasRoom (factory.nodeView spaces) (factory.triples spaces) state := by
            by_cases hnull : state.parentId = .null
            · exact .inl hnull
            · have hparentIn := (hcreates.parent state hstate hfresh).resolve_left hnull
              exact .inr (h.parentHasRoom hcreates hone hearlier hstate hfresh hnew
                (hasks.notSelfSubtype state hstate hfresh) hlooked hparentIn hnull)
          have hplain := hasks.plain spaces edges hsound h.indexed h.within state hstate hfresh
          obtain ⟨spaces₁, hcreate⟩ := createState_good hsound h.indexed
            (hasks.children state hstate) hplain hnew hchecked hparent fuel
          obtain ⟨view', hchecked', hextends, -⟩ := createState_extends hsound h.indexed
            (hasks.children state hstate) hplain (hasks.notSelfSubtype state hstate hfresh) hnew hcreate
          obtain rfl : view = view' := Except.ok.inj (hchecked.symm.trans hchecked')
          exact ⟨spaces₁, hcreate, h.of_extends hfresh hextends
            (h.toPartway.step hasks hstate hcreate).1 hlooked hview⟩
        · exact ⟨spaces, createState_of_known hsound _ (h.known hfresh), h.of_known hfresh⟩
      obtain ⟨spaces₁, hcreate, hreached⟩ := hstep
      obtain ⟨spaces', hlater, hlast⟩ := ih hreached hdistinct' hordered.2 hearlier' hrest
      rw [List.append_assoc, List.singleton_append] at hlast
      exact ⟨spaces', andThen_eq_some.mpr (.inl ⟨spaces₁, hcreate, hlater⟩), hlast⟩

theorem Reached.start (hsound : Sound factory base edges) (hindexed : factory.Indexed base)
    (hwithin : factory.triples base ⊆ asked)
    (hinto : ∀ id view, factory.nodeView base id = some view → nodes id = some view) :
    Reached factory base asked nodes [] base := by
  have hnone : createdSlots factory base [] nodes = ∅ := by
    ext triple
    simp [createdSlots]
  exact ⟨.start hsound hindexed hwithin, hinto, by rw [hnone, Set.union_empty]⟩

theorem oneDefinition_triples (hsound : Sound factory spaces edges)
    (hindexed : factory.Indexed spaces) : OneDefinition (factory.triples spaces) :=
  fun _ _ _ hmem hmem' => hsound.typeDefinition_unique hindexed hmem hmem'

/-- **What a run creates.** -/
theorem creates_of_run [Inhabited V] (hsound : Sound factory base edges)
    (hindexed : factory.Indexed base) (hasks : Asks factory base states asked) {fuel : ℕ}
    (hdistinct : (states.map NodeState.nodeId).Nodup)
    (hordered : Precedes (LooksAt factory base states) [] states)
    (hcreate : applyAll (factory.createState fuel) states base = some (.good, spaces)) :
    Creates factory base states (factory.nodeView spaces) ∧
      Reached factory base asked (factory.nodeView spaces) states spaces := by
  have hstart : Partway factory base asked [] base := .start hsound hindexed hasks.start
  obtain ⟨hpartway, hinto⟩ := hstart.run hasks (fun _ h => h) hcreate
  obtain ⟨edges', hsound'⟩ := hpartway.sound
  have hnull : factory.nodeView spaces .null = none :=
    hsound'.nodeView_eq_none.mpr hsound'.getNode_null
  obtain ⟨hreached, hstates⟩ := (Reached.start hsound hindexed hasks.start hinto).created_run hasks
    hnull hpartway.only hdistinct hordered (fun _ h => h) hcreate fun _ _ h => h
  exact ⟨⟨hnull, hinto, hpartway.only, fun state hstate hfresh => (hstates state hstate hfresh).1,
    fun state hstate hfresh => (hstates state hstate hfresh).2⟩, hreached⟩

/-- **Another order creates the same.** -/
theorem run_of_creates [Inhabited V] (hsound : Sound factory base edges)
    (hindexed : factory.Indexed base) (hasks : Asks factory base states asked)
    (hcreates : Creates factory base states nodes)
    (hone : OneDefinition (factory.triples base ∪ createdSlots factory base states nodes))
    {states' : List (NodeState V)} (hperm : states'.Perm states)
    (hdistinct : (states.map NodeState.nodeId).Nodup)
    (hordered : Precedes (LooksAt factory base states) [] states') (fuel : ℕ) :
    ∃ spaces', applyAll (factory.createState (fuel + 2)) states' base = some (.good, spaces') ∧
      (∃ edges', Sound factory spaces' edges') ∧ factory.Indexed spaces' ∧
        factory.nodeView spaces' = nodes ∧
        factory.triples spaces' = factory.triples base ∪ createdSlots factory base states nodes := by
  obtain ⟨spaces', hcreate, hreached⟩ :=
    (Reached.start hsound hindexed hasks.start hcreates.keeps).run hasks hcreates hone
      ((hperm.map NodeState.nodeId).nodup_iff.mpr hdistinct) hordered nofun
      (fun _ hstate => hperm.mem_iff.mp hstate) fuel
  refine ⟨spaces', hcreate, hreached.sound, hreached.indexed, hreached.nodeView_eq ?_, ?_⟩
  · exact fun id hid => (hcreates.only id hid).imp_right fun ⟨state, hstate, hid⟩ =>
      ⟨state, hperm.mem_iff.mpr hstate, hid⟩
  · rw [hreached.triples, List.nil_append, createdSlots_congr fun _ => hperm.mem_iff]

end GenericNodeFactory

end ScadaCommon.AddressSpace
