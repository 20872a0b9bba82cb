import ScadaCommon.AddressSpace.SafeCreation
import ScadaCommon.AddressSpace.SpaceView

/-!
# Creating nodes without properties

Whether a node without properties is created, and what is seen of it, can be told
from what is seen of the nodes that its state names.

§1 checks · §2 what is created · §3 when it is created.
-/

namespace ScadaCommon.AddressSpace

open Foundation

variable {V : Type} {factory : GenericNodeFactory} {spaces spaces' : Spaces V} {edges : Set Edge}
  {state : NodeState V}

/-! ## §1  Checks -/

/-- `dataTypeOf`, from what is seen of the nodes. -/
def NodeState.dataTypeIn (state : NodeState V) (nodes : NodeId → Option (NodeView V)) :
    Except StatusCode (Option NodeId) :=
  match state.nodeClass with
  | .object => if IsOf nodes .objectType state.typeDefinitionId then .ok none
      else .error .badWrongTypeId
  | .variable =>
      if IsOf nodes .variableType state.typeDefinitionId then
        if state.attributes.dataType = .null then
          .ok ((nodes state.typeDefinitionId).bind NodeView.dataType)
        else if IsOf nodes .dataType state.attributes.dataType then
          .ok (some state.attributes.dataType)
        else .error .badWrongTypeId
      else .error .badWrongTypeId
  | .variableType =>
      if IsOf nodes .dataType state.attributes.dataType then .ok (some state.attributes.dataType)
      else .error .badWrongTypeId
  | .objectType | .referenceType | .dataType | .method => .ok none
  | .view => .error .badWrongNodeClass

namespace GenericNodeFactory

variable (state) in
theorem dataType_view (h : Sound factory spaces edges) :
    (factory.dataType spaces state).map (·.bind spaces.heap.idOf) =
      if IsOf (factory.nodeView spaces) .dataType state.attributes.dataType then
        .ok (some state.attributes.dataType) else .error .badWrongTypeId := by
  unfold dataType
  cases htype : asClass spaces .dataType (factory.getNode spaces state.attributes.dataType) with
  | none =>
      have hnot : ¬ IsOf (factory.nodeView spaces) .dataType state.attributes.dataType := by
        intro hisOf
        obtain ⟨type, hfound⟩ := h.finds_iff.mpr hisOf
        rw [htype] at hfound
        cases hfound
      rw [if_neg hnot]
      rfl
  | some type =>
      have hisOf : IsOf (factory.nodeView spaces) .dataType state.attributes.dataType :=
        h.finds_iff.mp ⟨type, htype⟩
      rw [if_pos hisOf]
      simp [Except.map, h.wellFormed.getNode_idOf (asClass_eq_some.mp htype).1]

theorem asClass_eq_none {nodeClass : NodeClass} {id : NodeId} (h : Sound factory spaces edges) :
    asClass spaces nodeClass (factory.getNode spaces id) = none ↔
      ¬ IsOf (factory.nodeView spaces) nodeClass id := by
  rw [Option.eq_none_iff_forall_ne_some, ← not_exists, not_iff_not]
  exact h.finds_iff

theorem isOf_of_asClass {nodeClass : NodeClass} {id : NodeId} {ptr : NodePtr}
    (h : Sound factory spaces edges)
    (hptr : asClass spaces nodeClass (factory.getNode spaces id) = some ptr) :
    IsOf (factory.nodeView spaces) nodeClass id :=
  h.finds_iff.mp ⟨ptr, hptr⟩

variable (state) in
/-- The data type can be told from the view. -/
theorem dataTypeOf_view (h : Sound factory spaces edges) :
    (factory.dataTypeOf spaces state).map (·.bind spaces.heap.idOf) =
      state.dataTypeIn (factory.nodeView spaces) := by
  have hnamed := dataType_view state h
  unfold dataTypeOf NodeState.dataTypeIn typeDefinition
  cases hclass : state.nodeClass with
  | object =>
      simp only
      rw [asClass_asTypeDefinition rfl]
      cases htype : asClass spaces .objectType (factory.getNode spaces state.typeDefinitionId) with
      | none => rw [if_neg ((asClass_eq_none h).mp htype)]; rfl
      | some type => rw [if_pos (isOf_of_asClass h htype)]; rfl
  | «variable» =>
      simp only
      rw [asClass_asTypeDefinition rfl]
      cases htype : asClass spaces .variableType (factory.getNode spaces state.typeDefinitionId) with
      | none => rw [if_neg ((asClass_eq_none h).mp htype)]; rfl
      | some type =>
          rw [if_pos (isOf_of_asClass h htype)]
          by_cases hnull : state.attributes.dataType = .null
          · obtain ⟨hfound, htypeClass⟩ := asClass_eq_some.mp htype
            obtain ⟨typeNode, htypeNode, -⟩ := Option.map_eq_some_iff.mp htypeClass
            simp [hnull, Except.map, nodeView, hfound, htypeNode, NodeHeap.attributesOf,
              NodeHeap.dataView]
          · simp only [if_neg hnull]
            exact hnamed
  | variableType => exact hnamed
  | objectType => rfl
  | referenceType => rfl
  | dataType => rfl
  | method => rfl
  | view => rfl

variable [Inhabited V]

/-- `validate`, from what is seen of the nodes. -/
def validateView (nodes : NodeId → Option (NodeView V)) (state : NodeState V) :
    Except StatusCode (NodeView V) :=
  if state.nodeId = .null then .error .badWrongNodeId
  else if state.NeedsParent ∧ state.parentId = .null then .error .badWrongParentId
  else if state.NeedsParent ∧ state.referenceTypeId = .null then .error .badWrongReferenceId
  else if (nodes state.nodeId).isSome then .error .badDuplicateNodeId
  else do
    let dataType ← state.dataTypeIn nodes
    let value ← valueOf state
    return {
      nodeClass := state.nodeClass
      browseName := state.attributes.browseName
      displayName := state.attributes.displayName
      inverseName := if state.nodeClass = .referenceType then state.attributes.inverseName else ""
      dataType
      value }

variable (state) in
/-- What is seen of a new node can be told from the view. -/
theorem validate_view (h : Sound factory spaces edges) :
    (factory.validate spaces state state.parentId).map (spaces.heap.dataView state.nodeClass) =
      validateView (factory.nodeView spaces) state := by
  have hsome : (factory.getNode spaces state.nodeId).isSome =
      (factory.nodeView spaces state.nodeId).isSome := by
    rw [Bool.eq_iff_iff, Option.isSome_iff_ne_none, Option.isSome_iff_ne_none, Ne, Ne,
      h.nodeView_eq_none]
  have hdataType := dataTypeOf_view state h
  unfold validate validateView
  split
  · rfl
  · split
    · rfl
    · split
      · rfl
      · rw [hsome]
        split
        · rfl
        · rw [← hdataType]
          cases factory.dataTypeOf spaces state with
          | error status => rfl
          | ok dataType =>
              cases valueOf state with
              | error status => rfl
              | ok value => rfl

/-! ## §2  What is created -/

/-- The type definition that a new node comes with. -/
def definitionSlot (nodes : NodeId → Option (NodeView V)) (state : NodeState V) : Set Triple :=
  {triple | triple = ⟨StandardId.hasTypeDefinition, state.nodeId, state.typeDefinitionId⟩ ∧
    IsType nodes state.typeDefinitionId}

/-- The reference from its parent. -/
def parentSlot (state : NodeState V) : Set Triple :=
  {triple | triple = ⟨state.referenceTypeId, state.parentId, state.nodeId⟩ ∧
    state.parentId ≠ .null}

/-- The references that a new node comes with. -/
def slots (nodes : NodeId → Option (NodeView V)) (state : NodeState V) : Set Triple :=
  definitionSlot nodes state ∪ parentSlot state

omit [Inhabited V] in
theorem isType_iff (h : Sound factory spaces edges) {id : NodeId} :
    IsType (factory.nodeView spaces) id ↔
      ∃ ptr, factory.getNode spaces id = some ptr ∧
        (spaces.heap.classOf ptr).any NodeClass.isTypeDefinition = true := by
  unfold IsType nodeView
  cases hptr : factory.getNode spaces id with
  | none => simp
  | some ptr =>
      obtain ⟨node, hnode⟩ := h.nodeOf (h.wellFormed.getNode_lt hptr)
      simp [hnode, NodeHeap.classOf, NodeHeap.dataView]

omit [Inhabited V] in
theorem typeDefinition_eq_some {type : NodePtr} : factory.typeDefinition spaces state = some type ↔
    factory.getNode spaces state.typeDefinitionId = some type ∧
      (spaces.heap.classOf type).any NodeClass.isTypeDefinition = true := by
  rw [typeDefinition, asTypeDefinition, Option.filter_eq_some_iff]

omit [Inhabited V] in
/-- The type, if it declares nothing. -/
theorem attachPlain_eq_some
    {create : Spaces V → NodeState V → NodeId → Option (StatusCode × Spaces V)}
    {spaces₁ spaces₂ : Spaces V} (hwell : WellFormed spaces)
    (hplain : factory.NewProperties spaces state [])
    (hstart : factory.Building spaces state.nodeId state.nodeClass [] spaces₁)
    (h : factory.attachType create state spaces.heap.next (factory.typeDefinition spaces state)
      spaces₁ = some (.good, spaces₂)) :
    match factory.typeDefinition spaces state with
    | none => spaces₂ = spaces₁
    | some type => ∃ hasTypeDefinition,
        factory.getNode spaces₁ StandardId.hasTypeDefinition = some hasTypeDefinition ∧
          spaces₁.addReference hasTypeDefinition spaces.heap.next type = some spaces₂ := by
  unfold NewProperties at hplain
  cases htype : factory.typeDefinition spaces state with
  | none =>
      rw [htype] at h
      cases h
      rfl
  | some type =>
      rw [htype] at h hplain
      obtain ⟨hasTypeDefinition, spaces₂', hfound, hadd, hmissing⟩ := attachType_eq_some h
      refine ⟨hasTypeDefinition, hfound, ?_⟩
      split at hmissing
      · rename_i hcreate
        have hbuilding := hstart.addReference hadd le_rfl (.inl (by
          rw [hstart.wellFormed.getNode_idOf hfound]
          decide))
        simp only [if_pos hcreate] at hplain
        have hquiet := (agrees_declares hbuilding.agrees hwell.bounded
          (typeDefinition_lt hwell htype)).mpr hplain
        cases createMissingProperties_quiet hquiet hmissing
        exact hadd
      · cases hmissing
        exact hadd

omit [Inhabited V] in
theorem attachParent_eq_good {ptr : NodePtr}
    (h : factory.attachParent state state.parentId ptr spaces = some (.good, spaces')) :
    (state.parentId = .null ∧ spaces' = spaces) ∨
      (state.parentId ≠ .null ∧ ∃ parent type,
        factory.getNode spaces state.parentId = some parent ∧
          asClass spaces .referenceType (factory.getNode spaces state.referenceTypeId) =
            some type ∧
            spaces.addReference type parent ptr = some spaces') := by
  unfold attachParent at h
  split at h
  · rename_i hnull
    cases h
    exact .inl ⟨hnull, rfl⟩
  · rename_i hnull
    split at h
    · cases h
    · rename_i parent hparent
      split at h
      · cases h
      · rename_i type htype
        obtain ⟨spaces₁, hadd, heq⟩ := Option.map_eq_some_iff.mp h
        cases heq
        exact .inr ⟨hnull, parent, type, hparent, htype, hadd⟩

/-- The steps of `CreateNode` for a node without properties. -/
theorem createPlain_eq_some {fuel : ℕ} (hwell : WellFormed spaces) (hchildren : state.children = [])
    (hproperties : state.properties = []) (hplain : factory.NewProperties spaces state [])
    (h : factory.createNode fuel spaces state = some (.good, spaces')) :
    ∃ data spaces₁ spaces₂, factory.validate spaces state state.parentId = .ok data ∧
      spaces.addNode (factory.space :: factory.parents) factory.space state.nodeId
        state.nodeClass data true = some spaces₁ ∧
      (match factory.typeDefinition spaces state with
        | none => spaces₂ = spaces₁
        | some type => ∃ hasTypeDefinition,
            factory.getNode spaces₁ StandardId.hasTypeDefinition = some hasTypeDefinition ∧
              spaces₁.addReference hasTypeDefinition spaces.heap.next type = some spaces₂) ∧
      ((state.parentId = .null ∧ spaces' = spaces₂) ∨
        (state.parentId ≠ .null ∧ ∃ parent type,
          factory.getNode spaces₂ state.parentId = some parent ∧
            asClass spaces₂ .referenceType (factory.getNode spaces₂ state.referenceTypeId) =
              some type ∧
              spaces₂.addReference type parent spaces.heap.next = some spaces')) := by
  cases fuel with
  | zero => cases h
  | succ fuel =>
      rcases createNodeHelper_eq_some h with ⟨hvalidate, -⟩ | ⟨data, spaces₁, hvalidate, hadd, h⟩
      · exact absurd rfl (validate_ne_good hvalidate)
      · rcases andThen_eq_some.mp h with ⟨spaces₂, hattach, h⟩ | ⟨hbad, -⟩
        · rcases andThen_eq_some.mp h with ⟨spaces₃, hparent, h⟩ | ⟨hbad, -⟩
          · rw [complete_eq hchildren hproperties] at h
            cases h
            refine ⟨data, spaces₁, spaces₂, hvalidate, hadd, ?_, ?_⟩
            · exact attachPlain_eq_some hwell hplain
                (.start hwell hadd (validate_dataType_lt hwell hvalidate)) hattach
            · exact attachParent_eq_good hparent
          · exact absurd rfl hbad
        · exact absurd rfl hbad

/-- The node and these references are what is seen anew. -/
structure Extends (factory : GenericNodeFactory) (spaces : Spaces V) (state : NodeState V)
    (view : NodeView V) (own : Set Triple) (spaces' : Spaces V) : Prop where
  sound : ∃ edges, Sound factory spaces' edges
  indexed : factory.Indexed spaces'
  nodes : factory.nodeView spaces' =
    Function.update (factory.nodeView spaces) state.nodeId (some view)
  triples : factory.triples spaces' = factory.triples spaces ∪ own

omit [Inhabited V] in
theorem Extends.addReference {view : NodeView V} {own : Set Triple} {spaces₁ spaces₂ : Spaces V}
    {type source target : NodePtr} {typeId sourceId targetId : NodeId}
    (h : Extends factory spaces state view own spaces₁)
    (hadd : spaces₁.addReference type source target = some spaces₂)
    (htype : factory.getNode spaces₁ typeId = some type)
    (hsource : factory.getNode spaces₁ sourceId = some source)
    (htarget : factory.getNode spaces₁ targetId = some target)
    (hcycle : spaces₁.heap.NoCycle typeId source target) :
    Extends factory spaces state view (insert ⟨typeId, sourceId, targetId⟩ own) spaces₂ := by
  obtain ⟨edges, hsound⟩ := h.sound
  have hid := hsound.wellFormed.getNode_idOf htype
  obtain ⟨heap, hheap, rfl⟩ := AddressSpaces.addReference_eq_some hadd
  have hsound' := hsound.addReference hid hcycle hheap
  refine ⟨⟨_, hsound'⟩, h.indexed.addReference hadd, ?_, ?_⟩
  · rw [nodeView_addReference hadd, h.nodes]
  · rw [hsound.triples_addReference h.indexed hadd hsound' hid
      (hsound.wellFormed.getNode_idOf hsource) (hsound.wellFormed.getNode_idOf htarget), h.triples,
      Set.union_insert]

theorem extends_addNode (hsound : Sound factory spaces edges) (hindexed : factory.Indexed spaces)
    {data : NodeData V} (hvalidate : factory.validate spaces state state.parentId = .ok data)
    (hadd : spaces.addNode (factory.space :: factory.parents) factory.space state.nodeId
      state.nodeClass data true = some spaces') :
    Extends factory spaces state (spaces.heap.dataView state.nodeClass data) ∅ spaces' := by
  have hdata := validate_dataType_lt hsound.wellFormed hvalidate
  have hsound' := hsound.addNode hadd hdata (validate_typed hsound.typed hvalidate)
  refine ⟨⟨edges, hsound'⟩, hindexed.addNode hadd, ?_, ?_⟩
  · funext id
    rw [hsound.nodeView_addNode hadd hdata, Function.update_apply]
  · rw [hsound.triples_addNode hadd hindexed hsound', Set.union_empty]

omit [Inhabited V] in
/-- The type of a new node. -/
theorem extends_attachType {view : NodeView V} {spaces₁ spaces₂ : Spaces V}
    (hsound : Sound factory spaces edges) (hextends : Extends factory spaces state view ∅ spaces₁)
    (hbuilding : factory.Building spaces state.nodeId state.nodeClass [] spaces₁)
    (htyped : match factory.typeDefinition spaces state with
      | none => spaces₂ = spaces₁
      | some type => ∃ hasTypeDefinition,
          factory.getNode spaces₁ StandardId.hasTypeDefinition = some hasTypeDefinition ∧
            spaces₁.addReference hasTypeDefinition spaces.heap.next type = some spaces₂) :
    Extends factory spaces state view (definitionSlot (factory.nodeView spaces) state) spaces₂ ∧
      factory.Building spaces state.nodeId state.nodeClass [] spaces₂ := by
  cases htype : factory.typeDefinition spaces state with
  | none =>
      rw [htype] at htyped
      have hslot : definitionSlot (factory.nodeView spaces) state = ∅ := by
        ext triple
        simp only [definitionSlot, Set.mem_ofPred_eq, Set.mem_empty_iff_false, iff_false, not_and]
        rintro - hisType
        obtain ⟨type, hfound⟩ := (isType_iff hsound).mp hisType
        rw [typeDefinition_eq_some.mpr hfound] at htype
        cases htype
      rw [hslot, htyped]
      exact ⟨hextends, hbuilding⟩
  | some type =>
      rw [htype] at htyped
      obtain ⟨hasTypeDefinition, hfound, hadd⟩ := htyped
      obtain ⟨htypeFound, hisType⟩ := typeDefinition_eq_some.mp htype
      have hslot : definitionSlot (factory.nodeView spaces) state =
          {⟨StandardId.hasTypeDefinition, state.nodeId, state.typeDefinitionId⟩} := by
        ext triple
        simp only [definitionSlot, Set.mem_ofPred_eq, Set.mem_singleton_iff, and_iff_left_iff_imp]
        exact fun _ => (isType_iff hsound).mpr ⟨type, htypeFound, hisType⟩
      have hother : state.typeDefinitionId ∉ [state.nodeId] := by
        intro hmem
        rw [List.mem_singleton.mp hmem, hbuilding.free _ List.mem_cons_self] at htypeFound
        cases htypeFound
      have hne : StandardId.hasTypeDefinition ≠ StandardId.hasSubtype := by decide
      have hextends' := hextends.addReference hadd hfound (getNode_own hbuilding.self)
        ((hbuilding.getNode_other hother).trans htypeFound) fun heq => absurd heq hne
      rw [hslot, Set.singleton_def]
      refine ⟨hextends', hbuilding.addReference hadd le_rfl (.inl ?_)⟩
      rw [hbuilding.wellFormed.getNode_idOf hfound]
      decide

/-- The parent of a new node is there, its reference is one, and it has room. -/
structure ParentIn (nodes : NodeId → Option (NodeView V)) (state : NodeState V) : Prop where
  known : nodes state.parentId ≠ none
  referenceType : IsOf nodes .referenceType state.referenceTypeId
  definition : state.referenceTypeId = StandardId.hasTypeDefinition →
    state.nodeClass.isTypeDefinition = true
  supertype : state.referenceTypeId = StandardId.hasSubtype →
    state.nodeClass.isTypeDefinition = true → IsType nodes state.parentId

/-- **What is seen of a node without properties**: the node, its type and its
parent. -/
theorem createPlain_extends {fuel : ℕ} (hsound : Sound factory spaces edges)
    (hindexed : factory.Indexed spaces) (hchildren : state.children = [])
    (hproperties : state.properties = []) (hplain : factory.NewProperties spaces state [])
    (hself : state.parentId ≠ .null → state.parentId = state.nodeId →
      state.referenceTypeId = StandardId.hasSubtype → state.nodeClass.isTypeDefinition = false)
    (h : factory.createNode fuel spaces state = some (.good, spaces')) :
    ∃ view, validateView (factory.nodeView spaces) state = .ok view ∧
      Extends factory spaces state view (slots (factory.nodeView spaces) state) spaces' ∧
        (state.parentId = .null ∨ ParentIn (factory.nodeView spaces') state) := by
  obtain ⟨data, spaces₁, spaces₂, hvalidate, hadd, htyped, hparented⟩ :=
    createPlain_eq_some hsound.wellFormed hchildren hproperties hplain h
  have hview : validateView (factory.nodeView spaces) state =
      .ok (spaces.heap.dataView state.nodeClass data) := by
    rw [← validate_view state hsound, hvalidate]
    rfl
  refine ⟨_, hview, ?_⟩
  have hdata := validate_dataType_lt hsound.wellFormed hvalidate
  obtain ⟨hextends, hbuilding⟩ := extends_attachType hsound
    (extends_addNode hsound hindexed hvalidate hadd) (.start hsound.wellFormed hadd hdata) htyped
  have hnode : factory.getNode spaces₂ state.nodeId = some spaces.heap.next :=
    getNode_own hbuilding.self
  rcases hparented with ⟨hnull, rfl⟩ | ⟨hnull, parent, type, hparent, htype, hadd⟩
  · refine ⟨⟨hextends.sound, hextends.indexed, hextends.nodes, ?_⟩, .inl hnull⟩
    have hnone : parentSlot state = ∅ := by
      ext triple
      simp [parentSlot, hnull]
    rw [hextends.triples, slots, hnone, Set.union_empty]
  · obtain ⟨edges₂, hsound₂⟩ := hextends.sound
    obtain ⟨hfound, hclass⟩ := asClass_eq_some.mp htype
    have hcycle : spaces₂.heap.NoCycle state.referenceTypeId parent spaces.heap.next := by
      by_cases hid : state.parentId = state.nodeId
      · intro hsubtype hisType
        rw [hbuilding.selfClass, Option.any_some, hself hnull hid hsubtype] at hisType
        cases hisType
      · rw [hbuilding.getNode_other (by simpa using hid)] at hparent
        exact hbuilding.noCycle hsound (hsound.wellFormed.getNode_lt hparent)
    have hextends' := hextends.addReference hadd hfound hparent hnode hcycle
    have hslots : slots (factory.nodeView spaces) state =
        insert ⟨state.referenceTypeId, state.parentId, state.nodeId⟩
          (definitionSlot (factory.nodeView spaces) state) := by
      have hone : parentSlot state =
          {⟨state.referenceTypeId, state.parentId, state.nodeId⟩} := by
        ext triple
        simp [parentSlot, hnull]
      rw [slots, hone, Set.union_singleton]
    rw [hslots]
    refine ⟨hextends', .inr ?_⟩
    obtain ⟨heap, hheap, heq⟩ := AddressSpaces.addReference_eq_some hadd
    obtain ⟨hdefinition, hsupertype⟩ := NodeHeap.classes_of_addReference
      (hsound₂.wellFormed.getNode_idOf hfound) hheap
    rw [hbuilding.selfClass, Option.any_some] at hdefinition hsupertype
    rw [nodeView_addReference hadd]
    constructor
    case known =>
      rw [Ne, hsound₂.nodeView_eq_none, hparent]
      nofun
    case referenceType => exact hsound₂.finds_iff.mp ⟨type, htype⟩
    case definition => exact hdefinition
    case supertype =>
      exact fun hsubtype hisType => (isType_iff hsound₂).mpr
        ⟨parent, hparent, hsupertype hsubtype hisType⟩

/-! ## §3  When it is created -/

/-- The parent has room for the node. -/
structure ParentHasRoom (nodes : NodeId → Option (NodeView V)) (triples : Set Triple)
    (state : NodeState V) : Prop where
  known : nodes state.parentId ≠ none ∨ state.parentId = state.nodeId
  referenceType : IsOf nodes .referenceType state.referenceTypeId ∨
    (state.referenceTypeId = state.nodeId ∧ state.nodeClass = .referenceType)
  definition : state.referenceTypeId = StandardId.hasTypeDefinition →
    state.nodeClass.isTypeDefinition = true ∧
      (∀ targetId, ⟨StandardId.hasTypeDefinition, state.parentId, targetId⟩ ∉ triples) ∧
        (state.parentId = state.nodeId → ¬ IsType nodes state.typeDefinitionId)
  supertype : state.referenceTypeId = StandardId.hasSubtype →
    state.nodeClass.isTypeDefinition = true → IsType nodes state.parentId ∧
      state.parentId ≠ state.nodeId

omit [Inhabited V] in
theorem newProperties_unique {declared declared' : List (PropertyDeclaration V)}
    (h : factory.NewProperties spaces state declared)
    (h' : factory.NewProperties spaces state declared') : declared = declared' := by
  unfold NewProperties at h h'
  cases htype : factory.typeDefinition spaces state with
  | none =>
      rw [htype] at h h'
      exact h.trans h'.symm
  | some type =>
      rw [htype] at h h'
      by_cases hcreate : factory.createProperties = true
      · simp only [if_pos hcreate] at h h'
        exact declares_unique h h'
      · simp only [if_neg hcreate] at h h'
        exact h.trans h'.symm

omit [Inhabited V] in
theorem ParentHasRoom.safe (hsound : Sound factory spaces edges)
    (hindexed : factory.Indexed spaces)
    (h : ParentHasRoom (factory.nodeView spaces) (factory.triples spaces) state) :
    factory.ParentSafe spaces state [] := by
  constructor
  case earlier =>
    intro parent parentNode hfound hparent
    have hid : parentNode.id = state.parentId := by
      have hid := hsound.wellFormed.getNode_idOf hfound
      rw [NodeHeap.idOf, hparent, Option.map_some, Option.some_inj] at hid
      exact hid
    constructor
    case definition =>
      intro htype
      obtain ⟨hclass, hnone, -⟩ := h.definition htype
      exact ⟨hsound.typeDefinition_eq_none hindexed hparent (hid ▸ hnone), hclass⟩
    case supertype =>
      intro htype hclass
      obtain ⟨ptr, hptr, hisType⟩ := (isType_iff hsound).mp (h.supertype htype hclass).1
      rw [hfound, Option.some_inj] at hptr
      subst hptr
      rw [NodeHeap.classOf, hparent, Option.map_some, Option.any_some] at hisType
      exact hisType
  case self =>
    intro hid
    refine ⟨⟨fun htype => ?_, fun _ hclass => hclass⟩, fun htype => ?_⟩
    · obtain ⟨hclass, -, hnot⟩ := h.definition htype
      refine ⟨?_, hclass⟩
      rw [Option.eq_none_iff_forall_ne_some]
      intro type hdefinition
      exact hnot hid ((isType_iff hsound).mpr ⟨type, typeDefinition_eq_some.mp hdefinition⟩)
    · by_contra hclass
      exact (h.supertype htype (by simpa using hclass)).2 hid
  case property => exact fun hmem => absurd hmem List.not_mem_nil

omit [Inhabited V] in
theorem parentSafe_of_null (hsound : Sound factory spaces edges) (hid : state.nodeId ≠ .null)
    (hnull : state.parentId = .null) : factory.ParentSafe spaces state [] := by
  constructor
  case earlier =>
    intro parent parentNode hfound
    rw [hnull, hsound.getNode_null] at hfound
    cases hfound
  case self => exact fun heq => absurd (heq.symm.trans hnull) hid
  case property => exact fun hmem => absurd hmem List.not_mem_nil

/-- **A node without properties is created** if it passes the checks and its parent
has room for it. -/
theorem createPlain_good {view : NodeView V} (hsound : Sound factory spaces edges)
    (hindexed : factory.Indexed spaces) (hchildren : state.children = [])
    (hproperties : state.properties = []) (hplain : factory.NewProperties spaces state [])
    (hchecked : validateView (factory.nodeView spaces) state = .ok view)
    (hparent : state.parentId = .null ∨
      ParentHasRoom (factory.nodeView spaces) (factory.triples spaces) state) (fuel : ℕ) :
    ∃ spaces', factory.createNode (fuel + 2) spaces state = some (.good, spaces') := by
  have hvalid : ∃ data, factory.validate spaces state state.parentId = .ok data := by
    have hmap := validate_view state hsound
    rw [hchecked] at hmap
    cases hvalidate : factory.validate spaces state state.parentId with
    | error status =>
        rw [hvalidate] at hmap
        cases hmap
    | ok data => exact ⟨data, rfl⟩
  obtain ⟨data, hvalidate⟩ := hvalid
  have hok : ¬ factory.Refused spaces state := by
    rintro ⟨status, herror⟩
    rw [hvalidate] at herror
    cases herror
  have hsafe : factory.CreateSafe spaces state := by
    intro _ declared hnew
    obtain rfl := newProperties_unique hnew hplain
    refine ⟨fun h => absurd rfl h, fun _ => ?_⟩
    rcases hparent with hnull | hroom
    · exact parentSafe_of_null hsound (validate_nodeId hvalidate) hnull
    · exact hroom.safe hsound hindexed
  obtain ⟨status, spaces', hcreate, -⟩ :=
    createNode_returns hsound hchildren hproperties hsafe fuel
  have hcompletes : factory.Completes spaces state := by
    refine ⟨[], hplain, trivial, hparent.imp_right fun hroom => ⟨?_, ?_⟩⟩
    · rcases hroom.known with hknown | hid
      · rw [Ne, hsound.nodeView_eq_none] at hknown
        exact .inl hknown
      · exact .inr (.inl hid)
    · exact hroom.referenceType.imp_left hsound.finds_iff.mpr
  have hgood := (good_iff_completes hsound.wellFormed hok hcreate).1 hcompletes
  exact ⟨spaces', hgood ▸ hcreate⟩

end GenericNodeFactory

end ScadaCommon.AddressSpace
