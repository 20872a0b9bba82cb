import ScadaCommon.AddressSpace.CreateNode

/-!
# Is the creation of a node atomic?

An error of `CreateNode` leaves the space as it was if the state is refused
before the node is added. After that there is no way back, so that everything
else must go well: the properties and the parent must fit.

§1 what is never undone · §2 what fits · §3 one property · §4 the whole node
· §5 a node without a parent.
-/

namespace ScadaCommon.AddressSpace

open Foundation

variable {V : Type} {factory : GenericNodeFactory} {spaces spaces' spaces'' : Spaces V}

/-! ## §1  What is never undone -/

namespace GenericNodeFactory

section

variable [Inhabited V]

/-- What each single change of a space does, `CreateNode` does. -/
structure HoldsOfChanges (factory : GenericNodeFactory) (R : Spaces V → Spaces V → Prop) :
    Prop where
  refl : ∀ spaces, R spaces spaces
  trans : ∀ spaces spaces' spaces'', R spaces spaces' → R spaces' spaces'' → R spaces spaces''
  addNode : ∀ spaces spaces' state parentId data,
    factory.validate spaces state parentId = .ok data →
      spaces.addNode (factory.space :: factory.parents) factory.space state.nodeId state.nodeClass
        data true = some spaces' → R spaces spaces'
  addReference : ∀ (spaces spaces' : Spaces V) type source target,
    spaces.addReference type source target = some spaces' → R spaces spaces'
  setPropertyValue : ∀ spaces spaces' node property,
    factory.setPropertyValue node spaces property = some spaces' → R spaces spaces'

variable {R : Spaces V → Spaces V → Prop}
  {create : Spaces V → NodeState V → NodeId → Option (StatusCode × Spaces V)}
  {nodeId parentId : NodeId} {state : NodeState V} {node : NodePtr}
  {result : StatusCode × Spaces V}

variable (hR : factory.HoldsOfChanges R)

include hR

theorem HoldsOfChanges.foldlM {α : Type} {step : Spaces V → α → Option (Spaces V)}
    (hstep : ∀ spaces a spaces', step spaces a = some spaces' → R spaces spaces')
    {as : List α} (h : as.foldlM step spaces = some spaces') : R spaces spaces' := by
  induction as generalizing spaces with
  | nil =>
      cases h
      exact hR.refl _
  | cons a as ih =>
      obtain ⟨spaces₁, hfirst, h⟩ := Option.bind_eq_some_iff.mp h
      exact hR.trans _ _ _ (hstep _ _ _ hfirst) (ih h)

theorem HoldsOfChanges.andThen {outcome : Option (StatusCode × Spaces V)}
    {next : Spaces V → Option (StatusCode × Spaces V)}
    (houtcome : ∀ result, outcome = some result → R spaces result.2)
    (hnext : ∀ spaces₁ result, next spaces₁ = some result → R spaces₁ result.2)
    (h : andThen outcome next = some result) : R spaces result.2 := by
  rcases andThen_eq_some.mp h with ⟨spaces₁, hfirst, h⟩ | ⟨-, hfirst⟩
  · exact hR.trans _ _ _ (houtcome _ hfirst) (hnext _ _ h)
  · exact houtcome _ hfirst

theorem HoldsOfChanges.attachParent
    (h : factory.attachParent state parentId node spaces = some result) : R spaces result.2 := by
  unfold GenericNodeFactory.attachParent at h
  split at h
  · cases h
    exact hR.refl spaces
  · split at h
    · cases h
      exact hR.refl spaces
    · split at h
      · cases h
        exact hR.refl spaces
      · obtain ⟨spaces', hadd, rfl⟩ := Option.map_eq_some_iff.mp h
        exact hR.addReference _ _ _ _ _ hadd

variable (hcreate : ∀ spaces state parentId result, create spaces state parentId = some result →
  R spaces result.2)

include hcreate

theorem HoldsOfChanges.createDeclaredProperties {refs : List Reference}
    (h : factory.createDeclaredProperties create nodeId refs spaces = some result) :
    R spaces result.2 := by
  induction refs generalizing spaces result with
  | nil =>
      cases h
      exact hR.refl spaces
  | cons ref refs ih =>
      obtain ⟨declaration, -, h⟩ := Option.bind_eq_some_iff.mp h
      cases declaration with
      | none => exact ih h
      | some declaration =>
          obtain ⟨propertyId, -, h⟩ := Option.bind_eq_some_iff.mp h
          exact hR.andThen (hcreate _ _ _) (fun _ _ hrest => ih hrest) h

theorem HoldsOfChanges.createMissingProperties {fuel : ℕ} {type : NodePtr}
    (h : factory.createMissingProperties create nodeId fuel type spaces = some result) :
    R spaces result.2 := by
  induction fuel generalizing type spaces result with
  | zero => cases h
  | succ fuel ih =>
      obtain ⟨typeNode, -, h⟩ := Option.bind_eq_some_iff.mp h
      refine hR.andThen (fun _ hown => hR.createDeclaredProperties hcreate hown) ?_ h
      intro spaces₁ result hrest
      obtain ⟨typeNode, -, hrest⟩ := Option.bind_eq_some_iff.mp hrest
      cases hsupertype : typeNode.supertype with
      | none =>
          rw [hsupertype] at hrest
          cases hrest
          exact hR.refl spaces₁
      | some supertype =>
          rw [hsupertype] at hrest
          exact ih hrest

theorem HoldsOfChanges.attachType {type : Option NodePtr}
    (h : factory.attachType create state node type spaces = some result) : R spaces result.2 := by
  cases type with
  | none =>
      cases h
      exact hR.refl spaces
  | some type =>
      obtain ⟨_, spaces₁, -, hadd, h⟩ := attachType_eq_some h
      have hadded := hR.addReference _ _ _ _ _ hadd
      split at h
      · exact hR.trans _ _ _ hadded (hR.createMissingProperties hcreate h)
      · rwa [h]

theorem HoldsOfChanges.complete (h : factory.complete create state node spaces = some result) :
    R spaces result.2 := by
  obtain ⟨spaces₁, hchildren, h⟩ := Option.bind_eq_some_iff.mp h
  obtain ⟨spaces₂, hproperties, h⟩ := Option.bind_eq_some_iff.mp h
  cases h
  refine hR.trans _ _ _ (hR.foldlM ?_ hchildren) (hR.foldlM ?_ hproperties)
  · intro spaces child spaces' hchild
    obtain ⟨result, hresult, rfl⟩ := Option.map_eq_some_iff.mp hchild
    exact hcreate _ _ _ _ hresult
  · exact fun _ _ _ => hR.setPropertyValue _ _ _ _

/-- What comes after `AddNode`. -/
theorem HoldsOfChanges.attach {type : Option NodePtr}
    (h : AddressSpace.andThen (factory.attachType create state node type spaces)
      (fun spaces => AddressSpace.andThen (factory.attachParent state parentId node spaces)
        (factory.complete create state node)) = some result) : R spaces result.2 := by
  refine hR.andThen (fun _ => hR.attachType hcreate) ?_ h
  intro spaces₁ result hrest
  exact hR.andThen (fun _ => hR.attachParent) (fun _ _ => hR.complete hcreate) hrest

end

/-- No node is taken out or replaced. -/
def Grows (spaces spaces' : Spaces V) : Prop :=
  ∀ place ptr, spaces.nodeMap place = some ptr → spaces'.nodeMap place = some ptr

theorem setPropertyValue_eq_some {node : NodePtr} {property : NodeId × V}
    (h : factory.setPropertyValue node spaces property = some spaces') :
    ∃ ptr child data, spaces.heap.nodes ptr = some child ∧
      data.dataType = child.attributes.dataType ∧
        spaces' = { spaces with
          heap := spaces.heap.set ptr (some { child with attributes := data }) } := by
  obtain ⟨owner, -, h⟩ := Option.bind_eq_some_iff.mp h
  obtain ⟨type, -, h⟩ := Option.bind_eq_some_iff.mp h
  obtain ⟨found, -, h⟩ := Option.bind_eq_some_iff.mp h
  obtain ⟨declaration, -, h⟩ := Option.bind_eq_some_iff.mp h
  obtain ⟨browseName, -, h⟩ := Option.bind_eq_some_iff.mp h
  obtain ⟨found, -, h⟩ := Option.bind_eq_some_iff.mp h
  obtain ⟨child, -, h⟩ := Option.bind_eq_some_iff.mp h
  obtain ⟨childNode, hchild, h⟩ := Option.bind_eq_some_iff.mp h
  obtain ⟨-, h⟩ := check_bind_eq_some.mp h
  cases h
  exact ⟨child, childNode, { childNode.attributes with value := property.2 }, hchild, rfl, rfl⟩

/-- Other attributes of a node. -/
theorem bounded_setAttributes {heap : NodeHeap (NodeData V)} (hbounded : heap.Bounded)
    {ptr : NodePtr} {node : Node (NodeData V)} (hnode : heap.nodes ptr = some node)
    {data : NodeData V} (hdata : data.dataType = node.attributes.dataType) :
    (heap.set ptr (some { node with attributes := data })).Bounded := by
  have hcases : ∀ q qnode, (heap.set ptr (some { node with attributes := data })).nodes q =
      some qnode → ∃ old, heap.nodes q = some old ∧ qnode.supertype = old.supertype ∧
        qnode.forwardReferences = old.forwardReferences ∧
          qnode.attributes.dataType = old.attributes.dataType := by
    intro q qnode hq
    rw [NodeHeap.nodes_set] at hq
    split at hq
    · rename_i heq
      subst heq
      cases hq
      exact ⟨node, hnode, rfl, rfl, hdata⟩
    · exact ⟨qnode, hq, rfl, rfl, rfl⟩
  constructor
  case allocated =>
    intro q qnode hq
    obtain ⟨old, hold, -⟩ := hcases q qnode hq
    exact hbounded.allocated q old hold
  case supertype =>
    intro q qnode hq other hother
    obtain ⟨old, hold, hsupertype, -⟩ := hcases q qnode hq
    exact hbounded.supertype q old hold other (hsupertype ▸ hother)
  case references =>
    intro q qnode hq ref href
    obtain ⟨old, hold, -, hforward, -⟩ := hcases q qnode hq
    exact hbounded.references q old hold ref (hforward ▸ href)
  case dataType =>
    intro q qnode hq other hother
    obtain ⟨old, hold, -, -, hdataType⟩ := hcases q qnode hq
    exact hbounded.dataType q old hold other (hdataType ▸ hother)

theorem wellFormed_setAttributes (hwell : WellFormed spaces) {ptr : NodePtr}
    {node : Node (NodeData V)} (hnode : spaces.heap.nodes ptr = some node) {data : NodeData V}
    (hdata : data.dataType = node.attributes.dataType) :
    WellFormed { spaces with
      heap := spaces.heap.set ptr (some { node with attributes := data }) } := by
  refine ⟨bounded_setAttributes hwell.bounded hnode hdata, fun place q hplace => ?_⟩
  have hid := hwell.mapped place q hplace
  by_cases heq : q = ptr
  · subst heq
    simpa [NodeHeap.idOf, NodeHeap.nodes_set, hnode] using hid
  · simpa [NodeHeap.idOf, NodeHeap.nodes_set, heq] using hid

/-- A child that was found has been looked at. -/
theorem alive_of_findChild {heap : NodeHeap (NodeData V)} {name : String} {refs : List Reference}
    {child : NodePtr} (h : factory.findChild heap name refs = some (some child)) :
    ∃ node, heap.nodes child = some node := by
  induction refs with
  | nil => cases h
  | cons ref refs ih =>
      obtain ⟨isChild, -, h⟩ := Option.bind_eq_some_iff.mp h
      cases isChild with
      | false => exact ih h
      | true =>
          obtain ⟨node, hnode, h⟩ := Option.bind_eq_some_iff.mp h
          obtain ⟨browseName, -, h⟩ := Option.bind_eq_some_iff.mp h
          split at h
          · cases h
            exact ⟨node, hnode⟩
          · exact ih h

section

variable [Inhabited V] {R : Spaces V → Spaces V → Prop} {state : NodeState V} {parentId : NodeId}
  {fuel : ℕ} {status : StatusCode} {spaces₁ : Spaces V}

theorem HoldsOfChanges.createNodeHelper (hR : factory.HoldsOfChanges R)
    (h : factory.createNodeHelper fuel spaces state parentId = some (status, spaces')) :
    R spaces spaces' := by
  induction fuel generalizing spaces state parentId status spaces' with
  | zero => cases h
  | succ fuel ih =>
      rcases createNodeHelper_eq_some h with ⟨-, rfl⟩ | ⟨data, spaces₁, hvalidate, hadd, h⟩
      · exact hR.refl spaces'
      · have hnode := hR.addNode _ _ _ _ _ hvalidate hadd
        exact hR.trans _ _ _ hnode (hR.attach (fun _ _ _ _ => ih) h)

theorem grows_holdsOfChanges :
    factory.HoldsOfChanges (Grows : Spaces V → Spaces V → Prop) where
  refl _ _ _ hplace := hplace
  trans _ _ _ h h' place ptr hplace := h' place ptr (h place ptr hplace)
  addNode spaces spaces' state _ _ _ hadd := by
    obtain ⟨-, -, hfree, -, hmap⟩ := AddressSpaces.addNode_eq_some hadd
    intro place ptr hplace
    rw [hmap, Function.update_of_ne ?_, hplace]
    rintro rfl
    rw [hfree] at hplace
    cases hplace
  addReference spaces spaces' _ _ _ hadd := by
    obtain ⟨heap, -, rfl⟩ := AddressSpaces.addReference_eq_some hadd
    exact fun _ _ hplace => hplace
  setPropertyValue spaces spaces' _ _ hset := by
    obtain ⟨_, _, _, -, -, rfl⟩ := setPropertyValue_eq_some hset
    exact fun _ _ hplace => hplace

theorem wellFormed_holdsOfChanges : factory.HoldsOfChanges
    fun spaces spaces' : Spaces V => WellFormed spaces → WellFormed spaces' where
  refl _ hwell := hwell
  trans _ _ _ h h' hwell := h' (h hwell)
  addNode _ _ _ _ _ hvalidate hadd hwell :=
    hwell.addNode hadd (validate_dataType_lt hwell hvalidate)
  addReference _ _ _ _ _ hadd hwell := hwell.addReference hadd
  setPropertyValue spaces spaces' _ _ hset hwell := by
    obtain ⟨ptr, child, data, hchild, hdata, rfl⟩ := setPropertyValue_eq_some hset
    exact wellFormed_setAttributes hwell hchild hdata

/-- Spaces that the factory fills are well-formed. -/
theorem createNode_wellFormed (hwell : WellFormed spaces)
    (h : factory.createNode fuel spaces state = some (status, spaces')) : WellFormed spaces' :=
  wellFormed_holdsOfChanges.createNodeHelper h hwell

end

/-! ## §2  What fits -/

section

variable (factory : GenericNodeFactory) (spaces : Spaces V) (state : NodeState V)

/-- The id is of a node of the class, if need be of the one that is created. -/
def WillFind (nodeClass : NodeClass) (id : NodeId) : Prop :=
  factory.Finds spaces nodeClass id ∨ (id = state.nodeId ∧ state.nodeClass = nodeClass)

def propertyIds (nodeId : NodeId) (declared : List (PropertyDeclaration V)) : List NodeId :=
  declared.filterMap fun declaration => makeNestedNodeId nodeId declaration.browseName.name

/-- A property can be created after the earlier ones. -/
structure PropertyFits (earlier : List (PropertyDeclaration V))
    (declaration : PropertyDeclaration V) : Prop where
  freeId : ∃ propertyId,
    makeNestedNodeId state.nodeId declaration.browseName.name = some propertyId ∧
      propertyId ∉ propertyIds state.nodeId earlier ∧ factory.getNode spaces propertyId = none
  propertyType : factory.Finds spaces .variableType StandardId.propertyType
  /-- Properties have no properties. -/
  plain : ∀ type, factory.getNode spaces StandardId.propertyType = some type →
    factory.Declares spaces.heap type []
  dataType : declaration.dataTypeId = .null ∨
    factory.WillFind spaces state .dataType declaration.dataTypeId
  hasProperty : factory.WillFind spaces state .referenceType StandardId.hasProperty

/-- What the type of the state asks to be created with it. -/
def NewProperties (declared : List (PropertyDeclaration V)) : Prop :=
  match factory.typeDefinition spaces state with
  | some type =>
      if factory.createProperties = true then factory.Declares spaces.heap type declared
      else declared = []
  | none => declared = []

/-- The parent may be the node itself or one of its properties. -/
def ParentFits (declared : List (PropertyDeclaration V)) : Prop :=
  state.parentId = .null ∨
    ((factory.getNode spaces state.parentId ≠ none ∨ state.parentId = state.nodeId ∨
        state.parentId ∈ propertyIds state.nodeId declared) ∧
      factory.WillFind spaces state .referenceType state.referenceTypeId)

/-- What comes after `AddNode` goes well. -/
def Completes : Prop :=
  ∃ declared, factory.NewProperties spaces state declared ∧
    InOrder (factory.PropertyFits spaces state) [] declared ∧
      factory.ParentFits spaces state declared

/-- The state is refused before `AddNode`. -/
def Refused [Inhabited V] : Prop :=
  ∃ status, factory.validate spaces state state.parentId = .error status

end

/-! ## §3  One property -/

section

variable {state : NodeState V} {earlier : List (PropertyDeclaration V)}
  {declaration : PropertyDeclaration V} {propertyId id nodeId : NodeId} {nodeClass : NodeClass}
  {ids : List NodeId} {fuel : ℕ} {status : StatusCode} {node : NodePtr}
  {create : Spaces V → NodeState V → NodeId → Option (StatusCode × Spaces V)}
  {spaces₂ : Spaces V}

/-- A nested id is longer than the id that it is nested in. -/
theorem makeNestedNodeId_ne {name : String} (h : makeNestedNodeId nodeId name = some id) :
    id ≠ nodeId := by
  unfold makeNestedNodeId at h
  split at h
  · cases h
  · cases nodeId with
    | null => cases h
    | numeric number namespaceIndex =>
        cases h
        nofun
    | string text namespaceIndex =>
        cases h
        intro heq
        have hlength := congrArg String.length (NodeId.string.inj heq).1
        rw [String.length_append, String.length_append] at hlength
        have hone : "!".length = 1 := rfl
        omega
    | opaqueId bytes namespaceIndex => cases h

theorem Building.getNode_eq_none (h : factory.Building spaces nodeId nodeClass ids spaces') :
    factory.getNode spaces' id = none ↔ factory.getNode spaces id = none ∧ id ∉ nodeId :: ids := by
  by_cases hid : id ∈ nodeId :: ids
  · have hsome : ∃ ptr, factory.getNode spaces' id = some ptr := by
      rcases List.mem_cons.mp hid with rfl | hid
      · exact ⟨_, getNode_own h.self⟩
      · obtain ⟨ptr, hptr, -⟩ := h.created id hid
        exact ⟨ptr, getNode_own hptr⟩
    obtain ⟨ptr, hptr⟩ := hsome
    simp [hptr, hid]
  · rw [h.getNode_other hid]
    simp [hid]

theorem propertyIds_append_singleton (hnested :
    makeNestedNodeId nodeId declaration.browseName.name = some propertyId) :
    propertyIds nodeId (earlier ++ [declaration]) = propertyIds nodeId earlier ++ [propertyId] := by
  simp [propertyIds, hnested]

theorem numeric_notMem_propertyIds {number namespaceIndex : ℕ}
    {declared : List (PropertyDeclaration V)} :
    .numeric number namespaceIndex ∉ propertyIds nodeId declared := by
  intro hmem
  obtain ⟨declaration, -, hnested⟩ := List.mem_filterMap.mp hmem
  obtain ⟨-, text, _, heq⟩ := makeNestedNodeId_eq_some hnested
  cases heq

/-- The node is found, so that only the reference type may be missing. -/
theorem attachParent_property {ids' : List NodeId}
    (hwell : WellFormed spaces)
    (hbuilding : factory.Building spaces nodeId nodeClass ids spaces')
    (hbuilding₂ : factory.Building spaces nodeId nodeClass ids' spaces₂)
    (hnull : nodeId ≠ .null) (hnode : spaces.heap.next ≤ node)
    (h : andThen (factory.attachParent (propertyState nodeId propertyId declaration) nodeId node
      spaces₂) (factory.complete create (propertyState nodeId propertyId declaration) node) =
        some (status, spaces'')) :
    (status = .good ∧ factory.Finds spaces' .referenceType StandardId.hasProperty ∧
        factory.Building spaces nodeId nodeClass ids' spaces'') ∨
      (status ≠ .good ∧ ¬ factory.Finds spaces' .referenceType StandardId.hasProperty) := by
  have hreference : (propertyState nodeId propertyId declaration).referenceTypeId =
      StandardId.hasProperty := rfl
  rw [hbuilding.finds_iff hwell (by decide), ← hbuilding₂.finds_iff hwell (by decide), Finds]
  rw [attachParent, if_neg hnull, getNode_own hbuilding₂.self, hreference] at h
  cases htype : asClass spaces₂ .referenceType (factory.getNode spaces₂ StandardId.hasProperty) with
  | none =>
      rw [htype] at h
      cases h
      refine .inr ⟨by decide, ?_⟩
      rintro ⟨type, htype⟩
      cases htype
  | some type =>
      rw [htype] at h
      rcases andThen_eq_some.mp h with ⟨spaces₃, hadd, h⟩ | ⟨hbad, hadd⟩
      · obtain ⟨spaces₃', hadd, heq⟩ := Option.map_eq_some_iff.mp hadd
        cases heq
        cases h
        exact .inl ⟨rfl, ⟨type, rfl⟩, hbuilding₂.addReference hadd le_rfl (.inr hnode)⟩
      · obtain ⟨_, -, heq⟩ := Option.map_eq_some_iff.mp hadd
        cases heq
        exact (hbad rfl).elim

/-- A node whose type declares nothing gets the type and no more. -/
theorem attachType_plain {type : NodePtr} {result : StatusCode × Spaces V}
    {child : NodeState V} (hwell : WellFormed spaces) (hnode : spaces.heap.next ≤ node)
    (hbuilding : factory.Building spaces nodeId nodeClass ids spaces')
    (hlt : type < spaces.heap.next) (hplain : factory.Declares spaces.heap type [])
    (h : factory.attachType create child node (some type) spaces' = some result) :
    result.1 = .good ∧ factory.Building spaces nodeId nodeClass ids result.2 := by
  obtain ⟨hasTypeDefinition, spaces₁, hfound, hadd, hmissing⟩ := attachType_eq_some h
  have hbuilding₁ : factory.Building spaces nodeId nodeClass ids spaces₁ := by
    refine hbuilding.addReference hadd hnode (.inl ?_)
    rw [hbuilding.wellFormed.getNode_idOf hfound]
    simp [StandardId.hasTypeDefinition, StandardId.hasSubtype]
  split at hmissing
  · have hquiet : factory.Declares spaces₁.heap type [] :=
      (agrees_declares hbuilding₁.agrees hwell.bounded hlt).mpr hplain
    obtain rfl := createMissingProperties_quiet hquiet hmissing
    exact ⟨rfl, hbuilding₁⟩
  · subst hmissing
    exact ⟨rfl, hbuilding₁⟩

variable [Inhabited V]

/-- What the checks of a property mean in the space before. -/
theorem propertyFits_iff (hwell : WellFormed spaces)
    (hnode : state.nodeId ≠ StandardId.propertyType)
    (hbuilding : factory.Building spaces state.nodeId state.nodeClass
      (propertyIds state.nodeId earlier) spaces')
    (hnested : makeNestedNodeId state.nodeId declaration.browseName.name = some propertyId) :
    factory.PropertyFits spaces state earlier declaration ↔
      (∃ data, factory.validate spaces' (propertyState state.nodeId propertyId declaration)
          state.nodeId = .ok data) ∧
        (∀ type, factory.getNode spaces StandardId.propertyType = some type →
          factory.Declares spaces.heap type []) ∧
            factory.Finds spaces' .referenceType StandardId.hasProperty := by
  have hnot : ¬ (StandardId.propertyType = state.nodeId ∧ state.nodeClass = .variableType) :=
    fun h => hnode h.1.symm
  have hne := makeNestedNodeId_ne hnested
  have hfinds : ∀ otherClass id, otherClass ≠ .variable →
      (factory.Finds spaces' otherClass id ↔ factory.WillFind spaces state otherClass id) :=
    fun _ _ hclass => hbuilding.finds_iff hwell hclass
  rw [validate_propertyState hnested, hbuilding.getNode_eq_none, List.mem_cons, or_iff_right hne,
    hfinds .variableType _ (by decide), hfinds .dataType _ (by decide),
    hfinds .referenceType _ (by decide), WillFind, or_iff_left hnot]
  constructor
  · rintro ⟨⟨propertyId', hnested', hids, hfree⟩, htype, hplain, hdataType, hproperty⟩
    obtain rfl := Option.some.inj (hnested.symm.trans hnested')
    exact ⟨⟨⟨hfree, hids⟩, htype, hdataType⟩, hplain, hproperty⟩
  · rintro ⟨⟨⟨hfree, hids⟩, htype, hdataType⟩, hplain, hproperty⟩
    exact ⟨⟨propertyId, hnested, hids, hfree⟩, htype, hplain, hdataType, hproperty⟩

/-- **A property is created if and only if it fits.** -/
theorem createProperty_spec (hwell : WellFormed spaces) (hcreate : factory.createProperties = true)
    (hnode : state.nodeId ≠ StandardId.propertyType)
    (hbuilding : factory.Building spaces state.nodeId state.nodeClass
      (propertyIds state.nodeId earlier) spaces')
    (hnested : makeNestedNodeId state.nodeId declaration.browseName.name = some propertyId)
    (h : factory.createNodeHelper fuel spaces' (propertyState state.nodeId propertyId declaration)
      state.nodeId = some (status, spaces'')) :
    (status = .good ∧ factory.PropertyFits spaces state earlier declaration ∧
        factory.Building spaces state.nodeId state.nodeClass
          (propertyIds state.nodeId (earlier ++ [declaration])) spaces'') ∨
      (status ≠ .good ∧ ¬ factory.PropertyFits spaces state earlier declaration) := by
  rw [propertyFits_iff hwell hnode hbuilding hnested, propertyIds_append_singleton hnested]
  cases fuel with
  | zero => cases h
  | succ fuel =>
      have hcreated := h
      rcases createNodeHelper_eq_some h with ⟨hvalidate, -⟩ | ⟨data, spaces₁, hvalidate, hadd, h⟩
      · refine .inr ⟨validate_ne_good hvalidate, ?_⟩
        rintro ⟨⟨data, hok⟩, -⟩
        rw [hvalidate] at hok
        cases hok
      · obtain ⟨hfree, hdataType⟩ := validate_eq_ok hvalidate
        obtain ⟨type, hdefinition, htype⟩ := typeDefinition_of_variable rfl hdataType
        have hother : StandardId.propertyType ∉
            state.nodeId :: propertyIds state.nodeId earlier := by
          rw [List.mem_cons]
          rintro (heq | hmem)
          · exact hnode heq.symm
          · exact numeric_notMem_propertyIds hmem
        have htype₀ : factory.getNode spaces StandardId.propertyType = some type := by
          rw [← hbuilding.getNode_other hother]
          exact htype
        have hlt := hwell.getNode_lt htype₀
        by_cases hplain : factory.Declares spaces.heap type []
        · have hall : ∀ type, factory.getNode spaces StandardId.propertyType = some type →
              factory.Declares spaces.heap type [] := by
            intro type' htype'
            obtain rfl := Option.some.inj (htype₀.symm.trans htype')
            exact hplain
          have hbuilding₁ := hbuilding.addNode hadd
            (validate_dataType_lt hbuilding.wellFormed hvalidate)
            (hbuilding.getNode_eq_none.mp hfree).1
          rw [hdefinition] at h
          rcases andThen_eq_some.mp h with ⟨spaces₂, hattach, h⟩ | ⟨hbad, hattach⟩
          · obtain ⟨-, hbuilding₂⟩ := attachType_plain hwell hbuilding.agrees.next hbuilding₁ hlt
              hplain hattach
            rcases attachParent_property hwell hbuilding hbuilding₂
              (makeNestedNodeId_eq_some hnested).1 hbuilding.agrees.next h with
              ⟨hgood, hfinds, hbuilding₃⟩ | ⟨hbad, hfinds⟩
            · exact .inl ⟨hgood, ⟨⟨data, hvalidate⟩, hall, hfinds⟩, hbuilding₃⟩
            · exact .inr ⟨hbad, fun hfits => hfinds hfits.2.2⟩
          · obtain ⟨hgood, -⟩ := attachType_plain hwell hbuilding.agrees.next hbuilding₁ hlt hplain
              hattach
            exact (hbad hgood).elim
        · refine .inr ⟨?_, fun hfits => hplain (hfits.2.1 type htype₀)⟩
          refine createNodeHelper_not_good hbuilding.wellFormed hcreate rfl rfl htype ?_ hcreated
          rwa [agrees_declares hbuilding.agrees hwell.bounded hlt]

/-! ## §4  The whole node -/

variable {spaces₁ : Spaces V} {declared : List (PropertyDeclaration V)}
  {result : StatusCode × Spaces V}

omit [Inhabited V] in
theorem typeDefinition_lt (hwell : WellFormed spaces) {type : NodePtr}
    (h : factory.typeDefinition spaces state = some type) : type < spaces.heap.next :=
  hwell.getNode_lt (Option.filter_eq_some_iff.mp h).1

theorem createsInOrder (fuel : ℕ) (hwell : WellFormed spaces)
    (hcreate : factory.createProperties = true) (hnode : state.nodeId ≠ StandardId.propertyType) :
    CreatesInOrder (factory.createNodeHelper fuel) state.nodeId spaces.heap
      (fun earlier => factory.Building spaces state.nodeId state.nodeClass
        (propertyIds state.nodeId earlier)) (factory.PropertyFits spaces state) where
  agrees _ _ hbuilding := hbuilding.agrees
  create _ _ _ _ _ _ hbuilding hnested h :=
    createProperty_spec hwell hcreate hnode hbuilding hnested h

omit [Inhabited V] in
/-- The space that the type is referenced in. -/
theorem Building.attachType (hstart : factory.Building spaces nodeId nodeClass ids spaces')
    {type : NodePtr}
    (h : factory.attachType create state spaces.heap.next (some type) spaces' = some result) :
    ∃ spaces₂, factory.Building spaces nodeId nodeClass ids spaces₂ ∧
      if factory.createProperties = true then
        factory.createMissingProperties create state.nodeId (typeFuel spaces₂.heap) type spaces₂ =
          some result
      else result = (.good, spaces₂) := by
  obtain ⟨hasTypeDefinition, spaces₂, hfound, hadd, hmissing⟩ := attachType_eq_some h
  refine ⟨spaces₂, hstart.addReference hadd le_rfl (.inl ?_), hmissing⟩
  rw [hstart.wellFormed.getNode_idOf hfound]
  simp [StandardId.hasTypeDefinition, StandardId.hasSubtype]

theorem createOwnProperties_spec {typeSteps : ℕ} {type : NodePtr} (hwell : WellFormed spaces)
    (hcreate : factory.createProperties = true) (hnode : state.nodeId ≠ StandardId.propertyType)
    (hbuilding : factory.Building spaces state.nodeId state.nodeClass [] spaces₁)
    (hlt : type < spaces.heap.next)
    (h : factory.createMissingProperties (factory.createNodeHelper fuel) state.nodeId typeSteps type
      spaces₁ = some (status, spaces')) :
    (status = .good ∧ ∃ declared, factory.Declares spaces.heap type declared ∧
        InOrder (factory.PropertyFits spaces state) [] declared ∧
          factory.Building spaces state.nodeId state.nodeClass
            (propertyIds state.nodeId declared) spaces') ∨
      (status ≠ .good ∧ ∀ declared, factory.Declares spaces.heap type declared →
        ¬ InOrder (factory.PropertyFits spaces state) [] declared) := by
  have hnone : factory.Building spaces state.nodeId state.nodeClass
      (propertyIds state.nodeId ([] : List (PropertyDeclaration V))) spaces₁ := hbuilding
  exact createMissingProperties_spec (createsInOrder fuel hwell hcreate hnode) hwell.bounded hlt
    hnone h

/-- If the new properties fit, they are created. -/
theorem attachType_of_fits (hwell : WellFormed spaces)
    (hstart : factory.Building spaces state.nodeId state.nodeClass [] spaces₁)
    (hnew : factory.NewProperties spaces state declared)
    (hfits : InOrder (factory.PropertyFits spaces state) [] declared)
    (h : factory.attachType (factory.createNodeHelper fuel) state spaces.heap.next
      (factory.typeDefinition spaces state) spaces₁ = some result) :
    result.1 = .good ∧ factory.Building spaces state.nodeId state.nodeClass
      (propertyIds state.nodeId declared) result.2 := by
  unfold NewProperties at hnew
  cases htype : factory.typeDefinition spaces state with
  | none =>
      rw [htype] at h hnew
      cases h
      rw [hnew]
      exact ⟨rfl, hstart⟩
  | some type =>
      rw [htype] at h hnew
      have hlt := typeDefinition_lt hwell htype
      obtain ⟨spaces₂, hbuilding, hmissing⟩ := hstart.attachType h
      by_cases hcreate : factory.createProperties = true
      · simp only [if_pos hcreate] at hmissing hnew
        cases declared with
        | nil => exact attachType_plain hwell le_rfl hstart hlt hnew h
        | cons first rest =>
            have hnode : state.nodeId ≠ StandardId.propertyType := by
              intro heq
              obtain ⟨type, htype⟩ := hfits.1.propertyType
              rw [← heq, hstart.free state.nodeId List.mem_cons_self] at htype
              cases htype
            rcases createOwnProperties_spec hwell hcreate hnode hbuilding hlt hmissing with
              ⟨hgood, declared', hdeclared', -, hbuilding'⟩ | ⟨-, hnone⟩
            · rw [declares_unique hnew hdeclared']
              exact ⟨hgood, hbuilding'⟩
            · exact (hnone _ hnew hfits).elim
      · simp only [if_neg hcreate] at hmissing hnew
        rw [hmissing, hnew]
        exact ⟨rfl, hbuilding⟩

/-- Otherwise one of them is not. -/
theorem fits_of_attachType (hwell : WellFormed spaces)
    (hnode : state.nodeId = StandardId.propertyType → factory.NewProperties spaces state [])
    (hstart : factory.Building spaces state.nodeId state.nodeClass [] spaces₁)
    (h : factory.attachType (factory.createNodeHelper fuel) state spaces.heap.next
      (factory.typeDefinition spaces state) spaces₁ = some (.good, spaces')) :
    ∃ declared, factory.NewProperties spaces state declared ∧
      InOrder (factory.PropertyFits spaces state) [] declared := by
  by_cases hnone : factory.NewProperties spaces state []
  · exact ⟨[], hnone, trivial⟩
  have hnode : state.nodeId ≠ StandardId.propertyType := fun heq => hnone (hnode heq)
  unfold NewProperties
  cases htype : factory.typeDefinition spaces state with
  | none => exact ⟨[], rfl, trivial⟩
  | some type =>
      rw [htype] at h
      obtain ⟨spaces₂, hbuilding, hmissing⟩ := hstart.attachType h
      by_cases hcreate : factory.createProperties = true
      · simp only [if_pos hcreate] at hmissing ⊢
        rcases createOwnProperties_spec hwell hcreate hnode hbuilding
          (typeDefinition_lt hwell htype) hmissing with
          ⟨-, declared, hdeclared, hfits, -⟩ | ⟨hbad, -⟩
        · exact ⟨declared, hdeclared, hfits⟩
        · exact (hbad rfl).elim
      · simp only [if_neg hcreate]
        exact ⟨[], rfl, trivial⟩

omit [Inhabited V] in
theorem attachParent_spec (hwell : WellFormed spaces)
    (hbuilding : factory.Building spaces state.nodeId state.nodeClass
      (propertyIds state.nodeId declared) spaces')
    (h : factory.attachParent state state.parentId node spaces' = some result) :
    result.1 = .good ↔ factory.ParentFits spaces state declared := by
  unfold attachParent at h
  unfold ParentFits WillFind
  have hparent : (factory.getNode spaces state.parentId ≠ none ∨ state.parentId = state.nodeId ∨
      state.parentId ∈ propertyIds state.nodeId declared) ↔
        factory.getNode spaces' state.parentId ≠ none := by
    rw [Ne, Ne, hbuilding.getNode_eq_none, List.mem_cons]
    tauto
  rw [hparent, ← hbuilding.finds_iff hwell (by decide), Finds]
  split at h
  · rename_i hnull
    cases h
    simp [hnull]
  · rename_i hnull
    split at h
    · rename_i hnone
      cases h
      simp [hnull, hnone]
    · rename_i parent hfound
      split at h
      · rename_i hnone
        cases h
        simp [hnull, hnone]
      · rename_i type htype
        obtain ⟨spaces₂, -, rfl⟩ := Option.map_eq_some_iff.mp h
        simp [hfound, htype]

/-- **After the checks a node is created if and only if everything fits.** -/
theorem good_iff_completes (hwell : WellFormed spaces)
    (hok : ¬ factory.Refused spaces state)
    (h : factory.createNode fuel spaces state = some (status, spaces')) :
    (factory.Completes spaces state → status = .good) ∧
      ((state.nodeId = StandardId.propertyType → factory.NewProperties spaces state []) →
        status = .good → factory.Completes spaces state) := by
  cases fuel with
  | zero => cases h
  | succ fuel =>
      rcases createNodeHelper_eq_some h with ⟨hvalidate, -⟩ | ⟨data, spaces₁, hvalidate, hadd, h⟩
      · exact (hok ⟨status, hvalidate⟩).elim
      · have hstart : factory.Building spaces state.nodeId state.nodeClass [] spaces₁ :=
          .start hwell hadd (validate_dataType_lt hwell hvalidate)
        constructor
        · rintro ⟨declared, hnew, hfits, hparent⟩
          rcases andThen_eq_some.mp h with ⟨spaces₂, hattach, h⟩ | ⟨hbad, hattach⟩
          · obtain ⟨-, hbuilding⟩ := attachType_of_fits hwell hstart hnew hfits hattach
            rcases andThen_eq_some.mp h with ⟨spaces₃, -, hcomplete⟩ | ⟨hbad, hattach⟩
            · exact complete_eq_some hcomplete
            · exact (hbad ((attachParent_spec hwell hbuilding hattach).mpr hparent)).elim
          · exact (hbad (attachType_of_fits hwell hstart hnew hfits hattach).1).elim
        · rintro hnode rfl
          rcases andThen_eq_some.mp h with ⟨spaces₂, hattach, h⟩ | ⟨hbad, -⟩
          · obtain ⟨declared, hnew, hfits⟩ := fits_of_attachType hwell hnode hstart hattach
            obtain ⟨-, hbuilding⟩ := attachType_of_fits hwell hstart hnew hfits hattach
            rcases andThen_eq_some.mp h with ⟨spaces₃, hparent, -⟩ | ⟨hbad, -⟩
            · exact ⟨declared, hnew, hfits, (attachParent_spec hwell hbuilding hparent).mp rfl⟩
            · exact (hbad rfl).elim
          · exact (hbad rfl).elim

/-- The node stays whatever happens after the checks. -/
theorem stays_of_not_refused (hok : ¬ factory.Refused spaces state)
    (h : factory.createNode fuel spaces state = some (status, spaces')) :
    spaces'.nodeMap ≠ spaces.nodeMap := by
  cases fuel with
  | zero => cases h
  | succ fuel =>
      rcases createNodeHelper_eq_some h with ⟨hvalidate, -⟩ | ⟨data, spaces₁, hvalidate, hadd, h⟩
      · exact (hok ⟨status, hvalidate⟩).elim
      · obtain ⟨-, -, hfree, -, hmap⟩ := AddressSpaces.addNode_eq_some hadd
        have hgrows : Grows spaces₁ spaces' :=
          grows_holdsOfChanges.attach (fun _ _ _ _ => grows_holdsOfChanges.createNodeHelper) h
        have hstays := hgrows (factory.space, state.nodeId) spaces.heap.next
          (by rw [hmap, Function.update_self])
        intro hsame
        rw [hsame, hfree] at hstays
        cases hstays

end

/-- The nodes of the spaces and their references are the same. -/
structure Unchanged (spaces spaces' : Spaces V) : Prop where
  nodeMap : spaces'.nodeMap = spaces.nodeMap
  references : ∀ place ptr, spaces.nodeMap place = some ptr → ∀ forward,
    (spaces'.heap.nodes ptr).map (Node.references · forward) =
      (spaces.heap.nodes ptr).map (Node.references · forward)

/-- An error leaves the space as it was if the state is refused, and there is no
error if everything fits. There is no other way. -/
theorem createNode_atomic_iff [Inhabited V] {state : NodeState V} {fuel : ℕ} {status : StatusCode}
    (hwell : WellFormed spaces)
    (h : factory.createNode fuel spaces state = some (status, spaces')) :
    (factory.Refused spaces state ∨ factory.Completes spaces state →
        status ≠ .good → Unchanged spaces spaces') ∧
      ((state.nodeId = StandardId.propertyType → factory.NewProperties spaces state []) →
        (status ≠ .good → Unchanged spaces spaces') →
          factory.Refused spaces state ∨ factory.Completes spaces state) := by
  constructor
  · rintro hcases hbad
    by_cases hrefused : factory.Refused spaces state
    · cases fuel with
      | zero => cases h
      | succ fuel =>
          rcases createNodeHelper_eq_some h with ⟨-, rfl⟩ | ⟨data, _, hvalidate, -⟩
          · exact ⟨rfl, fun _ _ _ _ => rfl⟩
          · obtain ⟨error, herror⟩ := hrefused
            rw [hvalidate] at herror
            cases herror
    · have hcompletes := hcases.resolve_left hrefused
      exact (hbad ((good_iff_completes hwell hrefused h).1 hcompletes)).elim
  · intro hnode hatomic
    by_cases hrefused : factory.Refused spaces state
    · exact .inl hrefused
    · refine .inr ((good_iff_completes hwell hrefused h).2 hnode ?_)
      by_contra hbad
      exact stays_of_not_refused hrefused h (hatomic hbad).nodeMap

/-! ## §5  A node without a parent -/

/-- A space of its own with these nodes. -/
def spacesOf (nodes : List (Node (NodeData V))) : Spaces V where
  heap := { nodes := fun ptr => nodes[ptr]?, next := nodes.length }
  nodeMap place := if place.1 = 0 then nodes.findIdx? (·.id = place.2) else none
  staticNodes place := decide (place.1 = 0)

theorem wellFormed_spacesOf {nodes : List (Node (NodeData V))}
    (h : ∀ node ∈ nodes, (∀ other ∈ node.supertype, other < nodes.length) ∧
      (∀ ref ∈ node.forwardReferences, ref.type < nodes.length ∧ ref.node < nodes.length) ∧
        ∀ other ∈ node.attributes.dataType, other < nodes.length) :
    WellFormed (spacesOf nodes) where
  bounded := {
    allocated := fun _ _ hnode => (List.getElem?_eq_some_iff.mp hnode).1
    supertype := fun _ node hnode => (h node (List.mem_of_getElem? hnode)).1
    references := fun _ node hnode => (h node (List.mem_of_getElem? hnode)).2.1
    dataType := fun _ node hnode => (h node (List.mem_of_getElem? hnode)).2.2 }
  mapped place ptr hplace := by
    simp only [spacesOf] at hplace
    split at hplace
    · obtain ⟨hlt, hid, -⟩ := List.findIdx?_eq_some_iff_getElem.mp hplace
      have hnode : nodes[ptr]? = some nodes[ptr] := List.getElem?_eq_getElem hlt
      simpa [NodeHeap.idOf, spacesOf, hnode] using hid
    · cases hplace

/-- The root folder and what it takes to have one. -/
def rootSpaces : Spaces ℕ :=
  spacesOf [
    { id := StandardId.hasTypeDefinition, nodeClass := .referenceType,
      attributes := { value := 0 } },
    { id := StandardId.organizes, nodeClass := .referenceType, attributes := { value := 0 } },
    { id := StandardId.folderType, nodeClass := .objectType, attributes := { value := 0 },
      inverseReferences := [⟨0, 3⟩] },
    { id := StandardId.rootFolder, nodeClass := .object, attributes := { value := 0 },
      forwardReferences := [⟨0, 2⟩], typeDefinition := some 2 }]

theorem wellFormed_rootSpaces : WellFormed rootSpaces :=
  wellFormed_spacesOf (by decide)

def folderState (nodeId parentId : NodeId) : NodeState ℕ where
  nodeId := nodeId
  typeDefinitionId := StandardId.folderType
  parentId := parentId
  referenceTypeId := StandardId.organizes

def rootFactory : GenericNodeFactory where
  space := 0
  parents := []
  createProperties := true
  nodeIdToScadaString _ := ""

/-- The node is there though its parent is not. -/
theorem createNode_orphan : ∃ spaces₁ : Spaces ℕ,
    rootFactory.createNode 2 rootSpaces (folderState (.numeric 1 7) (.numeric 2 7)) =
        some (.badWrongParentId, spaces₁) ∧
      ¬ Unchanged rootSpaces spaces₁ ∧
      ((rootFactory.createNode 2 spaces₁ (folderState (.numeric 2 7) StandardId.rootFolder)).any
        fun (status, spaces₂) => status = .good ∧
          (rootFactory.createNode 2 spaces₂ (folderState (.numeric 1 7) (.numeric 2 7))).map
            Prod.fst = some .badDuplicateNodeId) = true := by
  have hrun : ((rootFactory.createNode 2 rootSpaces (folderState (.numeric 1 7) (.numeric 2 7))).any
      fun (status, spaces₁) => status = .badWrongParentId ∧
        spaces₁.nodeMap (0, .numeric 1 7) = some 4 ∧
          (rootFactory.createNode 2 spaces₁ (folderState (.numeric 2 7) StandardId.rootFolder)).any
            fun (status, spaces₂) => status = .good ∧
              (rootFactory.createNode 2 spaces₂ (folderState (.numeric 1 7) (.numeric 2 7))).map
                Prod.fst = some .badDuplicateNodeId) = true := by
    decide +kernel
  obtain ⟨⟨status, spaces₁⟩, hcreate, hrun⟩ := (Option.any_eq_true _ _).mp hrun
  obtain ⟨rfl, hstays, hretry⟩ := of_decide_eq_true hrun
  refine ⟨spaces₁, hcreate, fun hunchanged => ?_, hretry⟩
  rw [hunchanged.nodeMap] at hstays
  cases hstays

theorem createNode_atomic_iff_orphan :
    ¬ (rootFactory.Refused rootSpaces (folderState (.numeric 1 7) (.numeric 2 7)) ∨
      rootFactory.Completes rootSpaces (folderState (.numeric 1 7) (.numeric 2 7))) := by
  obtain ⟨spaces₁, hcreate, hchanged, -⟩ := createNode_orphan
  intro hcases
  exact hchanged ((createNode_atomic_iff wellFormed_rootSpaces hcreate).1 hcases nofun)

/-- The parent comes later, and then the node is there already. -/
theorem failed_node_stays : ∃ spaces₁ spaces₂ : Spaces ℕ, WellFormed rootSpaces ∧
    rootFactory.createNode 2 rootSpaces (folderState (.numeric 1 7) (.numeric 2 7)) =
        some (.badWrongParentId, spaces₁) ∧
      ¬ Unchanged rootSpaces spaces₁ ∧
      rootFactory.createNode 2 spaces₁ (folderState (.numeric 2 7) StandardId.rootFolder) =
        some (.good, spaces₂) ∧
      (rootFactory.createNode 2 spaces₂ (folderState (.numeric 1 7) (.numeric 2 7))).map Prod.fst =
        some .badDuplicateNodeId := by
  obtain ⟨spaces₁, hcreate, hchanged, hretry⟩ := createNode_orphan
  obtain ⟨⟨status, spaces₂⟩, hparent, hretry⟩ := (Option.any_eq_true _ _).mp hretry
  obtain ⟨rfl, hduplicate⟩ := of_decide_eq_true hretry
  exact ⟨spaces₁, spaces₂, wellFormed_rootSpaces, hcreate, hchanged, hparent, hduplicate⟩

end GenericNodeFactory

end ScadaCommon.AddressSpace
