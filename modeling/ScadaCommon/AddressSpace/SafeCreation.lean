import ScadaCommon.AddressSpace.SoundSpaces

/-!
# Creating nodes without a crash

In a sound space `CreateNode` returns, and leaves a sound space behind when all
goes well, if the properties that it creates have names and no properties of
their own and the parent has room for the node.

§1 results · §2 new nodes · §3 properties · §4 the parent · §5 one property
· §6 the whole node.
-/

namespace ScadaCommon.AddressSpace

open Foundation

variable {V : Type} {factory : GenericNodeFactory} {spaces spaces' : Spaces V} {edges : Set Edge}

/-! ## §1  Results -/

/-- Something is returned, and what is said holds unless it is an error. -/
def Returns (Q : Spaces V → Prop) (outcome : Option (StatusCode × Spaces V)) : Prop :=
  ∃ status spaces, outcome = some (status, spaces) ∧ (status = .good → Q spaces)

theorem returns_good {Q : Spaces V → Prop} (h : Q spaces) : Returns Q (some (.good, spaces)) :=
  ⟨.good, spaces, rfl, fun _ => h⟩

theorem returns_error {Q : Spaces V → Prop} {status : StatusCode} (h : status ≠ .good) :
    Returns Q (some (status, spaces)) :=
  ⟨status, spaces, rfl, fun hgood => absurd hgood h⟩

theorem Returns.mono {P Q : Spaces V → Prop} {outcome : Option (StatusCode × Spaces V)}
    (h : Returns P outcome) (hPQ : ∀ spaces, outcome = some (.good, spaces) → P spaces → Q spaces) :
    Returns Q outcome := by
  obtain ⟨status, spaces, houtcome, hP⟩ := h
  refine ⟨status, spaces, houtcome, fun hgood => hPQ spaces ?_ (hP hgood)⟩
  rw [houtcome, hgood]

theorem Returns.andThen {P Q : Spaces V → Prop} {outcome : Option (StatusCode × Spaces V)}
    {next : Spaces V → Option (StatusCode × Spaces V)} (h : Returns P outcome)
    (hnext : ∀ spaces, outcome = some (.good, spaces) → P spaces → Returns Q (next spaces)) :
    Returns Q (andThen outcome next) := by
  obtain ⟨status, spaces, houtcome, hP⟩ := h
  by_cases hgood : status = .good
  · subst hgood
    rw [houtcome]
    exact hnext spaces houtcome (hP rfl)
  · exact ⟨status, spaces, by simp [AddressSpace.andThen, houtcome, hgood],
      fun h => absurd h hgood⟩

/-! ## §2  New nodes -/

/-- No reference leads to the node. -/
def NotReached (edges : Set Edge) (ptr : NodePtr) : Prop :=
  ∀ edge ∈ edges, edge.target ≠ ptr

theorem NotReached.insert {edge : Edge} {ptr : NodePtr} (h : NotReached edges ptr)
    (hedge : edge.target ≠ ptr) : NotReached (insert edge edges) ptr := by
  rintro other (rfl | hother)
  · exact hedge
  · exact h other hother

/-- References of other types are not cached. -/
theorem NodeHeap.fits_of_ne {A : Type} {heap : NodeHeap A} {typeId : NodeId}
    {source target : NodePtr} (hdefinition : typeId ≠ StandardId.hasTypeDefinition)
    (hsubtype : typeId ≠ StandardId.hasSubtype) : heap.Fits typeId source target :=
  ⟨fun _ _ _ _ => ⟨fun hcaches => absurd hcaches hdefinition,
    fun hcaches => absurd hcaches.2 hsubtype⟩, fun heq => absurd heq hsubtype⟩

namespace Sound

variable {ptr : NodePtr} {node : Node (NodeData V)}

theorem notReached_next (h : Sound factory spaces edges) (hptr : spaces.heap.next ≤ ptr) :
    NotReached edges ptr := by
  rintro edge hedge rfl
  exact hptr.not_gt (h.represents.edge_lt hedge).2.2

/-- A node that no reference leads to has no supertype. -/
theorem supertype_eq_none (h : Sound factory spaces edges) (hnode : spaces.heap.nodes ptr = some node)
    (hreached : NotReached edges ptr) : node.supertype = none := by
  rw [Option.eq_none_iff_forall_ne_some]
  intro supertype hsupertype
  obtain ⟨type, hhalf, -⟩ :=
    (h.represents.holds.cache ptr node hnode false supertype).mp hsupertype
  exact hreached ⟨type, supertype, ptr⟩ hhalf rfl

/-- A new node gets its type. -/
theorem addTypeDefinition (h : Sound factory spaces edges) {type : NodePtr}
    (hnode : spaces.heap.nodes ptr = some node) (hnone : node.typeDefinition = none)
    (hreached : ∀ edge ∈ edges, edge.source ≠ ptr)
    (htype : (spaces.heap.classOf type).any NodeClass.isTypeDefinition = true) :
    ∃ hasTypeDefinition spaces', asClass spaces .referenceType
        (factory.getNode spaces StandardId.hasTypeDefinition) = some hasTypeDefinition ∧
      spaces.addReference hasTypeDefinition ptr type = some spaces' ∧
        Sound factory spaces' (insert ⟨hasTypeDefinition, ptr, type⟩ edges) := by
  obtain ⟨hasTypeDefinition, hfound⟩ := h.hasTypeDefinition
  have hid := h.wellFormed.getNode_idOf (asClass_eq_some.mp hfound).1
  obtain ⟨typeClass, htypeClass, hisType⟩ := (Option.any_eq_true _ _).mp htype
  obtain ⟨typeNode, htypeNode, rfl⟩ := Option.map_eq_some_iff.mp htypeClass
  have hne : StandardId.hasTypeDefinition ≠ StandardId.hasSubtype := by decide
  have hfits : spaces.heap.Fits StandardId.hasTypeDefinition ptr type := by
    refine ⟨fun sourceNode targetNode hsource htarget => ?_, fun heq => absurd heq hne⟩
    obtain rfl := Option.some.inj (hnode.symm.trans hsource)
    obtain rfl := Option.some.inj (htypeNode.symm.trans htarget)
    exact ⟨fun _ => ⟨hnone, hisType⟩, fun hcaches => absurd hcaches.2 hne⟩
  obtain ⟨spaces', hadd, hsound⟩ := h.addReference_of_fits hid
    (h.wellFormed.bounded.allocated _ _ hnode) (h.wellFormed.bounded.allocated _ _ htypeNode)
    (fun hmem => hreached _ hmem rfl) hfits
  exact ⟨hasTypeDefinition, spaces', hfound, hadd, hsound⟩

end Sound

/-! ## §3  Properties -/

namespace GenericNodeFactory

section

variable {create : Spaces V → NodeState V → NodeId → Option (StatusCode × Spaces V)}
  {nodeId : NodeId} {I : Spaces V → Prop} {declared : List (PropertyDeclaration V)}

/-- Each of the properties can be tried while `I` holds. -/
structure CreatesSafely (create : Spaces V → NodeState V → NodeId → Option (StatusCode × Spaces V))
    (nodeId : NodeId) (heap : NodeHeap (NodeData V)) (I : Spaces V → Prop)
    (declared : List (PropertyDeclaration V)) : Prop where
  agrees : ∀ spaces', I spaces' → heap.Agrees spaces'.heap
  create : ∀ declaration ∈ declared, ∀ spaces', I spaces' → ∃ propertyId,
    makeNestedNodeId nodeId declaration.browseName.name = some propertyId ∧
      Returns I (create spaces' (propertyState nodeId propertyId declaration) nodeId)

theorem CreatesSafely.subset {heap : NodeHeap (NodeData V)} {own : List (PropertyDeclaration V)}
    (h : CreatesSafely create nodeId heap I declared) (hsubset : own ⊆ declared) :
    CreatesSafely create nodeId heap I own :=
  ⟨h.agrees, fun declaration hown => h.create declaration (hsubset hown)⟩

theorem createDeclaredProperties_returns (hsound : Sound factory spaces edges)
    {refs : List Reference} (hrefs : spaces.heap.BoundedReferences refs)
    (hdeclared : factory.declarationsOf spaces.heap refs = some declared)
    (hsafe : CreatesSafely create nodeId spaces.heap I declared) (hI : I spaces') :
    Returns I (factory.createDeclaredProperties create nodeId refs spaces') := by
  induction refs generalizing declared spaces' with
  | nil => exact returns_good hI
  | cons ref refs ih =>
      obtain ⟨href, hrefs⟩ := List.forall_mem_cons.mp hrefs
      obtain ⟨declaration, hdeclaration, hdeclared⟩ := Option.bind_eq_some_iff.mp hdeclared
      obtain ⟨rest, hrest, hdeclared⟩ := Option.bind_eq_some_iff.mp hdeclared
      cases hdeclared
      have hread : factory.declaredProperty spaces'.heap ref = some declaration := by
        rw [(hsafe.agrees spaces' hI).declaredProperty hsound.wellFormed.bounded factory href,
          hdeclaration]
      have hsafeRest := hsafe.subset (List.subset_append_right declaration.toList rest)
      rw [createDeclaredProperties, hread]
      cases declaration with
      | none => exact ih hrefs hrest hsafeRest hI
      | some declaration =>
          obtain ⟨propertyId, hnested, hcreated⟩ :=
            hsafe.create declaration (List.mem_append_left _ (by simp)) spaces' hI
          simp only [Option.bind_eq_bind, Option.bind_some, hnested]
          exact hcreated.andThen fun spaces₁ _ hI => ih hrefs hrest hsafeRest hI

/-- With as many steps as it takes to come by the supertypes. -/
theorem createMissingProperties_returns (hsound : Sound factory spaces edges) {fuel : ℕ}
    {type : NodePtr} {types : List NodePtr} (htype : type < spaces.heap.next)
    (hdeclared : factory.Declares spaces.heap type declared)
    (htypes : path spaces.heap.supertypeOf fuel type = some types)
    (hsafe : CreatesSafely create nodeId spaces.heap I declared) (hI : I spaces') :
    Returns I (factory.createMissingProperties create nodeId fuel type spaces') := by
  induction fuel generalizing type types declared spaces' with
  | zero => cases htypes
  | succ fuel ih =>
      obtain ⟨typeNode, own, htypeNode, hown, hdeclared⟩ := declares_iff.mp hdeclared
      have hread : ∀ spaces', I spaces' → ∃ typeNode', spaces'.heap.nodes type = some typeNode' ∧
          typeNode'.forwardReferences = typeNode.forwardReferences ∧
            typeNode'.supertype = typeNode.supertype := by
        intro spaces' hI
        have houtline := (hsafe.agrees spaces' hI).outline type htype
        rw [NodeHeap.outline, NodeHeap.outline, htypeNode, Option.map_some,
          Option.map_eq_some_iff] at houtline
        obtain ⟨typeNode', htypeNode', heq⟩ := houtline
        exact ⟨typeNode', htypeNode', Node.forwardReferences_eq_of_outline heq,
          Node.supertype_eq_of_outline heq⟩
      have hsubset : own ⊆ declared := by
        cases hsupertype : typeNode.supertype with
        | none =>
            rw [hsupertype] at hdeclared
            rw [hdeclared]
            exact List.Subset.refl _
        | some supertype =>
            rw [hsupertype] at hdeclared
            obtain ⟨inherited, -, rfl⟩ := hdeclared
            exact List.subset_append_left own inherited
      obtain ⟨typeNode', htypeNode', hforward, -⟩ := hread spaces' hI
      rw [createMissingProperties, htypeNode']
      simp only [Option.bind_eq_bind, Option.bind_some, hforward]
      refine (createDeclaredProperties_returns hsound
        (hsound.wellFormed.bounded.references type typeNode htypeNode) hown
          (hsafe.subset hsubset) hI).andThen fun spaces₁ _ hI₁ => ?_
      obtain ⟨typeNode₁, htypeNode₁, -, hsupertype₁⟩ := hread spaces₁ hI₁
      simp only [htypeNode₁, Option.bind_some, hsupertype₁]
      cases hsupertype : typeNode.supertype with
      | none => exact returns_good hI₁
      | some supertype =>
          rw [hsupertype] at hdeclared
          obtain ⟨inherited, hinherited, rfl⟩ := hdeclared
          have hstep : spaces.heap.supertypeOf type = some (some supertype) := by
            rw [NodeHeap.supertypeOf, htypeNode, Option.map_some, hsupertype]
          rcases path_cases htypes with ⟨hend, -⟩ | ⟨next, rest, hnext, hrest, -⟩
          · rw [hstep] at hend
            cases hend
          · rw [hstep] at hnext
            cases hnext
            exact ih (hsound.wellFormed.bounded.supertype type typeNode htypeNode supertype
              hsupertype) hinherited hrest (hsafe.subset (List.subset_append_right own inherited))
                hI₁

/-- The type is referenced, and then its properties are created. -/
theorem attachType_returns (hsound : Sound factory spaces edges) {edges' : Set Edge}
    (hsound' : Sound factory spaces' edges') {state : NodeState V} {ptr type : NodePtr}
    {node : Node (NodeData V)} (htype : type < spaces.heap.next)
    (hdeclared : factory.Declares spaces.heap type declared)
    (hnode : spaces'.heap.nodes ptr = some node) (hnone : node.typeDefinition = none)
    (hreached : ∀ edge ∈ edges', edge.source ≠ ptr)
    (hclass : (spaces'.heap.classOf type).any NodeClass.isTypeDefinition = true)
    (hI : ∀ hasTypeDefinition spaces₁, factory.getNode spaces' StandardId.hasTypeDefinition =
      some hasTypeDefinition → spaces'.addReference hasTypeDefinition ptr type = some spaces₁ →
        Sound factory spaces₁ (insert ⟨hasTypeDefinition, ptr, type⟩ edges') → I spaces₁)
    (hsafe : factory.createProperties = true →
      CreatesSafely create state.nodeId spaces.heap I declared) :
    Returns I (factory.attachType create state ptr (some type) spaces') := by
  obtain ⟨hasTypeDefinition, spaces₁, hfound, hadd, hsound₁⟩ :=
    hsound'.addTypeDefinition hnode hnone hreached hclass
  have hI₁ := hI hasTypeDefinition spaces₁ (asClass_eq_some.mp hfound).1 hadd hsound₁
  rw [attachType, hfound]
  simp only [Option.bind_eq_bind, Option.bind_some, hadd]
  split
  · rename_i hcreate
    obtain ⟨types, htypes⟩ := hsound.path_next htype
    have hnext := ((hsafe hcreate).agrees spaces₁ hI₁).next
    have hsteps : spaces.heap.next ≤ typeFuel spaces₁.heap :=
      hnext.trans ((Nat.le_succ _).trans (Nat.le_mul_of_pos_left _ Nat.two_pos))
    exact createMissingProperties_returns hsound htype hdeclared (path_mono htypes hsteps)
      (hsafe hcreate) hI₁
  · exact returns_good hI₁

end

/-! ## §4  The parent -/

section

variable {state : NodeState V} {parentId : NodeId} {ptr : NodePtr}

theorem attachParent_returns (hsound : Sound factory spaces edges) (hptr : ptr < spaces.heap.next)
    (hreached : NotReached edges ptr)
    (hfits : ∀ parent, factory.getNode spaces parentId = some parent →
      spaces.heap.Fits state.referenceTypeId parent ptr) :
    Returns (fun spaces' => ∃ edges', Sound factory spaces' edges' ∧
        ∀ edge ∈ edges', edge ∈ edges ∨ edge.target = ptr)
      (factory.attachParent state parentId ptr spaces) := by
  unfold attachParent
  split
  · exact returns_good ⟨edges, hsound, fun _ hedge => .inl hedge⟩
  · split
    · exact returns_error nofun
    · rename_i parent hparent
      split
      · exact returns_error nofun
      · rename_i type htype
        obtain ⟨spaces', hadd, hsound'⟩ := hsound.addReference_of_fits
          (hsound.wellFormed.getNode_idOf (asClass_eq_some.mp htype).1)
          (hsound.wellFormed.getNode_lt hparent) hptr (fun hmem => hreached _ hmem rfl)
          (hfits parent hparent)
        rw [hadd]
        refine returns_good ⟨_, hsound', ?_⟩
        rintro edge (rfl | hedge)
        · exact .inr rfl
        · exact .inl hedge

end

/-! ## §5  One property -/

section

variable [Inhabited V] {state : NodeState V} {parentId : NodeId} {data : NodeData V}

/-- New variables and variable types have a data type. -/
theorem validate_typed (htyped : ∀ ptr node, spaces.heap.nodes ptr = some node →
      node.nodeClass = .variable ∨ node.nodeClass = .variableType → node.attributes.dataType ≠ none)
    (h : factory.validate spaces state parentId = .ok data)
    (hclass : state.nodeClass = .variable ∨ state.nodeClass = .variableType) :
    data.dataType ≠ none := by
  have hnamed : factory.dataType spaces state ≠ .ok none := by
    unfold dataType
    split <;> nofun
  have hdataType := (validate_eq_ok h).2
  intro hnone
  rw [hnone] at hdataType
  unfold dataTypeOf at hdataType
  rcases hclass with hclass | hclass
  · rw [hclass] at hdataType
    simp only at hdataType
    split at hdataType
    · rename_i variableType htype
      split at hdataType
      · obtain ⟨hfound, htypeClass⟩ := asClass_eq_some.mp htype
        obtain ⟨typeNode, htypeNode, htypeClass⟩ := Option.map_eq_some_iff.mp htypeClass
        have hread := Except.ok.inj hdataType
        rw [NodeHeap.attributesOf, htypeNode, Option.map_some, Option.bind_some] at hread
        exact htyped variableType typeNode htypeNode (.inr htypeClass) hread
      · exact hnamed hdataType
    · cases hdataType
  · rw [hclass] at hdataType
    exact hnamed hdataType

/-- While a node is built nothing leads to it. -/
structure Growing (factory : GenericNodeFactory) (spaces : Spaces V) (state : NodeState V)
    (spaces' : Spaces V) : Prop where
  building : ∃ earlier : List (PropertyDeclaration V), factory.Building spaces state.nodeId state.nodeClass
    (propertyIds state.nodeId earlier) spaces'
  sound : ∃ edges, Sound factory spaces' edges ∧ NotReached edges spaces.heap.next

omit [Inhabited V] in
/-- A node that was added has no references. -/
theorem nodes_of_addNode {id : NodeId} {nodeClass : NodeClass}
    (hadd : spaces.addNode (factory.space :: factory.parents) factory.space id nodeClass data true =
      some spaces') :
    spaces'.heap.nodes spaces.heap.next = some { id, nodeClass, attributes := data } ∧
      spaces.heap.Agrees spaces'.heap := by
  obtain ⟨-, -, -, hheap, -⟩ := AddressSpaces.addNode_eq_some hadd
  rw [hheap]
  exact ⟨by simp [NodeHeap.allocate], NodeHeap.agrees_allocate _ _⟩

omit [Inhabited V] in
theorem typeDefinition_isType {type : NodePtr}
    (h : factory.typeDefinition spaces state = some type) :
    (spaces.heap.classOf type).any NodeClass.isTypeDefinition = true :=
  (Option.filter_eq_some_iff.mp h).2

theorem createNodeHelper_of_ok {fuel : ℕ} (hvalidate : factory.validate spaces state parentId = .ok data)
    (hadd : spaces.addNode (factory.space :: factory.parents) factory.space state.nodeId
      state.nodeClass data true = some spaces') :
    factory.createNodeHelper (fuel + 1) spaces state parentId =
      andThen (factory.attachType (factory.createNodeHelper fuel) state spaces.heap.next
        (factory.typeDefinition spaces state) spaces') fun spaces₁ =>
          andThen (factory.attachParent state parentId spaces.heap.next spaces₁)
            (factory.complete (factory.createNodeHelper fuel) state spaces.heap.next) := by
  rw [createNodeHelper, hvalidate]
  simp only [Option.bind_eq_bind, hadd, Option.bind_some]

section

variable {declaration : PropertyDeclaration V} {propertyId : NodeId}
  {earlier : List (PropertyDeclaration V)} {edges' : Set Edge}

variable (hsound : Sound factory spaces edges) (hnode : state.nodeId ≠ StandardId.propertyType)
  (hplain : ∀ type, factory.getNode spaces StandardId.propertyType = some type →
    factory.Declares spaces.heap type [])
  (hbuilding : factory.Building spaces state.nodeId state.nodeClass
    (propertyIds state.nodeId earlier) spaces')
  (hsound' : Sound factory spaces' edges') (hreached : NotReached edges' spaces.heap.next)

include hsound hnode hplain hbuilding hsound' hreached

/-- The type of a property that was added and its parent. -/
theorem attachProperty_returns {spaces₁ : Spaces V} (fuel : ℕ)
    (hvalidate : factory.validate spaces' (propertyState state.nodeId propertyId declaration)
      state.nodeId = .ok data)
    (hadd : spaces'.addNode (factory.space :: factory.parents) factory.space propertyId .variable
      data true = some spaces₁) :
    Returns (fun spaces'' => ∃ edges'', Sound factory spaces'' edges'' ∧
        NotReached edges'' spaces.heap.next)
      (andThen (factory.attachType (factory.createNodeHelper fuel)
        (propertyState state.nodeId propertyId declaration) spaces'.heap.next
          (factory.typeDefinition spaces' (propertyState state.nodeId propertyId declaration))
            spaces₁) fun spaces₂ =>
        andThen (factory.attachParent (propertyState state.nodeId propertyId declaration)
          state.nodeId spaces'.heap.next spaces₂)
            (factory.complete (factory.createNodeHelper fuel)
              (propertyState state.nodeId propertyId declaration) spaces'.heap.next)) := by
  obtain ⟨hfree, hdataType⟩ := validate_eq_ok hvalidate
  obtain ⟨hself, hagrees⟩ := nodes_of_addNode hadd
  have hdata := validate_dataType_lt hbuilding.wellFormed hvalidate
  have hsound₁ := hsound'.addNode hadd hdata fun _ => validate_typed hsound'.typed hvalidate (.inl rfl)
  have hbuilding₁ := hbuilding.addNode hadd hdata (hbuilding.getNode_eq_none.mp hfree).1
  obtain ⟨type, hdefinition, htype⟩ := typeDefinition_of_variable rfl hdataType
  have hother : StandardId.propertyType ∉ state.nodeId :: propertyIds state.nodeId earlier := by
    rw [List.mem_cons]
    rintro (heq | hmem)
    · exact hnode heq.symm
    · exact numeric_notMem_propertyIds hmem
  have htype₀ : factory.getNode spaces StandardId.propertyType = some type := by
    rw [← hbuilding.getNode_other hother]
    exact htype
  have hlt := hsound.wellFormed.getNode_lt htype₀
  have hclass : (spaces₁.heap.classOf type).any NodeClass.isTypeDefinition = true := by
    rw [hagrees.classOf (hsound'.wellFormed.getNode_lt htype)]
    exact typeDefinition_isType hdefinition
  have hnew := hsound'.notReached_next le_rfl
  rw [hdefinition]
  refine (attachType_returns hsound hsound₁ (I := fun spaces'' =>
    factory.Building spaces state.nodeId state.nodeClass
        (propertyIds state.nodeId earlier ++ [propertyId]) spaces'' ∧
      spaces'.heap.next < spaces''.heap.next ∧
        ∃ edges'', Sound factory spaces'' edges'' ∧ NotReached edges'' spaces'.heap.next ∧
          NotReached edges'' spaces.heap.next) hlt (hplain type htype₀) hself rfl
    (fun edge hedge heq => (hsound'.represents.edge_lt hedge).2.1.ne heq) hclass ?_ ?_).andThen ?_
  · intro hasTypeDefinition spaces₂ hfound hadd₂ hsound₂
    obtain ⟨heap, hheap, rfl⟩ := AddressSpaces.addReference_eq_some hadd₂
    refine ⟨hbuilding₁.addReference hadd₂ hbuilding.agrees.next (.inl ?_), ?_, _, hsound₂,
      hnew.insert (hlt.trans_le hbuilding.agrees.next).ne, hreached.insert hlt.ne⟩
    · rw [hsound₁.wellFormed.getNode_idOf hfound]
      decide
    · rw [(NodeHeap.addReference_sameObjects hheap).next]
      exact hsound₁.wellFormed.bounded.allocated _ _ hself
  · exact fun _ => ⟨fun spaces'' hI => hI.1.agrees, nofun⟩
  · rintro spaces₂ - ⟨hbuilding₂, hnext, edges₂, hsound₂, hreached₂, houter⟩
    have hdefinitionType : StandardId.hasProperty ≠ StandardId.hasTypeDefinition := by decide
    have hsubtypeType : StandardId.hasProperty ≠ StandardId.hasSubtype := by decide
    refine (attachParent_returns hsound₂ hnext hreached₂ fun parent _ =>
      NodeHeap.fits_of_ne hdefinitionType hsubtypeType).andThen ?_
    rintro spaces₃ - ⟨edges₃, hsound₃, hedges₃⟩
    refine returns_good ⟨edges₃, hsound₃, fun edge hedge => ?_⟩
    rcases hedges₃ edge hedge with hedge | htarget
    · exact houter edge hedge
    · -- The outer node is an earlier one.
      rw [htarget]
      exact hbuilding.allocated.ne'

end

/-- A property whose type declares nothing can be created. -/
theorem createProperty_returns (hsound : Sound factory spaces edges)
    (hcreate : factory.createProperties = true)
    (hnode : state.nodeId ≠ StandardId.propertyType)
    (hplain : ∀ type, factory.getNode spaces StandardId.propertyType = some type →
      factory.Declares spaces.heap type []) {propertyId : NodeId}
    {declaration : PropertyDeclaration V}
    (hnested : makeNestedNodeId state.nodeId declaration.browseName.name = some propertyId)
    (hgrowing : Growing factory spaces state spaces') (fuel : ℕ) :
    Returns (Growing factory spaces state) (factory.createNodeHelper (fuel + 1) spaces'
      (propertyState state.nodeId propertyId declaration) state.nodeId) := by
  obtain ⟨⟨earlier, hbuilding⟩, edges', hsound', hreached⟩ := hgrowing
  have hreturns : Returns
      (fun spaces'' => ∃ edges'', Sound factory spaces'' edges'' ∧
        NotReached edges'' spaces.heap.next)
      (factory.createNodeHelper (fuel + 1) spaces'
        (propertyState state.nodeId propertyId declaration) state.nodeId) := by
    cases hvalidate : factory.validate spaces'
      (propertyState state.nodeId propertyId declaration) state.nodeId with
    | error status =>
        rw [createNodeHelper, hvalidate]
        exact returns_error (validate_ne_good hvalidate)
    | ok data =>
        have hid : propertyId ≠ .null := by
          obtain ⟨-, text, namespaceIndex, rfl⟩ := makeNestedNodeId_eq_some hnested
          intro hnull
          cases hnull
        have haddable : ∃ spaces₁, spaces'.addNode (factory.space :: factory.parents)
            factory.space propertyId .variable data true = some spaces₁ :=
          addNode_of_free hid (validate_eq_ok hvalidate).1
        obtain ⟨spaces₁, hadd⟩ := haddable
        rw [createNodeHelper_of_ok hvalidate hadd]
        exact attachProperty_returns hsound hnode hplain hbuilding hsound' hreached fuel hvalidate
          hadd
  refine hreturns.mono fun spaces'' hcreated hsound'' => ⟨?_, hsound''⟩
  rcases createProperty_spec hsound.wellFormed hcreate hnode hbuilding hnested hcreated with
    ⟨-, -, hbuilding''⟩ | ⟨hbad, -⟩
  · exact ⟨_, hbuilding''⟩
  · exact absurd rfl hbad

end

/-! ## §6  The whole node -/

section

variable (factory) (spaces) (state : NodeState V)

/-- The properties have names, the node has an id to nest them under, and their own type
declares none. -/
def PropertiesSafe (declared : List (PropertyDeclaration V)) : Prop :=
  declared ≠ [] → state.nodeId ≠ StandardId.propertyType ∧ state.nodeId.HasText ∧
    (∀ type, factory.getNode spaces StandardId.propertyType = some type →
      factory.Declares spaces.heap type []) ∧
    ∀ declaration ∈ declared, declaration.browseName.name ≠ ""

/-- A parent of the class with the type definition has room for the node. -/
structure Admits (typeId : NodeId) (nodeClass parentClass : NodeClass)
    (parentDefinition : Option NodePtr) : Prop where
  definition : typeId = StandardId.hasTypeDefinition →
    parentDefinition = none ∧ nodeClass.isTypeDefinition = true
  supertype : typeId = StandardId.hasSubtype → nodeClass.isTypeDefinition = true →
    parentClass.isTypeDefinition = true

/-- The parent may be an earlier node, the node itself or one of its properties,
and has room for the node. -/
structure ParentSafe (declared : List (PropertyDeclaration V)) : Prop where
  earlier : ∀ parent parentNode, factory.getNode spaces state.parentId = some parent →
    spaces.heap.nodes parent = some parentNode →
      Admits state.referenceTypeId state.nodeClass parentNode.nodeClass parentNode.typeDefinition
  self : state.parentId = state.nodeId →
    Admits state.referenceTypeId state.nodeClass state.nodeClass
      (factory.typeDefinition spaces state) ∧
      (state.referenceTypeId = StandardId.hasSubtype → state.nodeClass.isTypeDefinition = false)
  property : state.parentId ∈ propertyIds state.nodeId declared →
    state.referenceTypeId ≠ StandardId.hasTypeDefinition ∧
      (state.referenceTypeId = StandardId.hasSubtype → state.nodeClass.isTypeDefinition = false)

/-- Creating the node does not stop the process and does not run for ever. -/
def CreateSafe [Inhabited V] : Prop :=
  ¬ factory.Refused spaces state → ∀ declared, factory.NewProperties spaces state declared →
    factory.PropertiesSafe spaces state declared ∧
      (InOrder (factory.PropertyFits spaces state) [] declared →
        factory.ParentSafe spaces state declared)

end

section

variable {state : NodeState V} {ptr parent : NodePtr} {declared : List (PropertyDeclaration V)}

theorem fits_of_admits (hsound : Sound factory spaces edges) (hreached : NotReached edges ptr)
    {nodeClass : NodeClass} (hclass : spaces.heap.classOf ptr = some nodeClass) {typeId : NodeId}
    (hadmits : ∀ parentNode, spaces.heap.nodes parent = some parentNode →
      Admits typeId nodeClass parentNode.nodeClass parentNode.typeDefinition)
    (hcycle : spaces.heap.NoCycle typeId parent ptr) : spaces.heap.Fits typeId parent ptr := by
  refine ⟨fun parentNode node hparent hnode => ?_, hcycle⟩
  have hadmit := hadmits parentNode hparent
  rw [NodeHeap.classOf, hnode, Option.map_some, Option.some_inj] at hclass
  subst hclass
  exact ⟨fun htype => hadmit.definition htype, fun hcaches =>
    ⟨hsound.supertype_eq_none hnode hreached, hadmit.supertype hcaches.2 hcaches.1⟩⟩

/-- The supertypes of an earlier node are earlier nodes. -/
theorem Building.noCycle {nodeId typeId : NodeId} {nodeClass : NodeClass} {ids : List NodeId}
    (hsound : Sound factory spaces edges)
    (hbuilding : factory.Building spaces nodeId nodeClass ids spaces')
    (hparent : parent < spaces.heap.next) :
    spaces'.heap.NoCycle typeId parent spaces.heap.next := by
  intro _ _
  obtain ⟨ptrs, hptrs⟩ := hsound.path_next hparent
  have hearlier : ∀ q ∈ ptrs, q < spaces.heap.next := path_subset hsound.staysIn hparent hptrs
  refine ⟨spaces.heap.next, ptrs, path_of_eqOn hptrs fun q hq => ?_, fun hmem => ?_⟩
  · exact hbuilding.agrees.read (hearlier q hq) Node.supertype fun _ => rfl
  · exact lt_irrefl _ (hearlier _ hmem)

theorem ParentSafe.fits (h : factory.ParentSafe spaces state declared)
    (hsound : Sound factory spaces edges) {edges' : Set Edge}
    (hsound' : Sound factory spaces' edges') (hreached : NotReached edges' spaces.heap.next)
    (hbuilding : factory.Building spaces state.nodeId state.nodeClass
      (propertyIds state.nodeId declared) spaces')
    (hself : factory.typeDefinition spaces state = none →
      ∀ node, spaces'.heap.nodes spaces.heap.next = some node → node.typeDefinition = none)
    (hparent : factory.getNode spaces' state.parentId = some parent) :
    spaces'.heap.Fits state.referenceTypeId parent spaces.heap.next := by
  have hnoCycle : (state.referenceTypeId = StandardId.hasSubtype →
      state.nodeClass.isTypeDefinition = false) →
        spaces'.heap.NoCycle state.referenceTypeId parent spaces.heap.next := by
    intro hnot htype hclass
    rw [hbuilding.selfClass, Option.any_some, hnot htype] at hclass
    cases hclass
  by_cases hmem : state.parentId ∈ state.nodeId :: propertyIds state.nodeId declared
  · rcases List.mem_cons.mp hmem with hid | hid
    · obtain ⟨hadmits, hnot⟩ := h.self hid
      rw [hid, getNode_own hbuilding.self, Option.some_inj] at hparent
      subst hparent
      refine fits_of_admits hsound' hreached hbuilding.selfClass (fun node hnode => ?_)
        (hnoCycle hnot)
      have hclass := hbuilding.selfClass
      rw [NodeHeap.classOf, hnode, Option.map_some, Option.some_inj] at hclass
      rw [hclass]
      exact ⟨fun htype => ⟨hself (hadmits.definition htype).1 node hnode,
        (hadmits.definition htype).2⟩, hadmits.supertype⟩
    · obtain ⟨hne, hnot⟩ := h.property hid
      refine fits_of_admits hsound' hreached hbuilding.selfClass (fun node _ => ?_) (hnoCycle hnot)
      refine ⟨fun htype => absurd htype hne, fun htype hclass => ?_⟩
      rw [hnot htype] at hclass
      cases hclass
  · rw [hbuilding.getNode_other hmem] at hparent
    have hlt := hsound.wellFormed.getNode_lt hparent
    refine fits_of_admits hsound' hreached hbuilding.selfClass (fun node hnode => ?_)
      (hbuilding.noCycle hsound hlt)
    obtain ⟨old, hold, houtline⟩ := hbuilding.agrees.nodes hlt hnode
    rw [Node.nodeClass_eq_of_outline houtline, Node.typeDefinition_eq_of_outline houtline]
    exact h.earlier parent old hparent hold

theorem complete_eq {create : Spaces V → NodeState V → NodeId → Option (StatusCode × Spaces V)}
    (hchildren : state.children = []) (hproperties : state.properties = []) :
    factory.complete create state ptr spaces = some (.good, spaces) := by
  simp [complete, createChildren, hchildren, hproperties]

/-- A nested id stops the process unless there is something to nest. -/
theorem exists_makeNestedNodeId {nodeId : NodeId} {name : String} (hid : nodeId ≠ .null)
    (htext : nodeId.HasText) (hname : name ≠ "") : ∃ id, makeNestedNodeId nodeId name = some id := by
  cases nodeId with
  | null => exact absurd rfl hid
  | numeric id namespaceIndex => exact ⟨_, if_neg hname⟩
  | string id namespaceIndex => exact ⟨_, if_neg hname⟩
  | opaqueId id namespaceIndex => exact absurd rfl (htext id namespaceIndex)

theorem exists_newProperties (hsound : Sound factory spaces edges) :
    ∃ declared, factory.NewProperties spaces state declared := by
  unfold NewProperties
  cases htype : factory.typeDefinition spaces state with
  | none => exact ⟨[], rfl⟩
  | some type =>
      by_cases hcreate : factory.createProperties = true
      · simp only [hcreate, if_true]
        exact hsound.declares (typeDefinition_lt hsound.wellFormed htype)
      · simp only [hcreate]
        exact ⟨[], rfl⟩

variable [Inhabited V]

theorem validate_nodeId {parentId : NodeId} {data : NodeData V}
    (h : factory.validate spaces state parentId = .ok data) : state.nodeId ≠ .null := by
  intro hid
  rw [validate, if_pos hid] at h
  cases h

/-- A node that was added gets its type and its properties. -/
theorem attachOwnType_returns (hsound : Sound factory spaces edges)
    (hsafe : ∀ declared, factory.NewProperties spaces state declared →
      factory.PropertiesSafe spaces state declared) (hid : state.nodeId ≠ .null)
    {data : NodeData V} (hgrowing : Growing factory spaces state spaces')
    (hsound' : Sound factory spaces' edges)
    (hadd : spaces.addNode (factory.space :: factory.parents) factory.space state.nodeId
      state.nodeClass data true = some spaces') (fuel : ℕ) :
    Returns (Growing factory spaces state) (factory.attachType (factory.createNodeHelper (fuel + 1))
      state spaces.heap.next (factory.typeDefinition spaces state) spaces') := by
  cases htype : factory.typeDefinition spaces state with
  | none => exact returns_good hgrowing
  | some type =>
      obtain ⟨hself, hagrees⟩ := nodes_of_addNode hadd
      have hlt := typeDefinition_lt hsound.wellFormed htype
      have hclass : (spaces'.heap.classOf type).any NodeClass.isTypeDefinition = true := by
        rw [hagrees.classOf hlt]
        exact typeDefinition_isType htype
      obtain ⟨declared, hdeclared⟩ := hsound.declares hlt
      refine attachType_returns hsound hsound' hlt hdeclared hself rfl
        (fun edge hedge heq => (hsound.represents.edge_lt hedge).2.1.ne heq) hclass ?_ ?_
      · intro hasTypeDefinition spaces₁ hfound hadd₁ hsound₁
        obtain ⟨earlier, hbuilding⟩ := hgrowing.building
        refine ⟨⟨earlier, hbuilding.addReference hadd₁ le_rfl (.inl ?_)⟩, _, hsound₁,
          (hsound.notReached_next le_rfl).insert hlt.ne⟩
        rw [hsound'.wellFormed.getNode_idOf hfound]
        decide
      · intro hcreate
        have hnew : factory.NewProperties spaces state declared := by
          simp only [NewProperties, htype, hcreate, if_true]
          exact hdeclared
        refine ⟨fun spaces₁ hgrowing₁ => ?_, fun declaration hmem spaces₁ hgrowing₁ => ?_⟩
        · obtain ⟨earlier, hbuilding⟩ := hgrowing₁.building
          exact hbuilding.agrees
        · obtain ⟨hnode, htext, hplain, hnames⟩ :=
            hsafe declared hnew (List.ne_nil_of_mem hmem)
          obtain ⟨propertyId, hnested⟩ :=
            exists_makeNestedNodeId hid htext (hnames declaration hmem)
          exact ⟨propertyId, hnested, createProperty_returns hsound hcreate hnode hplain hnested
            hgrowing₁ fuel⟩

/-- **Creating a node returns**, and what it leaves is sound. -/
theorem createNode_returns (hsound : Sound factory spaces edges) (hchildren : state.children = [])
    (hproperties : state.properties = []) (hsafe : factory.CreateSafe spaces state) (fuel : ℕ) :
    Returns (fun spaces' => ∃ edges', Sound factory spaces' edges')
      (factory.createNode (fuel + 2) spaces state) := by
  rw [createNode]
  cases hvalidate : factory.validate spaces state state.parentId with
  | error status =>
      rw [createNodeHelper, hvalidate]
      exact returns_error (validate_ne_good hvalidate)
  | ok data =>
      have hok : ¬ factory.Refused spaces state := by
        rintro ⟨status, herror⟩
        rw [hvalidate] at herror
        cases herror
      have hid := validate_nodeId hvalidate
      have haddable : ∃ spaces₁, spaces.addNode (factory.space :: factory.parents) factory.space
          state.nodeId state.nodeClass data true = some spaces₁ :=
        addNode_of_free hid (validate_eq_ok hvalidate).1
      obtain ⟨spaces₁, hadd⟩ := haddable
      have hdata := validate_dataType_lt hsound.wellFormed hvalidate
      have hsound₁ := hsound.addNode hadd hdata (validate_typed hsound.typed hvalidate)
      have hbuilding : factory.Building spaces state.nodeId state.nodeClass [] spaces₁ :=
        .start hsound.wellFormed hadd hdata
      have hgrowing : Growing factory spaces state spaces₁ :=
        ⟨⟨[], hbuilding⟩, edges, hsound₁, hsound.notReached_next le_rfl⟩
      rw [createNodeHelper_of_ok hvalidate hadd]
      refine (attachOwnType_returns hsound (fun declared hnew => (hsafe hok declared hnew).1) hid
        hgrowing hsound₁ hadd fuel).andThen fun spaces₂ hattached hgrowing₂ => ?_
      obtain ⟨edges₂, hsound₂, hreached₂⟩ := hgrowing₂.sound
      have hplain : state.nodeId = StandardId.propertyType →
          factory.NewProperties spaces state [] := by
        intro hnode
        obtain ⟨declared, hnew⟩ : ∃ declared, factory.NewProperties spaces state declared :=
          exists_newProperties hsound
        by_cases hnone : declared = []
        · rwa [hnone] at hnew
        · exact absurd hnode ((hsafe hok declared hnew).1 hnone).1
      obtain ⟨declared, hnew, hfits⟩ :=
        fits_of_attachType hsound.wellFormed hplain hbuilding hattached
      obtain ⟨-, hbuilding₂⟩ :=
        attachType_of_fits hsound.wellFormed hbuilding hnew hfits hattached
      have hself : factory.typeDefinition spaces state = none →
          ∀ node, spaces₂.heap.nodes spaces.heap.next = some node → node.typeDefinition = none := by
        intro hnone node hnode
        rw [hnone] at hattached
        cases hattached
        rw [(nodes_of_addNode hadd).1] at hnode
        cases hnode
        rfl
      refine (attachParent_returns hsound₂ hbuilding₂.allocated hreached₂ fun parent hparent =>
        ((hsafe hok declared hnew).2 hfits).fits hsound hsound₂ hreached₂ hbuilding₂ hself
          hparent).andThen ?_
      rintro spaces₃ - ⟨edges₃, hsound₃, -⟩
      rw [complete_eq hchildren hproperties]
      exact returns_good ⟨edges₃, hsound₃⟩

end

end GenericNodeFactory

end ScadaCommon.AddressSpace
