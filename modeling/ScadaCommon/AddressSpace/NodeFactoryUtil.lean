import ScadaCommon.AddressSpace.NestedNodes
import ScadaCommon.AddressSpace.NodesetLoading
import ScadaCommon.AddressSpace.SpaceView

/-!
# Instances of types

`CreateMissingProperties` goes through the properties that a type and its supertypes
declare. Whether a property is missing is asked of the declaration and not of the
instance, so that whatever is declared is created each time.

§1 what is declared · §2 the first creation · §3 the nodes before the instance · §4 two
calls.
-/

namespace ScadaCommon.AddressSpace

open Foundation

variable {V : Type} {factory : GenericNodeFactory} {spaces spaces' : Spaces V} {edges : Set Edge}
  {type : NodePtr}

/-! ## §1  What is declared -/

section

variable {α : Type}

/-- What is read of some references. -/
def readAll (read : Reference → Option (Option α)) : List Reference → Option (List α)
  | [] => some []
  | ref :: refs => do
      let found ← read ref
      return found.toList ++ (← readAll read refs)

/-- What is read of the references of a type and its supertypes, at most `fuel` of them; the
most derived comes first. -/
def readAlong (heap : NodeHeap (NodeData V)) (read : Reference → Option (Option α)) :
    ℕ → NodePtr → Option (List α)
  | 0, _ => none
  | fuel + 1, type => do
      let typeNode ← heap.nodes type
      let own ← readAll read typeNode.forwardReferences
      match typeNode.supertype with
      | none => return own
      | some supertype => return own ++ (← readAlong heap read fuel supertype)

end

namespace GenericNodeFactory

/-- A property as others see it. -/
def propertyView (factory : GenericNodeFactory) (heap : NodeHeap (NodeData V))
    (node : Node (NodeData V)) : Option (PropertyDeclaration V) := do
  let browseName ← factory.getBrowseName node
  let displayName ← factory.getDisplayName node
  let dataType ← node.attributes.dataType
  let dataTypeNode ← heap.nodes dataType
  return { browseName, displayName, dataTypeId := dataTypeNode.id, value := node.attributes.value }

def readProperty (factory : GenericNodeFactory) (heap : NodeHeap (NodeData V)) (ref : Reference) :
    Option (Option (PropertyDeclaration V)) := do
  match ← getProperty heap ref with
  | none => return none
  | some node => return some (← factory.propertyView heap node)

/-- A property that is declared, and not as a placeholder. -/
def readDeclaration (factory : GenericNodeFactory) (heap : NodeHeap (NodeData V))
    (ref : Reference) : Option (Option (PropertyDeclaration V)) := do
  match ← getProperty heap ref with
  | none => return none
  | some node =>
      if ← isPlaceholderDeclaration heap node then return none
      return some (← factory.propertyView heap node)

/-- The type and its supertypes declare these properties. -/
def DeclaresProperties (factory : GenericNodeFactory) (heap : NodeHeap (NodeData V))
    (type : NodePtr) (declarations : List (PropertyDeclaration V)) : Prop :=
  ∃ fuel, readAlong heap (factory.readDeclaration heap) fuel type = some declarations

/-- The instance has these properties. -/
def HasProperties (factory : GenericNodeFactory) (heap : NodeHeap (NodeData V)) (ptr : NodePtr)
    (properties : List (PropertyDeclaration V)) : Prop :=
  ∃ node, heap.nodes ptr = some node ∧
    readAll (factory.readProperty heap) node.forwardReferences = some properties

/-- One property for each name, as the first declaration of the name has it. -/
structure EachOnce (properties declarations : List (PropertyDeclaration V)) : Prop where
  names : (properties.map (·.browseName.name)).Nodup
  same : ∀ declaration, declaration ∈ properties ↔
    ∃ before after, declarations = before ++ declaration :: after ∧
      ∀ other ∈ before, other.browseName.name ≠ declaration.browseName.name

/-- Where nothing is declared nothing is created. -/
theorem declarationsOf_of_readAll_nil {heap : NodeHeap (NodeData V)} {refs : List Reference}
    (h : readAll (factory.readDeclaration heap) refs = some []) :
    factory.declarationsOf heap refs = some [] := by
  induction refs with
  | nil => rfl
  | cons ref refs ih =>
      obtain ⟨found, hfound, h⟩ := Option.bind_eq_some_iff.mp h
      obtain ⟨rest, hrest, h⟩ := Option.bind_eq_some_iff.mp h
      obtain ⟨hnone, rfl⟩ := List.append_eq_nil_iff.mp (Option.some.inj h)
      have hdeclared : factory.declaredProperty heap ref = some none := by
        obtain ⟨property, hproperty, hfound⟩ := Option.bind_eq_some_iff.mp hfound
        cases property with
        | none => simp [declaredProperty, hproperty]
        | some node =>
            obtain ⟨isPlaceholder, hisPlaceholder, hfound⟩ := Option.bind_eq_some_iff.mp hfound
            cases isPlaceholder with
            | true => simp [declaredProperty, hproperty, declarationOf, hisPlaceholder]
            | false =>
                obtain ⟨view, -, hview⟩ := Option.bind_eq_some_iff.mp hfound
                cases hview
                cases hnone
      rw [declarationsOf, hdeclared, ih hrest]
      rfl

theorem declares_nil {heap : NodeHeap (NodeData V)}
    (h : factory.DeclaresProperties heap type []) : factory.Declares heap type [] := by
  obtain ⟨fuel, h⟩ := h
  induction fuel generalizing type with
  | zero => cases h
  | succ fuel ih =>
      obtain ⟨typeNode, htypeNode, h⟩ := Option.bind_eq_some_iff.mp h
      obtain ⟨own, hown, h⟩ := Option.bind_eq_some_iff.mp h
      cases hsupertype : typeNode.supertype with
      | none =>
          rw [hsupertype] at h
          cases h
          refine declares_iff.mpr ⟨typeNode, [], htypeNode, declarationsOf_of_readAll_nil hown, ?_⟩
          rw [hsupertype]
      | some supertype =>
          rw [hsupertype] at h
          obtain ⟨inherited, hinherited, h⟩ := Option.bind_eq_some_iff.mp h
          obtain ⟨rfl, rfl⟩ := List.append_eq_nil_iff.mp (Option.some.inj h)
          refine declares_iff.mpr ⟨typeNode, [], htypeNode, declarationsOf_of_readAll_nil hown, ?_⟩
          rw [hsupertype]
          exact ⟨[], ih hinherited, rfl⟩

/-! ## §2  The first creation -/

section

variable {create : Spaces V → NodeState V → NodeId → Option (StatusCode × Spaces V)}
  {nodeId : NodeId} {declaration : PropertyDeclaration V}
  {rest : List (PropertyDeclaration V)} {fuel : ℕ} {status : StatusCode}

theorem createDeclaredProperties_first {refs : List Reference}
    (hown : factory.declarationsOf spaces.heap refs = some (declaration :: rest))
    (h : factory.createDeclaredProperties create nodeId refs spaces = some (.good, spaces')) :
    ∃ propertyId spaces₁ refs', makeNestedNodeId nodeId declaration.browseName.name =
        some propertyId ∧
      create spaces (propertyState nodeId propertyId declaration) nodeId = some (.good, spaces₁) ∧
        factory.createDeclaredProperties create nodeId refs' spaces₁ = some (.good, spaces') := by
  induction refs with
  | nil => cases hown
  | cons ref refs ih =>
      obtain ⟨found, hfound, hown⟩ := Option.bind_eq_some_iff.mp hown
      obtain ⟨others, hothers, hown⟩ := Option.bind_eq_some_iff.mp hown
      obtain ⟨found', hfound', h⟩ := Option.bind_eq_some_iff.mp h
      obtain rfl := Option.some.inj (hfound.symm.trans hfound')
      cases found with
      | none =>
          cases hown
          exact ih hothers h
      | some found =>
          cases hown
          obtain ⟨propertyId, hnested, h⟩ := Option.bind_eq_some_iff.mp h
          rcases andThen_eq_some.mp h with ⟨spaces₁, hcreate, h⟩ | ⟨hbad, -⟩
          · exact ⟨propertyId, spaces₁, refs, hnested, hcreate, h⟩
          · exact absurd rfl hbad

/-- Where all goes well the first property that is declared is created first. -/
theorem createMissingProperties_first [Inhabited V] {R : Spaces V → Spaces V → Prop}
    (hR : factory.HoldsOfChanges R)
    (hcreate : ∀ spaces state parentId result, create spaces state parentId = some result →
      R spaces result.2)
    (hdeclares : factory.Declares spaces.heap type (declaration :: rest))
    (h : factory.createMissingProperties create nodeId fuel type spaces = some (.good, spaces')) :
    ∃ propertyId spaces₁, makeNestedNodeId nodeId declaration.browseName.name = some propertyId ∧
      create spaces (propertyState nodeId propertyId declaration) nodeId = some (.good, spaces₁) ∧
        R spaces₁ spaces' := by
  induction fuel generalizing type with
  | zero => cases h
  | succ fuel ih =>
      obtain ⟨typeNode, own, htypeNode, hown, hdeclared⟩ := declares_iff.mp hdeclares
      obtain ⟨typeNode', htypeNode', h⟩ := Option.bind_eq_some_iff.mp h
      obtain rfl := Option.some.inj (htypeNode.symm.trans htypeNode')
      rcases andThen_eq_some.mp h with ⟨spaces₁, hcreated, h⟩ | ⟨hbad, -⟩
      · cases own with
        | nil =>
            rw [createDeclaredProperties_quiet hown] at hcreated
            cases hcreated
            rw [htypeNode] at h
            cases hsupertype : typeNode.supertype with
            | none =>
                rw [hsupertype] at hdeclared
                cases hdeclared
            | some supertype =>
                rw [hsupertype] at hdeclared
                obtain ⟨inherited, hinherited, heq⟩ := hdeclared
                cases heq
                simp only [Option.bind_eq_bind, Option.bind_some, hsupertype] at h
                exact ih hinherited h
        | cons first own =>
            have hfirst : first = declaration := by
              cases hsupertype : typeNode.supertype with
              | none =>
                  rw [hsupertype] at hdeclared
                  cases hdeclared
                  rfl
              | some supertype =>
                  rw [hsupertype] at hdeclared
                  obtain ⟨inherited, -, heq⟩ := hdeclared
                  cases heq
                  rfl
            subst hfirst
            obtain ⟨propertyId, spaces₂, refs, hnested, hcreate', hrest⟩ :=
              createDeclaredProperties_first hown hcreated
            refine ⟨propertyId, spaces₂, hnested, hcreate', ?_⟩
            refine hR.trans _ _ _ (hR.createDeclaredProperties hcreate hrest) ?_
            obtain ⟨typeNode₁, -, h⟩ := Option.bind_eq_some_iff.mp h
            cases hsupertype : typeNode₁.supertype with
            | none =>
                rw [hsupertype] at h
                cases h
                exact hR.refl spaces'
            | some supertype =>
                rw [hsupertype] at h
                exact hR.createMissingProperties hcreate h
      · exact absurd rfl hbad

end

/-- No id comes to mean another node. -/
theorem getNode_holdsOfChanges [Inhabited V] : factory.HoldsOfChanges
    fun spaces spaces' : Spaces V => ∀ id ptr,
      factory.getNode spaces id = some ptr → factory.getNode spaces' id = some ptr where
  refl _ _ _ h := h
  trans _ _ _ h h' id ptr hptr := h' id ptr (h id ptr hptr)
  addNode spaces spaces' state _ _ _ hadd id ptr hptr := by
    obtain ⟨-, hfree, -⟩ := AddressSpaces.addNode_eq_some hadd
    rw [getNode_addNode hadd, if_neg ?_, hptr]
    rintro rfl
    rw [getNode, hfree] at hptr
    cases hptr
  addReference spaces spaces' _ _ _ hadd id ptr hptr := by
    obtain ⟨heap, -, rfl⟩ := AddressSpaces.addReference_eq_some hadd
    exact hptr
  setPropertyValue spaces spaces' _ _ hset id ptr hptr := by
    obtain ⟨_, _, _, -, -, rfl⟩ := setPropertyValue_eq_some hset
    exact hptr

/-! ## §3  The nodes before the instance -/

/-- The nodes of `first` are as they were, and the node with the id came later. -/
structure Later (factory : GenericNodeFactory) (first : NodeHeap (NodeData V)) (nodeId : NodeId)
    (spaces : Spaces V) : Prop where
  agrees : first.Agrees spaces.heap
  wellFormed : WellFormed spaces
  owner : ∃ ptr, factory.getNode spaces nodeId = some ptr ∧ first.next ≤ ptr

section

variable [Inhabited V] {first : NodeHeap (NodeData V)} {nodeId propertyId : NodeId}
  {declaration : PropertyDeclaration V} {fuel : ℕ} {status : StatusCode}
  {result : StatusCode × Spaces V}
  {create : Spaces V → NodeState V → NodeId → Option (StatusCode × Spaces V)}

omit [Inhabited V] in
theorem createDeclaredProperties_keeps {P : Spaces V → Prop} {refs : List Reference}
    (hcreate : ∀ spaces propertyId declaration result, P spaces →
      create spaces (propertyState nodeId propertyId declaration) nodeId = some result → P result.2)
    (hP : P spaces)
    (h : factory.createDeclaredProperties create nodeId refs spaces = some result) : P result.2 := by
  induction refs generalizing spaces with
  | nil =>
      cases h
      exact hP
  | cons ref refs ih =>
      obtain ⟨found, -, h⟩ := Option.bind_eq_some_iff.mp h
      cases found with
      | none => exact ih hP h
      | some declaration =>
          obtain ⟨propertyId, -, h⟩ := Option.bind_eq_some_iff.mp h
          rcases andThen_eq_some.mp h with ⟨spaces₁, hfirst, h⟩ | ⟨-, hfirst⟩
          · exact ih (hcreate _ _ _ _ hP hfirst) h
          · exact hcreate _ _ _ _ hP hfirst

omit [Inhabited V] in
/-- What each creation of a property keeps. -/
theorem createMissingProperties_keeps {P : Spaces V → Prop}
    (hcreate : ∀ spaces propertyId declaration result, P spaces →
      create spaces (propertyState nodeId propertyId declaration) nodeId = some result → P result.2)
    (hP : P spaces)
    (h : factory.createMissingProperties create nodeId fuel type spaces = some result) :
    P result.2 := by
  obtain ⟨status, spaces'⟩ := result
  induction fuel generalizing type spaces with
  | zero => cases h
  | succ fuel ih =>
      obtain ⟨typeNode, -, h⟩ := Option.bind_eq_some_iff.mp h
      rcases andThen_eq_some.mp h with ⟨spaces₁, hcreated, h⟩ | ⟨-, hcreated⟩
      · have hP₁ := createDeclaredProperties_keeps hcreate hP hcreated
        obtain ⟨typeNode₁, -, h⟩ := Option.bind_eq_some_iff.mp h
        cases hsupertype : typeNode₁.supertype with
        | none =>
            rw [hsupertype] at h
            cases h
            exact hP₁
        | some supertype =>
            rw [hsupertype] at h
            exact ih hP₁ h
      · exact createDeclaredProperties_keeps hcreate hP hcreated

omit [Inhabited V] in
theorem Later.addReference (h : factory.Later first nodeId spaces) {type source target : NodePtr}
    (hadd : spaces.addReference type source target = some spaces') (hsource : first.next ≤ source)
    (htype : spaces.heap.idOf type ≠ some StandardId.hasSubtype ∨ first.next ≤ target) :
    factory.Later first nodeId spaces' := by
  have hwell := h.wellFormed.addReference hadd
  obtain ⟨heap, hheap, rfl⟩ := AddressSpaces.addReference_eq_some hadd
  exact ⟨h.agrees.addReference hheap hsource htype, hwell, h.owner⟩

omit [Inhabited V] in
theorem Later.attachType (h : factory.Later first nodeId spaces)
    (hcreate : ∀ spaces propertyId declaration result, factory.Later first nodeId spaces →
      create spaces (propertyState nodeId propertyId declaration) nodeId = some result →
        factory.Later first nodeId result.2) {state : NodeState V} {ptr : NodePtr}
    {definition : Option NodePtr} (hid : state.nodeId = nodeId) (hptr : first.next ≤ ptr)
    (hattach : factory.attachType create state ptr definition spaces = some result) :
    factory.Later first nodeId result.2 := by
  cases definition with
  | none =>
      cases hattach
      exact h
  | some type =>
      obtain ⟨hasTypeDefinition, spaces₁, hfound, hadd, hmissing⟩ := attachType_eq_some hattach
      have hnot : spaces.heap.idOf hasTypeDefinition ≠ some StandardId.hasSubtype := by
        rw [h.wellFormed.getNode_idOf hfound]
        simp [StandardId.hasTypeDefinition, StandardId.hasSubtype]
      have h₁ := h.addReference hadd hptr (.inl hnot)
      split at hmissing
      · rw [hid] at hmissing
        exact createMissingProperties_keeps hcreate h₁ hmissing
      · subst hmissing
        exact h₁

omit [Inhabited V] in
theorem Later.attachParent (h : factory.Later first propertyId spaces) {state : NodeState V}
    {owner ptr : NodePtr} (howner : factory.getNode spaces nodeId = some owner)
    (hlater : first.next ≤ owner) (hptr : first.next ≤ ptr)
    (hattach : factory.attachParent state nodeId ptr spaces = some result) :
    factory.Later first propertyId result.2 := by
  unfold GenericNodeFactory.attachParent at hattach
  split at hattach
  · cases hattach
    exact h
  · rw [howner] at hattach
    dsimp only at hattach
    split at hattach
    · cases hattach
      exact h
    · obtain ⟨spaces₁, hadd, rfl⟩ := Option.map_eq_some_iff.mp hattach
      exact h.addReference hadd hlater (.inr hptr)

/-- **Properties of a later node** change nothing before it. -/
theorem Later.createProperty (h : factory.Later first nodeId spaces)
    (hcreate : factory.createNodeHelper fuel spaces (propertyState nodeId propertyId declaration)
      nodeId = some result) : factory.Later first nodeId result.2 := by
  induction fuel generalizing nodeId propertyId declaration spaces result with
  | zero => cases hcreate
  | succ fuel ih =>
      obtain ⟨status, spaces'⟩ := result
      have hgrows := getNode_holdsOfChanges.createNodeHelper hcreate
      obtain ⟨owner, howner, hlater⟩ := h.owner
      rcases createNodeHelper_eq_some hcreate with ⟨-, rfl⟩ | ⟨data, spaces₁, hvalidate, hadd, hrest⟩
      · exact h
      · have hwell₁ := h.wellFormed.addNode hadd (validate_dataType_lt h.wellFormed hvalidate)
        obtain ⟨-, -, -, hheap, hmap⟩ := AddressSpaces.addNode_eq_some hadd
        have hagrees₁ : first.Agrees spaces₁.heap := by
          rw [hheap]
          exact h.agrees.trans (NodeHeap.agrees_allocate _ _)
        have hself : factory.getNode spaces₁ propertyId = some spaces.heap.next :=
          getNode_own (by rw [hmap]; exact Function.update_self ..)
        have hnew : first.next ≤ spaces.heap.next := h.agrees.next
        have hown : ∀ result, factory.attachType (factory.createNodeHelper fuel)
            (propertyState nodeId propertyId declaration) spaces.heap.next
              (factory.typeDefinition spaces (propertyState nodeId propertyId declaration))
                spaces₁ = some result → factory.Later first propertyId result.2 := fun _ hattach =>
          Later.attachType ⟨hagrees₁, hwell₁, _, hself, hnew⟩ (fun _ _ _ _ => ih) rfl hnew hattach
        have hall : factory.Later first propertyId spaces' := by
          rcases andThen_eq_some.mp hrest with ⟨spaces₂, hattach, hrest⟩ | ⟨-, hattach⟩
          · have howner₂ : factory.getNode spaces₂ nodeId = some owner := by
              refine getNode_holdsOfChanges.attachType
                (fun _ _ _ _ => getNode_holdsOfChanges.createNodeHelper) hattach nodeId owner ?_
              exact getNode_holdsOfChanges.addNode _ _ _ _ _ hvalidate hadd nodeId owner howner
            rcases andThen_eq_some.mp hrest with ⟨spaces₃, hparent, hrest⟩ | ⟨-, hparent⟩
            · rw [complete_eq rfl rfl] at hrest
              cases hrest
              exact (hown _ hattach).attachParent howner₂ hlater hnew hparent
            · exact (hown _ hattach).attachParent howner₂ hlater hnew hparent
          · exact hown _ hattach
        exact ⟨hall.agrees, hall.wellFormed, owner, hgrows nodeId owner howner, hlater⟩

/-- A property that was created is found. -/
theorem getNode_of_createProperty
    (hcreate : factory.createNodeHelper fuel spaces (propertyState nodeId propertyId declaration)
      nodeId = some (.good, spaces')) :
    factory.getNode spaces propertyId = none ∧ ∃ ptr, factory.getNode spaces' propertyId = some ptr := by
  cases fuel with
  | zero => cases hcreate
  | succ fuel =>
      rcases createNodeHelper_eq_some hcreate with ⟨hbad, -⟩ | ⟨data, spaces₁, hvalidate, hadd, hrest⟩
      · exact absurd rfl (validate_ne_good hbad)
      · refine ⟨(validate_eq_ok hvalidate).1, spaces.heap.next, ?_⟩
        have hself : factory.getNode spaces₁ propertyId = some spaces.heap.next := by
          obtain ⟨-, -, -, -, hmap⟩ := AddressSpaces.addNode_eq_some hadd
          exact getNode_own (by rw [hmap]; exact Function.update_self ..)
        exact getNode_holdsOfChanges.attach
          (fun _ _ _ _ => getNode_holdsOfChanges.createNodeHelper) hrest propertyId _ hself

end

/-! ## §4  Two calls -/

/-- An instance that was created after its type and that has no properties yet. -/
structure FreshInstance (factory : GenericNodeFactory) (first : NodeHeap (NodeData V))
    (spaces : Spaces V) (nodeId : NodeId) (type : NodePtr) (ptr : NodePtr) : Prop where
  bounded : first.Bounded
  agrees : first.Agrees spaces.heap
  type : type < first.next
  self : factory.getNode spaces nodeId = some ptr
  later : first.next ≤ ptr
  bare : factory.HasProperties spaces.heap ptr []

section

variable [Inhabited V]

/-- `CreateMissingProperties` for nodes of this factory. -/
def createMissing (factory : GenericNodeFactory) (fuel : ℕ) (nodeId : NodeId) (type : NodePtr)
    (spaces : Spaces V) : Option (StatusCode × Spaces V) :=
  factory.createMissingProperties (factory.createNodeHelper fuel) nodeId (typeFuel spaces.heap) type
    spaces

/-- All goes well, the instance has one property for each name that is declared, and a
second call changes nothing. -/
def InstantiatesOnce (factory : GenericNodeFactory) (fuel : ℕ) (spaces : Spaces V)
    (nodeId : NodeId) (type ptr : NodePtr) : Prop :=
  ∃ spaces₁ declarations properties,
    factory.createMissing fuel nodeId type spaces = some (.good, spaces₁) ∧
      factory.DeclaresProperties spaces.heap type declarations ∧
      factory.HasProperties spaces₁.heap ptr properties ∧ EachOnce properties declarations ∧
      factory.createMissing fuel nodeId type spaces₁ = some (.good, spaces₁)

variable {first : NodeHeap (NodeData V)} {nodeId : NodeId} {ptr : NodePtr} {fuel : ℕ}

/-- **A second call fails** where the first one created something. -/
theorem createMissing_twice {declared : List (PropertyDeclaration V)} {spaces₁ spaces₂ : Spaces V}
    (hwell : WellFormed spaces) (hfresh : factory.FreshInstance first spaces nodeId type ptr)
    (hdeclares : factory.Declares first type declared)
    (hfirst : factory.createMissing fuel nodeId type spaces = some (.good, spaces₁))
    (hsecond : factory.createMissing fuel nodeId type spaces₁ = some (.good, spaces₂)) :
    declared = [] := by
  have hlater : factory.Later first nodeId spaces := ⟨hfresh.agrees, hwell, ptr, hfresh.self, hfresh.later⟩
  have hlater₁ : factory.Later first nodeId spaces₁ :=
    createMissingProperties_keeps (fun _ _ _ _ h => h.createProperty) hlater hfirst
  cases declared with
  | nil => rfl
  | cons declaration rest =>
      have hdeclares₀ := (agrees_declares hlater.agrees hfresh.bounded hfresh.type).mpr hdeclares
      have hdeclares₁ := (agrees_declares hlater₁.agrees hfresh.bounded hfresh.type).mpr hdeclares
      have hR : factory.HoldsOfChanges fun spaces spaces' : Spaces V => ∀ id ptr,
          factory.getNode spaces id = some ptr → factory.getNode spaces' id = some ptr :=
        getNode_holdsOfChanges
      obtain ⟨propertyId, spaces', hnested, hcreated, hgrows⟩ :=
        createMissingProperties_first hR (fun _ _ _ _ => hR.createNodeHelper) hdeclares₀ hfirst
      obtain ⟨propertyId', spaces'', hnested', hcreated', -⟩ :=
        createMissingProperties_first hR (fun _ _ _ _ => hR.createNodeHelper) hdeclares₁ hsecond
      obtain rfl := Option.some.inj (hnested.symm.trans hnested')
      obtain ⟨-, property, hproperty⟩ := getNode_of_createProperty hcreated
      obtain ⟨hfree, -⟩ := getNode_of_createProperty hcreated'
      cases hfree.symm.trans (hgrows propertyId property hproperty)

omit [Inhabited V] in
/-- A type that declares nothing is gone through. -/
theorem createMissingProperties_of_quiet
    {create : Spaces V → NodeState V → NodeId → Option (StatusCode × Spaces V)} {steps : ℕ}
    {ptrs : List NodePtr} (hptrs : path spaces.heap.supertypeOf steps type = some ptrs)
    (hdeclares : factory.Declares spaces.heap type []) :
    factory.createMissingProperties create nodeId steps type spaces = some (.good, spaces) := by
  induction steps generalizing type ptrs with
  | zero => cases hptrs
  | succ steps ih =>
      obtain ⟨typeNode, own, htypeNode, hown, hdeclared⟩ := declares_iff.mp hdeclares
      have hstep : spaces.heap.supertypeOf type = some typeNode.supertype := by
        rw [NodeHeap.supertypeOf, htypeNode, Option.map_some]
      have hquiet : ∀ {rest : Option (StatusCode × Spaces V)}, own = [] →
          (match typeNode.supertype with
            | none => some (.good, spaces)
            | some supertype =>
                factory.createMissingProperties create nodeId steps supertype spaces) = rest →
            factory.createMissingProperties create nodeId (steps + 1) type spaces = rest := by
        rintro rest rfl hrest
        simp only [createMissingProperties, htypeNode, Option.bind_eq_bind, Option.bind_some,
          createDeclaredProperties_quiet hown, andThen, if_true]
        exact hrest
      rcases path_cases hptrs with ⟨hend, -⟩ | ⟨next, rest, hnext, hrest, -⟩
      · have hnone : typeNode.supertype = none := Option.some.inj (hstep.symm.trans hend)
        rw [hnone] at hdeclared hquiet
        exact hquiet hdeclared.symm rfl
      · have hsome : typeNode.supertype = some next := Option.some.inj (hstep.symm.trans hnext)
        rw [hsome] at hdeclared hquiet
        obtain ⟨inherited, hinherited, hnil⟩ := hdeclared
        obtain ⟨rfl, rfl⟩ := List.append_eq_nil_iff.mp hnil.symm
        exact hquiet rfl (ih hrest hinherited)

/-- **The properties of an instance are created once** exactly if there are none to
create. -/
theorem instantiatesOnce_iff (h : Sound factory spaces edges)
    (hfresh : factory.FreshInstance first spaces nodeId type ptr) (fuel : ℕ) :
    factory.InstantiatesOnce fuel spaces nodeId type ptr ↔
      factory.DeclaresProperties spaces.heap type [] := by
  have hquiet : factory.Declares spaces.heap type [] →
      factory.createMissing fuel nodeId type spaces = some (.good, spaces) := by
    intro hdeclares
    have hlt : type < spaces.heap.next := hfresh.type.trans_le hfresh.agrees.next
    obtain ⟨ptrs, hptrs⟩ := h.path_next hlt
    refine createMissingProperties_of_quiet (path_mono hptrs ?_) hdeclares
    unfold typeFuel
    omega
  constructor
  · rintro ⟨spaces₁, declarations, properties, hfirst, hdeclarations, hproperties, honce, hsecond⟩
    -- The second call tells that nothing is created, and so the instance has stayed bare.
    obtain ⟨declared, hdeclared⟩ := h.declares (hfresh.type.trans_le hfresh.agrees.next)
    have hdeclares := (agrees_declares hfresh.agrees hfresh.bounded hfresh.type).mp hdeclared
    obtain rfl := createMissing_twice h.wellFormed hfresh hdeclares hfirst hsecond
    obtain rfl : spaces₁ = spaces := by
      rw [hquiet hdeclared] at hfirst
      cases hfirst
      rfl
    obtain ⟨node, hnode, hbare⟩ := hfresh.bare
    obtain ⟨node', hnode', hproperties⟩ := hproperties
    obtain rfl := Option.some.inj (hnode.symm.trans hnode')
    obtain rfl := Option.some.inj (hbare.symm.trans hproperties)
    cases declarations with
    | nil => exact hdeclarations
    | cons declaration rest =>
        have hmem := (honce.same declaration).mpr ⟨[], rest, rfl, nofun⟩
        cases hmem
  · intro hdeclares
    have hcall := hquiet (declares_nil hdeclares)
    refine ⟨spaces, [], [], hcall, hdeclares, hfresh.bare, ⟨List.nodup_nil, ?_⟩, hcall⟩
    intro declaration
    refine iff_of_false List.not_mem_nil ?_
    rintro ⟨before, after, hnil, -⟩
    exact absurd hnil.symm (List.append_ne_nil_of_right_ne_nil before (List.cons_ne_nil _ _))

end

/-- The standard types, a type with a placeholder for channels and one below it, whose
instances are told. -/
def channelTypes (instanceRefs : List Reference) : List (Node (NodeData ℕ)) :=
  standardTypes ++ [
    { id := StandardId.hasProperty, nodeClass := .referenceType, attributes := { value := 0 } },
    { id := StandardId.hasModellingRule, nodeClass := .referenceType, attributes := { value := 0 } },
    { id := .numeric 24 0, nodeClass := .dataType, attributes := { value := 0 } },
    { id := StandardId.modellingRuleOptionalPlaceholder, nodeClass := .object,
      attributes := { value := 0 }, inverseReferences := [⟨6, 10⟩] },
    { id := .numeric 1 7, nodeClass := .objectType, attributes := { value := 0 },
      forwardReferences := [⟨5, 10⟩, ⟨2, 11⟩] },
    { id := .numeric 2 7, nodeClass := .variable,
      attributes := { browseName := ⟨"Channel", 7⟩, dataType := some 7, value := 0 },
      forwardReferences := [⟨6, 8⟩], inverseReferences := [⟨5, 9⟩] },
    { id := .numeric 3 7, nodeClass := .objectType, attributes := { value := 0 },
      inverseReferences := ⟨2, 9⟩ :: instanceRefs, supertype := some 9 }]

/-- An instance of the lower type that was just added. -/
def channelInstance : List (Node (NodeData ℕ)) :=
  channelTypes [⟨4, 12⟩] ++ [
    { id := .numeric 4 7, nodeClass := .object, attributes := { value := 0 },
      forwardReferences := [⟨4, 11⟩], typeDefinition := some 11 }]

theorem complete_channelInstance : Complete channelInstance := by
  constructor
  case mirrored => unfold Mirrored; decide
  all_goals decide

/-- Nothing is created for a placeholder that is inherited. -/
theorem instantiatesOnce_iff_placeholder :
    pumpFactory.InstantiatesOnce 1 (spacesOf channelInstance) (.numeric 4 7) 11 12 := by
  have hsound : Sound pumpFactory (spacesOf channelInstance) (edgesOf channelInstance) :=
    complete_channelInstance.sound ⟨4, by decide⟩ ⟨2, by decide⟩
  have hfresh : pumpFactory.FreshInstance (spacesOf (channelTypes [])).heap
      (spacesOf channelInstance) (.numeric 4 7) 11 12 := by
    constructor
    case bounded => exact (wellFormed_spacesOf (by decide)).bounded
    case agrees => exact ⟨by decide, by decide⟩
    case type => decide
    case self => decide
    case later => decide
    case bare => exact ⟨_, rfl, rfl⟩
  exact (instantiatesOnce_iff hsound hfresh 1).mpr ⟨2, rfl⟩

/-- A device and a link, whose type declares the address of a device once more. -/
def deviceNodes : List (Node (NodeData ℕ)) := [
  { id := StandardId.hasTypeDefinition, nodeClass := .referenceType, attributes := { value := 0 } },
  { id := StandardId.hasSubtype, nodeClass := .referenceType, attributes := { value := 0 } },
  { id := StandardId.hasProperty, nodeClass := .referenceType, attributes := { value := 0 } },
  { id := .numeric 24 0, nodeClass := .dataType, attributes := { value := 0 } },
  { id := StandardId.propertyType, nodeClass := .variableType,
    attributes := { dataType := some 3, value := 0 } },
  { id := .numeric 1 7, nodeClass := .objectType, attributes := { value := 0 },
    forwardReferences := [⟨2, 6⟩, ⟨1, 7⟩], inverseReferences := [⟨0, 9⟩] },
  { id := .numeric 2 7, nodeClass := .variable,
    attributes := { browseName := ⟨"Address", 7⟩, dataType := some 3, value := 0 },
    inverseReferences := [⟨2, 5⟩] },
  { id := .numeric 3 7, nodeClass := .objectType, attributes := { value := 0 },
    forwardReferences := [⟨2, 8⟩], inverseReferences := [⟨1, 5⟩, ⟨0, 10⟩], supertype := some 5 },
  { id := .numeric 4 7, nodeClass := .variable,
    attributes := { browseName := ⟨"Address", 7⟩, dataType := some 3, value := 1 },
    inverseReferences := [⟨2, 7⟩] },
  { id := .numeric 5 7, nodeClass := .object, attributes := { value := 0 },
    forwardReferences := [⟨0, 5⟩], typeDefinition := some 5 },
  { id := .numeric 6 7, nodeClass := .object, attributes := { value := 0 },
    forwardReferences := [⟨0, 7⟩], typeDefinition := some 7 }]

/-- The address of the device is created once and then stands in the way, that of the link
stands in its own way. -/
theorem properties_stand_in_the_way :
    ((pumpFactory.createMissing 2 (.numeric 5 7) 5 (spacesOf deviceNodes)).any
      fun (status, spaces₁) => status = .good ∧
        (pumpFactory.createMissing 2 (.numeric 5 7) 5 spaces₁).map Prod.fst =
          some .badDuplicateNodeId) = true ∧
    (pumpFactory.createMissing 2 (.numeric 6 7) 7 (spacesOf deviceNodes)).map Prod.fst =
      some .badDuplicateNodeId ∧
    ¬ pumpFactory.InstantiatesOnce 2 (spacesOf deviceNodes) (.numeric 5 7) 5 9 ∧
    ¬ pumpFactory.InstantiatesOnce 2 (spacesOf deviceNodes) (.numeric 6 7) 7 10 := by
  have htwice : ((pumpFactory.createMissing 2 (.numeric 5 7) 5 (spacesOf deviceNodes)).any
      fun (status, spaces₁) => status = .good ∧
        (pumpFactory.createMissing 2 (.numeric 5 7) 5 spaces₁).map Prod.fst =
          some .badDuplicateNodeId) = true := by
    decide
  have honce : (pumpFactory.createMissing 2 (.numeric 6 7) 7 (spacesOf deviceNodes)).map
      Prod.fst = some .badDuplicateNodeId := by
    decide
  refine ⟨htwice, honce, ?_, ?_⟩
  · rintro ⟨spaces₁, -, -, hfirst, -, -, -, hsecond⟩
    rw [hfirst, Option.any_some, decide_eq_true_eq, hsecond] at htwice
    cases htwice.2
  · rintro ⟨spaces₁, -, -, hfirst, -⟩
    rw [hfirst] at honce
    cases honce

end GenericNodeFactory

end ScadaCommon.AddressSpace
