import ScadaCommon.AddressSpace.NodeCreation
import ScadaCommon.Foundation.RoundTrips

/-!
# When a node is created as a whole

A node that is added and cannot be attached stays, and so do the properties that
were created for it. Whether it can be attached is told from the space before:
what the new nodes change of it is known.

§1 spaces while a node is built · §2 checks · §3 one property · §4 all of them
· §5 errors.
-/

namespace ScadaCommon.AddressSpace

open Foundation

variable {V : Type} {factory : GenericNodeFactory} {spaces spaces' spaces'' : Spaces V}

/-! ## §1  Spaces while a node is built -/

theorem asClass_eq_some {nodeClass : NodeClass} {node : Option NodePtr} {ptr : NodePtr} :
    asClass spaces nodeClass node = some ptr ↔
      node = some ptr ∧ spaces.heap.classOf ptr = some nodeClass := by
  rw [asClass, Option.filter_eq_some_iff, decide_eq_true_eq]

theorem WellFormed.asClass_lt (h : WellFormed spaces) {nodeClass : NodeClass} {id : NodeId}
    {ptr : NodePtr} (hptr : asClass spaces nodeClass (factory.getNode spaces id) = some ptr) :
    ptr < spaces.heap.next :=
  h.getNode_lt (asClass_eq_some.mp hptr).1

theorem WellFormed.getNode_idOf (hwell : WellFormed spaces) {id : NodeId} {ptr : NodePtr}
    (h : factory.getNode spaces id = some ptr) : spaces.heap.idOf ptr = some id := by
  obtain ⟨space, -, hplace⟩ := getNode_eq_some h
  exact hwell.mapped (space, id) ptr hplace

namespace GenericNodeFactory

/-- The id is of a node of the class. -/
def Finds (factory : GenericNodeFactory) (spaces : Spaces V) (nodeClass : NodeClass)
    (id : NodeId) : Prop :=
  ∃ ptr, asClass spaces nodeClass (factory.getNode spaces id) = some ptr

/-- A node of its own and the properties `ids` were added to a space. -/
structure Building (factory : GenericNodeFactory) (spaces : Spaces V) (nodeId : NodeId)
    (nodeClass : NodeClass) (ids : List NodeId) (spaces' : Spaces V) : Prop where
  wellFormed : WellFormed spaces'
  agrees : spaces.heap.Agrees spaces'.heap
  allocated : spaces.heap.next < spaces'.heap.next
  self : spaces'.nodeMap (factory.space, nodeId) = some spaces.heap.next
  selfClass : spaces'.heap.classOf spaces.heap.next = some nodeClass
  created : ∀ id ∈ ids, ∃ ptr, spaces'.nodeMap (factory.space, id) = some ptr ∧
    spaces'.heap.classOf ptr = some .variable
  kept : ∀ place, place.1 ≠ factory.space ∨ place.2 ∉ nodeId :: ids →
    spaces'.nodeMap place = spaces.nodeMap place
  free : ∀ id ∈ nodeId :: ids, factory.getNode spaces id = none

section

variable {nodeId id : NodeId} {nodeClass otherClass : NodeClass} {ids : List NodeId}
  {ptr : NodePtr}

theorem getNode_own (h : spaces.nodeMap (factory.space, id) = some ptr) :
    factory.getNode spaces id = some ptr := by
  simp [getNode, AddressSpaces.getNode, h]

theorem Building.getNode_other (h : factory.Building spaces nodeId nodeClass ids spaces')
    (hid : id ∉ nodeId :: ids) : factory.getNode spaces' id = factory.getNode spaces id := by
  have hmap : ∀ space, spaces'.nodeMap (space, id) = spaces.nodeMap (space, id) :=
    fun space => h.kept (space, id) (.inr hid)
  simp only [getNode, AddressSpaces.getNode, hmap]

/-- What is found after the node was added: what there was, or the node. -/
theorem Building.finds_iff (h : factory.Building spaces nodeId nodeClass ids spaces')
    (hwell : WellFormed spaces) (hclass : otherClass ≠ .variable) :
    factory.Finds spaces' otherClass id ↔
      factory.Finds spaces otherClass id ∨ (id = nodeId ∧ nodeClass = otherClass) := by
  simp only [Finds, asClass_eq_some]
  by_cases hid : id ∈ nodeId :: ids
  · have hfree := h.free id hid
    rcases List.mem_cons.mp hid with rfl | hid
    · simp [getNode_own h.self, h.selfClass, hfree]
    · obtain ⟨other, hother, hvariable⟩ := h.created id hid
      have hne : ¬ (id = nodeId ∧ nodeClass = otherClass) := by
        rintro ⟨rfl, rfl⟩
        have hself := h.self.symm.trans hother
        rw [← Option.some.inj hself, h.selfClass] at hvariable
        exact hclass (Option.some.inj hvariable)
      simp [getNode_own hother, hvariable, hfree, hne, hclass.symm]
  · rw [h.getNode_other hid]
    have hne : id ≠ nodeId := fun heq => hid (heq ▸ List.mem_cons_self)
    simp only [hne, false_and, or_false]
    refine exists_congr fun ptr => and_congr_right fun hptr => ?_
    rw [h.agrees.classOf (hwell.getNode_lt hptr)]

/-- A reference from a node that was added. -/
theorem Building.addReference (h : factory.Building spaces nodeId nodeClass ids spaces')
    {type source target : NodePtr} (hadd : spaces'.addReference type source target = some spaces'')
    (hsource : spaces.heap.next ≤ source)
    (htype : spaces'.heap.idOf type ≠ some StandardId.hasSubtype ∨ spaces.heap.next ≤ target) :
    factory.Building spaces nodeId nodeClass ids spaces'' := by
  have hwell := h.wellFormed.addReference hadd
  obtain ⟨heap, hheap, rfl⟩ := AddressSpaces.addReference_eq_some hadd
  have hsame := NodeHeap.addReference_sameObjects hheap
  constructor
  case wellFormed => exact hwell
  case agrees => exact h.agrees.addReference hheap hsource htype
  case allocated => exact hsame.next ▸ h.allocated
  case self => exact h.self
  case selfClass => exact hsame.classOf ▸ h.selfClass
  case created => exact hsame.classOf ▸ h.created
  case kept => exact h.kept
  case free => exact h.free

/-- The next property. -/
theorem Building.addNode (h : factory.Building spaces nodeId nodeClass ids spaces')
    {data : NodeData V} {owned : Bool}
    (hadd : spaces'.addNode (factory.space :: factory.parents) factory.space id .variable data
      owned = some spaces'')
    (hdataType : ∀ other, data.dataType = some other → other < spaces'.heap.next)
    (hfree : factory.getNode spaces id = none) :
    factory.Building spaces nodeId nodeClass (ids ++ [id]) spaces'' := by
  have hwell := h.wellFormed.addNode hadd hdataType
  obtain ⟨-, -, hplace, hheap, hmap⟩ := AddressSpaces.addNode_eq_some hadd
  have hagrees := NodeHeap.agrees_allocate spaces'.heap
    { id, nodeClass := .variable, attributes := data }
  rw [← hheap] at hagrees
  have hold : ∀ place ptr, spaces'.nodeMap place = some ptr →
      spaces''.nodeMap place = some ptr ∧ spaces''.heap.classOf ptr = spaces'.heap.classOf ptr := by
    intro place ptr hptr
    refine ⟨?_, hagrees.classOf (h.wellFormed.lt_next hptr)⟩
    rw [hmap, Function.update_of_ne ?_, hptr]
    rintro rfl
    rw [hplace] at hptr
    cases hptr
  constructor
  case wellFormed => exact hwell
  case agrees => exact h.agrees.trans hagrees
  case allocated => exact h.allocated.trans_le hagrees.next
  case self => exact (hold _ _ h.self).1
  case selfClass => exact (hold _ _ h.self).2.trans h.selfClass
  case created =>
    intro other hother
    rcases List.mem_append.mp hother with hother | hother
    · obtain ⟨ptr, hptr, hclass⟩ := h.created other hother
      exact ⟨ptr, (hold _ _ hptr).1, (hold _ _ hptr).2.trans hclass⟩
    · obtain rfl := List.mem_singleton.mp hother
      refine ⟨spaces'.heap.next, ?_, ?_⟩
      · rw [hmap, Function.update_self]
      · rw [hheap]
        simp [NodeHeap.classOf, NodeHeap.allocate]
  case kept =>
    intro place hne
    have hne' : place ≠ (factory.space, id) := by
      rintro rfl
      simp at hne
    rw [hmap, Function.update_of_ne hne']
    refine h.kept place (hne.imp_right fun hmem hmem' => hmem ?_)
    rw [← List.cons_append]
    exact List.mem_append_left _ hmem'
  case free =>
    intro other hother
    rw [← List.cons_append] at hother
    rcases List.mem_append.mp hother with hother | hother
    · exact h.free other hother
    · rwa [List.mem_singleton.mp hother]

/-- The node itself. -/
theorem Building.start (hwell : WellFormed spaces) {data : NodeData V} {owned : Bool}
    (hadd : spaces.addNode (factory.space :: factory.parents) factory.space nodeId nodeClass data
      owned = some spaces')
    (hdataType : ∀ other, data.dataType = some other → other < spaces.heap.next) :
    factory.Building spaces nodeId nodeClass [] spaces' := by
  have hwell' := hwell.addNode hadd hdataType
  obtain ⟨-, hfree, -, hheap, hmap⟩ := AddressSpaces.addNode_eq_some hadd
  constructor
  case wellFormed => exact hwell'
  case agrees =>
    rw [hheap]
    exact NodeHeap.agrees_allocate _ _
  case allocated =>
    rw [hheap]
    exact Nat.lt_succ_self _
  case self => rw [hmap, Function.update_self]
  case selfClass =>
    rw [hheap]
    simp [NodeHeap.classOf, NodeHeap.allocate]
  case created =>
    intro id hid
    cases hid
  case kept =>
    intro place hne
    rw [hmap, Function.update_of_ne]
    rintro rfl
    simp at hne
  case free =>
    intro id hid
    rw [List.mem_singleton.mp hid]
    exact hfree

end

/-! ## §2  Checks -/

section

variable {state : NodeState V} {parentId : NodeId} {data : NodeData V}

theorem dataType_lt (hwell : WellFormed spaces) {ptr : NodePtr}
    (h : factory.dataType spaces state = .ok (some ptr)) : ptr < spaces.heap.next := by
  unfold dataType at h
  split at h
  · rename_i hdataType
    cases h
    exact hwell.asClass_lt hdataType
  · cases h

theorem dataTypeOf_lt (hwell : WellFormed spaces) {ptr : NodePtr}
    (h : factory.dataTypeOf spaces state = .ok (some ptr)) : ptr < spaces.heap.next := by
  unfold dataTypeOf at h
  split at h
  · split at h <;> cases h
  · split at h
    · rename_i type htype
      split at h
      · obtain ⟨data, hdata, hptr⟩ := Option.bind_eq_some_iff.mp (Except.ok.inj h)
        obtain ⟨node, hnode, rfl⟩ := Option.map_eq_some_iff.mp hdata
        exact hwell.bounded.dataType type node hnode ptr hptr
      · exact dataType_lt hwell h
    · cases h
  · exact dataType_lt hwell h
  all_goals cases h

theorem asClass_asTypeDefinition {nodeClass : NodeClass} {node : Option NodePtr}
    (hclass : nodeClass.isTypeDefinition = true) :
    asClass spaces nodeClass (asTypeDefinition spaces node) = asClass spaces nodeClass node := by
  ext ptr
  simp only [asClass_eq_some, asTypeDefinition, Option.filter_eq_some_iff]
  constructor
  · rintro ⟨⟨hnode, -⟩, hptr⟩
    exact ⟨hnode, hptr⟩
  · rintro ⟨hnode, hptr⟩
    exact ⟨⟨hnode, by simp [hptr, hclass]⟩, hptr⟩

variable (factory spaces) in
theorem dataType_isOk (state : NodeState V) :
    (∃ type, factory.dataType spaces state = .ok type) ↔
      factory.Finds spaces .dataType state.attributes.dataType := by
  unfold dataType Finds
  cases asClass spaces .dataType (factory.getNode spaces state.attributes.dataType) <;> simp

/-- A nested id is text. -/
theorem makeNestedNodeId_eq_some {name : String} {id : NodeId}
    (h : makeNestedNodeId parentId name = some id) :
    parentId ≠ .null ∧ ∃ text namespaceIndex, id = .string text namespaceIndex := by
  unfold makeNestedNodeId at h
  split at h
  · cases h
  · cases parentId with
    | null => cases h
    | numeric number namespaceIndex =>
        cases h
        exact ⟨nofun, _, _, rfl⟩
    | string text namespaceIndex =>
        cases h
        exact ⟨nofun, _, _, rfl⟩
    | opaqueId bytes namespaceIndex => cases h

variable (factory spaces) in
theorem dataTypeOf_propertyState (nodeId propertyId : NodeId)
    (declaration : PropertyDeclaration V) :
    (∃ type, factory.dataTypeOf spaces (propertyState nodeId propertyId declaration) = .ok type) ↔
      factory.Finds spaces .variableType StandardId.propertyType ∧
        (declaration.dataTypeId = .null ∨
          factory.Finds spaces .dataType declaration.dataTypeId) := by
  have hclass : (propertyState nodeId propertyId declaration).nodeClass = .variable := rfl
  have htype : asClass spaces .variableType (factory.typeDefinition spaces
      (propertyState nodeId propertyId declaration)) =
        asClass spaces .variableType (factory.getNode spaces StandardId.propertyType) :=
    asClass_asTypeDefinition rfl
  have hnamed : (propertyState nodeId propertyId declaration).attributes.dataType =
      declaration.dataTypeId := rfl
  have hdataType := dataType_isOk factory spaces (propertyState nodeId propertyId declaration)
  simp only [dataTypeOf, hclass, htype, Finds, hnamed] at hdataType ⊢
  cases asClass spaces .variableType (factory.getNode spaces StandardId.propertyType) with
  | none => simp
  | some type =>
      by_cases hnull : declaration.dataTypeId = .null
      · simp [hnull]
      · simp [hnull, hdataType]

variable [Inhabited V]

theorem validate_eq_ok (h : factory.validate spaces state parentId = .ok data) :
    factory.getNode spaces state.nodeId = none ∧
      factory.dataTypeOf spaces state = .ok data.dataType := by
  unfold validate at h
  obtain ⟨-, h⟩ := ite_error_eq_ok_iff.mp h
  obtain ⟨-, h⟩ := ite_error_eq_ok_iff.mp h
  obtain ⟨-, h⟩ := ite_error_eq_ok_iff.mp h
  obtain ⟨hfree, h⟩ := ite_error_eq_ok_iff.mp h
  obtain ⟨dataType, hdataType, h⟩ := bind_eq_ok_iff.mp h
  obtain ⟨value, -, h⟩ := bind_eq_ok_iff.mp h
  cases h
  exact ⟨by simpa using hfree, hdataType⟩

theorem validate_dataType_lt (hwell : WellFormed spaces)
    (h : factory.validate spaces state parentId = .ok data) :
    ∀ other, data.dataType = some other → other < spaces.heap.next := by
  intro other hother
  have hdataType := (validate_eq_ok h).2
  rw [hother] at hdataType
  exact dataTypeOf_lt hwell hdataType

/-- When the state of a property passes the checks. -/
theorem validate_propertyState {nodeId propertyId : NodeId} {declaration : PropertyDeclaration V}
    (hnested : makeNestedNodeId nodeId declaration.browseName.name = some propertyId) :
    (∃ data, factory.validate spaces (propertyState nodeId propertyId declaration) nodeId =
        .ok data) ↔
      factory.getNode spaces propertyId = none ∧
        factory.Finds spaces .variableType StandardId.propertyType ∧
          (declaration.dataTypeId = .null ∨
            factory.Finds spaces .dataType declaration.dataTypeId) := by
  rw [← dataTypeOf_propertyState factory spaces nodeId propertyId]
  obtain ⟨hparent, text, namespaceIndex, rfl⟩ := makeNestedNodeId_eq_some hnested
  have hid : (propertyState nodeId (.string text namespaceIndex) declaration).nodeId =
      .string text namespaceIndex := rfl
  constructor
  · rintro ⟨data, h⟩
    exact ⟨(validate_eq_ok h).1, data.dataType, (validate_eq_ok h).2⟩
  · rintro ⟨hfree, type, htype⟩
    rw [validate, if_neg (by simp [hid]), if_neg (fun h => hparent h.2),
      if_neg (by simp [propertyState, StandardId.hasProperty]), if_neg (by simp [hid, hfree]),
      htype]
    exact ⟨_, rfl⟩

end

/-! ## §3  Properties one by one -/

/-- Each of a list fits after the earlier ones. -/
def InOrder {α : Type} (fits : List α → α → Prop) : List α → List α → Prop
  | _, [] => True
  | earlier, a :: as => fits earlier a ∧ InOrder fits (earlier ++ [a]) as

theorem inOrder_append {α : Type} {fits : List α → α → Prop} {earlier as bs : List α} :
    InOrder fits earlier (as ++ bs) ↔
      InOrder fits earlier as ∧ InOrder fits (earlier ++ as) bs := by
  induction as generalizing earlier with
  | nil => simp [InOrder]
  | cons a as ih => simp [InOrder, ih, and_assoc]

theorem andThen_eq_some {outcome : Option (StatusCode × Spaces V)}
    {next : Spaces V → Option (StatusCode × Spaces V)} {status : StatusCode} :
    andThen outcome next = some (status, spaces') ↔
      (∃ spaces, outcome = some (.good, spaces) ∧ next spaces = some (status, spaces')) ∨
        (status ≠ .good ∧ outcome = some (status, spaces')) := by
  cases outcome with
  | none => simp [andThen]
  | some result =>
      obtain ⟨first, spaces⟩ := result
      by_cases hgood : first = .good
      · subst hgood
        simp only [andThen, Option.bind_some, if_true, Option.some_inj, Prod.mk.injEq, true_and,
          exists_eq_left']
        refine ⟨.inl, fun h => h.elim id ?_⟩
        rintro ⟨hbad, rfl, -⟩
        exact (hbad rfl).elim
      · simp only [andThen, Option.bind_some, hgood, if_false, Option.some_inj, Prod.mk.injEq,
          false_and, exists_false, false_or]
        exact ⟨fun h => ⟨h.1 ▸ hgood, h⟩, And.right⟩

section

variable {create : Spaces V → NodeState V → NodeId → Option (StatusCode × Spaces V)}
  {nodeId : NodeId} {heap : NodeHeap (NodeData V)}
  {I : List (PropertyDeclaration V) → Spaces V → Prop}
  {fits : List (PropertyDeclaration V) → PropertyDeclaration V → Prop}
  {earlier : List (PropertyDeclaration V)} {status : StatusCode}

/-- A property is created if and only if it fits after the earlier ones. -/
structure CreatesInOrder (create : Spaces V → NodeState V → NodeId → Option (StatusCode × Spaces V))
    (nodeId : NodeId) (heap : NodeHeap (NodeData V))
    (I : List (PropertyDeclaration V) → Spaces V → Prop)
    (fits : List (PropertyDeclaration V) → PropertyDeclaration V → Prop) : Prop where
  agrees : ∀ earlier spaces, I earlier spaces → heap.Agrees spaces.heap
  create : ∀ earlier spaces declaration propertyId status spaces', I earlier spaces →
    makeNestedNodeId nodeId declaration.browseName.name = some propertyId →
    create spaces (propertyState nodeId propertyId declaration) nodeId = some (status, spaces') →
      (status = .good ∧ fits earlier declaration ∧ I (earlier ++ [declaration]) spaces') ∨
        (status ≠ .good ∧ ¬ fits earlier declaration)

variable (hcreates : CreatesInOrder create nodeId heap I fits) (hbounded : heap.Bounded)

include hcreates hbounded

/-- The properties of one type. -/
theorem createDeclaredProperties_spec {refs : List Reference} (hrefs : heap.BoundedReferences refs)
    (hI : I earlier spaces)
    (h : factory.createDeclaredProperties create nodeId refs spaces = some (status, spaces')) :
    (status = .good ∧ ∃ own, factory.declarationsOf heap refs = some own ∧
        InOrder fits earlier own ∧ I (earlier ++ own) spaces') ∨
      (status ≠ .good ∧ ∀ own, factory.declarationsOf heap refs = some own →
        ¬ InOrder fits earlier own) := by
  induction refs generalizing earlier spaces with
  | nil =>
      cases h
      exact .inl ⟨rfl, [], rfl, trivial, by rwa [List.append_nil]⟩
  | cons ref refs ih =>
      obtain ⟨href, hrefs⟩ := List.forall_mem_cons.mp hrefs
      obtain ⟨declaration, hdeclaration, h⟩ := Option.bind_eq_some_iff.mp h
      have hagrees := hcreates.agrees earlier spaces hI
      rw [hagrees.declaredProperty hbounded factory href] at hdeclaration
      have hof : factory.declarationsOf heap (ref :: refs) =
          (factory.declarationsOf heap refs).map (declaration.toList ++ ·) := by
        rw [declarationsOf, hdeclaration]
        cases factory.declarationsOf heap refs <;> rfl
      cases declaration with
      | none =>
          rw [hof, Option.toList_none]
          simpa using ih hrefs hI h
      | some declaration =>
          obtain ⟨propertyId, hnested, h⟩ := Option.bind_eq_some_iff.mp h
          rw [hof, Option.toList_some]
          rcases andThen_eq_some.mp h with ⟨spaces₁, hcreate, h⟩ | ⟨hbad, hcreate⟩
          · rcases hcreates.create _ _ _ _ _ _ hI hnested hcreate with ⟨-, hfits, hI⟩ | ⟨hbad, -⟩
            · rcases ih hrefs hI h with ⟨hgood, own, hown, horder, hI⟩ | ⟨hbad, hnone⟩
              · refine .inl ⟨hgood, declaration :: own, by rw [hown]; rfl, ⟨hfits, horder⟩, ?_⟩
                rwa [List.append_assoc] at hI
              · refine .inr ⟨hbad, fun own hown horder => ?_⟩
                obtain ⟨rest, hrest, rfl⟩ := Option.map_eq_some_iff.mp hown
                exact hnone rest hrest horder.2
            · exact (hbad rfl).elim
          · rcases hcreates.create _ _ _ _ _ _ hI hnested hcreate with ⟨hgood, -⟩ | ⟨-, hfits⟩
            · exact (hbad hgood).elim
            · refine .inr ⟨hbad, fun own hown horder => ?_⟩
              obtain ⟨rest, -, rfl⟩ := Option.map_eq_some_iff.mp hown
              exact hfits horder.1

/-- The properties of a type and its supertypes. -/
theorem createMissingProperties_spec {fuel : ℕ} {type : NodePtr} (htype : type < heap.next)
    (hI : I earlier spaces)
    (h : factory.createMissingProperties create nodeId fuel type spaces =
      some (status, spaces')) :
    (status = .good ∧ ∃ declared, factory.Declares heap type declared ∧
        InOrder fits earlier declared ∧ I (earlier ++ declared) spaces') ∨
      (status ≠ .good ∧ ∀ declared, factory.Declares heap type declared →
        ¬ InOrder fits earlier declared) := by
  induction fuel generalizing type earlier spaces with
  | zero => cases h
  | succ fuel ih =>
      obtain ⟨typeNode', htypeNode', h⟩ := Option.bind_eq_some_iff.mp h
      obtain ⟨typeNode, htypeNode, houtline⟩ :=
        (hcreates.agrees earlier spaces hI).nodes htype htypeNode'
      have hforward : typeNode'.forwardReferences = typeNode.forwardReferences :=
        Node.forwardReferences_eq_of_outline houtline
      rw [hforward] at h
      have hrefs := hbounded.references type typeNode htypeNode
      rcases andThen_eq_some.mp h with ⟨spaces₁, hcreated, h⟩ | ⟨hbad, hcreated⟩
      · rcases createDeclaredProperties_spec hcreates hbounded hrefs hI hcreated with
          ⟨-, own, hown, horder, hI⟩ | ⟨hbad, -⟩
        · obtain ⟨typeNode₁, htypeNode₁, h⟩ := Option.bind_eq_some_iff.mp h
          obtain ⟨typeNode₂, htypeNode₂, houtline₁⟩ :=
            (hcreates.agrees _ spaces₁ hI).nodes htype htypeNode₁
          obtain rfl := Option.some.inj (htypeNode.symm.trans htypeNode₂)
          have hsuper : typeNode₁.supertype = typeNode.supertype :=
            Node.supertype_eq_of_outline houtline₁
          rw [hsuper] at h
          cases hsupertype : typeNode.supertype with
          | none =>
              rw [hsupertype] at h
              cases h
              refine .inl ⟨rfl, own, declares_iff.mpr ⟨typeNode, own, htypeNode, hown, ?_⟩,
                horder, hI⟩
              rw [hsupertype]
          | some supertype =>
              rw [hsupertype] at h
              have hlt := hbounded.supertype type typeNode htypeNode supertype hsupertype
              rcases ih hlt hI h with ⟨hgood, inherited, hinherited, horder', hI⟩ | ⟨hbad, hnone⟩
              · refine .inl ⟨hgood, own ++ inherited, declares_iff.mpr
                  ⟨typeNode, own, htypeNode, hown, ?_⟩, inOrder_append.mpr ⟨horder, horder'⟩, ?_⟩
                · rw [hsupertype]
                  exact ⟨inherited, hinherited, rfl⟩
                · rwa [List.append_assoc] at hI
              · refine .inr ⟨hbad, fun declared hdeclared horder' => ?_⟩
                obtain ⟨node, own', hnode, hown', hdeclared⟩ := declares_iff.mp hdeclared
                obtain rfl := Option.some.inj (htypeNode.symm.trans hnode)
                obtain rfl := Option.some.inj (hown.symm.trans hown')
                rw [hsupertype] at hdeclared
                obtain ⟨inherited, hinherited, rfl⟩ := hdeclared
                exact hnone inherited hinherited (inOrder_append.mp horder').2
        · exact (hbad rfl).elim
      · rcases createDeclaredProperties_spec hcreates hbounded hrefs hI hcreated with
          ⟨hgood, -⟩ | ⟨-, hnone⟩
        · exact (hbad hgood).elim
        · refine .inr ⟨hbad, fun declared hdeclared horder => ?_⟩
          obtain ⟨node, own, hnode, hown, hdeclared⟩ := declares_iff.mp hdeclared
          obtain rfl := Option.some.inj (htypeNode.symm.trans hnode)
          refine hnone own hown ?_
          cases hsupertype : typeNode.supertype with
          | none =>
              rw [hsupertype] at hdeclared
              exact hdeclared ▸ horder
          | some supertype =>
              rw [hsupertype] at hdeclared
              obtain ⟨inherited, -, rfl⟩ := hdeclared
              exact (inOrder_append.mp horder).1

end

/-! ## §4  One property -/

section

variable {create : Spaces V → NodeState V → NodeId → Option (StatusCode × Spaces V)}
  {nodeId id : NodeId} {type ptr : NodePtr}

/-- A type that declares nothing leaves the space as it is. -/
theorem createDeclaredProperties_quiet {refs : List Reference}
    (hquiet : factory.declarationsOf spaces.heap refs = some []) :
    factory.createDeclaredProperties create nodeId refs spaces = some (.good, spaces) := by
  induction refs with
  | nil => rfl
  | cons ref refs ih =>
      obtain ⟨declaration, hdeclaration, hquiet⟩ := Option.bind_eq_some_iff.mp hquiet
      obtain ⟨rest, hrest, hquiet⟩ := Option.bind_eq_some_iff.mp hquiet
      obtain ⟨hnone, rfl⟩ := List.append_eq_nil_iff.mp (Option.some.inj hquiet)
      cases declaration with
      | none =>
          rw [createDeclaredProperties, hdeclaration]
          exact ih hrest
      | some declaration => cases hnone

theorem createMissingProperties_quiet {fuel : ℕ} {result : StatusCode × Spaces V}
    (hquiet : factory.Declares spaces.heap type [])
    (h : factory.createMissingProperties create nodeId fuel type spaces = some result) :
    result = (.good, spaces) := by
  induction fuel generalizing type with
  | zero => cases h
  | succ fuel ih =>
      obtain ⟨typeNode, own, htypeNode, hown, hdeclared⟩ := declares_iff.mp hquiet
      have hempty : own = [] := by
        cases hsupertype : typeNode.supertype with
        | none =>
            rw [hsupertype] at hdeclared
            exact hdeclared.symm
        | some supertype =>
            rw [hsupertype] at hdeclared
            obtain ⟨inherited, -, hnil⟩ := hdeclared
            exact (List.append_eq_nil_iff.mp hnil.symm).1
      subst hempty
      rw [createMissingProperties, htypeNode] at h
      simp only [Option.bind_eq_bind, Option.bind_some, createDeclaredProperties_quiet hown,
        andThen, if_true, htypeNode] at h
      cases hsupertype : typeNode.supertype with
      | none =>
          rw [hsupertype] at h
          exact (Option.some.inj h).symm
      | some supertype =>
          rw [hsupertype] at h hdeclared
          obtain ⟨inherited, hinherited, hnil⟩ := hdeclared
          obtain rfl : inherited = [] := hnil.symm
          exact ih hinherited h

variable {state : NodeState V} {node : NodePtr} {result : StatusCode × Spaces V}

/-- The type is referenced, and then its properties are created. -/
theorem attachType_eq_some
    (h : factory.attachType create state node (some type) spaces = some result) :
    ∃ hasTypeDefinition spaces', factory.getNode spaces StandardId.hasTypeDefinition =
        some hasTypeDefinition ∧
      spaces.addReference hasTypeDefinition node type = some spaces' ∧
        if factory.createProperties = true then
          factory.createMissingProperties create state.nodeId (typeFuel spaces'.heap) type spaces' =
            some result
        else result = (.good, spaces') := by
  obtain ⟨hasTypeDefinition, hfound, h⟩ := Option.bind_eq_some_iff.mp h
  obtain ⟨spaces', hadd, h⟩ := Option.bind_eq_some_iff.mp h
  refine ⟨hasTypeDefinition, spaces', (asClass_eq_some.mp hfound).1, hadd, ?_⟩
  split at h
  · rename_i hcreate
    rwa [if_pos hcreate]
  · rename_i hcreate
    rw [if_neg hcreate]
    exact (Option.some.inj h).symm

variable [Inhabited V] {parentId : NodeId} {status : StatusCode} {fuel : ℕ}

theorem validate_ne_good (h : factory.validate spaces state parentId = .error status) :
    status ≠ .good := by
  have hdataType : factory.dataTypeOf spaces state ≠ .error .good := by
    have hnamed : factory.dataType spaces state ≠ .error .good := by
      unfold dataType
      split <;> nofun
    unfold dataTypeOf
    repeat' split
    all_goals first | exact hnamed | nofun
  have hvalue : valueOf state ≠ .error .good := by
    unfold valueOf
    repeat' split
    all_goals nofun
  rintro rfl
  unfold validate at h
  split at h
  · cases h
  · split at h
    · cases h
    · split at h
      · cases h
      · split at h
        · cases h
        · cases hdata : factory.dataTypeOf spaces state with
          | error error =>
              rw [hdata] at h
              cases h
              exact hdataType hdata
          | ok dataType =>
              cases hvalueOf : valueOf state with
              | error error =>
                  rw [hdata, hvalueOf] at h
                  cases h
                  exact hvalue hvalueOf
              | ok value =>
                  rw [hdata, hvalueOf] at h
                  cases h

/-- The steps of `CreateNodeHelper`. -/
theorem createNodeHelper_eq_some
    (h : factory.createNodeHelper (fuel + 1) spaces state parentId = some (status, spaces')) :
    (factory.validate spaces state parentId = .error status ∧ spaces' = spaces) ∨
      ∃ data spaces₁, factory.validate spaces state parentId = .ok data ∧
        spaces.addNode (factory.space :: factory.parents) factory.space state.nodeId
          state.nodeClass data true = some spaces₁ ∧
        andThen (factory.attachType (factory.createNodeHelper fuel) state spaces.heap.next
          (factory.typeDefinition spaces state) spaces₁) (fun spaces₂ =>
            andThen (factory.attachParent state parentId spaces.heap.next spaces₂)
              (factory.complete (factory.createNodeHelper fuel) state spaces.heap.next)) =
                some (status, spaces') := by
  rw [createNodeHelper] at h
  cases hvalidate : factory.validate spaces state parentId with
  | error error =>
      rw [hvalidate] at h
      cases h
      exact .inl ⟨rfl, rfl⟩
  | ok data =>
      rw [hvalidate] at h
      obtain ⟨spaces₁, hadd, h⟩ := Option.bind_eq_some_iff.mp h
      exact .inr ⟨data, spaces₁, rfl, hadd, h⟩

omit [Inhabited V] in
/-- No error comes after the parent. -/
theorem complete_eq_some (h : factory.complete create state node spaces = some result) :
    result.1 = .good := by
  obtain ⟨_, -, h⟩ := Option.bind_eq_some_iff.mp h
  obtain ⟨_, -, h⟩ := Option.bind_eq_some_iff.mp h
  cases h
  rfl

omit [Inhabited V] in
theorem typeDefinition_of_variable {dataType : Option NodePtr}
    (hclass : state.nodeClass = .variable)
    (h : factory.dataTypeOf spaces state = .ok dataType) :
    ∃ type, factory.typeDefinition spaces state = some type ∧
      factory.getNode spaces state.typeDefinitionId = some type := by
  simp only [dataTypeOf, hclass] at h
  split at h
  · rename_i type htype
    have hdefinition := (asClass_eq_some.mp htype).1
    exact ⟨type, hdefinition, (Option.filter_eq_some_iff.mp hdefinition).1⟩
  · cases h

/-- **A property of a type that declares properties is not created.** Its own
properties would have properties for ever. -/
theorem createNodeHelper_not_good (hwell : WellFormed spaces)
    (hcreate : factory.createProperties = true) (hclass : state.nodeClass = .variable)
    (htypeId : state.typeDefinitionId = StandardId.propertyType)
    (htype : factory.getNode spaces StandardId.propertyType = some type)
    (hdeclares : ¬ factory.Declares spaces.heap type [])
    (h : factory.createNodeHelper fuel spaces state parentId = some (status, spaces')) :
    status ≠ .good := by
  induction fuel generalizing spaces state parentId status spaces' with
  | zero => cases h
  | succ fuel ih =>
      rcases createNodeHelper_eq_some h with ⟨hvalidate, -⟩ | ⟨data, spaces₁, hvalidate, hadd, h⟩
      · exact validate_ne_good hvalidate
      · have hstart : factory.Building spaces state.nodeId state.nodeClass [] spaces₁ :=
          .start hwell hadd (validate_dataType_lt hwell hvalidate)
        obtain ⟨hfree, hdataType⟩ := validate_eq_ok hvalidate
        obtain ⟨type', hdefinition, htype'⟩ := typeDefinition_of_variable hclass hdataType
        rw [htypeId, htype] at htype'
        obtain rfl := Option.some.inj htype'
        rw [hdefinition] at h
        rcases andThen_eq_some.mp h with ⟨spaces₂, hattach, -⟩ | ⟨hbad, -⟩
        · obtain ⟨hasTypeDefinition, spaces₂', hfound, hadd₂, hmissing⟩ :=
            attachType_eq_some hattach
          rw [if_pos hcreate] at hmissing
          have hbuilding : factory.Building spaces state.nodeId state.nodeClass [] spaces₂' := by
            refine hstart.addReference hadd₂ le_rfl (.inl ?_)
            rw [hstart.wellFormed.getNode_idOf hfound]
            simp [StandardId.hasTypeDefinition, StandardId.hasSubtype]
          have hother : StandardId.propertyType ∉ [state.nodeId] := by
            intro hmem
            rw [← List.mem_singleton.mp hmem, htype] at hfree
            cases hfree
          have hcreates : CreatesInOrder (factory.createNodeHelper fuel) state.nodeId spaces.heap
              (fun earlier spaces => earlier = [] ∧ spaces = spaces₂') fun _ _ => False := by
            constructor
            · rintro earlier spaces ⟨-, rfl⟩
              exact hbuilding.agrees
            · rintro earlier spaces declaration propertyId status spaces' ⟨-, rfl⟩ - hproperty
              refine .inr ⟨ih hbuilding.wellFormed rfl rfl ?_ ?_ hproperty, id⟩
              · rw [hbuilding.getNode_other hother, htype]
              · rwa [agrees_declares hbuilding.agrees hwell.bounded (hwell.getNode_lt htype)]
          rcases createMissingProperties_spec hcreates hwell.bounded (hwell.getNode_lt htype)
            ⟨rfl, rfl⟩ hmissing with ⟨-, declared, hdeclared, horder, -⟩ | ⟨hbad, -⟩
          · cases declared with
            | nil => exact (hdeclares hdeclared).elim
            | cons declaration declared => exact horder.1.elim
          · exact (hbad rfl).elim
        · exact hbad

end

end GenericNodeFactory

end ScadaCommon.AddressSpace
