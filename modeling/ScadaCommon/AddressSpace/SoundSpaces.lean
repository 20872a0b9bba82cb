import ScadaCommon.AddressSpace.CreateNodeAtomicity

/-!
# Sound spaces

In a sound space nothing dangles and all supertypes end, so that everything that
is read of it is there. A reference that fits can be added, and the space stays
sound.

§1 adding a reference · §2 sound spaces · §3 reading · §4 growing.
-/

namespace ScadaCommon.AddressSpace

open Foundation

/-! ## §1  Adding a reference -/

section

variable {A : Type}

/-- The cases in which `AddReference` stops the process are left out. -/
theorem Node.addReference_of_fits {node : Node A} {ref : Reference} {forward : Bool}
    {typeId : NodeId} {otherClass : NodeClass} (hfresh : ref ∉ node.references forward)
    (hfits : Caches node.nodeClass forward typeId →
      node.cache forward = none ∧ otherClass.isTypeDefinition = true) :
    ∃ node', node.addReference ref forward typeId otherClass = some node' := by
  cases forward with
  | true =>
      by_cases htype : typeId = StandardId.hasTypeDefinition
      · obtain ⟨hcache, hother⟩ := hfits htype
        have hnone : node.typeDefinition = none := hcache
        simp [addReference, addNodeReference, check, hfresh, htype, setReferences, hnone, hother]
      · simp [addReference, addNodeReference, check, hfresh, htype, setReferences]
  | false =>
      by_cases hsub : node.nodeClass.isTypeDefinition = true ∧ typeId = StandardId.hasSubtype
      · obtain ⟨hcache, hother⟩ := hfits hsub
        have hnone : node.supertype = none := hcache
        simp [addReference, addNodeReference, check, hfresh, hsub, setReferences, hnone, hother]
      · simp only [addReference, addNodeReference, check, hfresh, setReferences]
        simp [hsub]

/-- What is cached is a type. -/
theorem Node.isType_of_addReference {node node' : Node A} {ref : Reference} {forward : Bool}
    {typeId : NodeId} {otherClass : NodeClass}
    (h : node.addReference ref forward typeId otherClass = some node')
    (hcaches : Caches node.nodeClass forward typeId) : otherClass.isTypeDefinition = true := by
  obtain ⟨node₁, hbase, h⟩ := Option.bind_eq_some_iff.mp h
  obtain ⟨-, hbase⟩ := check_bind_eq_some.mp hbase
  cases forward with
  | true =>
      have htype : typeId = StandardId.hasTypeDefinition := hcaches
      simp [htype] at hbase
      exact hbase.2.1
  | false =>
      obtain rfl : node.setReferences false (node.references false ++ [ref]) = node₁ := by
        simpa using hbase
      simp [hcaches.1, hcaches.2, setReferences] at h
      exact h.2.1

variable {heap : NodeHeap A} {edges : Set Edge} {type source target : NodePtr}
  {typeNode sourceNode targetNode : Node A}

namespace NodeHeap

theorem addHalf_of_fits {ptr other : NodePtr} {forward : Bool} {node otherNode : Node A}
    (htype : heap.nodes type = some typeNode) (hother : heap.nodes other = some otherNode)
    (hnode : heap.nodes ptr = some node) (hfresh : ⟨type, other⟩ ∉ node.references forward)
    (hfits : Node.Caches node.nodeClass forward typeNode.id →
      node.cache forward = none ∧ otherNode.nodeClass.isTypeDefinition = true) :
    ∃ heap', heap.addHalf type ptr forward other = some heap' := by
  obtain ⟨node', hadd⟩ := Node.addReference_of_fits hfresh hfits
  exact ⟨heap.set ptr (some node'), by simp [addHalf, htype, hother, hnode, hadd]⟩

/-- The end of a reference has room for it: it does not cache another one, and
what it would cache is a type. -/
def HasRoom (node other : Node A) (forward : Bool) (typeId : NodeId) : Prop :=
  Node.Caches node.nodeClass forward typeId →
    node.cache forward = none ∧ other.nodeClass.isTypeDefinition = true

theorem SameObjects.nodes {heap' : NodeHeap A} (h : SameObjects heap heap') {ptr : NodePtr}
    {node : Node A} (hnode : heap.nodes ptr = some node) :
    ∃ node', heap'.nodes ptr = some node' ∧ Node.SameObject node node' := by
  have hid := congrFun h.idOf ptr
  have hclass := congrFun h.classOf ptr
  have hattributes := congrFun h.attributesOf ptr
  simp only [NodeHeap.idOf, NodeHeap.classOf, NodeHeap.attributesOf, hnode, Option.map_some,
    Option.map_eq_some_iff] at hid hclass hattributes
  obtain ⟨node', hnode', hid⟩ := hid
  obtain ⟨node₁, hnode₁, hclass⟩ := hclass
  obtain ⟨node₂, hnode₂, hattributes⟩ := hattributes
  obtain rfl := Option.some.inj (hnode'.symm.trans hnode₁)
  obtain rfl := Option.some.inj (hnode'.symm.trans hnode₂)
  exact ⟨node', hnode', hid, hclass, hattributes⟩

/-- The classes of the ends of a reference that was added. -/
theorem classes_of_addReference {heap' : NodeHeap A} {typeId : NodeId}
    (hid : heap.idOf type = some typeId)
    (h : heap.addReference type source target = some heap') :
    (typeId = StandardId.hasTypeDefinition →
      (heap.classOf target).any NodeClass.isTypeDefinition = true) ∧
    (typeId = StandardId.hasSubtype → (heap.classOf target).any NodeClass.isTypeDefinition = true →
      (heap.classOf source).any NodeClass.isTypeDefinition = true) := by
  obtain ⟨heap₁, hsource, htarget⟩ := Option.bind_eq_some_iff.mp h
  have hsame := addHalf_sameObjects hsource
  have hclasses : ∀ {heap heap' : NodeHeap A} {ptr other : NodePtr} {forward : Bool},
      heap.idOf type = some typeId → heap.addHalf type ptr forward other = some heap' →
        ∃ node, heap.nodes ptr = some node ∧ (Node.Caches node.nodeClass forward typeId →
          (heap.classOf other).any NodeClass.isTypeDefinition = true) := by
    intro heap heap' ptr other forward hid hhalf
    obtain ⟨typeNode, htypeNode, hhalf⟩ := Option.bind_eq_some_iff.mp hhalf
    obtain ⟨otherNode, hother, hhalf⟩ := Option.bind_eq_some_iff.mp hhalf
    obtain ⟨node, hnode, hhalf⟩ := Option.bind_eq_some_iff.mp hhalf
    obtain ⟨node', hadd, -⟩ := Option.bind_eq_some_iff.mp hhalf
    obtain rfl : typeNode.id = typeId := by
      rw [idOf, htypeNode, Option.map_some, Option.some_inj] at hid
      exact hid
    refine ⟨node, hnode, fun hcaches => ?_⟩
    rw [classOf, hother, Option.map_some, Option.any_some]
    exact Node.isType_of_addReference hadd hcaches
  obtain ⟨_, -, hforward⟩ := hclasses hid hsource
  obtain ⟨node, hnode, hinverse⟩ := hclasses (hsame.idOf ▸ hid) htarget
  refine ⟨hforward, fun htype hclass => ?_⟩
  rw [← hsame.classOf] at hclass ⊢
  rw [classOf, hnode, Option.map_some, Option.any_some] at hclass
  exact hinverse ⟨hclass, htype⟩

/-- **A new reference with room at both ends can be added.** -/
theorem Represents.addReference_of_fits (h : heap.Represents edges)
    (htype : heap.nodes type = some typeNode) (hsource : heap.nodes source = some sourceNode)
    (htarget : heap.nodes target = some targetNode)
    (hfresh : ⟨type, source, target⟩ ∉ edges)
    (hforward : HasRoom sourceNode targetNode true typeNode.id)
    (hinverse : HasRoom targetNode sourceNode false typeNode.id) :
    ∃ heap', heap.addReference type source target = some heap' := by
  have hfreshSource : ⟨type, target⟩ ∉ sourceNode.references true := fun hmem =>
    hfresh ((h.holds.references source sourceNode hsource true _).mp hmem)
  obtain ⟨heap₁, hadd₁⟩ := addHalf_of_fits htype htarget hsource hfreshSource hforward
  obtain ⟨hsame, -, hholds⟩ := h.holds.addHalf hadd₁
  obtain ⟨typeNode₁, htype₁, hsameType⟩ := hsame.nodes htype
  obtain ⟨sourceNode₁, hsource₁, hsameSource⟩ := hsame.nodes hsource
  obtain ⟨targetNode₁, htarget₁, hsameTarget⟩ := hsame.nodes htarget
  have hfreshTarget : ⟨type, source⟩ ∉ targetNode₁.references false := by
    intro hmem
    rcases (hholds.references target targetNode₁ htarget₁ false _).mp hmem with heq | hhalf
    · cases heq
    · exact hfresh hhalf
  have hroom : HasRoom targetNode₁ sourceNode₁ false typeNode₁.id := by
    intro hcaches
    rw [hsameTarget.nodeClass, hsameType.id] at hcaches
    obtain ⟨hnone, hclass⟩ := hinverse hcaches
    refine ⟨?_, hsameSource.nodeClass ▸ hclass⟩
    rw [Option.eq_none_iff_forall_ne_some]
    intro other hcache
    obtain ⟨type', hhalf, hcached⟩ := (hholds.cache target targetNode₁ htarget₁ false other).mp hcache
    rcases hhalf with heq | hhalf
    · cases heq
    · rw [hsame.isCached hsameTarget] at hcached
      have hsome := (h.holds.cache target targetNode htarget false other).mpr ⟨type', hhalf, hcached⟩
      rw [hnone] at hsome
      cases hsome
  obtain ⟨heap₂, hadd₂⟩ := addHalf_of_fits htype₁ hsource₁ htarget₁ hfreshTarget hroom
  exact ⟨heap₂, by simp [NodeHeap.addReference, hadd₁, hadd₂]⟩

/-- The ends of a reference were allocated. -/
theorem Represents.edge_lt (h : heap.Represents edges)
    {edge : Edge} (hedge : edge ∈ edges) :
    edge.type < heap.next ∧ edge.source < heap.next ∧ edge.target < heap.next :=
  ⟨h.bounded _ (h.alive edge hedge),
    h.bounded _ (h.holds.alive ⟨edge.source, true, ⟨edge.type, edge.target⟩⟩ hedge),
    h.bounded _ (h.holds.alive ⟨edge.target, false, ⟨edge.type, edge.source⟩⟩ hedge)⟩

end NodeHeap

end

/-! ## §2  Sound spaces -/

variable {V : Type} {factory : GenericNodeFactory} {spaces spaces' : Spaces V} {edges : Set Edge}
  {ptr : NodePtr} {node : Node (NodeData V)}

/-- The next type on the way up. -/
def NodeHeap.supertypeOf {A : Type} (heap : NodeHeap A) (ptr : NodePtr) : Option (Option NodePtr) :=
  (heap.nodes ptr).map Node.supertype

/-- Nothing dangles, nothing lacks what it must have, and no type is above
itself. -/
structure Sound (factory : GenericNodeFactory) (spaces : Spaces V) (edges : Set Edge) : Prop where
  wellFormed : WellFormed spaces
  represents : spaces.heap.Represents edges
  alive : ∀ ptr < spaces.heap.next, ∃ node, spaces.heap.nodes ptr = some node
  named : ∀ ptr node, spaces.heap.nodes ptr = some node → node.id ≠ .null
  typed : ∀ ptr node, spaces.heap.nodes ptr = some node →
    node.nodeClass = .variable ∨ node.nodeClass = .variableType → node.attributes.dataType ≠ none
  ends : ∀ ptr < spaces.heap.next, Ends spaces.heap.supertypeOf ptr
  hasTypeDefinition : factory.Finds spaces .referenceType StandardId.hasTypeDefinition
  hasSubtype : factory.Finds spaces .referenceType StandardId.hasSubtype

/-! ## §3  Reading -/

theorem NodeHeap.isSubtypeOfWalk_of_path {A : Type} {heap : NodeHeap A} {typeId : NodeId}
    {fuel : ℕ} {ptrs : List NodePtr} (h : path heap.supertypeOf fuel ptr = some ptrs) :
    ∃ isSubtype, heap.isSubtypeOfWalk typeId fuel ptr = some isSubtype := by
  induction fuel generalizing ptr ptrs with
  | zero => cases h
  | succ fuel ih =>
      rw [isSubtypeOfWalk]
      rcases path_cases h with ⟨hend, -⟩ | ⟨next, rest, hstep, hrest, -⟩
      · obtain ⟨node, hnode, hsupertype⟩ := Option.map_eq_some_iff.mp hend
        by_cases hid : node.id = typeId
        · exact ⟨true, by simp [hnode, hid]⟩
        · exact ⟨false, by simp [hnode, hid, hsupertype]⟩
      · obtain ⟨node, hnode, hsupertype⟩ := Option.map_eq_some_iff.mp hstep
        obtain ⟨isSubtype, hrest⟩ := ih hrest
        by_cases hid : node.id = typeId
        · exact ⟨true, by simp [hnode, hid]⟩
        · exact ⟨isSubtype, by simp [hnode, hid, hsupertype, hrest]⟩

/-- Nothing dangles that a search comes by, and all supertypes end. -/
structure Searchable (heap : NodeHeap (NodeData V)) : Prop where
  bounded : heap.Bounded
  alive : ∀ ptr < heap.next, ∃ node, heap.nodes ptr = some node
  named : ∀ ptr node, heap.nodes ptr = some node → node.id ≠ .null
  ends : ∀ ptr < heap.next, Ends heap.supertypeOf ptr

namespace Searchable

variable {heap : NodeHeap (NodeData V)} (h : Searchable heap)

include h

theorem staysIn : StaysIn heap.supertypeOf {q | q < heap.next} := by
  intro q _ other hother
  obtain ⟨node, hnode, hsupertype⟩ := Option.map_eq_some_iff.mp hother
  exact h.bounded.supertype q node hnode other hsupertype

/-- As many steps as there are nodes are enough. -/
theorem path_next (hptr : ptr < heap.next) :
    ∃ ptrs, path heap.supertypeOf heap.next ptr = some ptrs := by
  obtain ⟨fuel, ptrs, hptrs⟩ := h.ends ptr hptr
  have hmore := path_mono hptrs (Nat.le_max_left fuel heap.next)
  rw [path_stable h.staysIn hptr (Nat.le_max_right _ _)] at hmore
  exact ⟨ptrs, hmore⟩

theorem isSubtypeOf (hptr : ptr < heap.next) (typeId : NodeId) :
    ∃ isSubtype, heap.isSubtypeOf ptr typeId = some isSubtype := by
  obtain ⟨ptrs, hptrs⟩ := h.path_next hptr
  exact NodeHeap.isSubtypeOfWalk_of_path (path_mono hptrs (Nat.le_succ _))

theorem findFirst (typeId : NodeId) {refs : List Reference}
    (hrefs : heap.BoundedReferences refs) :
    ∃ found, heap.findFirst typeId refs = some found := by
  induction refs with
  | nil => exact ⟨none, rfl⟩
  | cons ref refs ih =>
      obtain ⟨href, hrefs⟩ := List.forall_mem_cons.mp hrefs
      obtain ⟨isSubtype, hisSubtype⟩ := h.isSubtypeOf href.1 typeId
      obtain ⟨found, hfound⟩ := ih hrefs
      cases isSubtype with
      | true => exact ⟨some ref, by simp [NodeHeap.findFirst, hisSubtype]⟩
      | false => exact ⟨found, by simp [NodeHeap.findFirst, hisSubtype, hfound]⟩

theorem getBrowseName (hnode : heap.nodes ptr = some node) :
    ∃ browseName, factory.getBrowseName node = some browseName := by
  have hid := h.named ptr node hnode
  by_cases hname : node.attributes.browseName.name = ""
  · exact ⟨_, by simp [GenericNodeFactory.getBrowseName, hname, check, hid]; rfl⟩
  · exact ⟨_, by simp [GenericNodeFactory.getBrowseName, hname]; rfl⟩

theorem findChild (name : String) {refs : List Reference} (hrefs : heap.BoundedReferences refs) :
    ∃ found, factory.findChild heap name refs = some found := by
  induction refs with
  | nil => exact ⟨none, rfl⟩
  | cons ref refs ih =>
      obtain ⟨href, hrefs⟩ := List.forall_mem_cons.mp hrefs
      obtain ⟨isChild, hisChild⟩ := h.isSubtypeOf href.1 StandardId.hierarchicalReferences
      obtain ⟨found, hfound⟩ := ih hrefs
      obtain ⟨child, hchild⟩ := h.alive ref.node href.2
      obtain ⟨browseName, hbrowseName⟩ : ∃ browseName,
          factory.getBrowseName child = some browseName := h.getBrowseName hchild
      cases isChild with
      | false => exact ⟨found, by simp [GenericNodeFactory.findChild, hisChild, hfound]⟩
      | true =>
          by_cases hname : browseName.name = name
          · exact ⟨some ref.node,
              by simp [GenericNodeFactory.findChild, hisChild, hchild, hbrowseName, hname]⟩
          · exact ⟨found,
              by simp [GenericNodeFactory.findChild, hisChild, hchild, hbrowseName, hname, hfound]⟩

end Searchable

namespace Sound

section

variable (h : Sound factory spaces edges)

include h

theorem searchable : Searchable spaces.heap :=
  ⟨h.wellFormed.bounded, h.alive, h.named, h.ends⟩

theorem nodeOf (hptr : ptr < spaces.heap.next) : ∃ node, spaces.heap.nodes ptr = some node :=
  h.alive ptr hptr

theorem getNode_null : factory.getNode spaces .null = none := by
  rw [Option.eq_none_iff_forall_ne_some]
  intro ptr hptr
  obtain ⟨node, hnode, hid⟩ := Option.map_eq_some_iff.mp (h.wellFormed.getNode_idOf hptr)
  exact h.named ptr node hnode hid

theorem staysIn : StaysIn spaces.heap.supertypeOf {q | q < spaces.heap.next} :=
  h.searchable.staysIn

theorem path_next (hptr : ptr < spaces.heap.next) :
    ∃ ptrs, path spaces.heap.supertypeOf spaces.heap.next ptr = some ptrs :=
  h.searchable.path_next hptr

theorem isSubtypeOf (hptr : ptr < spaces.heap.next) (typeId : NodeId) :
    ∃ isSubtype, spaces.heap.isSubtypeOf ptr typeId = some isSubtype :=
  h.searchable.isSubtypeOf hptr typeId

theorem findFirst (typeId : NodeId) {refs : List Reference}
    (hrefs : spaces.heap.BoundedReferences refs) :
    ∃ found, spaces.heap.findFirst typeId refs = some found :=
  h.searchable.findFirst typeId hrefs

theorem getBrowseName (hnode : spaces.heap.nodes ptr = some node) :
    ∃ browseName, factory.getBrowseName node = some browseName :=
  h.searchable.getBrowseName hnode

theorem findChild (name : String) {refs : List Reference}
    (hrefs : spaces.heap.BoundedReferences refs) :
    ∃ found, factory.findChild spaces.heap name refs = some found :=
  h.searchable.findChild name hrefs

theorem isPlaceholderDeclaration (hnode : spaces.heap.nodes ptr = some node)
    (hclass : node.nodeClass = .variable) :
    ∃ isPlaceholder, isPlaceholderDeclaration spaces.heap node = some isPlaceholder := by
  have hrefs : spaces.heap.BoundedReferences node.forwardReferences :=
    h.wellFormed.bounded.references ptr node hnode
  obtain ⟨found, hfound⟩ := h.findFirst StandardId.hasModellingRule hrefs
  cases found with
  | none =>
      exact ⟨false, by simp [AddressSpace.isPlaceholderDeclaration, check, hclass,
        NodeClass.isTypeDefinition, hfound]⟩
  | some ref =>
      obtain ⟨rule, hrule⟩ := h.nodeOf (hrefs ref (NodeHeap.findFirst_mem hfound)).2
      exact ⟨_, by
        simp [AddressSpace.isPlaceholderDeclaration, check, hclass, NodeClass.isTypeDefinition,
          hfound, hrule]
        rfl⟩

theorem declarationOf (hnode : spaces.heap.nodes ptr = some node)
    (hclass : node.nodeClass = .variable) :
    ∃ declaration, factory.declarationOf spaces.heap node = some declaration := by
  obtain ⟨isPlaceholder, hplaceholder⟩ := h.isPlaceholderDeclaration hnode hclass
  obtain ⟨browseName, hbrowseName⟩ := h.getBrowseName hnode
  obtain ⟨child, hchild⟩ :=
    h.findChild browseName.name (h.wellFormed.bounded.references ptr node hnode)
  obtain ⟨dataType, hdataType⟩ :=
    Option.ne_none_iff_exists'.mp (h.typed ptr node hnode (.inl hclass))
  obtain ⟨dataTypeNode, hdataTypeNode⟩ :=
    h.nodeOf (h.wellFormed.bounded.dataType ptr node hnode dataType hdataType)
  have hdisplayName : ∃ displayName, factory.getDisplayName node = some displayName := by
    by_cases hname : node.attributes.displayName = ""
    · exact ⟨browseName.name, by simp [GenericNodeFactory.getDisplayName, hname, hbrowseName]⟩
    · exact ⟨_, by simp [GenericNodeFactory.getDisplayName, hname]; rfl⟩
  obtain ⟨displayName, hdisplayName⟩ := hdisplayName
  cases isPlaceholder with
  | true => exact ⟨none, by simp [GenericNodeFactory.declarationOf, hplaceholder]⟩
  | false =>
      cases child with
      | some child =>
          exact ⟨none, by simp [GenericNodeFactory.declarationOf, hplaceholder, hbrowseName, hchild]⟩
      | none =>
          exact ⟨_, by
            simp [GenericNodeFactory.declarationOf, hplaceholder, hbrowseName, hchild,
              hdisplayName, hdataType, hdataTypeNode]
            rfl⟩

theorem declaredProperty {ref : Reference}
    (href : ref.type < spaces.heap.next ∧ ref.node < spaces.heap.next) :
    ∃ declaration, factory.declaredProperty spaces.heap ref = some declaration := by
  obtain ⟨isProperty, hisProperty⟩ := h.isSubtypeOf href.1 StandardId.hasProperty
  obtain ⟨node, hnode⟩ := h.nodeOf href.2
  rw [factory.declaredProperty_eq, hisProperty]
  by_cases hproperty : isProperty = true
  · by_cases hclass : node.nodeClass = .variable
    · obtain ⟨declaration, hdeclaration⟩ := h.declarationOf hnode hclass
      exact ⟨declaration, by simp [hproperty, hnode, hclass, hdeclaration]⟩
    · exact ⟨none, by simp [hproperty, hnode, hclass]⟩
  · exact ⟨none, by simp [hproperty]⟩

theorem declarationsOf {refs : List Reference} (hrefs : spaces.heap.BoundedReferences refs) :
    ∃ own, factory.declarationsOf spaces.heap refs = some own := by
  induction refs with
  | nil => exact ⟨[], rfl⟩
  | cons ref refs ih =>
      obtain ⟨href, hrefs⟩ := List.forall_mem_cons.mp hrefs
      obtain ⟨declaration, hdeclaration⟩ := h.declaredProperty href
      obtain ⟨own, hown⟩ := ih hrefs
      exact ⟨declaration.toList ++ own,
        by simp [GenericNodeFactory.declarationsOf, hdeclaration, hown]⟩

/-- Types declare something or nothing. -/
theorem declares (hptr : ptr < spaces.heap.next) :
    ∃ declared, factory.Declares spaces.heap ptr declared := by
  obtain ⟨fuel, ptrs, hptrs⟩ := h.ends ptr hptr
  induction fuel generalizing ptr ptrs with
  | zero => cases hptrs
  | succ fuel ih =>
      obtain ⟨typeNode, htypeNode⟩ := h.nodeOf hptr
      obtain ⟨own, hown⟩ := h.declarationsOf (h.wellFormed.bounded.references ptr typeNode htypeNode)
      rcases path_cases hptrs with ⟨hend, -⟩ | ⟨next, rest, hstep, hrest, -⟩
      · rw [NodeHeap.supertypeOf, htypeNode, Option.map_some, Option.some_inj] at hend
        refine ⟨own, GenericNodeFactory.declares_iff.mpr ⟨typeNode, own, htypeNode, hown, ?_⟩⟩
        rw [hend]
      · rw [NodeHeap.supertypeOf, htypeNode, Option.map_some, Option.some_inj] at hstep
        have hnext := h.wellFormed.bounded.supertype ptr typeNode htypeNode next hstep
        obtain ⟨inherited, hinherited⟩ := ih hnext rest hrest
        refine ⟨own ++ inherited,
          GenericNodeFactory.declares_iff.mpr ⟨typeNode, own, htypeNode, hown, ?_⟩⟩
        rw [hstep]
        exact ⟨inherited, hinherited, rfl⟩

end

end Sound

/-! ## §4  Growing -/

/-- A supertype may be added above a type that is not above it. -/
def NodeHeap.NoCycle {A : Type} (heap : NodeHeap A) (typeId : NodeId) (source target : NodePtr) :
    Prop :=
  typeId = StandardId.hasSubtype → (heap.classOf target).any NodeClass.isTypeDefinition = true →
    ∃ fuel ptrs, path heap.supertypeOf fuel source = some ptrs ∧ target ∉ ptrs

/-- The reference can be added if it is new. -/
structure NodeHeap.Fits {A : Type} (heap : NodeHeap A) (typeId : NodeId) (source target : NodePtr) :
    Prop where
  room : ∀ sourceNode targetNode, heap.nodes source = some sourceNode →
    heap.nodes target = some targetNode →
      HasRoom sourceNode targetNode true typeId ∧ HasRoom targetNode sourceNode false typeId
  noCycle : heap.NoCycle typeId source target

theorem NodeHeap.SameObjects.symm {A : Type} {heap heap' : NodeHeap A}
    (h : SameObjects heap heap') : SameObjects heap' heap :=
  ⟨h.idOf.symm, h.classOf.symm, h.attributesOf.symm, h.next.symm⟩

theorem NodeHeap.supertypeOf_set {A : Type} {heap : NodeHeap A} {q : NodePtr} {node : Node A} :
    (heap.set ptr (some node)).supertypeOf q =
      if q = ptr then some node.supertype else heap.supertypeOf q := by
  rw [NodeHeap.supertypeOf, nodes_set]
  split <;> rfl

/-- At most the target gets a supertype. -/
theorem NodeHeap.addReference_supertypeOf {A : Type} {heap heap' : NodeHeap A}
    {type source target : NodePtr} {typeId : NodeId} (hid : heap.idOf type = some typeId)
    (h : heap.addReference type source target = some heap') :
    (∀ q, q ≠ target → heap'.supertypeOf q = heap.supertypeOf q) ∧
      (heap'.supertypeOf target = heap.supertypeOf target ∨
        (typeId = StandardId.hasSubtype ∧
          (heap.classOf target).any NodeClass.isTypeDefinition = true ∧
          heap'.supertypeOf target = some (some source))) := by
  obtain ⟨heap₁, hsource, htarget⟩ := Option.bind_eq_some_iff.mp h
  have hsame := addHalf_sameObjects hsource
  obtain ⟨_, sourceNode, sourceNode', -, -, hsourceNode, hadds, rfl⟩ := addHalf_eq_some hsource
  obtain ⟨typeNode, targetNode, targetNode', htypeNode, -, htargetNode, hadds', rfl⟩ :=
    addHalf_eq_some htarget
  have hfirst : ∀ q, (heap.set source (some sourceNode')).supertypeOf q = heap.supertypeOf q := by
    intro q
    rw [supertypeOf_set]
    split
    · rename_i heq
      have hcache : sourceNode'.supertype = sourceNode.supertype := hadds.otherCache
      rw [hcache, heq, NodeHeap.supertypeOf, hsourceNode, Option.map_some]
    · rfl
  refine ⟨fun q hq => ?_, ?_⟩
  · rw [supertypeOf_set, if_neg hq, hfirst]
  · have hold : heap.supertypeOf target = some targetNode.supertype := by
      rw [← hfirst, NodeHeap.supertypeOf, htargetNode, Option.map_some]
    have htypeId : typeNode.id = typeId := by
      rw [← hsame.idOf, NodeHeap.idOf, htypeNode, Option.map_some, Option.some_inj] at hid
      exact hid
    have hclass : heap.classOf target = some targetNode.nodeClass := by
      rw [← hsame.classOf, NodeHeap.classOf, htargetNode, Option.map_some]
    have hcache : targetNode'.supertype = _ := hadds'.cache
    rw [supertypeOf_set, if_pos rfl, hcache, hold, htypeId, hclass]
    split
    · rename_i hcaches
      exact .inr ⟨hcaches.2, by simpa using hcaches.1, rfl⟩
    · exact .inl rfl

/-- The way up from a type that is not below the target does not lead there. -/
theorem NodeHeap.path_of_isSubtypeOf {A : Type} {heap : NodeHeap A} {source target : NodePtr}
    {targetId : NodeId} (htarget : heap.idOf target = some targetId)
    (h : heap.isSubtypeOf source targetId = some false) :
    ∃ fuel ptrs, path heap.supertypeOf fuel source = some ptrs ∧ target ∉ ptrs := by
  rw [NodeHeap.isSubtypeOf, isSubtypeOfWalk_eq, Option.map_eq_some_iff] at h
  obtain ⟨ptrs, hptrs, hnone⟩ := h
  rw [List.any_eq_false] at hnone
  have hid : ∀ q ∈ ptrs, heap.idOf q ≠ some targetId :=
    fun q hq hid => hnone q hq (decide_eq_true hid)
  refine ⟨heap.next + 1, ptrs, path_of_eqOn hptrs fun q hq => ?_, fun hmem => ?_⟩
  · have hne := hid q hq
    rw [supertypeOf, supertypeStep]
    cases hnode : heap.nodes q with
    | none => rfl
    | some node =>
        rw [NodeHeap.idOf, hnode, Option.map_some, Ne, Option.some_inj] at hne
        rw [Option.map_some, Option.map_some, if_neg hne]
  · exact hid target hmem htarget

/-- A reference that makes no cycle. -/
theorem Sound.addReference (h : Sound factory spaces edges) {type source target : NodePtr}
    {typeId : NodeId} {heap : NodeHeap (NodeData V)} (hid : spaces.heap.idOf type = some typeId)
    (hcycle : spaces.heap.NoCycle typeId source target)
    (hheap : spaces.heap.addReference type source target = some heap) :
    Sound factory { spaces with heap } (insert ⟨type, source, target⟩ edges) := by
  obtain ⟨hsame, -, hrepresents⟩ := h.represents.addReference hheap
  have hfinds : ∀ nodeClass id, factory.Finds spaces nodeClass id →
      factory.Finds { spaces with heap } nodeClass id := by
    rintro nodeClass id ⟨ptr, hptr⟩
    obtain ⟨hnode, hclass⟩ := asClass_eq_some.mp hptr
    exact ⟨ptr, asClass_eq_some.mpr ⟨hnode, hsame.classOf ▸ hclass⟩⟩
  constructor
  case wellFormed =>
    refine ⟨h.wellFormed.bounded.addReference hheap, fun place ptr hplace => ?_⟩
    rw [hsame.idOf]
    exact h.wellFormed.mapped place ptr hplace
  case represents => exact hrepresents
  case alive =>
    intro ptr hptr
    obtain ⟨node, hnode⟩ := h.alive ptr (hsame.next ▸ hptr)
    obtain ⟨node', hnode', -⟩ := hsame.nodes hnode
    exact ⟨node', hnode'⟩
  case named =>
    intro ptr node hnode
    obtain ⟨old, hold, hsameNode⟩ := hsame.symm.nodes hnode
    exact hsameNode.id ▸ h.named ptr old hold
  case typed =>
    intro ptr node hnode hclass
    obtain ⟨old, hold, hsameNode⟩ := hsame.symm.nodes hnode
    rw [← hsameNode.attributes]
    rw [← hsameNode.nodeClass] at hclass
    exact h.typed ptr old hold hclass
  case ends =>
    intro ptr hptr
    obtain ⟨hothers, htarget⟩ := NodeHeap.addReference_supertypeOf hid hheap
    have hends := h.ends ptr (hsame.next ▸ hptr)
    rcases htarget with htarget | ⟨htypeId, hclass, htarget⟩
    · obtain ⟨fuel, ptrs, hptrs⟩ := hends
      refine ⟨fuel, ptrs, path_of_eqOn hptrs fun q _ => ?_⟩
      by_cases hq : q = target
      · rw [hq, htarget]
      · exact hothers q hq
    · obtain ⟨fuel, ptrs, hptrs, hnot⟩ := hcycle htypeId hclass
      have hsourceEnds : Ends heap.supertypeOf source :=
        ⟨fuel, ptrs, path_of_eqOn hptrs fun q hq => hothers q fun heq => hnot (heq ▸ hq)⟩
      exact hends.redirect hothers (ends_of_step htarget hsourceEnds)
  case hasTypeDefinition => exact hfinds _ _ h.hasTypeDefinition
  case hasSubtype => exact hfinds _ _ h.hasSubtype

/-- **A reference that fits is added**, and the space stays sound. -/
theorem Sound.addReference_of_fits (h : Sound factory spaces edges)
    {type source target : NodePtr} {typeId : NodeId} (hid : spaces.heap.idOf type = some typeId)
    (hsource : source < spaces.heap.next) (htarget : target < spaces.heap.next)
    (hfresh : ⟨type, source, target⟩ ∉ edges) (hfits : spaces.heap.Fits typeId source target) :
    ∃ spaces', spaces.addReference type source target = some spaces' ∧
      Sound factory spaces' (insert ⟨type, source, target⟩ edges) := by
  obtain ⟨typeNode, htype, rfl⟩ := Option.map_eq_some_iff.mp hid
  obtain ⟨sourceNode, hsourceNode⟩ := h.nodeOf hsource
  obtain ⟨targetNode, htargetNode⟩ := h.nodeOf htarget
  obtain ⟨hforward, hinverse⟩ := hfits.room sourceNode targetNode hsourceNode htargetNode
  obtain ⟨heap, hheap⟩ := h.represents.addReference_of_fits htype hsourceNode htargetNode hfresh
    hforward hinverse
  have hsound := h.addReference hid hfits.noCycle hheap
  obtain ⟨hsame, -, -⟩ := h.represents.addReference hheap
  have hlt : type < heap.next := hsame.next ▸ h.wellFormed.bounded.allocated type typeNode htype
  obtain ⟨isHierarchical, hwalk⟩ :=
    hsound.isSubtypeOf hlt StandardId.hierarchicalReferences
  have hwalk' : heap.isSubtypeOf type StandardId.hierarchicalReferences = some isHierarchical :=
    hwalk
  exact ⟨{ spaces with heap }, by simp [AddressSpaces.addReference, hheap, hwalk'], hsound⟩

section

variable {id : NodeId} {nodeClass : NodeClass} {data : NodeData V} {owned : Bool}

theorem Sound.addNode (h : Sound factory spaces edges)
    (hadd : spaces.addNode (factory.space :: factory.parents) factory.space id nodeClass data owned =
      some spaces')
    (hbounded : ∀ other, data.dataType = some other → other < spaces.heap.next)
    (htyped : nodeClass = .variable ∨ nodeClass = .variableType → data.dataType ≠ none) :
    Sound factory spaces' edges := by
  have hwell := h.wellFormed.addNode hadd hbounded
  obtain ⟨hid, hfree, -, hheap, hmap⟩ := AddressSpaces.addNode_eq_some hadd
  have hcases : ∀ ptr node, spaces'.heap.nodes ptr = some node →
      (ptr = spaces.heap.next ∧ node = { id, nodeClass, attributes := data }) ∨
        spaces.heap.nodes ptr = some node := by
    intro ptr node hnode
    rw [hheap] at hnode
    simp only [NodeHeap.allocate, Function.update_apply] at hnode
    split at hnode
    · rename_i heq
      exact .inl ⟨heq, (Option.some.inj hnode).symm⟩
    · exact .inr hnode
  have hother : ∀ ptr, ptr ≠ spaces.heap.next → spaces'.heap.nodes ptr = spaces.heap.nodes ptr := by
    intro ptr hptr
    rw [hheap]
    simp [NodeHeap.allocate, hptr]
  have hself : spaces'.heap.nodes spaces.heap.next =
      some { id, nodeClass, attributes := data } := by
    rw [hheap]
    simp [NodeHeap.allocate]
  have hfinds : ∀ otherClass otherId, factory.Finds spaces otherClass otherId →
      factory.Finds spaces' otherClass otherId := by
    rintro otherClass otherId ⟨ptr, hptr⟩
    obtain ⟨hnode, hclass⟩ := asClass_eq_some.mp hptr
    have hlt := h.wellFormed.getNode_lt hnode
    have hne : otherId ≠ id := by
      rintro rfl
      rw [GenericNodeFactory.getNode, hfree] at hnode
      cases hnode
    refine ⟨ptr, asClass_eq_some.mpr ⟨?_, ?_⟩⟩
    · rw [← hnode]
      simp [GenericNodeFactory.getNode, AddressSpaces.getNode, hmap, hne]
    · rw [NodeHeap.classOf, hother ptr hlt.ne]
      exact hclass
  constructor
  case wellFormed => exact hwell
  case represents =>
    rw [hheap]
    exact h.represents.allocate fun forward => by cases forward <;> exact ⟨rfl, rfl⟩
  case alive =>
    intro ptr hptr
    by_cases hnext : ptr = spaces.heap.next
    · exact ⟨_, hnext ▸ hself⟩
    · rw [hother ptr hnext]
      rw [hheap] at hptr
      exact h.alive ptr (lt_of_le_of_ne (Nat.lt_succ_iff.mp hptr) hnext)
  case named =>
    intro ptr node hnode
    rcases hcases ptr node hnode with ⟨-, rfl⟩ | hnode
    · exact hid
    · exact h.named ptr node hnode
  case typed =>
    intro ptr node hnode hclass
    rcases hcases ptr node hnode with ⟨-, rfl⟩ | hnode
    · exact htyped hclass
    · exact h.typed ptr node hnode hclass
  case ends =>
    intro ptr hptr
    have hnew : Ends spaces'.heap.supertypeOf spaces.heap.next := by
      refine ⟨1, [spaces.heap.next], path_of_end ?_⟩
      rw [NodeHeap.supertypeOf, hself, Option.map_some]
    by_cases hnext : ptr = spaces.heap.next
    · exact hnext ▸ hnew
    · rw [hheap] at hptr
      have hends := h.ends ptr (lt_of_le_of_ne (Nat.lt_succ_iff.mp hptr) hnext)
      refine hends.redirect (fun q hq => ?_) hnew
      rw [NodeHeap.supertypeOf, hother q hq, NodeHeap.supertypeOf]
  case hasTypeDefinition => exact hfinds _ _ h.hasTypeDefinition
  case hasSubtype => exact hfinds _ _ h.hasSubtype

theorem addNode_of_free (hid : id ≠ .null) (hfree : factory.getNode spaces id = none) :
    ∃ spaces', spaces.addNode (factory.space :: factory.parents) factory.space id nodeClass data
      owned = some spaces' := by
  have hplace : spaces.nodeMap (factory.space, id) = none := by
    cases hplace : spaces.nodeMap (factory.space, id) with
    | none => rfl
    | some ptr =>
        rw [GenericNodeFactory.getNode_own hplace] at hfree
        cases hfree
  have hfree' : spaces.getNode (factory.space :: factory.parents) id = none := hfree
  exact ⟨_, by
    simp [AddressSpaces.addNode, check, hid, hfree', hplace]
    rfl⟩

end

end ScadaCommon.AddressSpace
