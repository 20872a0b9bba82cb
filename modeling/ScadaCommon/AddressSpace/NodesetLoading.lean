import ScadaCommon.AddressSpace.AddressSpaceXml
import ScadaCommon.AddressSpace.SafeCreation

/-!
# Does loading node states always end?

Whatever the states are, they are sorted. From then on `ApplyNodeStates` creates
nodes, which checks its input, and adds links, which hardly does.

§1 links · §2 runs · §3 spaces of a list of nodes · §4 links that
stop the process.
-/

namespace ScadaCommon.AddressSpace

open Foundation

variable {V : Type} {factory : GenericNodeFactory} {spaces spaces' : Spaces V} {edges : Set Edge}

/-! ## §1  Links -/

namespace Sound

variable {refs : List Reference} {typeId nodeId : NodeId}

theorem findReference (h : Sound factory spaces edges) (typeId nodeId : NodeId)
    (hrefs : spaces.heap.BoundedReferences refs) :
    ∃ found, findReference spaces.heap typeId nodeId refs = some found := by
  induction refs with
  | nil => exact ⟨none, rfl⟩
  | cons ref refs ih =>
      obtain ⟨href, hrefs⟩ := List.forall_mem_cons.mp hrefs
      obtain ⟨isSubtype, hisSubtype⟩ := h.isSubtypeOf href.1 typeId
      obtain ⟨found, hfound⟩ := ih hrefs
      obtain ⟨node, hnode⟩ := h.nodeOf href.2
      cases isSubtype with
      | false => exact ⟨found, by simp [AddressSpace.findReference, hisSubtype, hfound]⟩
      | true =>
          by_cases hid : node.id = nodeId
          · exact ⟨some ref, by simp [AddressSpace.findReference, hisSubtype, hnode, hid]⟩
          · exact ⟨found, by simp [AddressSpace.findReference, hisSubtype, hnode, hid, hfound]⟩

/-- A reference that is not found is not there. -/
theorem notMem_of_findReference (hfound : AddressSpace.findReference spaces.heap typeId nodeId refs =
    some none) {type node : NodePtr} (htype : spaces.heap.idOf type = some typeId)
    (hnode : spaces.heap.idOf node = some nodeId) : ⟨type, node⟩ ∉ refs := by
  induction refs with
  | nil => exact List.not_mem_nil
  | cons ref refs ih =>
      obtain ⟨isSubtype, hisSubtype, hfound⟩ := Option.bind_eq_some_iff.mp hfound
      rw [List.mem_cons]
      rintro (rfl | hmem)
      · have hself : spaces.heap.isSubtypeOf type typeId = some true := by
          obtain ⟨typeNode, htypeNode, hid⟩ := Option.map_eq_some_iff.mp htype
          simp [NodeHeap.isSubtypeOf, NodeHeap.isSubtypeOfWalk, htypeNode, hid]
        obtain rfl := Option.some.inj (hself.symm.trans hisSubtype)
        obtain ⟨found, hread, hid⟩ := Option.map_eq_some_iff.mp hnode
        simp [hread, hid] at hfound
      · cases isSubtype with
        | false => exact ih hfound hmem
        | true =>
            obtain ⟨other, -, hfound⟩ := Option.bind_eq_some_iff.mp hfound
            split at hfound
            · cases hfound
            · exact ih hfound hmem

end Sound

namespace GenericNodeFactory

/-- The link is there already, or it can be added. -/
def LinkSafe (factory : GenericNodeFactory) (spaces : Spaces V) (link : Link) : Prop :=
  ∀ source sourceNode, factory.getNode spaces link.sourceId = some source →
    spaces.heap.nodes source = some sourceNode →
    findReference spaces.heap link.typeId link.targetId sourceNode.forwardReferences = some none →
    ∃ target, factory.Finds spaces .referenceType link.typeId ∧
      factory.getNode spaces link.targetId = some target ∧
        spaces.heap.Fits link.typeId source target

/-- **A link that is safe is added.** -/
theorem addLink_returns {link : Link} (hsound : Sound factory spaces edges)
    (hsafe : factory.LinkSafe spaces link) :
    Returns (fun spaces' => ∃ edges', Sound factory spaces' edges') (factory.addLink spaces link) := by
  unfold addLink
  split
  · exact ⟨_, _, rfl, fun _ => ⟨edges, hsound⟩⟩
  · rename_i source hsource
    have hlt := hsound.wellFormed.getNode_lt hsource
    obtain ⟨sourceNode, hsourceNode⟩ := hsound.nodeOf hlt
    obtain ⟨found, hfound⟩ := hsound.findReference link.typeId link.targetId
      (hsound.wellFormed.bounded.references source sourceNode hsourceNode)
    simp only [Option.bind_eq_bind, hsourceNode, Option.bind_some, hfound]
    cases found with
    | some ref => exact returns_good ⟨edges, hsound⟩
    | none =>
        obtain ⟨target, ⟨type, htype⟩, htarget, hfits⟩ :=
          hsafe source sourceNode hsource hsourceNode hfound
        have htypeId := hsound.wellFormed.getNode_idOf (asClass_eq_some.mp htype).1
        have hnew := Sound.notMem_of_findReference hfound htypeId
          (hsound.wellFormed.getNode_idOf htarget)
        have hfresh : ⟨type, source, target⟩ ∉ edges := fun hmem => hnew
          ((hsound.represents.holds.references source sourceNode hsourceNode true _).mpr hmem)
        obtain ⟨spaces', hadd, hsound'⟩ := hsound.addReference_of_fits htypeId hlt
          (hsound.wellFormed.getNode_lt htarget) hfresh hfits
        simp only [addReferenceOfIds, Option.bind_eq_bind, hsource, htarget, htype,
          Option.bind_some, hadd, Option.map_some]
        exact returns_good ⟨_, hsound'⟩

end GenericNodeFactory

/-! ## §2  Runs -/

/-- Each step of the run is safe where it is taken. -/
def SafeAlong {α : Type} (step : Spaces V → α → Option (StatusCode × Spaces V))
    (safe : Spaces V → α → Prop) : List α → Spaces V → Prop
  | [], _ => True
  | a :: as, spaces => safe spaces a ∧
      ∀ spaces', step spaces a = some (.good, spaces') → SafeAlong step safe as spaces'

/-- What safe steps keep, a safe run keeps, and it returns. -/
theorem applyAll_returns {α : Type} {step : Spaces V → α → Option (StatusCode × Spaces V)}
    {safe : Spaces V → α → Prop} {I : Spaces V → Prop} {as : List α}
    (hstep : ∀ a ∈ as, ∀ spaces, I spaces → safe spaces a → Returns I (step spaces a))
    (hsafe : SafeAlong step safe as spaces) (hI : I spaces) :
    Returns I (applyAll step as spaces) := by
  induction as generalizing spaces with
  | nil => exact returns_good hI
  | cons a as ih =>
      obtain ⟨hfirst, hstep⟩ := List.forall_mem_cons.mp hstep
      exact (hfirst spaces hI hsafe.1).andThen fun spaces' hspaces' hI' =>
        ih hstep (hsafe.2 spaces' hspaces') hI'

/-- What looks safe where the run looks at it is safe along the run. -/
def looksSafeAlong {α : Type} (step : Spaces V → α → Option (StatusCode × Spaces V))
    (looksSafe : Spaces V → α → Bool) : List α → Spaces V → Bool
  | [], _ => true
  | a :: as, spaces =>
      looksSafe spaces a && (step spaces a).all fun (_, spaces') =>
        looksSafeAlong step looksSafe as spaces'

theorem SafeAlong.of_looksSafe {α : Type} {step : Spaces V → α → Option (StatusCode × Spaces V)}
    {safe : Spaces V → α → Prop} {looksSafe : Spaces V → α → Bool} {as : List α}
    (hlooks : ∀ spaces a, looksSafe spaces a = true → safe spaces a)
    (h : looksSafeAlong step looksSafe as spaces = true) : SafeAlong step safe as spaces := by
  induction as generalizing spaces with
  | nil => trivial
  | cons a as ih =>
      obtain ⟨hfirst, hrest⟩ := Bool.and_eq_true_iff.mp h
      refine ⟨hlooks spaces a hfirst, fun spaces' hstep => ih ?_⟩
      rw [hstep] at hrest
      exact hrest

namespace GenericNodeFactory

variable [Inhabited V]

/-- Each node that is created and each link that is added is safe. -/
def LoadsSafely (factory : GenericNodeFactory) (fuel : ℕ) (states : List (NodeState V))
    (spaces : Spaces V) : Prop :=
  ∀ sorted, sortNodesHierarchically (promoteHierarchicalParents states) = some sorted →
    SafeAlong (factory.createState fuel)
      (fun spaces state => factory.CreateSafe spaces { state with properties := [] })
        sorted spaces ∧
      ∀ spaces', applyAll (factory.createState fuel) sorted spaces = some (.good, spaces') →
        SafeAlong factory.addLink factory.LinkSafe (sorted.flatMap NodeState.links) spaces'

theorem createState_returns (hsound : Sound factory spaces edges) {state : NodeState V}
    (hchildren : state.children = [])
    (hsafe : factory.CreateSafe spaces { state with properties := [] }) (fuel : ℕ) :
    Returns (fun spaces' => ∃ edges', Sound factory spaces' edges')
      (factory.createState (fuel + 2) spaces state) := by
  unfold createState
  split
  · exact returns_good ⟨edges, hsound⟩
  · have hcleared : ({ state with properties := [] } : NodeState V).children = [] := hchildren
    exact createNode_returns hsound hcleared rfl hsafe fuel

omit [Inhabited V] in
theorem promoteParent_children (states : List (NodeState V)) (state : NodeState V) :
    (promoteParent states state).children = state.children := by
  unfold promoteParent
  split
  · rfl
  · simp only
    split <;> rfl

/-- In a sound space `ApplyNodeStates` returns a status if each step is safe where
it is taken. States that were parsed have no children. -/
theorem applyNodeStates_returns {fuel : ℕ} {states : List (NodeState V)}
    (hsound : Sound factory spaces edges) (hparsed : ∀ state ∈ states, state.children = [])
    (hsafe : factory.LoadsSafely (fuel + 2) states spaces) :
    ∃ status spaces', factory.applyNodeStates (fuel + 2) states spaces = some (status, spaces') ∧
      (status = .good → ∃ edges', Sound factory spaces' edges') := by
  obtain ⟨sorted, hsorted, hperm⟩ :=
    sortNodesHierarchically_perm (promoteHierarchicalParents states)
  have hchildren : ∀ state ∈ sorted, state.children = [] := by
    intro state hstate
    obtain ⟨parsed, hparsed', rfl⟩ := List.mem_map.mp (hperm.mem_iff.mp hstate)
    rw [promoteParent_children]
    exact hparsed parsed hparsed'
  obtain ⟨hcreates, hlinks⟩ := hsafe sorted hsorted
  have hcreated : Returns (fun spaces' => ∃ edges', Sound factory spaces' edges')
      (applyAll (factory.createState (fuel + 2)) sorted spaces) := by
    refine applyAll_returns (fun state hstate spaces hI hsafe => ?_) hcreates ⟨edges, hsound⟩
    obtain ⟨edges, hsound⟩ := hI
    exact createState_returns hsound (hchildren state hstate) hsafe fuel
  have hreturns : Returns (fun spaces' => ∃ edges', Sound factory spaces' edges')
      (andThen (applyAll (factory.createState (fuel + 2)) sorted spaces)
        (applyAll factory.addLink (sorted.flatMap NodeState.links))) := by
    refine hcreated.andThen fun spaces' hspaces' hI => ?_
    refine applyAll_returns (fun link _ spaces hI hsafe => ?_) (hlinks spaces' hspaces') hI
    obtain ⟨edges, hsound⟩ := hI
    exact addLink_returns hsound hsafe
  rw [applyNodeStates, hsorted]
  exact hreturns

end GenericNodeFactory

namespace GenericNodeFactory

/-! ## §3  Spaces of a list of nodes -/

section

variable (nodes : List (Node (NodeData V)))

def edgesOf : Set Edge :=
  {edge | ∃ node ∈ nodes[edge.source]?, ⟨edge.type, edge.target⟩ ∈ node.references true}

/-- The reference goes into the cache. -/
def isCachedOf (node : Node (NodeData V)) (forward : Bool) (ref : Reference) : Bool :=
  nodes[ref.type]?.any fun typeNode => Node.Caches node.nodeClass forward typeNode.id

/-- Each reference has its other half, and the caches are right. -/
def Mirrored : Prop :=
  ∀ ptr < nodes.length, ∀ node ∈ nodes[ptr]?, ∀ forward,
    (node.references forward).Nodup ∧
      (∀ ref ∈ node.references forward, ref.type < nodes.length ∧
        ∃ other ∈ nodes[ref.node]?, ⟨ref.type, ptr⟩ ∈ other.references (!forward)) ∧
      ((node.references forward).filter (isCachedOf nodes node forward)).map Reference.node =
        (node.cache forward).toList

/-- Everything that a sound space has can be looked up in the list. -/
structure Complete : Prop where
  mirrored : Mirrored nodes
  bounded : ∀ node ∈ nodes, ∀ other ∈ node.attributes.dataType, other < nodes.length
  named : ∀ node ∈ nodes, node.id ≠ .null
  typed : ∀ node ∈ nodes, node.nodeClass = .variable ∨ node.nodeClass = .variableType →
    node.attributes.dataType ≠ none
  ends : ∀ ptr < nodes.length,
    (path (spacesOf nodes).heap.supertypeOf nodes.length ptr).isSome = true

end

variable {nodes : List (Node (NodeData V))}

theorem isCached_spacesOf {node : Node (NodeData V)} {forward : Bool} {ref : Reference} :
    (spacesOf nodes).heap.IsCached node forward ref ↔ isCachedOf nodes node forward ref = true := by
  unfold NodeHeap.IsCached isCachedOf NodeHeap.idOf spacesOf
  cases htype : nodes[ref.type]? with
  | none => simp [htype]
  | some typeNode => simp [htype]

theorem Mirrored.mem_halvesOf (h : Mirrored nodes) {ptr : NodePtr} {node : Node (NodeData V)}
    (hnode : nodes[ptr]? = some node) (forward : Bool) (ref : Reference) :
    ref ∈ node.references forward ↔ ⟨ptr, forward, ref⟩ ∈ NodeHeap.halvesOf (edgesOf nodes) := by
  cases forward with
  | true =>
      constructor
      · exact fun href => ⟨node, hnode, href⟩
      · rintro ⟨node', hnode', href⟩
        obtain rfl := Option.some.inj (hnode.symm.trans hnode')
        exact href
  | false =>
      have hlt : ptr < nodes.length := (List.getElem?_eq_some_iff.mp hnode).1
      constructor
      · intro href
        obtain ⟨-, other, hother, hmirror⟩ := (h ptr hlt node hnode false).2.1 ref href
        exact ⟨other, hother, hmirror⟩
      · rintro ⟨other, hother, href⟩
        have hother' : nodes[ref.node]? = some other := hother
        obtain ⟨-, node', hnode', hmirror⟩ := (h ref.node
          (List.getElem?_eq_some_iff.mp hother').1 other hother true).2.1 ⟨ref.type, ptr⟩ href
        obtain rfl := Option.some.inj (hnode.symm.trans hnode')
        exact hmirror

theorem Mirrored.represents (h : Mirrored nodes) :
    (spacesOf nodes).heap.Represents (edgesOf nodes) := by
  have hlt : ∀ (ptr : NodePtr) node, nodes[ptr]? = some node → ptr < nodes.length :=
    fun _ _ hnode => (List.getElem?_eq_some_iff.mp hnode).1
  have hcached : ∀ (ptr : NodePtr) node, nodes[ptr]? = some node → ∀ forward other,
      node.cache forward = some other ↔ ∃ ref ∈ node.references forward,
        isCachedOf nodes node forward ref = true ∧ ref.node = other := by
    intro ptr node hnode forward other
    have hlist := (h ptr (hlt ptr node hnode) node hnode forward).2.2
    have hmem : other ∈ (node.cache forward).toList ↔ node.cache forward = some other :=
      Option.mem_toList
    rw [← hmem, ← hlist]
    simp [and_assoc]
  constructor
  case holds =>
    constructor
    case nodup => exact fun ptr node hnode forward => (h ptr (hlt ptr node hnode) node hnode forward).1
    case references => exact fun ptr node hnode forward ref => h.mem_halvesOf hnode forward ref
    case alive =>
      rintro ⟨ptr, forward, ref⟩ ⟨node, hnode, href⟩
      rw [NodeHeap.alive_iff]
      have hnode' : nodes[(HalfEdge.edge ⟨ptr, forward, ref⟩).source]? = some node := hnode
      cases forward with
      | true => exact ⟨node, hnode'⟩
      | false =>
          obtain ⟨-, other, hother, -⟩ := (h _ (hlt _ _ hnode') node hnode' true).2.1 _ href
          exact ⟨other, hother⟩
    case cache =>
      intro ptr node hnode forward other
      rw [hcached ptr node hnode forward other]
      constructor
      · rintro ⟨ref, href, hisCached, rfl⟩
        exact ⟨ref.type, (h.mem_halvesOf hnode forward ref).mp href, isCached_spacesOf.mpr hisCached⟩
      · rintro ⟨type, hhalf, hisCached⟩
        exact ⟨⟨type, other⟩, (h.mem_halvesOf hnode forward _).mpr hhalf,
          isCached_spacesOf.mp hisCached, rfl⟩
    case cachedOnce =>
      intro ptr node hnode forward ref ref' hhalf hhalf' hisCached hisCached'
      have hlist := (h ptr (hlt ptr node hnode) node hnode forward).2.2
      have hmem : ∀ r, ⟨ptr, forward, r⟩ ∈ NodeHeap.halvesOf (edgesOf nodes) →
          (spacesOf nodes).heap.IsCached node forward r →
            r ∈ (node.references forward).filter (isCachedOf nodes node forward) :=
        fun r hhalf hisCached => List.mem_filter.mpr
          ⟨(h.mem_halvesOf hnode forward r).mpr hhalf, isCached_spacesOf.mp hisCached⟩
      have href := hmem ref hhalf hisCached
      have href' := hmem ref' hhalf' hisCached'
      cases hcache : node.cache forward with
      | none =>
          rw [hcache, Option.toList_none, List.map_eq_nil_iff] at hlist
          rw [hlist] at href
          cases href
      | some other =>
          rw [hcache, Option.toList_some, List.map_eq_singleton_iff] at hlist
          obtain ⟨only, hlist, -⟩ := hlist
          rw [hlist, List.mem_singleton] at href href'
          rw [href, href']
  case alive =>
    rintro edge ⟨node, hnode, href⟩
    have hnode' : nodes[edge.source]? = some node := hnode
    have htype := ((h _ (hlt _ _ hnode') node hnode' true).2.1 _ href).1
    exact NodeHeap.alive_iff.mpr ⟨_, List.getElem?_eq_getElem htype⟩
  case bounded =>
    intro ptr hptr
    obtain ⟨node, hnode⟩ := NodeHeap.alive_iff.mp hptr
    exact hlt ptr node hnode

/-- The list is a sound space, if the types that the factory needs are in it. -/
theorem Complete.sound (h : Complete nodes)
    (hdefinition : factory.Finds (spacesOf nodes) .referenceType StandardId.hasTypeDefinition)
    (hsubtype : factory.Finds (spacesOf nodes) .referenceType StandardId.hasSubtype) :
    Sound factory (spacesOf nodes) (edgesOf nodes) := by
  have hends : ∀ ptr < nodes.length, Ends (spacesOf nodes).heap.supertypeOf ptr := by
    intro ptr hptr
    obtain ⟨ptrs, hptrs⟩ := Option.isSome_iff_exists.mp (h.ends ptr hptr)
    exact ⟨nodes.length, ptrs, hptrs⟩
  have hlt : ∀ (ptr : NodePtr) node, nodes[ptr]? = some node → ptr < nodes.length :=
    fun _ _ hnode => (List.getElem?_eq_some_iff.mp hnode).1
  constructor
  case wellFormed =>
    refine wellFormed_spacesOf fun node hmem => ?_
    obtain ⟨ptr, hnode⟩ := List.mem_iff_getElem?.mp hmem
    refine ⟨fun other hother => ?_, fun ref href => ?_, h.bounded node hmem⟩
    · obtain ⟨type, hhalf, -⟩ :=
        (h.mirrored.represents.holds.cache ptr node hnode false other).mp hother
      exact (h.mirrored.represents.edge_lt hhalf).2.1
    · have hhalf := (h.mirrored.mem_halvesOf hnode true ref).mp href
      have hedge := h.mirrored.represents.edge_lt hhalf
      exact ⟨hedge.1, hedge.2.2⟩
  case represents => exact h.mirrored.represents
  case alive => exact fun ptr hptr => ⟨_, List.getElem?_eq_getElem hptr⟩
  case named => exact fun ptr node hnode => h.named node (List.mem_of_getElem? hnode)
  case typed => exact fun ptr node hnode => h.typed node (List.mem_of_getElem? hnode)
  case ends => exact hends
  case hasTypeDefinition => exact hdefinition
  case hasSubtype => exact hsubtype

/-! ## §4  Links that stop the process -/

/-- The reference types that every standard address space has. -/
def standardTypes : List (Node (NodeData ℕ)) := [
  { id := StandardId.references, nodeClass := .referenceType, attributes := { value := 0 },
    forwardReferences := [⟨2, 1⟩, ⟨2, 3⟩] },
  { id := StandardId.hierarchicalReferences, nodeClass := .referenceType,
    attributes := { value := 0 }, forwardReferences := [⟨2, 2⟩],
    inverseReferences := [⟨2, 0⟩], supertype := some 0 },
  { id := StandardId.hasSubtype, nodeClass := .referenceType, attributes := { value := 0 },
    inverseReferences := [⟨2, 1⟩], supertype := some 1 },
  { id := StandardId.nonHierarchicalReferences, nodeClass := .referenceType,
    attributes := { value := 0 }, forwardReferences := [⟨2, 4⟩],
    inverseReferences := [⟨2, 0⟩], supertype := some 0 },
  { id := StandardId.hasTypeDefinition, nodeClass := .referenceType, attributes := { value := 0 },
    inverseReferences := [⟨2, 3⟩], supertype := some 3 }]

theorem sound_standardTypes :
    Sound rootFactory (spacesOf standardTypes) (edgesOf standardTypes) := by
  have hcomplete : Complete standardTypes := by
    constructor
    case mirrored => unfold Mirrored; decide
    all_goals decide
  exact hcomplete.sound ⟨4, by decide⟩ ⟨2, by decide⟩

/-- More about a reference type that is there already. -/
def typeState (nodeId supertypeId : NodeId) (references : List ReferenceDescription) :
    NodeState ℕ where
  nodeId := nodeId
  nodeClass := .referenceType
  references := references
  supertypeId := supertypeId

/-- Types without a type definition and a parent can always be created. -/
theorem createSafe_of_root [Inhabited V] {state : NodeState V} (hsound : Sound factory spaces edges)
    (htype : state.typeDefinitionId = .null) (hparent : state.parentId = .null) :
    factory.CreateSafe spaces state := by
  have hnull := hsound.getNode_null
  have hnone : factory.typeDefinition spaces state = none := by
    rw [typeDefinition, htype, hnull]
    rfl
  intro hok declared hnew
  rw [NewProperties, hnone] at hnew
  have hempty : declared = [] := hnew
  subst hempty
  have hid : state.nodeId ≠ .null := by
    intro hid
    exact hok ⟨.badWrongNodeId, by rw [validate, if_pos hid]⟩
  refine ⟨fun h => absurd rfl h, fun _ => ⟨?_, ?_, ?_⟩⟩
  · intro parent parentNode hfound
    rw [hparent, hnull] at hfound
    cases hfound
  · exact fun heq => absurd (heq.symm.trans hparent) hid
  · exact fun hmem => absurd hmem List.not_mem_nil

/-- So can a list of such types. -/
theorem safeAlong_createState_of_root [Inhabited V] {states : List (NodeState V)}
    (hroot : ∀ state ∈ states, state.typeDefinitionId = .null ∧ state.parentId = .null ∧
      state.children = []) (hsound : Sound factory spaces edges) (fuel : ℕ) :
    SafeAlong (factory.createState (fuel + 2))
      (fun spaces state => factory.CreateSafe spaces { state with properties := [] })
      states spaces := by
  induction states generalizing spaces edges with
  | nil => trivial
  | cons state states ih =>
      obtain ⟨⟨htype, hparent, hchildren⟩, hroot⟩ := List.forall_mem_cons.mp hroot
      have hsafe : factory.CreateSafe spaces { state with properties := [] } :=
        createSafe_of_root hsound htype hparent
      refine ⟨hsafe, fun spaces' hstep => ?_⟩
      obtain ⟨status, created, hcreated, hgood⟩ := createState_returns hsound hchildren hsafe fuel
      rw [hcreated] at hstep
      cases hstep
      obtain ⟨edges', hsound'⟩ := hgood rfl
      exact ih hroot hsound'

instance {A : Type} (node other : Node A) (forward : Bool) (typeId : NodeId) :
    Decidable (NodeHeap.HasRoom node other forward typeId) :=
  inferInstanceAs (Decidable (_ → _))

/-- Both nodes and the reference type of the link are found, and there is room for it. -/
def linkLooksSafe (factory : GenericNodeFactory) (spaces : Spaces V) (link : Link) : Bool :=
  (factory.getNode spaces link.sourceId).any fun source =>
    (factory.getNode spaces link.targetId).any fun target =>
      (asClass spaces .referenceType (factory.getNode spaces link.typeId)).isSome &&
        ((spaces.heap.nodes source).all fun sourceNode =>
          (spaces.heap.nodes target).all fun targetNode =>
            decide (NodeHeap.HasRoom sourceNode targetNode true link.typeId ∧
              NodeHeap.HasRoom targetNode sourceNode false link.typeId)) &&
        decide (spaces.heap.idOf target = some link.targetId) &&
        decide (link.typeId = StandardId.hasSubtype →
          spaces.heap.isSubtypeOf source link.targetId = some false)

theorem linkSafe_of_looksSafe {link : Link} (h : factory.linkLooksSafe spaces link = true) :
    factory.LinkSafe spaces link := by
  obtain ⟨source, hsource, h⟩ := (Option.any_eq_true _ _).mp h
  obtain ⟨target, htarget, h⟩ := (Option.any_eq_true _ _).mp h
  simp only [Bool.and_eq_true, decide_eq_true_eq, Option.all_eq_true] at h
  obtain ⟨⟨⟨htype, hroom⟩, hid⟩, hbelow⟩ := h
  intro source' sourceNode hsource' _ _
  obtain rfl := Option.some.inj (hsource.symm.trans hsource')
  refine ⟨target, Option.isSome_iff_exists.mp htype, htarget, ?_, ?_⟩
  · exact fun sourceNode targetNode hsourceNode htargetNode =>
      hroom sourceNode hsourceNode targetNode htargetNode
  · exact fun heq _ => NodeHeap.path_of_isSubtypeOf hid (hbelow heq)

/-- A type of references below a standard one, and one below that which refers to
another type by it. -/
def subtypeStates : List (NodeState ℕ) := [
  typeState (.numeric 1 7) StandardId.nonHierarchicalReferences [],
  typeState (.numeric 2 7) (.numeric 1 7) [⟨.numeric 1 7, true, StandardId.references⟩]]

theorem applyNodeStates_returns_subtype : ∃ status spaces',
    rootFactory.applyNodeStates 2 subtypeStates (spacesOf standardTypes) =
        some (status, spaces') ∧
      (status = .good → ∃ edges', Sound rootFactory spaces' edges') := by
  have hroot : ∀ state ∈ subtypeStates, state.typeDefinitionId = .null ∧
      state.parentId = .null ∧ state.children = [] := by
    simp [subtypeStates, typeState]
  refine applyNodeStates_returns sound_standardTypes (fun state h => (hroot state h).2.2) ?_
  intro sorted hsorted
  have hsame : sorted = subtypeStates := by
    cases hsorted
    rfl
  subst hsame
  refine ⟨safeAlong_createState_of_root hroot sound_standardTypes 0, fun spaces' hspaces' => ?_⟩
  refine SafeAlong.of_looksSafe (fun _ _ => linkSafe_of_looksSafe) ?_
  have hrun : ((applyAll (rootFactory.createState 2) subtypeStates (spacesOf standardTypes)).all
      fun result => looksSafeAlong rootFactory.addLink rootFactory.linkLooksSafe
        (subtypeStates.flatMap NodeState.links) result.2) = true := by
    decide +kernel
  rw [hspaces'] at hrun
  exact hrun

/-- An unknown reference type, a target that is missing and a second supertype stop
the process, and a cycle of supertypes is walked along for ever. -/
theorem loading_stops : Sound rootFactory (spacesOf standardTypes) (edgesOf standardTypes) ∧
    ∀ fuel,
      rootFactory.applyNodeStates fuel
          [typeState StandardId.hasSubtype .null [⟨.numeric 1 7, true, StandardId.references⟩]]
          (spacesOf standardTypes) = none ∧
        rootFactory.applyNodeStates fuel
          [typeState StandardId.hasSubtype .null [⟨StandardId.references, true, .numeric 1 7⟩]]
          (spacesOf standardTypes) = none ∧
        rootFactory.applyNodeStates fuel
          [typeState StandardId.hasSubtype StandardId.references []]
          (spacesOf standardTypes) = none ∧
        rootFactory.applyNodeStates fuel
          [typeState StandardId.references StandardId.hasSubtype
            [⟨StandardId.nonHierarchicalReferences, true, StandardId.hasTypeDefinition⟩]]
          (spacesOf standardTypes) = none := by
  refine ⟨sound_standardTypes, fun fuel => ⟨?_, ?_, ?_, ?_⟩⟩
  · rfl
  · rfl
  · rfl
  · rfl

end GenericNodeFactory

end ScadaCommon.AddressSpace
