import ScadaCommon.AddressSpace.NestedNodes
import ScadaCommon.AddressSpace.SafeCreation
import ScadaCommon.AddressSpace.SpaceView

/-!
# Reading attributes

`Read` looks a node up and reads one of its attributes. A node without a browse name of its
own is named after its id, and an id of bytes gives it no name.

§1 reading · §2 spaces that the factory builds · §3 the lookup · §4 reads that return.
-/

namespace ScadaCommon.AddressSpace

open Foundation GenericNodeFactory

variable {V : Type}

/-! ## §1  Reading -/

inductive AttributeId where
  | nodeClass
  | browseName
  | displayName
  | userRolePermissions
  | rolePermissions
  | dataType
  | value
  | valueRank
  | accessLevel
  | userAccessLevel
  | historizing
  | minimumSamplingInterval
  | inverseName
  | executable
  | userExecutable
  | other (id : ℕ)
deriving DecidableEq

/-- What the core library makes of the rights of the caller; `R` stands for role
permissions of a node and `P` for permissions as they are sent. -/
structure ServiceContext (R P : Type) where
  userRolePermissions : Option R → P
  rolePermissions : Option R → P
  /-- `IsPermitted` for `kReadRolePermissions` and `kCall`. -/
  readsRolePermissions : Bool
  calls : Bool
  userAccessLevel : ℕ → ℕ
  now : DateTime

inductive AttributeValue (V P : Type) where
  | nodeClass (nodeClass : NodeClass)
  | browseName (browseName : QualifiedName)
  | text (text : String)
  | permissions (permissions : P)
  | nodeId (nodeId : NodeId)
  | variant (value : V)
  | int32 (value : ℤ)
  | uint8 (value : ℕ)
  | bool (value : Bool)
  | double (value : ℤ)
deriving DecidableEq

inductive ReadError where
  | badWrongNodeId
  | badWrongAttributeId
  | badUserAccessDenied
deriving DecidableEq

inductive ReadResult (V P : Type) where
  /-- `MakeReadResult`. -/
  | value (value : AttributeValue V P) (time : DateTime)
  /-- The value of a variable, as it was set. -/
  | stored (value : V)
  | error (error : ReadError) (time : DateTime)
deriving DecidableEq

/-- `CurrentRead`. -/
def kCurrentRead : ℕ := 1

variable {R P : Type}

namespace GenericNodeFactory

variable (factory : GenericNodeFactory) (context : ServiceContext R P)

/-- The attributes of a variable. -/
def readVariable (spaces : Spaces V) (node : Node (NodeData V)) :
    AttributeId → Option (ReadResult V P)
  | .dataType => do
      let dataType ← spaces.heap.nodes (← node.attributes.dataType)
      return .value (.nodeId dataType.id) context.now
  | .value => some (.stored node.attributes.value)
  | .valueRank => some (.value (.int32 (-1)) context.now)
  | .accessLevel => some (.value (.uint8 kCurrentRead) context.now)
  | .userAccessLevel => some (.value (.uint8 (context.userAccessLevel kCurrentRead)) context.now)
  | .historizing => some (.value (.bool false) context.now)
  | .minimumSamplingInterval => some (.value (.double 0) context.now)
  | _ => some (.error .badWrongAttributeId context.now)

def readVariableType (spaces : Spaces V) (node : Node (NodeData V)) :
    AttributeId → Option (ReadResult V P)
  | .dataType => do
      let dataType ← spaces.heap.nodes (← node.attributes.dataType)
      return .value (.nodeId dataType.id) context.now
  | .value => some (.value (.variant node.attributes.value) context.now)
  | _ => some (.error .badWrongAttributeId context.now)

def readReferenceType (node : Node (NodeData V)) : AttributeId → ReadResult V P
  | .inverseName =>
      -- A symmetric type has no inverse name.
      if node.attributes.inverseName = "" then .error .badWrongAttributeId context.now
      else .value (.text node.attributes.inverseName) context.now
  | _ => .error .badWrongAttributeId context.now

def readMethod : AttributeId → ReadResult V P
  | .executable => .value (.bool true) context.now
  | .userExecutable => .value (.bool context.calls) context.now
  | _ => .error .badWrongAttributeId context.now

/-- The attributes that only nodes of some class have. -/
def readClassAttribute (spaces : Spaces V) (node : Node (NodeData V)) (attributeId : AttributeId) :
    Option (ReadResult V P) :=
  match node.nodeClass with
  | .variable => readVariable context spaces node attributeId
  | .variableType => readVariableType context spaces node attributeId
  | .referenceType => some (readReferenceType context node attributeId)
  | .method => some (readMethod context attributeId)
  | .object | .objectType | .dataType | .view => some (.error .badWrongAttributeId context.now)

/-- `ReadNode`, with the role permissions that the node has of its own. -/
def readNode (spaces : Spaces V) (permissions : Option R) (node : Node (NodeData V)) :
    AttributeId → Option (ReadResult V P)
  | .nodeClass => some (.value (.nodeClass node.nodeClass) context.now)
  | .browseName => do
      let browseName ← factory.getBrowseName node
      check (browseName.name ≠ "")
      return .value (.browseName browseName) context.now
  | .displayName => do
      return .value (.text (← factory.getDisplayName node)) context.now
  | .userRolePermissions =>
      some (.value (.permissions (context.userRolePermissions permissions)) context.now)
  | .rolePermissions =>
      if context.readsRolePermissions then
        some (.value (.permissions (context.rolePermissions permissions)) context.now)
      else some (.error .badUserAccessDenied context.now)
  | attributeId => readClassAttribute context spaces node attributeId

/-- `SyncAttributeServiceImpl::Read` for one node. Nothing is returned when the process
stops or runs for ever. -/
def read (parse : Parsing) (spaces : Spaces V) (permissions : NodePtr → Option R)
    (nodeId : NodeId) (attributeId : AttributeId) : Option (ReadResult V P) := do
  match ← factory.getMutableNestedNode parse spaces nodeId with
  | none => return .error .badWrongNodeId context.now
  | some (ptr, nestedName) =>
      if nestedName = "" then
        let node ← spaces.heap.nodes ptr
        factory.readNode context spaces (permissions ptr) node attributeId
      else return .error .badWrongNodeId context.now

/-! ## §2  Spaces that the factory builds -/

def emptySpaces : Spaces V where
  heap := { nodes := fun _ => none, next := 0 }
  nodeMap _ := none
  staticNodes _ := false

/-- The spaces that calls of `CreateNode` build which all succeed. -/
inductive Built [Inhabited V] (factory : GenericNodeFactory) : Spaces V → Prop
  | empty : Built factory emptySpaces
  | createNode {fuel : ℕ} {spaces spaces' : Spaces V} {state : NodeState V} :
      Built factory spaces → factory.createNode fuel spaces state = some (.good, spaces') →
        Built factory spaces'

/-- A reference of the node leads to the pointer, or it is of the data type. -/
def PointsAt (node : Node (NodeData V)) (ptr : NodePtr) : Prop :=
  (∃ ref ∈ node.forwardReferences, ref.node = ptr) ∨ node.attributes.dataType = some ptr

/-- What is read of the nodes is there. -/
structure Readable (factory : GenericNodeFactory) (spaces : Spaces V) : Prop where
  wellFormed : WellFormed spaces
  alive : ∀ ptr node, spaces.heap.nodes ptr = some node → ∀ other, PointsAt node other →
    ∃ target, spaces.heap.nodes other = some target
  named : ∀ ptr node, spaces.heap.nodes ptr = some node → node.id ≠ .null
  typed : ∀ ptr node, spaces.heap.nodes ptr = some node →
    node.nodeClass = .variable ∨ node.nodeClass = .variableType → node.attributes.dataType ≠ none
  indexed : factory.Indexed spaces

variable {factory : GenericNodeFactory} {spaces spaces' : Spaces V}

theorem readable_empty : factory.Readable (emptySpaces : Spaces V) where
  wellFormed := by
    constructor
    case bounded => constructor <;> simp [emptySpaces]
    case mapped => simp [emptySpaces]
  alive _ _ h := by cases h
  named _ _ h := by cases h
  typed _ _ h := by cases h
  indexed _ _ h := by cases h

theorem readable_spacesOf {nodes : List (Node (NodeData V))} (hspace : factory.space = 0)
    (hwell : WellFormed (spacesOf nodes)) (hids : (nodes.map Node.id).Nodup)
    (hnamed : ∀ node ∈ nodes, node.id ≠ .null)
    (htyped : ∀ node ∈ nodes, node.nodeClass = .variable ∨ node.nodeClass = .variableType →
      node.attributes.dataType ≠ none) : factory.Readable (spacesOf nodes) where
  wellFormed := hwell
  alive := by
    rintro ptr node hnode other (⟨ref, href, rfl⟩ | hdataType)
    · exact ⟨_, List.getElem?_eq_getElem (hwell.bounded.references ptr node hnode ref href).2⟩
    · exact ⟨_, List.getElem?_eq_getElem (hwell.bounded.dataType ptr node hnode other hdataType)⟩
  named _ _ hnode := hnamed _ (List.mem_of_getElem? hnode)
  typed _ _ hnode := htyped _ (List.mem_of_getElem? hnode)
  indexed := indexed_spacesOf hspace hids

theorem readable_addNode {id : NodeId} {nodeClass : NodeClass} {data : NodeData V} {owned : Bool}
    (h : factory.Readable spaces)
    (hadd : spaces.addNode (factory.space :: factory.parents) factory.space id nodeClass data owned =
      some spaces')
    (halive : ∀ other, data.dataType = some other → ∃ target, spaces.heap.nodes other = some target)
    (htyped : nodeClass = .variable ∨ nodeClass = .variableType → data.dataType ≠ none) :
    factory.Readable spaces' := by
  obtain ⟨hid, -, -, hheap, -⟩ := AddressSpaces.addNode_eq_some hadd
  have hnodes : ∀ ptr, spaces'.heap.nodes ptr =
      if ptr = spaces.heap.next then some { id, nodeClass, attributes := data }
      else spaces.heap.nodes ptr := by
    intro ptr
    rw [hheap]
    simp [NodeHeap.allocate, Function.update_apply]
  have hkept : ∀ ptr node, spaces.heap.nodes ptr = some node →
      spaces'.heap.nodes ptr = some node := by
    intro ptr node hnode
    rw [hnodes, if_neg (h.wellFormed.bounded.allocated ptr node hnode).ne]
    exact hnode
  constructor
  case wellFormed =>
    refine h.wellFormed.addNode hadd fun other hother => ?_
    obtain ⟨target, htarget⟩ := halive other hother
    exact h.wellFormed.bounded.allocated other target htarget
  case alive =>
    intro ptr node hnode other hother
    obtain ⟨target, htarget⟩ : ∃ target, spaces.heap.nodes other = some target := by
      rw [hnodes] at hnode
      split at hnode
      · cases hnode
        rcases hother with ⟨ref, href, -⟩ | hdataType
        · cases href
        · exact halive other hdataType
      · exact h.alive ptr node hnode other hother
    exact ⟨target, hkept other target htarget⟩
  case named =>
    intro ptr node hnode
    rw [hnodes] at hnode
    split at hnode
    · cases hnode
      exact hid
    · exact h.named ptr node hnode
  case typed =>
    intro ptr node hnode
    rw [hnodes] at hnode
    split at hnode
    · cases hnode
      exact htyped
    · exact h.typed ptr node hnode
  case indexed => exact h.indexed.addNode hadd

theorem readable_addReference {type source target : NodePtr} (h : factory.Readable spaces)
    (hadd : spaces.addReference type source target = some spaces') : factory.Readable spaces' := by
  have hwell := h.wellFormed.addReference hadd
  have hindexed := h.indexed.addReference hadd
  obtain ⟨heap, hheap, rfl⟩ := AddressSpaces.addReference_eq_some hadd
  have hsame := NodeHeap.addReference_sameObjects hheap
  constructor
  case wellFormed => exact hwell
  case alive =>
    intro ptr node hnode other hother
    obtain ⟨target, htarget⟩ : ∃ target, spaces.heap.nodes other = some target := by
      obtain ⟨old, hold, hobject⟩ := hsame.symm.nodes hnode
      rcases hother with ⟨ref, href, rfl⟩ | hdataType
      · rcases NodeHeap.forwardReferences_of_addReference hheap hnode href with
          ⟨before, hbefore, hmem⟩ | htarget
        · exact h.alive ptr before hbefore ref.node (.inl ⟨ref, hmem, rfl⟩)
        · exact htarget
      · exact h.alive ptr old hold other (.inr (hobject.attributes ▸ hdataType))
    obtain ⟨target', htarget', -⟩ := hsame.nodes htarget
    exact ⟨target', htarget'⟩
  case named =>
    intro ptr node hnode
    obtain ⟨old, hold, hobject⟩ := hsame.symm.nodes hnode
    exact hobject.id ▸ h.named ptr old hold
  case typed =>
    intro ptr node hnode hclass
    obtain ⟨old, hold, hobject⟩ := hsame.symm.nodes hnode
    rw [← hobject.attributes]
    rw [← hobject.nodeClass] at hclass
    exact h.typed ptr old hold hclass
  case indexed => exact hindexed

/-- Other attributes of a node, of the same type. -/
theorem readable_setAttributes {child : NodePtr} {old : Node (NodeData V)} {data : NodeData V}
    (h : factory.Readable spaces) (hold : spaces.heap.nodes child = some old)
    (hdata : data.dataType = old.attributes.dataType) :
    factory.Readable { spaces with
      heap := spaces.heap.set child (some { old with attributes := data }) } := by
  have hcases : ∀ ptr node, (spaces.heap.set child (some { old with attributes := data })).nodes
      ptr = some node → ∃ before, spaces.heap.nodes ptr = some before ∧ node.id = before.id ∧
        node.nodeClass = before.nodeClass ∧ (∀ other, PointsAt node other → PointsAt before other) ∧
          node.attributes.dataType = before.attributes.dataType := by
    intro ptr node hnode
    rw [NodeHeap.nodes_set] at hnode
    split at hnode
    · rename_i heq
      cases hnode
      exact ⟨old, heq ▸ hold, rfl, rfl, fun _ => Or.imp_right hdata.symm.trans, hdata⟩
    · exact ⟨node, hnode, rfl, rfl, fun _ => id, rfl⟩
  constructor
  case wellFormed => exact wellFormed_setAttributes h.wellFormed hold hdata
  case alive =>
    intro ptr node hnode other hother
    obtain ⟨before, hbefore, -, -, hpoints, -⟩ := hcases ptr node hnode
    obtain ⟨target, htarget⟩ := h.alive ptr before hbefore other (hpoints other hother)
    rw [NodeHeap.nodes_set]
    split
    · exact ⟨_, rfl⟩
    · exact ⟨target, htarget⟩
  case named =>
    intro ptr node hnode
    obtain ⟨before, hbefore, hid, -⟩ := hcases ptr node hnode
    exact hid ▸ h.named ptr before hbefore
  case typed =>
    intro ptr node hnode hclass
    obtain ⟨before, hbefore, -, hsameClass, -, hdataType⟩ := hcases ptr node hnode
    rw [hdataType]
    exact h.typed ptr before hbefore (hsameClass ▸ hclass)
  case indexed =>
    intro ptr id hptr
    obtain ⟨node, hnode, rfl⟩ := Option.map_eq_some_iff.mp hptr
    obtain ⟨before, hbefore, hid, -⟩ := hcases ptr node hnode
    exact h.indexed ptr node.id (by rw [NodeHeap.idOf, hbefore, Option.map_some, hid])

theorem alive_of_asClass {nodeClass : NodeClass} {node : Option NodePtr} {ptr : NodePtr}
    (h : asClass spaces nodeClass node = some ptr) :
    ∃ target, spaces.heap.nodes ptr = some target := by
  obtain ⟨target, htarget, -⟩ := Option.map_eq_some_iff.mp (asClass_eq_some.mp h).2
  exact ⟨target, htarget⟩

theorem alive_of_dataType {state : NodeState V} {ptr : NodePtr}
    (h : factory.dataType spaces state = .ok (some ptr)) :
    ∃ target, spaces.heap.nodes ptr = some target := by
  unfold dataType at h
  split at h
  · rename_i hdataType
    cases h
    exact alive_of_asClass hdataType
  · cases h

section

variable [Inhabited V]

/-- The data type of a state that passes the checks is there. -/
theorem Readable.validate_dataType {state : NodeState V} {parentId : NodeId} {data : NodeData V}
    (h : factory.Readable spaces) (hvalidate : factory.validate spaces state parentId = .ok data)
    (other : NodePtr) (hother : data.dataType = some other) :
    ∃ target, spaces.heap.nodes other = some target := by
  have hdataType := (validate_eq_ok hvalidate).2
  rw [hother] at hdataType
  unfold dataTypeOf at hdataType
  split at hdataType
  · split at hdataType <;> cases hdataType
  · split at hdataType
    · rename_i type htype
      split at hdataType
      · -- It is that of the type definition.
        obtain ⟨typeData, htypeData, hptr⟩ := Option.bind_eq_some_iff.mp (Except.ok.inj hdataType)
        obtain ⟨node, hnode, rfl⟩ := Option.map_eq_some_iff.mp htypeData
        exact h.alive type node hnode other (.inr hptr)
      · exact alive_of_dataType hdataType
    · cases hdataType
  · exact alive_of_dataType hdataType
  all_goals cases hdataType

theorem readable_holdsOfChanges : factory.HoldsOfChanges
    fun spaces spaces' : Spaces V => factory.Readable spaces → factory.Readable spaces' where
  refl _ h := h
  trans _ _ _ h h' hreadable := h' (h hreadable)
  addNode _ _ _ _ _ hvalidate hadd h :=
    readable_addNode h hadd (h.validate_dataType hvalidate)
      (validate_typed h.typed hvalidate)
  addReference _ _ _ _ _ hadd h := readable_addReference h hadd
  setPropertyValue _ _ _ _ hset h := by
    obtain ⟨child, old, data, hold, hdata, rfl⟩ := setPropertyValue_eq_some hset
    exact readable_setAttributes h hold hdata

/-- **Spaces that were built can be read.** -/
theorem Built.readable (h : Built factory spaces) : factory.Readable spaces := by
  induction h with
  | empty => exact readable_empty
  | createNode _ hcreate ih => exact readable_holdsOfChanges.createNodeHelper hcreate ih

end

/-! ## §3  The lookup -/

/-- The reference leads to a child with the name. -/
def IsChild (factory : GenericNodeFactory) (spaces : Spaces V) (name : String) (ref : Reference) :
    Prop :=
  spaces.heap.isSubtypeOf ref.type StandardId.hierarchicalReferences = some true ∧
    ∃ child browseName, spaces.heap.nodes ref.node = some child ∧
      factory.getBrowseName child = some browseName ∧ browseName.name = name

/-- The supertypes end of each reference type that the search for the child meets. -/
def SearchEnds (factory : GenericNodeFactory) (spaces : Spaces V) (name : String) :
    List Reference → Prop
  | [] => True
  | ref :: refs =>
      Ends (spaces.heap.supertypeStep StandardId.hierarchicalReferences) ref.type ∧
        (¬ factory.IsChild spaces name ref → SearchEnds factory spaces name refs)

/-- The same for a nested id that no node is stored under. -/
def LookupEnds (parse : Parsing) (factory : GenericNodeFactory) (spaces : Spaces V)
    (nodeId : NodeId) : Prop :=
  factory.getNode spaces nodeId = none → ∀ parentId name parent parentNode,
    isNestedNodeId parse nodeId = some (parentId, name) →
      factory.getNode spaces parentId = some parent →
        spaces.heap.nodes parent = some parentNode →
          factory.SearchEnds spaces name parentNode.forwardReferences

/-- A walk that may stop early ends where the whole one does. -/
theorem ends_supertypeStep {heap : NodeHeap (NodeData V)} {ptr : NodePtr} (typeId : NodeId)
    (h : Ends heap.supertypeOf ptr) : Ends (heap.supertypeStep typeId) ptr := by
  obtain ⟨fuel, ptrs, hptrs⟩ := h
  induction fuel generalizing ptr ptrs with
  | zero => cases hptrs
  | succ fuel ih =>
      have hstop : ∀ node, heap.nodes ptr = some node → node.id = typeId →
          Ends (heap.supertypeStep typeId) ptr := fun node hnode hid =>
        ⟨1, [ptr], path_of_end (by simp [NodeHeap.supertypeStep, hnode, hid])⟩
      rcases path_cases hptrs with ⟨hend, -⟩ | ⟨next, rest, hstep, hrest, -⟩
      · obtain ⟨node, hnode, hsupertype⟩ := Option.map_eq_some_iff.mp hend
        exact ⟨1, [ptr], path_of_end (by simp [NodeHeap.supertypeStep, hnode, hsupertype])⟩
      · obtain ⟨node, hnode, hsupertype⟩ := Option.map_eq_some_iff.mp hstep
        by_cases hid : node.id = typeId
        · exact hstop node hnode hid
        · refine ends_of_step ?_ (ih rest hrest)
          simp [NodeHeap.supertypeStep, hnode, hid, hsupertype]

theorem searchEnds_of_ends {name : String} {refs : List Reference}
    (h : ∀ ref ∈ refs,
      Ends (spaces.heap.supertypeStep StandardId.hierarchicalReferences) ref.type) :
    factory.SearchEnds spaces name refs := by
  induction refs with
  | nil => trivial
  | cons ref refs ih =>
      obtain ⟨href, hrefs⟩ := List.forall_mem_cons.mp h
      exact ⟨href, fun _ => ih hrefs⟩

/-- The names that a node shows. -/
def shownBrowseName (factory : GenericNodeFactory) (node : Node (NodeData V)) : QualifiedName :=
  if node.attributes.browseName.name = "" then { name := factory.nodeIdToScadaString node.id }
  else node.attributes.browseName

def shownDisplayName (factory : GenericNodeFactory) (node : Node (NodeData V)) : String :=
  if node.attributes.displayName = "" then (factory.shownBrowseName node).name
  else node.attributes.displayName

theorem getBrowseName_eq {node : Node (NodeData V)} (hid : node.id ≠ .null) :
    factory.getBrowseName node = some (factory.shownBrowseName node) := by
  by_cases hname : node.attributes.browseName.name = ""
  · simp [getBrowseName, shownBrowseName, hname, check, hid]
  · simp [getBrowseName, shownBrowseName, hname]

theorem getDisplayName_eq {node : Node (NodeData V)} (hid : node.id ≠ .null) :
    factory.getDisplayName node = some (factory.shownDisplayName node) := by
  by_cases hname : node.attributes.displayName = ""
  · simp [getDisplayName, shownDisplayName, hname, getBrowseName_eq hid]
  · simp [getDisplayName, shownDisplayName, hname]

section

variable {name : String} {ptr parent : NodePtr} {node : Node (NodeData V)}
  {parse : Parsing} {nodeId : NodeId} (h : factory.Readable spaces)

include h

theorem Readable.getBrowseName (hnode : spaces.heap.nodes ptr = some node) :
    factory.getBrowseName node = some (factory.shownBrowseName node) :=
  getBrowseName_eq (h.named ptr node hnode)

/-- The search returns exactly if the supertypes end that it meets. -/
theorem Readable.findChild_returns {refs : List Reference}
    (hrefs : spaces.heap.BoundedReferences refs)
    (hlead : ∀ ref ∈ refs, ∃ child, spaces.heap.nodes ref.node = some child) :
    (∃ found, factory.findChild spaces.heap name refs = some found) ↔
      factory.SearchEnds spaces name refs := by
  induction refs with
  | nil => exact iff_of_true ⟨none, rfl⟩ trivial
  | cons ref refs ih =>
      obtain ⟨href, hrefs⟩ := List.forall_mem_cons.mp hrefs
      have hreturns := h.wellFormed.bounded.isSubtypeOf_returns href.1
        StandardId.hierarchicalReferences
      obtain ⟨⟨child, hchild⟩, hlead⟩ := List.forall_mem_cons.mp hlead
      obtain ⟨browseName, hbrowseName⟩ : ∃ browseName,
          factory.getBrowseName child = some browseName := ⟨_, h.getBrowseName hchild⟩
      rw [SearchEnds, ← hreturns, ← ih hrefs hlead, findChild]
      cases hisChild : spaces.heap.isSubtypeOf ref.type StandardId.hierarchicalReferences with
      | none => simp
      | some isChild =>
          cases isChild with
          | false => simp [IsChild, hisChild]
          | true =>
              have hnamed : factory.IsChild spaces name ref ↔ browseName.name = name := by
                simp [IsChild, hisChild, hchild, hbrowseName]
              by_cases hname : browseName.name = name
              · simp [hnamed, hchild, hbrowseName, hname]
              · simp [hnamed, hchild, hbrowseName, hname]

theorem Readable.references_lead (hparent : spaces.heap.nodes parent = some node) :
    ∀ ref ∈ node.forwardReferences, ∃ child, spaces.heap.nodes ref.node = some child :=
  fun ref href => h.alive parent node hparent ref.node (.inl ⟨ref, href, rfl⟩)

theorem Readable.getNode_alive (hptr : factory.getNode spaces nodeId = some ptr) :
    ∃ node, spaces.heap.nodes ptr = some node := by
  obtain ⟨node, hnode, -⟩ := Option.map_eq_some_iff.mp (h.wellFormed.getNode_idOf hptr)
  exact ⟨node, hnode⟩

theorem Readable.resolved (hresolves : factory.ResolvesTo parse spaces nodeId ptr) :
    ∃ node, spaces.heap.nodes ptr = some node := by
  rcases resolvesTo_iff.mp hresolves with hnode | ⟨-, parentId, name, parent, -, -, parentNode, -, hchild⟩
  · exact h.getNode_alive hnode
  · exact alive_of_findChild hchild

/-- **The lookup returns** exactly if the supertypes end that it meets. -/
theorem Readable.lookup_returns :
    (∃ found, factory.getMutableNestedNode parse spaces nodeId = some found) ↔
      factory.LookupEnds parse spaces nodeId := by
  unfold getMutableNestedNode LookupEnds
  cases hnode : factory.getNode spaces nodeId with
  | some ptr => exact iff_of_true ⟨_, rfl⟩ nofun
  | none =>
      cases hnested : isNestedNodeId parse nodeId with
      | none => simp [hnode]
      | some nested =>
          obtain ⟨parentId, name⟩ := nested
          obtain ⟨hseparator, hname⟩ := isNestedNodeId_name hnested
          cases hparent : factory.getNode spaces parentId with
          | none =>
              refine iff_of_true ⟨none, by simp [hparent]⟩ ?_
              rintro - parentId' name' parent parentNode heq hparent'
              cases heq
              rw [hparent] at hparent'
              cases hparent'
          | some parent =>
              obtain ⟨parentNode, hparentNode⟩ := h.getNode_alive hparent
              have hsearch : (∃ found, factory.findChild spaces.heap name
                  parentNode.forwardReferences = some found) ↔
                    factory.SearchEnds spaces name parentNode.forwardReferences :=
                h.findChild_returns (h.wellFormed.bounded.references parent parentNode hparentNode)
                  (h.references_lead hparentNode)
              have hwalk : factory.walkNestedNames spaces name.toList.length parent name.toList = _ :=
                walkNestedNames_eq hseparator hname hparentNode
              simp only [Option.getD_some, hparent, hwalk, Option.map_map, Option.map_eq_some_iff]
              constructor
              · rintro ⟨found, child, hfound, -⟩ - parentId' name' parent' parentNode' heq hparent'
                  hparentNode'
                cases heq
                cases hparent.symm.trans hparent'
                cases hparentNode.symm.trans hparentNode'
                exact hsearch.mp ⟨child, hfound⟩
              · intro hends
                obtain ⟨child, hfound⟩ :=
                  hsearch.mpr (hends trivial parentId name parent parentNode rfl hparent hparentNode)
                exact ⟨_, child, hfound, rfl⟩

end

/-! ## §4  Reads that return -/

/-- The node has no name of its own, and its id gives it none. -/
def Nameless (node : Node (NodeData V)) : Prop :=
  node.attributes.browseName.name = "" ∧ ¬ node.id.HasText

section

variable {context : ServiceContext R P} {ptr : NodePtr} {node : Node (NodeData V)}
  (h : factory.Readable spaces)

include h

/-- The name of a node is empty exactly if it is nameless. -/
theorem Readable.getBrowseName_empty_iff
    (hscada : factory.nodeIdToScadaString = ScadaCommon.nodeIdToScadaString)
    (hnode : spaces.heap.nodes ptr = some node) {browseName : QualifiedName}
    (hbrowseName : factory.getBrowseName node = some browseName) :
    browseName.name = "" ↔ Nameless node := by
  rw [h.getBrowseName hnode, Option.some_inj, shownBrowseName] at hbrowseName
  subst hbrowseName
  unfold Nameless
  split
  · rename_i hname
    rw [hscada, nodeIdToScadaString_eq_empty, and_iff_right hname]
  · rename_i hname
    exact iff_of_false hname fun hnameless => hname hnameless.1

theorem Readable.dataType_returns (hnode : spaces.heap.nodes ptr = some node)
    (hclass : node.nodeClass = .variable ∨ node.nodeClass = .variableType) :
    ∃ dataType dataTypeNode, node.attributes.dataType = some dataType ∧
      spaces.heap.nodes dataType = some dataTypeNode := by
  obtain ⟨dataType, hdataType⟩ := Option.ne_none_iff_exists'.mp (h.typed ptr node hnode hclass)
  obtain ⟨dataTypeNode, hdataTypeNode⟩ :=
    h.alive ptr node hnode dataType (.inr hdataType)
  exact ⟨dataType, dataTypeNode, hdataType, hdataTypeNode⟩

theorem Readable.readVariable_returns (hnode : spaces.heap.nodes ptr = some node)
    (hclass : node.nodeClass = .variable) (attributeId : AttributeId) :
    ∃ result, readVariable context spaces node attributeId = some result := by
  obtain ⟨dataType, dataTypeNode, hdataType, hdataTypeNode⟩ := h.dataType_returns hnode (.inl hclass)
  cases attributeId with
  | dataType => exact ⟨_, by simp [readVariable, hdataType, hdataTypeNode]; rfl⟩
  | _ => exact ⟨_, rfl⟩

theorem Readable.readVariableType_returns (hnode : spaces.heap.nodes ptr = some node)
    (hclass : node.nodeClass = .variableType) (attributeId : AttributeId) :
    ∃ result, readVariableType context spaces node attributeId = some result := by
  obtain ⟨dataType, dataTypeNode, hdataType, hdataTypeNode⟩ := h.dataType_returns hnode (.inr hclass)
  cases attributeId with
  | dataType => exact ⟨_, by simp [readVariableType, hdataType, hdataTypeNode]; rfl⟩
  | _ => exact ⟨_, rfl⟩

theorem Readable.readClassAttribute_returns (hnode : spaces.heap.nodes ptr = some node)
    (attributeId : AttributeId) :
    ∃ result, readClassAttribute context spaces node attributeId = some result := by
  unfold readClassAttribute
  split
  · rename_i hclass
    exact h.readVariable_returns hnode hclass attributeId
  · rename_i hclass
    exact h.readVariableType_returns hnode hclass attributeId
  all_goals exact ⟨_, rfl⟩

/-- One node is read unless it is asked for a name that it does not have. -/
theorem Readable.readNode_returns
    (hscada : factory.nodeIdToScadaString = ScadaCommon.nodeIdToScadaString)
    (hnode : spaces.heap.nodes ptr = some node) (permissions : Option R)
    (attributeId : AttributeId) :
    (∃ result, factory.readNode context spaces permissions node attributeId = some result) ↔
      ¬ (attributeId = .browseName ∧ Nameless node) := by
  obtain ⟨browseName, hbrowseName⟩ : ∃ browseName,
      factory.getBrowseName node = some browseName := ⟨_, h.getBrowseName hnode⟩
  have hempty := h.getBrowseName_empty_iff hscada hnode hbrowseName
  cases attributeId with
  | browseName =>
      rw [← hempty]
      by_cases hname : browseName.name = ""
      · simp [readNode, hbrowseName, check, hname]
      · simp [readNode, hbrowseName, check, hname]
  | displayName =>
      refine iff_of_true ?_ fun hnone => absurd hnone.1 (by decide)
      by_cases hname : node.attributes.displayName = ""
      · exact ⟨_, by simp [readNode, getDisplayName, hbrowseName, hname]; rfl⟩
      · exact ⟨_, by simp [readNode, getDisplayName, hname]; rfl⟩
  | nodeClass | userRolePermissions =>
      exact iff_of_true ⟨_, rfl⟩ fun hnone => absurd hnone.1 (by decide)
  | rolePermissions =>
      refine iff_of_true ?_ fun hnone => absurd hnone.1 (by decide)
      rw [readNode]
      split <;> exact ⟨_, rfl⟩
  | _ =>
      refine iff_of_true (h.readClassAttribute_returns hnode _) ?_
      rintro ⟨heq, -⟩
      cases heq

end

/-- A node that the id leads to is the one that is read. -/
theorem read_of_resolvesTo {context : ServiceContext R P} {parse : Parsing}
    {permissions : NodePtr → Option R} {nodeId : NodeId} {attributeId : AttributeId}
    {ptr : NodePtr} {node : Node (NodeData V)}
    (hresolves : factory.ResolvesTo parse spaces nodeId ptr)
    (hnode : spaces.heap.nodes ptr = some node) :
    factory.read context parse spaces permissions nodeId attributeId =
      factory.readNode context spaces (permissions ptr) node attributeId := by
  have hlookup : factory.getMutableNestedNode parse spaces nodeId = some (some (ptr, "")) :=
    hresolves
  simp [read, hlookup, hnode]

variable [Inhabited V]

/-- **A read returns** exactly if the supertypes end that the lookup meets, unless it asks
for the browse name of a node that has none. Where the supertypes of all types end so do
those, and all ids that lead to a node give the same result. -/
theorem read_returns_iff
    (hscada : factory.nodeIdToScadaString = ScadaCommon.nodeIdToScadaString)
    (hbuilt : factory.Built spaces) (parse : Parsing) (context : ServiceContext R P)
    (permissions : NodePtr → Option R) (nodeId : NodeId) (attributeId : AttributeId) :
    ((∃ result, factory.read context parse spaces permissions nodeId attributeId = some result) ↔
      factory.LookupEnds parse spaces nodeId ∧
        ¬ (attributeId = .browseName ∧ ∃ ptr node, factory.ResolvesTo parse spaces nodeId ptr ∧
          spaces.heap.nodes ptr = some node ∧ Nameless node)) ∧
    ((∀ ptr < spaces.heap.next, Ends spaces.heap.supertypeOf ptr) →
      factory.LookupEnds parse spaces nodeId) ∧
    ∀ ptr node, factory.ResolvesTo parse spaces nodeId ptr → spaces.heap.nodes ptr = some node →
      factory.read context parse spaces permissions nodeId attributeId =
        factory.read context parse spaces permissions node.id attributeId := by
  have h := hbuilt.readable
  refine ⟨?_, ?_, ?_⟩
  · constructor
    · rintro ⟨result, hread⟩
      obtain ⟨found, hlookup, -⟩ := Option.bind_eq_some_iff.mp hread
      refine ⟨h.lookup_returns.mp ⟨found, hlookup⟩, ?_⟩
      rintro ⟨rfl, ptr, node, hresolves, hnode, hnameless⟩
      rw [read_of_resolvesTo hresolves hnode] at hread
      exact (h.readNode_returns hscada hnode _ _).mp ⟨result, hread⟩ ⟨rfl, hnameless⟩
    · rintro ⟨hends, hnamed⟩
      obtain ⟨found, hlookup⟩ := h.lookup_returns.mpr hends
      cases found with
      | none => exact ⟨_, by simp [read, hlookup]; rfl⟩
      | some found =>
          obtain ⟨ptr, nestedName⟩ := found
          by_cases hname : nestedName = ""
          · subst hname
            have hresolves : factory.ResolvesTo parse spaces nodeId ptr := hlookup
            obtain ⟨node, hnode⟩ := h.resolved hresolves
            rw [read_of_resolvesTo hresolves hnode, h.readNode_returns hscada hnode]
            exact fun hnone => hnamed ⟨hnone.1, ptr, node, hresolves, hnode, hnone.2⟩
          · exact ⟨_, by simp [read, hlookup, hname]; rfl⟩
  · intro hends _ parentId name parent parentNode _ _ hparentNode
    refine searchEnds_of_ends fun ref href => ?_
    have hlt := (h.wellFormed.bounded.references parent parentNode hparentNode ref href).1
    exact ends_supertypeStep _ (hends ref.type hlt)
  · intro ptr node hresolves hnode
    have hself : factory.ResolvesTo parse spaces node.id ptr :=
      resolvesTo_iff.mpr (.inl (h.indexed ptr node.id (by rw [NodeHeap.idOf, hnode]; rfl)))
    rw [read_of_resolvesTo hresolves hnode, read_of_resolvesTo hself hnode]

/-- A data type without names. -/
def dataTypeState (nodeId : NodeId) : NodeState ℕ where
  nodeId := nodeId
  nodeClass := .dataType

def anonymousContext : ServiceContext Unit Unit where
  userRolePermissions _ := ()
  rolePermissions _ := ()
  readsRolePermissions := false
  calls := false
  userAccessLevel := id
  now := 0

theorem read_returns_iff_dataType : ∃ spaces : Spaces ℕ, pumpFactory.Built spaces ∧
    pumpFactory.getNode spaces (.numeric 5 7) = some 0 ∧
    ∃ result, pumpFactory.read anonymousContext .decimal spaces (fun _ => none) (.numeric 5 7)
      .browseName = some result := by
  have hrun : (pumpFactory.createNode 1 emptySpaces (dataTypeState (.numeric 5 7))).any
      (fun result => result.1 = .good ∧
        pumpFactory.getNode result.2 (.numeric 5 7) = some 0) = true := by
    decide
  cases hcreate : pumpFactory.createNode 1 emptySpaces (dataTypeState (.numeric 5 7)) with
  | none =>
      rw [hcreate] at hrun
      cases hrun
  | some result =>
      obtain ⟨status, spaces⟩ := result
      rw [hcreate, Option.any_some, decide_eq_true_eq] at hrun
      obtain ⟨rfl, hnode⟩ := hrun
      have hbuilt : pumpFactory.Built spaces := .createNode .empty hcreate
      refine ⟨spaces, hbuilt, hnode, (read_returns_iff rfl hbuilt _ _ _ _ _).1.mpr ⟨?_, ?_⟩⟩
      · intro hnone
        rw [hnode] at hnone
        cases hnone
      · rintro ⟨-, ptr, node, hresolves, hptr, -, hbytes⟩
        have hself : pumpFactory.ResolvesTo .decimal spaces (.numeric 5 7) 0 :=
          resolvesTo_iff.mpr (.inl hnode)
        have hid := hbuilt.readable.wellFormed.getNode_idOf hnode
        cases hself.symm.trans hresolves
        rw [NodeHeap.idOf, hptr, Option.map_some, Option.some_inj] at hid
        refine hbytes ?_
        rw [hid]
        intro bytes namespaceIndex heq
        cases heq

/-- The browse name of a node with an id of bytes stops the process. -/
theorem nameless_node_stops_read : ∃ spaces : Spaces ℕ, pumpFactory.Built spaces ∧
    pumpFactory.getNode spaces (.opaqueId [1] 2) = some 0 ∧
    pumpFactory.read anonymousContext .decimal spaces (fun _ => none) (.opaqueId [1] 2)
      .browseName = none := by
  have hrun : (pumpFactory.createNode 1 emptySpaces (dataTypeState (.opaqueId [1] 2))).any
      (fun result => result.1 = .good ∧
        pumpFactory.getNode result.2 (.opaqueId [1] 2) = some 0 ∧
          (pumpFactory.read anonymousContext .decimal result.2 (fun _ => none) (.opaqueId [1] 2)
            .browseName).isNone) = true := by
    decide
  cases hcreate : pumpFactory.createNode 1 emptySpaces (dataTypeState (.opaqueId [1] 2)) with
  | none =>
      rw [hcreate] at hrun
      cases hrun
  | some result =>
      obtain ⟨status, spaces⟩ := result
      rw [hcreate, Option.any_some, decide_eq_true_eq] at hrun
      obtain ⟨rfl, hnode, hread⟩ := hrun
      exact ⟨spaces, .createNode .empty hcreate, hnode, Option.isNone_iff_eq_none.mp hread⟩

end GenericNodeFactory

end ScadaCommon.AddressSpace
