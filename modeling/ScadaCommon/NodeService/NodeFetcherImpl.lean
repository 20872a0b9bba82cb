import ScadaCommon.Scada.StandardNodes
import ScadaCommon.NodeService.FetchingNodeGraph
import ScadaCommon.NodeService.V3.ServiceNodeFetcher

/-!
# The node fetcher

`NodeFetcherImpl` reads the attributes and browses the references of nodes in
batches. What it learns of a node makes it fetch others, and a node is given to the
handler once all it depends on is fetched. A service may answer at once, and the
handler may call the fetcher, so that calls are nested: what is still to be done is
kept on a stack, and each step does what is on its top.

§1 requests · §2 scheduling · §3 answers · §4 batches · §5 the fetcher and its
surroundings.
-/

namespace ScadaCommon

open Foundation
open AddressSpace (NodeState NodeAttributes QualifiedName ReferenceDescription)
open NodeFetchStatus (Includes)
open V3 (BrowseDirection)

/-! ## §1  Requests -/

/-- The attributes that are read. -/
inductive AttributeId where
  | nodeClass
  | browseName
  | displayName
  | dataType
  | value
deriving DecidableEq

structure ReadValueId where
  nodeId : NodeId
  attributeId : AttributeId
deriving DecidableEq

/-- Subtypes are always included. -/
structure BrowseDescription where
  nodeId : NodeId
  direction : BrowseDirection
  referenceTypeId : NodeId
deriving DecidableEq

section

variable {V : Type}

def getFetchAttributes (fetchingNode : FetchingNode V) : List ReadValueId :=
  let nodeId := fetchingNode.nodeState.nodeId
  [⟨nodeId, .browseName⟩, ⟨nodeId, .displayName⟩] ++
    (if !fetchingNode.isProperty || fetchingNode.isDeclaration then [⟨nodeId, .nodeClass⟩] else []) ++
    [⟨nodeId, .dataType⟩] ++
    (if fetchingNode.isProperty then [⟨nodeId, .value⟩] else [])

def getFetchReferences (fetchingNode : FetchingNode V) : List BrowseDescription :=
  let nodeId := fetchingNode.nodeState.nodeId
  (if !fetchingNode.isProperty then [⟨nodeId, .forward, StandardId.aggregates⟩] else []) ++
    (if !fetchingNode.isProperty || fetchingNode.isDeclaration then
      [⟨nodeId, .forward, StandardId.nonHierarchicalReferences⟩] else []) ++
    (if FetchDimension.nonHierarchicalInverseReferences ∈ fetchingNode.fetchStarted then
      [⟨nodeId, .inverse, StandardId.nonHierarchicalReferences⟩] else []) ++
    -- The parent may be unknown when the node has just been created.
    (if nodeId ≠ StandardId.rootFolder ∧ fetchingNode.nodeState.parentId = .null ∧
        fetchingNode.nodeState.referenceTypeId = .null then
      [⟨nodeId, .inverse, StandardId.hierarchicalReferences⟩] else [])

end

/-- What is used of variants. -/
structure FetchedValues (V : Type) where
  /-- `get` of an `Int32`, as a `NodeClass`. -/
  nodeClass : V → Option NodeClass
  qualifiedName : V → Option QualifiedName
  emptyName : QualifiedName → Bool
  localizedText : V → Option String
  nodeId : V → Option NodeId

/-- A `DataValue`: its status is only asked for being bad. -/
structure ReadResult (V : Type) where
  value : V
  statusCode : Status := .good
deriving DecidableEq

structure BrowseResult where
  statusCode : Status := .good
  references : List ReferenceDescription := []
deriving DecidableEq

/-- `StatusCode::Bad_WrongTypeId`. -/
def Status.badWrongTypeId : Status := .bad 1

/-- `StatusCode::Bad`. -/
def Status.unspecified : Status := .bad 0

structure NodeFetcherImpl (V : Type) where
  fetchingNodes : FetchingNodeGraph V := {}
  runningRequestCount : ℕ := 0
  nextRequestId : ℕ := 1
  pendingQueue : List NodeId := []
  nextPendingSequence : ℕ := 0
  processingResponse : Bool := false
  drainingPendingQueue : Bool := false

namespace NodeFetcherImpl

variable {V : Type}

/-! ## §2  Scheduling -/

def node (f : NodeFetcherImpl V) (id : NodeId) : Option (FetchingNode V) := f.fetchingNodes.node id

/-- Writes fields of a node. -/
def edit (f : NodeFetcherImpl V) (id : NodeId) (change : FetchingNode V → FetchingNode V) :
    Option (NodeFetcherImpl V) :=
  (f.node id).map fun node => { f with fetchingNodes := f.fetchingNodes.write id (change node) }

def addNode (f : NodeFetcherImpl V) (id : NodeId) : Option (NodeFetcherImpl V) :=
  (f.fetchingNodes.addNode id).map fun g => { f with fetchingNodes := g }

def addDependency (f : NodeFetcherImpl V) (id fromId : NodeId) : Option (NodeFetcherImpl V) :=
  (f.fetchingNodes.addDependency id fromId).map fun g => { f with fetchingNodes := g }

/-- `pending_queue_.push`. -/
def push (f : NodeFetcherImpl V) (id : NodeId) : Option (NodeFetcherImpl V) := do
  let node ← f.node id
  if node.pending then
    check (id ∈ f.pendingQueue)
    return f
  else
    check (id ∉ f.pendingQueue)
    let f ← f.edit id fun node => { node with pending := true }
    return { f with pendingQueue := f.pendingQueue ++ [id] }

/-- `pending_queue_.erase`. -/
def eraseFromQueue (f : NodeFetcherImpl V) (id : NodeId) : Option (NodeFetcherImpl V) := do
  let node ← f.node id
  if node.pending then
    check (id ∈ f.pendingQueue)
    let f ← f.edit id fun node => { node with pending := false }
    return { f with pendingQueue := f.pendingQueue.erase id }
  else
    check (id ∉ f.pendingQueue)
    return f

/-- A started fetch is started anew. -/
def restarted (node : FetchingNode V) : FetchingNode V :=
  { node with
    fetchStarted := .none
    fetchRequestId := 0
    attributesFetched := false
    referencesFetched := false
    status := .good
    nodeState := { node.nodeState with references := [] } }

/-- `FetchNode` up to the call of `FetchPendingNodes`; the flag tells whether that call
follows. -/
def fetchNode (f : NodeFetcherImpl V) (id : NodeId) (pendingSequence : ℕ)
    (status : NodeFetchStatus) (force : Bool) : Option (NodeFetcherImpl V × Bool) := do
  check (Includes status .nodeOnly)
  let node ← f.node id
  if node.fetchStarted ≠ .none ∧ Includes node.fetchStarted status ∧ force = false then
    return (f, false)
  else
    let f ← f.edit id fun node =>
      let node := if node.fetchStarted ≠ .none then restarted node else node
      { node with
        force := node.force || force
        pendingStatus := node.pendingStatus ∪ status
        pendingSequence }
    let f ← f.push id
    return (f, true)

/-- `Fetch` up to the call of `FetchPendingNodes`. -/
def fetch (f : NodeFetcherImpl V) (id : NodeId) (status : NodeFetchStatus) (force : Bool) :
    Option (NodeFetcherImpl V × Bool) := do
  check (id ≠ .null)
  check (Includes status .nodeOnly)
  let f ← f.addNode id
  let pendingSequence := f.nextPendingSequence
  let f := { f with nextPendingSequence := (pendingSequence + 1) % 2 ^ 32 }
  f.fetchNode id pendingSequence status force

/-- `NotifyFetchedNodes` up to the call of the handler; the flag tells whether there is
something for it. -/
def notifyFetchedNodes (f : NodeFetcherImpl V) : Option (NodeFetcherImpl V × Bool) := do
  let (g, result) ← f.fetchingNodes.getFetchedNodes
  return ({ f with fetchingNodes := g }, !(result.nodes.isEmpty && result.errors.isEmpty))

/-- `Cancel` up to the call of the handler; `none` for a node that is not fetched. -/
def cancel (f : NodeFetcherImpl V) (id : NodeId) : Option (Option (NodeFetcherImpl V × Bool)) := do
  let node ← f.fetchingNodes.findNode id
  match node with
  | none => return none
  | some _ =>
      let f ← f.eraseFromQueue id
      let g ← f.fetchingNodes.removeNode id
      let r ← notifyFetchedNodes { f with fetchingNodes := g }
      return some r

/-! ## §3  Answers -/

/-- Schedules a node that another one depends on; while an answer is being processed
`FetchPendingNodes` returns at once. -/
def schedule (f : NodeFetcherImpl V) (id : NodeId) (pendingSequence : ℕ) :
    Option (NodeFetcherImpl V) :=
  (f.fetchNode id pendingSequence .nodeOnly false).map Prod.fst

/-- The validator knows the nodes that need not be fetched. -/
def validateDependency (validator : NodeId → Bool) (f : NodeFetcherImpl V) (id fromId : NodeId) :
    Option (NodeFetcherImpl V) := do
  if fromId = .null then return f
  let node ← f.node id
  if node.nodeState.nodeId = fromId then return f
  if validator fromId then return f
  let f ← f.addNode fromId
  if fromId = id then return f
  let f ← f.edit fromId fun fromNode => { fromNode with force := fromNode.force || node.force }
  let f ← f.addDependency id fromId
  let fromNode ← f.node fromId
  f.schedule fromId fromNode.pendingSequence

def setStatus (f : NodeFetcherImpl V) (id : NodeId) (status : Status) :
    Option (NodeFetcherImpl V) :=
  f.edit id fun node => { node with status }

def editState (f : NodeFetcherImpl V) (id : NodeId) (change : NodeState V → NodeState V) :
    Option (NodeFetcherImpl V) :=
  f.edit id fun node => { node with nodeState := change node.nodeState }

def editAttributes (f : NodeFetcherImpl V) (id : NodeId)
    (change : NodeAttributes V → NodeAttributes V) : Option (NodeFetcherImpl V) :=
  f.editState id fun state => { state with attributes := change state.attributes }

def setFetchedAttribute (values : FetchedValues V) (validator : NodeId → Bool)
    (f : NodeFetcherImpl V) (id : NodeId) (attributeId : AttributeId) (value : V) :
    Option (NodeFetcherImpl V) :=
  match attributeId with
  | .nodeClass =>
      match values.nodeClass value with
      | none => f.setStatus id Status.badWrongTypeId
      | some nodeClass => f.editState id fun state => { state with nodeClass }
  | .browseName =>
      match (values.qualifiedName value).filter (!values.emptyName ·) with
      | none => f.setStatus id Status.badWrongTypeId
      | some browseName => f.editAttributes id fun attributes => { attributes with browseName }
  | .displayName =>
      match values.localizedText value with
      | none => f.setStatus id Status.badWrongTypeId
      | some displayName => f.editAttributes id fun attributes => { attributes with displayName }
  | .dataType =>
      match (values.nodeId value).filter (· ≠ .null) with
      | none => f.setStatus id Status.badWrongTypeId
      | some dataType => do
          let f ← f.editAttributes id fun attributes => { attributes with dataType }
          f.validateDependency validator id dataType
  | .value => f.editAttributes id fun attributes => { attributes with value := some value }

/-- The node of an answer, unless it was cancelled or its fetch was started anew. -/
def answered (f : NodeFetcherImpl V) (requestId : ℕ) (id : NodeId) :
    Option (Option (FetchingNode V)) := do
  let node ← f.fetchingNodes.findNode id
  return node.filter fun node => node.fetchStarted ≠ .none ∧ node.fetchRequestId = requestId

def applyReadResult (values : FetchedValues V) (validator : NodeId → Bool) (requestId : ℕ)
    (f : NodeFetcherImpl V) (readId : ReadValueId) (result : ReadResult V) :
    Option (NodeFetcherImpl V) := do
  let node ← f.answered requestId readId.nodeId
  match node with
  | none => return f
  | some _ =>
      let f ← f.edit readId.nodeId fun node => { node with attributesFetched := true }
      if result.statusCode.IsBad then
        if readId.attributeId = .browseName then f.setStatus readId.nodeId result.statusCode
        else return f
      else f.setFetchedAttribute values validator readId.nodeId readId.attributeId result.value

def isInverseReference (referenceTypeId : NodeId) : Prop :=
  referenceTypeId = StandardId.hierarchicalReferences ∨ referenceTypeId = StandardId.hasSubtype

instance (referenceTypeId : NodeId) : Decidable (isInverseReference referenceTypeId) :=
  inferInstanceAs (Decidable (_ ∨ _))

/-- The parent or the supertype. -/
def addInverseReference (validator : NodeId → Bool) (f : NodeFetcherImpl V) (id : NodeId)
    (description : BrowseDescription) (reference : ReferenceDescription) :
    Option (NodeFetcherImpl V) := do
  check (isInverseReference description.referenceTypeId)
  if reference.forward then return f
  let f ← f.editState id fun state =>
    if reference.referenceTypeId = StandardId.hasSubtype then
      { state with supertypeId := reference.nodeId }
    else
      { state with
        parentId := reference.nodeId
        referenceTypeId := reference.referenceTypeId }
  f.validateDependency validator id reference.nodeId

def toldParent (reference : ReferenceDescription) (parentId : NodeId) (force : Bool)
    (child : FetchingNode V) : FetchingNode V :=
  { child with
    nodeState := { child.nodeState with
      referenceTypeId := reference.referenceTypeId
      parentId }
    force := child.force || force }

def toldProperty (isDeclaration : Bool) (child : FetchingNode V) : FetchingNode V :=
  { child with
    nodeState := { child.nodeState with
      nodeClass := .variable
      typeDefinitionId := StandardId.propertyType }
    isProperty := true
    isDeclaration }

/-- A child is told its parent and, a property, what it is. -/
def tellChild (validator : NodeId → Bool) (f : NodeFetcherImpl V) (id : NodeId)
    (description : BrowseDescription) (reference : ReferenceDescription) :
    Option (NodeFetcherImpl V) := do
  let f ← f.addNode reference.nodeId
  let node ← f.node id
  let f ← f.edit reference.nodeId (toldParent reference description.nodeId node.force)
  if reference.referenceTypeId = StandardId.hasProperty then do
    let f ← f.edit reference.nodeId (toldProperty node.nodeState.nodeClass.isTypeDefinition)
    f.validateDependency validator id StandardId.propertyType
  else some f

/-- The branch of `AddFetchedReference` for children. -/
def addChild (validator : NodeId → Bool) (f : NodeFetcherImpl V) (id : NodeId)
    (description : BrowseDescription) (reference : ReferenceDescription) :
    Option (NodeFetcherImpl V) := do
  if reference.forward = false ∨ reference.referenceTypeId = StandardId.hasSubtype then return f
  let f ← f.tellChild validator id description reference
  let f ← f.addDependency reference.nodeId id
  let f ← f.addDependency id reference.nodeId
  let node ← f.node id
  f.schedule reference.nodeId node.pendingSequence

/-- A reference that is not hierarchical, to the type definition among others. -/
def addForwardReference (validator : NodeId → Bool) (f : NodeFetcherImpl V) (id : NodeId)
    (description : BrowseDescription) (reference : ReferenceDescription) :
    Option (NodeFetcherImpl V) := do
  check (description.referenceTypeId = StandardId.nonHierarchicalReferences)
  if reference.forward = false then return f
  let f ← f.editState id fun state =>
    if reference.referenceTypeId = StandardId.hasTypeDefinition then
      { state with typeDefinitionId := reference.nodeId }
    else if reference ∈ state.references then state
    else { state with references := state.references ++ [reference] }
  f.validateDependency validator id reference.nodeId

def addFetchedReference (validator : NodeId → Bool) (f : NodeFetcherImpl V) (id : NodeId)
    (description : BrowseDescription) (reference : ReferenceDescription) :
    Option (NodeFetcherImpl V) :=
  if reference.referenceTypeId = .null ∨ reference.nodeId = .null then
    f.setStatus id Status.unspecified
  else do
    let f ← f.validateDependency validator id reference.referenceTypeId
    match description.direction with
    | .inverse => f.addInverseReference validator id description reference
    | .forward =>
        if description.referenceTypeId = StandardId.aggregates then
          f.addChild validator id description reference
        else f.addForwardReference validator id description reference

def addFetchedReferences (validator : NodeId → Bool) (f : NodeFetcherImpl V)
    (description : BrowseDescription) (references : List ReferenceDescription) :
    Option (NodeFetcherImpl V) :=
  references.foldlM
    (fun f reference => f.addFetchedReference validator description.nodeId description reference) f

def applyBrowseResult (validator : NodeId → Bool) (requestId : ℕ) (f : NodeFetcherImpl V)
    (description : BrowseDescription) (result : BrowseResult) : Option (NodeFetcherImpl V) := do
  let node ← f.answered requestId description.nodeId
  match node with
  | none => return f
  | some _ =>
      let f ← f.edit description.nodeId fun node => { node with referencesFetched := true }
      if result.statusCode.IsBad then f.setStatus description.nodeId result.statusCode
      else f.addFetchedReferences validator description result.references

/-- What a service answers: results, or an error. -/
inductive Reply (α : Type) where
  | results (results : List α)
  | error (status : Status)

/-- The results for the items that were asked for, or one status for all of them: of a
failed call, or of one with another number of results. -/
def Reply.matched {α : Type} (reply : Reply α) (count : ℕ) : Except Status (List α) :=
  match reply with
  | .error status => .error status
  | .results list => if list.length = count then .ok list else .error .unspecified

/-- The pairs of an item and its result. -/
def Reply.pairs {α β : Type} (reply : Reply α) (failed : Status → α) (items : List β) :
    List (β × α) :=
  match reply.matched items.length with
  | .error status => items.map fun item => (item, failed status)
  | .ok list => items.zip list

/-- `OnReadResult` and `OnBrowseResult` up to the call of the handler. -/
def onResult (f : NodeFetcherImpl V)
    (apply : NodeFetcherImpl V → Option (NodeFetcherImpl V)) :
    Option (NodeFetcherImpl V × Bool) := do
  check (f.processingResponse = false)
  let f ← apply { f with processingResponse := true }
  let f := { f with processingResponse := false }
  check (0 < f.runningRequestCount)
  let f := { f with runningRequestCount := f.runningRequestCount - 1 }
  f.notifyFetchedNodes

/-- `MakeReadError`; `nullVariant` is the default-constructed value. -/
def applyReadResults (values : FetchedValues V) (nullVariant : V) (validator : NodeId → Bool)
    (requestId : ℕ) (f : NodeFetcherImpl V) (readIds : List ReadValueId)
    (reply : Reply (ReadResult V)) : Option (NodeFetcherImpl V) :=
  (reply.pairs (fun status => ⟨nullVariant, status⟩) readIds).foldlM
    (fun f pair => f.applyReadResult values validator requestId pair.1 pair.2) f

def applyBrowseResults (validator : NodeId → Bool) (requestId : ℕ) (f : NodeFetcherImpl V)
    (descriptions : List BrowseDescription) (reply : Reply BrowseResult) :
    Option (NodeFetcherImpl V) :=
  (reply.pairs (fun status => ⟨status, []⟩) descriptions).foldlM
    (fun f pair => f.applyBrowseResult validator requestId pair.1 pair.2) f

/-! ## §4  Batches -/

def kMaxRequestNodeCount : ℕ := 100

def kMaxParallelRequestCount : ℕ := 5

/-- Read and browse. -/
def kPrimitiveRequestCount : ℕ := 2

/-- Takes a node out of the queue and starts its fetch. -/
def popNode (f : NodeFetcherImpl V) (id : NodeId) : Option (NodeFetcherImpl V) := do
  let node ← f.node id
  check (node.pending = true)
  let f ← f.edit id fun node => { node with pending := false }
  let f := { f with pendingQueue := f.pendingQueue.erase id }
  check (node.fetchStarted = .none)
  check (node.pendingStatus ≠ .none)
  f.edit id fun node => { node with fetchStarted := node.pendingStatus }

def makeRequestId (f : NodeFetcherImpl V) : ℕ × NodeFetcherImpl V :=
  let next := (f.nextRequestId + 1) % 2 ^ 32
  (f.nextRequestId, { f with nextRequestId := if next = 0 then 1 else next })

/-- `FetchPendingNodes(nodes)` up to the read: the request id, the attributes to read, and
that none is there yet. -/
def beginBatch (f : NodeFetcherImpl V) (nodes : List NodeId) :
    Option (NodeFetcherImpl V × ℕ × List ReadValueId) := do
  let (requestId, f) := f.makeRequestId
  let f := { f with runningRequestCount := f.runningRequestCount + kPrimitiveRequestCount }
  let f ← nodes.foldlM (fun f id => f.edit id fun node => { node with fetchRequestId := requestId }) f
  let (f, readIds) ← nodes.foldlM (fun (f, readIds) id => do
    let node ← f.node id
    let f ← f.edit id fun node =>
      { node with attributesFetched := (getFetchAttributes node).isEmpty }
    return (f, readIds ++ getFetchAttributes node)) (f, [])
  return (f, requestId, readIds)

/-- The references to browse; a node without any has them fetched. -/
def collectReferences (f : NodeFetcherImpl V) (nodes : List NodeId) :
    Option (NodeFetcherImpl V × List BrowseDescription) :=
  nodes.foldlM (fun (f, descriptions) id => do
    let node ← f.node id
    let f ← f.edit id fun node =>
      { node with referencesFetched := (getFetchReferences node).isEmpty }
    return (f, descriptions ++ getFetchReferences node)) (f, [])

/-! ## §5  The fetcher and its surroundings -/

/-- A coroutine that waits for a service. -/
inductive Request where
  | read (requestId : ℕ) (readIds : List ReadValueId)
  | browse (requestId : ℕ) (descriptions : List BrowseDescription)
deriving DecidableEq

/-- What is still to be done, from the innermost call on. -/
inductive Frame where
  /-- The handler runs. -/
  | handler
  /-- `FetchPendingNodes()` is called. -/
  | fetchPendingNodes
  /-- The loop of `FetchPendingNodes()`. -/
  | drain
  /-- The rest of `FetchPendingNodes(nodes)`, behind the read. -/
  | references (requestId : ℕ) (nodes : List NodeId)
  /-- The same where a node of the batch is gone. -/
  | dangling
  /-- A coroutine that has not been suspended yet. -/
  | spawned (request : Request)
deriving DecidableEq

inductive Answer (V : Type) where
  | read (reply : Reply (ReadResult V))
  | browse (reply : Reply BrowseResult)

/-- An answer is of the kind of its request. -/
def Answer.Answers (answer : Answer V) (request : Request) : Prop :=
  match answer, request with
  | .read _, .read _ _ => True
  | .browse _, .browse _ _ => True
  | _, _ => False

instance (answer : Answer V) (request : Request) : Decidable (answer.Answers request) := by
  unfold Answer.Answers
  split <;> infer_instance

structure Surroundings (V : Type) where
  fetcher : NodeFetcherImpl V := {}
  outstanding : List Request := []
  stack : List Frame := []

inductive Action (V : Type) where
  | fetch (id : NodeId) (status : NodeFetchStatus) (force : Bool)
  | cancel (id : NodeId)
  | handlerReturns
  /-- The executor goes on with a coroutine that was suspended. -/
  | complete (request : Request) (answer : Answer V) (validator : NodeId → Bool)
  /-- The service answers at once. -/
  | inline (answer : Answer V) (validator : NodeId → Bool)
  | suspend
  /-- The fetcher goes on. Keys change while nodes are in the heap, so that any of them
  may come out of it first. -/
  | advance (nodes : List NodeId)

/-- A batch is kept as pointers to its nodes. -/
def Frame.checked (f : NodeFetcherImpl V) : Frame → Frame
  | .references requestId nodes =>
      if ∀ id ∈ nodes, (f.node id).isSome then .references requestId nodes else .dangling
  | frame => frame

namespace Surroundings

/-- The handler is called if there is something for it, and `FetchPendingNodes`
thereafter. Nodes may be gone. -/
def notified (s : Surroundings V) (stack : List Frame) (r : NodeFetcherImpl V × Bool) :
    Surroundings V :=
  { s with
    fetcher := r.1
    stack :=
      (if r.2 then [.handler, .fetchPendingNodes] else [.fetchPendingNodes]) ++
        stack.map (Frame.checked r.1) }

/-- The results of an answer go to their nodes. -/
def applyAnswer (values : FetchedValues V) (nullVariant : V) (validator : NodeId → Bool)
    (f : NodeFetcherImpl V) (request : Request) (answer : Answer V) : Option (NodeFetcherImpl V) :=
  match request, answer with
  | .read requestId readIds, .read reply =>
      f.applyReadResults values nullVariant validator requestId readIds reply
  | .browse requestId descriptions, .browse reply =>
      f.applyBrowseResults validator requestId descriptions reply
  | _, _ => some f

/-- `OnReadResult` and `OnBrowseResult`. -/
def onAnswer (values : FetchedValues V) (nullVariant : V) (f : NodeFetcherImpl V)
    (request : Request) (answer : Answer V) (validator : NodeId → Bool) :
    Option (NodeFetcherImpl V × Bool) :=
  f.onResult (applyAnswer values nullVariant validator · request answer)

/-- The loop of `FetchPendingNodes()` goes on. -/
def HasBatch (f : NodeFetcherImpl V) : Prop :=
  f.pendingQueue ≠ [] ∧ f.runningRequestCount + kPrimitiveRequestCount ≤ kMaxParallelRequestCount

instance (f : NodeFetcherImpl V) : Decidable (HasBatch f) := inferInstanceAs (Decidable (_ ∧ _))

/-- The next batch: as many nodes of the queue as fit. -/
def IsBatch (f : NodeFetcherImpl V) (nodes : List NodeId) : Prop :=
  nodes.Nodup ∧ (∀ id ∈ nodes, id ∈ f.pendingQueue) ∧
    nodes.length = min kMaxRequestNodeCount f.pendingQueue.length

instance (f : NodeFetcherImpl V) (nodes : List NodeId) : Decidable (IsBatch f nodes) :=
  inferInstanceAs (Decidable (_ ∧ _ ∧ _))

def advance (s : Surroundings V) (nodes : List NodeId) : Option (Surroundings V) :=
  match s.stack with
  | .fetchPendingNodes :: stack =>
      if s.fetcher.processingResponse ∨ s.fetcher.drainingPendingQueue then some { s with stack }
      else
        some { s with
          fetcher := { s.fetcher with drainingPendingQueue := true }
          stack := .drain :: stack }
  | .drain :: stack =>
      if HasBatch s.fetcher then do
        let f ← nodes.foldlM popNode s.fetcher
        let (f, requestId, readIds) ← f.beginBatch nodes
        return {
          fetcher := f
          outstanding := s.outstanding ++ [.read requestId readIds]
          stack := .spawned (.read requestId readIds) :: .references requestId nodes ::
            .drain :: stack }
      else
        some { s with
          fetcher := { s.fetcher with drainingPendingQueue := false }
          stack }
  | .references requestId nodes :: stack => do
      let (f, descriptions) ← s.fetcher.collectReferences nodes
      if descriptions = [] then
        let r ← f.onResult (applyBrowseResults (fun _ => true) requestId · [] (.results []))
        return s.notified stack r
      else
        return {
          fetcher := f
          outstanding := s.outstanding ++ [.browse requestId descriptions]
          stack := .spawned (.browse requestId descriptions) :: stack }
  -- Nodes that are gone are used.
  | .dangling :: _ => none
  | _ => some s

def step (values : FetchedValues V) (nullVariant : V) (s : Surroundings V) :
    Action V → Option (Surroundings V)
  | .fetch id status force => do
      let (f, scheduled) ← s.fetcher.fetch id status force
      return { s with
        fetcher := f
        stack := if scheduled then .fetchPendingNodes :: s.stack else s.stack }
  | .cancel id => do
      let r ← s.fetcher.cancel id
      return match r with
        | none => s
        | some r => s.notified s.stack r
  | .handlerReturns => some { s with stack := s.stack.tail }
  | .complete request answer validator => do
      let r ← onAnswer values nullVariant s.fetcher request answer validator
      return { s with outstanding := s.outstanding.erase request }.notified s.stack r
  | .inline answer validator =>
      match s.stack with
      | .spawned request :: stack => do
          let r ← onAnswer values nullVariant s.fetcher request answer validator
          return { s with outstanding := s.outstanding.erase request }.notified stack r
      | _ => some s
  | .suspend => some { s with stack := s.stack.tail }
  | .advance nodes => s.advance nodes

def spawnedRequest (s : Surroundings V) : Option Request :=
  match s.stack with
  | .spawned request :: _ => some request
  | _ => none

/-- The fetcher is called from outside, by the handler, or by a service. -/
def Callable (s : Surroundings V) : Prop :=
  s.stack = [] ∨ s.stack.head? = some .handler ∨ s.spawnedRequest.isSome = true

instance (s : Surroundings V) : Decidable s.Callable := inferInstanceAs (Decidable (_ ∨ _ ∨ _))

def Enabled (s : Surroundings V) : Action V → Prop
  | .fetch _ _ _ => s.Callable
  | .cancel _ => s.Callable
  | .handlerReturns => s.stack.head? = some .handler
  | .complete request answer _ => s.stack = [] ∧ request ∈ s.outstanding ∧ answer.Answers request
  | .inline answer _ => s.spawnedRequest.any fun request => answer.Answers request
  | .suspend => s.spawnedRequest.isSome = true
  | .advance nodes =>
      match s.stack with
      | .fetchPendingNodes :: _ => True
      | .drain :: _ => HasBatch s.fetcher → IsBatch s.fetcher nodes
      | .references _ _ :: _ => True
      | .dangling :: _ => True
      | _ => False

instance (s : Surroundings V) (action : Action V) : Decidable (s.Enabled action) := by
  unfold Enabled
  cases action <;> dsimp only <;> try infer_instance
  split <;> infer_instance

def machine (values : FetchedValues V) (nullVariant : V) :
    Machine (Surroundings V) (Action V) where
  init := {}
  enabled := Enabled
  step := step values nullVariant

end Surroundings

end NodeFetcherImpl

end ScadaCommon
