import Mathlib.Data.Finset.Basic
import Mathlib.Logic.Function.Basic
import ScadaCommon.Foundation.Machine
import ScadaCommon.NodeService.V3.NodeModelImpl

/-!
# The v3 node service

`NodeServiceImpl` hands out node models, starts their fetches and applies the
results. Models are shared objects: the registry refers to them weakly, and a
model lives as long as something holds it. The coroutines that fetch, the calls
of `Fetch` that wait and the functions that notify observers half-way are part
of the state; each goes on in a step of its own, so that whatever observers and
resumed coroutines do comes in between.

§1 the state · §2 holders · §3 models and the keep-alive window · §4 requests ·
§5 results · §6 the machine.
-/

namespace ScadaCommon.V3

open Foundation

/-! ## §1  The state -/

/-- The part of `NodeServiceImplContext` that is used, and the standard
`HasSubtype` reference type. -/
structure NodeServiceImplContext where
  keepAliveCapacity : ℕ := 4096
  hasSubtype : NodeId

structure PendingNodeFetch where
  status : NodeFetchStatus
  model : Option ModelId
deriving DecidableEq

/-- A coroutine of `SpawnFetch` that waits for the fetcher. -/
structure FetchCoroutine where
  nodeId : NodeId
  pin : Option ModelId
deriving DecidableEq

/-- `ProcessFetchedNodes` at work on a model: the references whose targets have
not been told, and whether only the callbacks are left. -/
structure FetchedNode where
  model : ModelId
  references : List ReferenceDescription
  applied : Bool := false
deriving DecidableEq

/-- The coroutine of `OnChildrenFetched`: the nodes it has still to fetch, the
`Fetch` it waits for, and `self` once that is locked. -/
structure ChildrenTail where
  model : ModelId
  request : RequestId
  nodeId : NodeId
  references : List ReferenceDescription
  remaining : List NodeId
  waiting : Option FetchId := none
  self : Option ModelId := none
deriving DecidableEq

/-- A call of `NodeServiceImpl::Fetch` that waits for its callback. -/
structure FetchCall where
  id : FetchId
  model : ModelId
deriving DecidableEq

structure NodeServiceImpl where
  models : ModelId → NodeModelImpl := fun _ => {}
  nextModel : ModelId := 0
  registry : NodeId → Option ModelId := fun _ => none
  /-- The list nodes with their addresses, which the index has for iterators. -/
  keepAliveList : List (ℕ × ModelId) := []
  keepAliveIndex : NodeId → Option ℕ := fun _ => none
  nextEntry : ℕ := 0
  channelOpened : Bool := false
  pendingFetchNodes : List (NodeId × PendingNodeFetch) := []
  nodeFetchInFlight : Finset NodeId := ∅
  childrenFetchInFlight : Finset NodeId := ∅
  nodeFetches : List FetchCoroutine := []
  childrenFetches : List FetchCoroutine := []
  fetchedNodes : List FetchedNode := []
  childrenTails : List ChildrenTail := []
  nextRequest : RequestId := 0
  fetchCalls : List FetchCall := []
  nextFetch : FetchId := 0
  /-- Callbacks taken out of their models and not yet run. -/
  callbacks : List FetchId := []
  /-- Models held by the functions on the stack. -/
  frames : List ModelId := []

namespace NodeServiceImpl

/-! ## §2  Holders -/

/-- The models something holds, by the places where shared pointers are. -/
def holders (w : NodeServiceImpl) : List ModelId :=
  w.frames ++ w.keepAliveList.map (·.2) ++ w.pendingFetchNodes.filterMap (·.2.model) ++
    w.nodeFetches.filterMap (·.pin) ++ w.childrenFetches.filterMap (·.pin) ++
    w.fetchedNodes.map (·.model) ++ w.childrenTails.filterMap (·.self) ++
    w.fetchCalls.map (·.model)

/-- A model without a holder has been destroyed. -/
def Live (w : NodeServiceImpl) (m : ModelId) : Prop := m ∈ w.holders

instance (w : NodeServiceImpl) (m : ModelId) : Decidable (w.Live m) :=
  inferInstanceAs (Decidable (_ ∈ _))

/-- The entry of a destroyed model is expired, whether or not its destructor has
erased it. -/
def findNodeModel (w : NodeServiceImpl) (nodeId : NodeId) : Option ModelId :=
  (w.registry nodeId).filter (w.Live ·)

/-- `reference_request.lock()`: the flag dies with its model or with the next
request. -/
def Current (w : NodeServiceImpl) (tail : ChildrenTail) : Prop :=
  w.Live tail.model ∧ (w.models tail.model).referenceRequest = some tail.request

instance (w : NodeServiceImpl) (tail : ChildrenTail) : Decidable (w.Current tail) :=
  inferInstanceAs (Decidable (_ ∧ _))

/-- Returns from the functions on the stack. -/
def unwind (w : NodeServiceImpl) : NodeServiceImpl := { w with frames := [] }

/-- Replaces a model, with the callbacks its function takes out. -/
def change (w : NodeServiceImpl) (m : ModelId) (result : NodeModelImpl × List FetchId) :
    NodeServiceImpl :=
  { w with
    models := Function.update w.models m result.1
    callbacks := w.callbacks ++ result.2 }

/-! ## §3  Models and the keep-alive window -/

/-- The loop of `TouchKeepAlive` that releases the models at the back. -/
def releaseExcess (capacity : ℕ) : ℕ → NodeServiceImpl → NodeServiceImpl
  | 0, w => w
  | fuel + 1, w =>
      if w.keepAliveList.length ≤ capacity then w
      else
        match w.keepAliveList.getLast? with
        | none => w
        | some back =>
            releaseExcess capacity fuel
              { w with
                keepAliveIndex := Function.update w.keepAliveIndex (w.models back.2).nodeId none
                keepAliveList := w.keepAliveList.dropLast }

def touchKeepAlive (context : NodeServiceImplContext) (w : NodeServiceImpl) (m : ModelId) :
    NodeServiceImpl :=
  if context.keepAliveCapacity = 0 then w
  else
    let nodeId := (w.models m).nodeId
    match w.keepAliveIndex nodeId with
    | some entry =>
        { w with
          keepAliveList := w.keepAliveList.filter (·.1 = entry) ++
            w.keepAliveList.filter (·.1 ≠ entry) }
    | none =>
        releaseExcess context.keepAliveCapacity (w.keepAliveList.length + 1)
          { w with
            keepAliveIndex := Function.update w.keepAliveIndex nodeId (some w.nextEntry)
            keepAliveList := (w.nextEntry, m) :: w.keepAliveList
            nextEntry := w.nextEntry + 1 }

def removeFromKeepAlive (w : NodeServiceImpl) (nodeId : NodeId) : NodeServiceImpl :=
  match w.keepAliveIndex nodeId with
  | some entry =>
      { w with
        keepAliveIndex := Function.update w.keepAliveIndex nodeId none
        keepAliveList := w.keepAliveList.filter (·.1 ≠ entry) }
  | none => w

/-- A new model, registered and held. -/
def makeModel (w : NodeServiceImpl) (nodeId : NodeId) : NodeServiceImpl :=
  { w with
    models := Function.update w.models w.nextModel { nodeId }
    nextModel := w.nextModel + 1
    registry := Function.update w.registry nodeId (some w.nextModel)
    frames := w.nextModel :: w.frames }

def getNodeModel (context : NodeServiceImplContext) (w : NodeServiceImpl) (nodeId : NodeId) :
    Option ModelId × NodeServiceImpl :=
  if nodeId = .null then (none, w)
  else
    match w.findNodeModel nodeId with
    | some m => (some m, touchKeepAlive context { w with frames := m :: w.frames } m)
    | none => (some w.nextModel, touchKeepAlive context (w.makeModel nodeId) w.nextModel)

/-! ## §4  Requests -/

/-- `pending_fetch_nodes_[node_id]` after a request; the order of the map is that
of the first requests. -/
def queueFetch (nodeId : NodeId) (requestedStatus : NodeFetchStatus) (model : Option ModelId) :
    List (NodeId × PendingNodeFetch) → List (NodeId × PendingNodeFetch)
  | [] => [(nodeId, ⟨requestedStatus, model⟩)]
  | (id, pending) :: rest =>
      if id = nodeId then
        (id, ⟨pending.status ∪ requestedStatus, pending.model <|> model⟩) :: rest
      else (id, pending) :: queueFetch nodeId requestedStatus model rest

def spawnNodeFetch (w : NodeServiceImpl) (nodeId : NodeId) (requestedStatus : NodeFetchStatus)
    (model : Option ModelId) : NodeServiceImpl :=
  if requestedStatus.Includes .nodeOnly ∧ nodeId ∉ w.nodeFetchInFlight then
    { w with
      nodeFetchInFlight := insert nodeId w.nodeFetchInFlight
      nodeFetches := w.nodeFetches ++ [⟨nodeId, model⟩] }
  else w

def spawnChildrenFetch (w : NodeServiceImpl) (nodeId : NodeId)
    (requestedStatus : NodeFetchStatus) (model : Option ModelId) : NodeServiceImpl :=
  if requestedStatus.Includes .childrenOnly ∧ nodeId ∉ w.childrenFetchInFlight then
    { w with
      childrenFetchInFlight := insert nodeId w.childrenFetchInFlight
      childrenFetches := w.childrenFetches ++ [⟨nodeId, model⟩] }
  else w

def spawnFetch (w : NodeServiceImpl) (nodeId : NodeId) (requestedStatus : NodeFetchStatus)
    (model : Option ModelId) : NodeServiceImpl :=
  (w.spawnNodeFetch nodeId requestedStatus model).spawnChildrenFetch nodeId requestedStatus model

def onFetchNode (w : NodeServiceImpl) (nodeId : NodeId) (requestedStatus : NodeFetchStatus) :
    NodeServiceImpl :=
  if !w.channelOpened then
    { w with
      pendingFetchNodes :=
        queueFetch nodeId requestedStatus (w.findNodeModel nodeId) w.pendingFetchNodes }
  else w.spawnFetch nodeId requestedStatus (w.findNodeModel nodeId)

/-- `StartFetch` of a model, up to `OnFetchRequested`. -/
def beginFetch (w : NodeServiceImpl) (m : ModelId) (requestedStatus : NodeFetchStatus)
    (callback : Option FetchId) : NodeServiceImpl :=
  let (base, callbacks, _) := (w.models m).startFetch requestedStatus callback
  w.change m ((w.models m).withBase (base, callbacks))

/-- `StartFetch` of a model. -/
def startFetchOf (w : NodeServiceImpl) (m : ModelId) (requestedStatus : NodeFetchStatus)
    (callback : Option FetchId) : NodeServiceImpl :=
  let started := w.beginFetch m requestedStatus callback
  match ((w.models m).startFetch requestedStatus callback).2.2 with
  | none => started
  | some fetchingStatus => started.onFetchNode (w.models m).nodeId fetchingStatus

section

variable (context : NodeServiceImplContext)

def getNodeModelForRead (w : NodeServiceImpl) (nodeId : NodeId) :
    Option ModelId × NodeServiceImpl :=
  match w.getNodeModel context nodeId with
  | (some m, w) => (some m, w.startFetchOf m .nodeOnly none)
  | (none, w) => (none, w)

/-- `GetNode`, and every function that reads through a node. -/
def getNode (w : NodeServiceImpl) (nodeId : NodeId) : NodeServiceImpl :=
  (w.getNodeModelForRead context nodeId).2

def startFetch (w : NodeServiceImpl) (nodeId : NodeId) (requestedStatus : NodeFetchStatus) :
    NodeServiceImpl :=
  match w.getNodeModel context nodeId with
  | (some m, w) => w.startFetchOf m requestedStatus none
  | (none, w) => w

/-- `Fetch` of a model that `Fetch` of the service has got. -/
def awaitFetch (w : NodeServiceImpl) (m : ModelId) (requestedStatus : NodeFetchStatus) :
    NodeServiceImpl :=
  let waiting : NodeServiceImpl := { w with
    fetchCalls := w.fetchCalls ++ [⟨w.nextFetch, m⟩]
    nextFetch := w.nextFetch + 1 }
  waiting.startFetchOf m requestedStatus (some w.nextFetch)

/-- `Fetch` up to where it waits, with what it waits for. -/
def fetch (w : NodeServiceImpl) (nodeId : NodeId) (requestedStatus : NodeFetchStatus) :
    Option FetchId × NodeServiceImpl :=
  match w.getNodeModelForRead context nodeId with
  | (some m, w) => (some w.nextFetch, w.awaitFetch m requestedStatus)
  | (none, w) => (none, w)

end

/-- A callback runs: its `Fetch` returns to whatever awaits it. -/
def resume (w : NodeServiceImpl) (callback : FetchId) : NodeServiceImpl :=
  { w with
    callbacks := w.callbacks.erase callback
    fetchCalls := w.fetchCalls.filter (·.id ≠ callback)
    childrenTails := w.childrenTails.map fun tail =>
      if tail.waiting = some callback then { tail with waiting := none } else tail }

/-! ## §5  Results -/

def processFetchError (w : NodeServiceImpl) (nodeId : NodeId) (status : Status) :
    NodeServiceImpl :=
  match w.findNodeModel nodeId with
  | some m => w.change m ((w.models m).onFetchError status)
  | none => w

/-- `ProcessFetchedNodes` with the beginning of `OnFetched`. -/
def beginFetchedNode (context : NodeServiceImplContext) (w : NodeServiceImpl) (state : NodeState) :
    NodeServiceImpl :=
  match w.findNodeModel state.nodeId with
  | some m =>
      let model := (w.models m).receiveState context.hasSubtype state
      { w.change m (model, []) with
        fetchedNodes := w.fetchedNodes ++ [⟨m, model.nodeState.references, false⟩] }
  | none => w

/-- The node coroutine of `SpawnFetch` after its fetch. -/
def nodeFetched (context : NodeServiceImplContext) (w : NodeServiceImpl) (coroutine : FetchCoroutine)
    (result : Except Status NodeState) : NodeServiceImpl :=
  let done := { w with
    nodeFetchInFlight := w.nodeFetchInFlight.erase coroutine.nodeId
    frames := coroutine.pin.toList
    nodeFetches := w.nodeFetches.erase coroutine }
  match coroutine.pin, result with
  | none, _ => done
  | some _, .ok state => done.beginFetchedNode context state
  | some _, .error status => done.processFetchError coroutine.nodeId status

/-- Pushes a reference of a fetched model into its target. -/
def pushMirror (w : NodeServiceImpl) (m : ModelId) (reference : ReferenceDescription) :
    NodeServiceImpl :=
  let nodeId := (w.models m).nodeId
  if reference.nodeId = nodeId then w
  else
    match w.findNodeModel reference.nodeId with
    | some target =>
        w.change target ((w.models target).pushReference (reference.mirror nodeId), [])
    | none => w

/-- `ProcessFetchedNodes` goes on, up to where it notifies observers next. -/
def processFetchedNode (w : NodeServiceImpl) (node : FetchedNode) : Option NodeServiceImpl :=
  let rest := w.fetchedNodes.erase node
  match node.applied, node.references with
  | false, reference :: references =>
      some { w.pushMirror node.model reference with
        fetchedNodes := { node with references } :: rest }
  | false, [] => do
      let result ← (w.models node.model).applyState
      return { w.change node.model result with
        fetchedNodes := { node with applied := true } :: rest }
  | true, _ =>
      some { w.change node.model (w.models node.model).completeFetch with fetchedNodes := rest }

/-- `OnChildrenFetched`. -/
def onChildrenFetched (w : NodeServiceImpl) (m : ModelId)
    (references : List ReferenceDescription) : NodeServiceImpl :=
  { w.change m ((w.models m).beginChildren w.nextRequest, []) with
    nextRequest := w.nextRequest + 1
    childrenTails := w.childrenTails ++
      [{ model := m
         request := w.nextRequest
         nodeId := (w.models m).nodeId
         references
         remaining := references.flatMap fun reference =>
           [reference.nodeId, reference.referenceTypeId] }] }

/-- The children coroutine of `SpawnFetch` after its fetch, with
`ProcessFetchedChildren`. -/
def childrenFetched (w : NodeServiceImpl) (coroutine : FetchCoroutine)
    (result : Except Status (List ReferenceDescription)) : NodeServiceImpl :=
  let done := { w with
    frames := coroutine.pin.toList
    childrenFetches := w.childrenFetches.erase coroutine }
  let settled := { done with
    childrenFetchInFlight := w.childrenFetchInFlight.erase coroutine.nodeId }
  match coroutine.pin, result with
  | none, _ => settled
  | some _, .ok references =>
      match done.findNodeModel coroutine.nodeId with
      | some m => done.onChildrenFetched m references
      | none => settled
  | some _, .error status => settled.processFetchError coroutine.nodeId status

/-- The tail gets its next node and awaits its fetch. -/
def fetchNextChild (context : NodeServiceImplContext) (w : NodeServiceImpl) (tail : ChildrenTail) :
    NodeServiceImpl :=
  match tail.remaining with
  | [] => w
  | nodeId :: remaining =>
      let (waiting, w) := (w.getNode context nodeId).fetch context nodeId .nodeOnly
      { w with
        childrenTails := { tail with remaining, waiting } :: w.childrenTails.erase tail }

/-- `ChildrenFetchSettled`, at the end of a tail. -/
def settleChildren (w : NodeServiceImpl) (tail : ChildrenTail) : NodeServiceImpl :=
  { w with
    childrenFetchInFlight := w.childrenFetchInFlight.erase tail.nodeId
    childrenTails := w.childrenTails.erase tail }

/-- The tail has fetched its nodes. It applies the children, up to where the
callbacks run, or gives up. -/
def finishChildren (w : NodeServiceImpl) (tail : ChildrenTail) : NodeServiceImpl :=
  if w.Current tail then
    { w.change tail.model ((w.models tail.model).applyChildren tail.references) with
      childrenTails := { tail with self := some tail.model } :: w.childrenTails.erase tail }
  else w.settleChildren tail

def onModelChanged (w : NodeServiceImpl) (nodeId : NodeId) (verb : ModelChangeVerb) :
    NodeServiceImpl :=
  if verb.nodeDeleted then
    let w :=
      match w.findNodeModel nodeId with
      | some m => w.change m ((w.models m).onModelChanged verb)
      | none => w
    w.removeFromKeepAlive nodeId
  else if verb.nodeAdded then w
  else
    match w.findNodeModel nodeId with
    | some m => w.change m ((w.models m).onModelChanged verb)
    | none => w

/-- The loop of `OnChannelOpened`. -/
def spawnPending : List (NodeId × PendingNodeFetch) → NodeServiceImpl → NodeServiceImpl
  | [], w => w
  | (nodeId, pending) :: rest, w =>
      spawnPending rest (w.spawnFetch nodeId pending.status pending.model)

def onChannelOpened (w : NodeServiceImpl) : Option NodeServiceImpl := do
  check (w.channelOpened = false)
  return spawnPending w.pendingFetchNodes
    { w with
      channelOpened := true
      pendingFetchNodes := []
      frames := w.pendingFetchNodes.filterMap (·.2.model) }

def onChannelClosed (w : NodeServiceImpl) : Option NodeServiceImpl := do
  check (w.channelOpened = true)
  check (w.pendingFetchNodes = [])
  return { w with channelOpened := false }

end NodeServiceImpl

/-! ## §6  The machine -/

inductive NodeServiceAction where
  | getNode (nodeId : NodeId)
  | startFetch (nodeId : NodeId) (requestedStatus : NodeFetchStatus)
  | fetch (nodeId : NodeId) (requestedStatus : NodeFetchStatus)
  | resume (callback : FetchId)
  | nodeFetched (coroutine : FetchCoroutine) (result : Except Status NodeState)
  | childrenFetched (coroutine : FetchCoroutine)
      (result : Except Status (List ReferenceDescription))
  | processFetchedNode (node : FetchedNode)
  | fetchNextChild (tail : ChildrenTail)
  | finishChildren (tail : ChildrenTail)
  | settleChildren (tail : ChildrenTail)
  | modelChanged (nodeId : NodeId) (verb : ModelChangeVerb)
  | channelOpened
  | channelClosed

namespace NodeServiceImpl

/-- What goes on must be there; a fetcher answers with the state of the node it
was asked for; the channel opens and closes in turns. -/
def enabled (w : NodeServiceImpl) : NodeServiceAction → Prop
  | .resume callback => callback ∈ w.callbacks
  | .nodeFetched coroutine result =>
      coroutine ∈ w.nodeFetches ∧ ∀ state ∈ result.toOption, state.nodeId = coroutine.nodeId
  | .childrenFetched coroutine _ => coroutine ∈ w.childrenFetches
  | .processFetchedNode node => node ∈ w.fetchedNodes
  | .fetchNextChild tail =>
      tail ∈ w.childrenTails ∧ tail.waiting = none ∧ tail.remaining ≠ [] ∧ tail.self = none
  | .finishChildren tail =>
      tail ∈ w.childrenTails ∧ tail.waiting = none ∧ tail.remaining = [] ∧ tail.self = none
  | .settleChildren tail => tail ∈ w.childrenTails ∧ tail.self ≠ none
  | .channelOpened => w.channelOpened = false
  | .channelClosed => w.channelOpened = true
  | _ => True

instance (w : NodeServiceImpl) (a : NodeServiceAction) : Decidable (w.enabled a) := by
  unfold enabled
  split <;> infer_instance

def run (context : NodeServiceImplContext) (w : NodeServiceImpl) :
    NodeServiceAction → Option NodeServiceImpl
  | .getNode nodeId => some (w.getNode context nodeId)
  | .startFetch nodeId requestedStatus => some (w.startFetch context nodeId requestedStatus)
  | .fetch nodeId requestedStatus => some (w.fetch context nodeId requestedStatus).2
  | .resume callback => some (w.resume callback)
  | .nodeFetched coroutine result => some (w.nodeFetched context coroutine result)
  | .childrenFetched coroutine result => some (w.childrenFetched coroutine result)
  | .processFetchedNode node => w.processFetchedNode node
  | .fetchNextChild tail => some (w.fetchNextChild context tail)
  | .finishChildren tail => some (w.finishChildren tail)
  | .settleChildren tail => some (w.settleChildren tail)
  | .modelChanged nodeId verb => some (w.onModelChanged nodeId verb)
  | .channelOpened => w.onChannelOpened
  | .channelClosed => w.onChannelClosed

/-- A step holds no model on the stack when it is done. -/
def step (context : NodeServiceImplContext) (w : NodeServiceImpl) (a : NodeServiceAction) :
    Option NodeServiceImpl :=
  (w.run context a).map unwind

end NodeServiceImpl

def nodeServiceMachine (context : NodeServiceImplContext) :
    Machine NodeServiceImpl NodeServiceAction :=
  ⟨{}, NodeServiceImpl.enabled, NodeServiceImpl.step context⟩

instance (context : NodeServiceImplContext) (w : NodeServiceImpl) (a : NodeServiceAction) :
    Decidable ((nodeServiceMachine context).enabled w a) :=
  inferInstanceAs (Decidable (w.enabled a))

end ScadaCommon.V3
