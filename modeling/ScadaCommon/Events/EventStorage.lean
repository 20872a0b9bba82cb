import Mathlib.Data.Finset.Basic
import ScadaCommon.Foundation.AssocMap
import ScadaCommon.Foundation.Machine
import ScadaCommon.Foundation.OrderedSet
import ScadaCommon.Scada.Basic

/-!
# The event storage

`EventStorage` holds the unacknowledged events by id and indexes them by source
node. The index holds pointers into the first map, in the order of the times
they lead to, so both sides change when an event does.

§1 events, pointers and their order · §2 the operations as the code has them ·
§3 what the contents are, over all of them · §4 runs.
-/

namespace ScadaCommon

open Foundation

/-! ## §1  Events and pointers -/

structure Event where
  eventId : EventId
  time : DateTime
  sourceNodeId : NodeId
  severity : ℕ
  acked : Bool
deriving DecidableEq

/-- The address of an element of `events`. -/
abbrev EventPtr := ℕ

structure StoredEvent where
  ptr : EventPtr
  event : Event
deriving DecidableEq

/-- Orders pointers by the times they lead to, then by address. -/
def EventComparer (timeOf : EventPtr → DateTime) (left right : EventPtr) : Prop :=
  if timeOf left < timeOf right then True
  else if timeOf right < timeOf left then False
  else left < right

instance (timeOf : EventPtr → DateTime) : DecidableRel (EventComparer timeOf) :=
  fun left right => by unfold EventComparer; infer_instance

theorem eventComparer_iff {timeOf : EventPtr → DateTime} {left right : EventPtr} :
    EventComparer timeOf left right ↔
      timeOf left < timeOf right ∨ timeOf left = timeOf right ∧ left < right := by
  unfold EventComparer
  split
  · simp_all
  · split
    · rename_i h
      simp [h.ne', h.le]
    · rename_i h h'
      simp [le_antisymm (not_lt.mp h') (not_lt.mp h)]

instance (timeOf : EventPtr → DateTime) : IsStrictTotalOrder EventPtr (EventComparer timeOf) where
  trichotomous left right hlr hrl := by
    rw [eventComparer_iff] at hlr hrl
    grind
  irrefl p := by simp [eventComparer_iff]
  trans a b c hab hbc := by
    rw [eventComparer_iff] at hab hbc ⊢
    grind

/-! ## §2  The storage -/

structure NodeEntry where
  events : List EventPtr
  observers : Finset ObserverId

/-- The calls one notification loop makes, one to each of the observers. -/
inductive Notification where
  | itemEventsChanged (observers : Finset ObserverId) (nodeId : NodeId) (events : List EventPtr)
  | events (observers : Finset ObserverId) (events : List EventPtr)
  | allEventsAcknowledged (observers : Finset ObserverId)

structure EventStorage where
  events : AssocMap EventId StoredEvent
  nodeEvents : AssocMap NodeId NodeEntry
  observers : Finset ObserverId
  alerting : Bool

namespace EventStorage

def empty : EventStorage := ⟨∅, ∅, ∅, false⟩

def getNodeEvents (s : EventStorage) (nodeId : NodeId) : Option (List EventPtr) :=
  (s.nodeEvents.lookup nodeId).map (·.events)

/-- The pointer refers to an element of `events`. -/
def Stores (s : EventStorage) (ptr : EventPtr) : Prop :=
  ∃ e ∈ s.events.entries, e.2.ptr = ptr

instance (s : EventStorage) (ptr : EventPtr) : Decidable (s.Stores ptr) :=
  inferInstanceAs (Decidable (∃ e ∈ s.events.entries, e.2.ptr = ptr))

def timeOf (s : EventStorage) (ptr : EventPtr) : DateTime :=
  match s.events.entries.find? fun e => e.2.ptr = ptr with
  | some e => e.2.event.time
  | none => .null

/-- `node_events_[node_id]`, before a default entry is stored there. -/
def nodeEntry (s : EventStorage) (nodeId : NodeId) : NodeEntry :=
  (s.nodeEvents.lookup nodeId).getD ⟨[], ∅⟩

def updateAlerting (s : EventStorage) : EventStorage × List Notification :=
  let alerting := decide (s.events.keys ≠ [])
  if s.alerting = alerting then (s, [])
  else ({ s with alerting }, [.allEventsAcknowledged s.observers])

/-- The indexing half of `Add`. Walking the set follows its pointers, so a
dangling one ends the run. -/
def addToNode (s : EventStorage) (ptr : EventPtr) (sourceNodeId : NodeId) :
    Option (EventStorage × List Notification) :=
  if sourceNodeId = .null then some (s, [])
  else do
    let entry := s.nodeEntry sourceNodeId
    check (∀ p ∈ entry.events, s.Stores p)
    let events := OrderedSet.insert (EventComparer s.timeOf) ptr entry.events
    return ({ s with nodeEvents := s.nodeEvents.insert sourceNodeId ⟨events, entry.observers⟩ },
      [.itemEventsChanged s.observers sourceNodeId events,
        .itemEventsChanged entry.observers sourceNodeId events])

/-- `ptr` is the address the map would give a new element. The third component
is the address of the element that holds the event. -/
def add (s : EventStorage) (ptr : EventPtr) (event : Event) :
    Option (EventStorage × List Notification × EventPtr) :=
  match s.events.lookup event.eventId with
  | some contained =>
      -- The stored event is replaced; the node events are left as they are.
      let s' := { s with events := s.events.insert event.eventId ⟨contained.ptr, event⟩ }
      let alerted := s'.updateAlerting
      some (alerted.1, alerted.2, contained.ptr)
  | none => do
      let s' := { s with events := s.events.insert event.eventId ⟨ptr, event⟩ }
      let indexed ← s'.addToNode ptr event.sourceNodeId
      let alerted := indexed.1.updateAlerting
      return (alerted.1, indexed.2 ++ alerted.2, ptr)

/-- The indexing half of `Remove`. -/
def removeFromNode (s : EventStorage) (ptr : EventPtr) (sourceNodeId : NodeId) :
    Option (EventStorage × List Notification) :=
  if sourceNodeId = .null then some (s, [])
  else
    match s.nodeEvents.lookup sourceNodeId with
    | none => some (s, [])
    | some entry => do
        check (∀ p ∈ entry.events, s.Stores p)
        let found := OrderedSet.find (EventComparer s.timeOf) ptr entry.events
        check (found.isSome = true)
        let events := entry.events.erase (found.getD ptr)
        let nodeEvents :=
          if events = [] ∧ entry.observers = ∅ then s.nodeEvents.erase sourceNodeId
          else s.nodeEvents.insert sourceNodeId ⟨events, entry.observers⟩
        return ({ s with nodeEvents },
          [.itemEventsChanged s.observers sourceNodeId events,
            .itemEventsChanged entry.observers sourceNodeId events])

/-- The third component is the address of the element taken out, if there was
one. -/
def remove (s : EventStorage) (event : Event) :
    Option (EventStorage × List Notification × Option EventPtr) :=
  match s.events.lookup event.eventId with
  | none => some (s, [], none)
  | some contained => do
      -- The new fields overwrite the stored ones before the set is searched.
      let s' := { s with events := s.events.insert event.eventId ⟨contained.ptr, event⟩ }
      let indexed ← s'.removeFromNode contained.ptr event.sourceNodeId
      let alerted :=
        { indexed.1 with events := indexed.1.events.erase event.eventId }.updateAlerting
      return (alerted.1, indexed.2 ++ alerted.2, some contained.ptr)

def clear (s : EventStorage) : EventStorage × List Notification :=
  let nodeEvents := s.nodeEvents.entries.filter fun e => e.2.observers ≠ ∅
  let changed := nodeEvents.flatMap fun e =>
    [.itemEventsChanged s.observers e.1 [], .itemEventsChanged e.2.observers e.1 []]
  let alerted := updateAlerting
    { s with
      events := ∅
      nodeEvents := AssocMap.filterMap
        (fun _ entry => if entry.observers = ∅ then none else some { entry with events := [] })
        s.nodeEvents }
  (alerted.1, changed ++ alerted.2)

/-- One round of the loop of `Update`: the storage, the notifications so far
and the addresses to notify about. -/
def updateOne (ptr : EventPtr) (event : Event) :
    EventStorage × List Notification × List EventPtr →
    Option (EventStorage × List Notification × List EventPtr)
  | (s, notifications, notifyEvents) =>
      if event.acked then do
        let (s, changed, node) ← s.remove event
        return (s, notifications ++ changed, notifyEvents ++ node.toList)
      else do
        let (s, changed, added) ← s.add ptr event
        return (s, notifications ++ changed, notifyEvents ++ [added])

/-- The loop of `Update`. Each event comes with the address its element would
get. -/
def updateLoop : List (EventPtr × Event) →
    EventStorage × List Notification × List EventPtr →
    Option (EventStorage × List Notification × List EventPtr)
  | [], acc => some acc
  | (ptr, event) :: events, acc => (updateOne ptr event acc).bind (updateLoop events)

def update (s : EventStorage) (events : List (EventPtr × Event)) :
    Option (EventStorage × List Notification) := do
  let (s, notifications, notifyEvents) ← updateLoop events (s, [], [])
  return (s, if notifyEvents = [] then notifications
    else notifications ++ [.events s.observers notifyEvents])

def addObserver (s : EventStorage) (observer : ObserverId) : EventStorage :=
  { s with observers := insert observer s.observers }

def removeObserver (s : EventStorage) (observer : ObserverId) : EventStorage :=
  { s with observers := s.observers.erase observer }

def addNodeObserver (s : EventStorage) (nodeId : NodeId) (observer : ObserverId) :
    EventStorage :=
  let entry := s.nodeEntry nodeId
  { s with
    nodeEvents := s.nodeEvents.insert nodeId ⟨entry.events, insert observer entry.observers⟩ }

def removeNodeObserver (s : EventStorage) (nodeId : NodeId) (observer : ObserverId) :
    EventStorage :=
  let entry := s.nodeEntry nodeId
  { s with
    nodeEvents := s.nodeEvents.insert nodeId ⟨entry.events, entry.observers.erase observer⟩ }

/-! ### The fields the operations leave alone -/

@[simp] theorem updateAlerting_events (s : EventStorage) :
    s.updateAlerting.1.events = s.events := by
  simp only [updateAlerting]
  split <;> rfl

@[simp] theorem updateAlerting_nodeEvents (s : EventStorage) :
    s.updateAlerting.1.nodeEvents = s.nodeEvents := by
  simp only [updateAlerting]
  split <;> rfl

theorem addToNode_events {s s' : EventStorage} {ptr : EventPtr} {sourceNodeId : NodeId}
    {changed : List Notification} (h : s.addToNode ptr sourceNodeId = some (s', changed)) :
    s'.events = s.events := by
  unfold addToNode at h
  split at h
  · cases h
    rfl
  · simp only [Option.bind_eq_bind, check_bind_eq_some] at h
    obtain ⟨-, hs⟩ := h
    cases hs
    rfl

theorem removeFromNode_events {s s' : EventStorage} {ptr : EventPtr} {sourceNodeId : NodeId}
    {changed : List Notification} (h : s.removeFromNode ptr sourceNodeId = some (s', changed)) :
    s'.events = s.events := by
  unfold removeFromNode at h
  split at h
  · cases h
    rfl
  · split at h
    · cases h
      rfl
    · simp only [Option.bind_eq_bind, check_bind_eq_some] at h
      obtain ⟨-, -, hs⟩ := h
      cases hs
      rfl

/-! ## §3  The contents

What the storage is for, whatever the index does: the last unacknowledged
delivery of every id, forgotten once its acknowledgement is delivered. -/

def stored (s : EventStorage) (id : EventId) : Option StoredEvent :=
  s.events.lookup id

def contents (s : EventStorage) (id : EventId) : Option Event :=
  (s.stored id).map (·.event)

/-- The abstract storage after one more delivery. -/
def deliver (contents : EventId → Option Event) (event : Event) : EventId → Option Event :=
  Function.update contents event.eventId (if event.acked then none else some event)

/-- The same with the addresses: a stored event keeps its own. -/
def deliverAt (stored : EventId → Option StoredEvent) (ptr : EventPtr) (event : Event) :
    EventId → Option StoredEvent :=
  Function.update stored event.eventId
    (if event.acked then none
      else some ⟨((stored event.eventId).map (·.ptr)).getD ptr, event⟩)

theorem stored_insert {s s' : EventStorage} {id : EventId} {e : StoredEvent}
    (h : s'.events = s.events.insert id e) :
    s'.stored = Function.update s.stored id (some e) := by
  funext id'
  unfold stored
  rw [h]
  by_cases hid : id' = id
  · subst hid
    rw [AList.lookup_insert, Function.update_self]
  · rw [AList.lookup_insert_ne hid, Function.update_of_ne hid]

theorem stored_erase {s s' : EventStorage} {id : EventId}
    (h : s'.events = s.events.erase id) :
    s'.stored = Function.update s.stored id none := by
  funext id'
  unfold stored
  rw [h]
  by_cases hid : id' = id
  · subst hid
    rw [AList.lookup_erase, Function.update_self]
  · rw [AList.lookup_erase_ne hid, Function.update_of_ne hid]

theorem add_stored {s s' : EventStorage} {ptr added : EventPtr} {event : Event}
    {notifications : List Notification}
    (h : s.add ptr event = some (s', notifications, added)) :
    s'.stored = Function.update s.stored event.eventId
      (some ⟨((s.stored event.eventId).map (·.ptr)).getD ptr, event⟩) := by
  unfold add at h
  split at h
  · rename_i contained hc
    cases h
    rw [stored, hc]
    exact stored_insert (updateAlerting_events _)
  · rename_i hnew
    obtain ⟨⟨s₁, changed⟩, hs₁, hs'⟩ := Option.bind_eq_some_iff.mp h
    cases hs'
    rw [stored, hnew]
    exact stored_insert ((updateAlerting_events _).trans (addToNode_events hs₁))

theorem remove_stored {s s' : EventStorage} {event : Event} {node : Option EventPtr}
    {notifications : List Notification}
    (h : s.remove event = some (s', notifications, node)) :
    s'.stored = Function.update s.stored event.eventId none := by
  unfold remove at h
  split at h
  · rename_i hnone
    cases h
    change s.stored event.eventId = none at hnone
    rw [← hnone, Function.update_eq_self]
  · obtain ⟨⟨s₁, changed⟩, hs₁, hs'⟩ := Option.bind_eq_some_iff.mp h
    cases hs'
    rw [stored_erase (s := s₁) (updateAlerting_events _),
      stored_insert (removeFromNode_events hs₁), Function.update_idem]

theorem updateOne_stored {ptr : EventPtr} {event : Event}
    {acc acc' : EventStorage × List Notification × List EventPtr}
    (h : updateOne ptr event acc = some acc') :
    acc'.1.stored = deliverAt acc.1.stored ptr event := by
  unfold deliverAt
  simp only [updateOne] at h
  split at h
  · rename_i hacked
    obtain ⟨⟨s', changed, node⟩, hs', hacc⟩ := Option.bind_eq_some_iff.mp h
    cases hacc
    rw [remove_stored hs', if_pos hacked]
  · rename_i hacked
    obtain ⟨⟨s', changed, added⟩, hs', hacc⟩ := Option.bind_eq_some_iff.mp h
    cases hacc
    rw [add_stored hs', if_neg hacked]

theorem contents_deliverAt (stored : EventId → Option StoredEvent) (ptr : EventPtr)
    (event : Event) :
    (fun id => (deliverAt stored ptr event id).map (·.event)) =
      deliver (fun id => (stored id).map (·.event)) event := by
  funext id
  unfold deliverAt deliver
  by_cases hid : id = event.eventId
  · subst hid
    simp only [Function.update_self]
    split <;> rfl
  · simp only [Function.update_of_ne hid]

theorem updateLoop_contents {events : List (EventPtr × Event)}
    {acc acc' : EventStorage × List Notification × List EventPtr}
    (h : updateLoop events acc = some acc') :
    acc'.1.contents = (events.map Prod.snd).foldl deliver acc.1.contents := by
  induction events generalizing acc with
  | nil =>
      cases h
      rfl
  | cons e events ih =>
      obtain ⟨ptr, event⟩ := e
      obtain ⟨acc₁, hone, hrest⟩ := Option.bind_eq_some_iff.mp h
      have hone : acc₁.1.contents = deliver acc.1.contents event := by
        unfold contents
        rw [updateOne_stored hone]
        exact contents_deliverAt _ _ _
      rw [ih hrest, hone, List.map_cons, List.foldl_cons]

/-- A batch of unacknowledged events adds its own and keeps the rest. -/
theorem foldl_deliver_unacked {events : List Event} (hun : ∀ e ∈ events, e.acked = false)
    (stored : EventId → Option Event) (id : EventId) :
    (events.foldl deliver stored id).isSome = true ↔
      (stored id).isSome = true ∨ ∃ e ∈ events, e.eventId = id := by
  induction events generalizing stored with
  | nil => simp
  | cons e events ih =>
      have hrest : ∀ e ∈ events, e.acked = false :=
        fun e he => hun e (List.mem_cons_of_mem _ he)
      have he : e.acked = false := hun e (List.mem_cons_self ..)
      rw [List.foldl_cons, ih hrest]
      by_cases hid : id = e.eventId
      · subst hid
        simp [deliver, he]
      · simp [deliver, Function.update_of_ne hid, Ne.symm hid]

/-- What is stored after a batch was stored before or is in the batch. -/
theorem foldl_deliver_mem {events : List Event} {stored : EventId → Option Event}
    {id : EventId} {e : Event} (h : events.foldl deliver stored id = some e) :
    stored id = some e ∨ e ∈ events ∧ e.eventId = id ∧ e.acked = false := by
  induction events generalizing stored with
  | nil => exact Or.inl h
  | cons first events ih =>
      rw [List.foldl_cons] at h
      rcases ih h with hold | ⟨hmem, hrest⟩
      · unfold deliver at hold
        by_cases hid : id = first.eventId
        · subst hid
          rw [Function.update_self] at hold
          split at hold
          · cases hold
          · rename_i hacked
            cases hold
            exact Or.inr ⟨List.mem_cons_self .., rfl, by simpa using hacked⟩
        · rw [Function.update_of_ne hid] at hold
          exact Or.inl hold
      · exact Or.inr ⟨List.mem_cons_of_mem _ hmem, hrest⟩

/-- **`Update` delivers its events in order.** -/
theorem update_contents {s s' : EventStorage} {events : List (EventPtr × Event)}
    {notifications : List Notification} (h : s.update events = some (s', notifications)) :
    s'.contents = (events.map Prod.snd).foldl deliver s.contents := by
  obtain ⟨⟨s₁, n, e⟩, hloop, hs'⟩ := Option.bind_eq_some_iff.mp h
  cases hs'
  exact updateLoop_contents hloop

theorem clear_contents (s : EventStorage) : s.clear.1.contents = fun _ => none := by
  funext id
  simp [clear, contents, stored]

end EventStorage

/-! ## §4  Runs -/

inductive StorageOp where
  /-- Each event comes with the address the allocator would give it. -/
  | update (events : List (EventPtr × Event))
  | clear
  | addObserver (observer : ObserverId)
  | removeObserver (observer : ObserverId)
  | addNodeObserver (nodeId : NodeId) (observer : ObserverId)
  | removeNodeObserver (nodeId : NodeId) (observer : ObserverId)

/-- The storage and the notifications it has made so far. -/
structure StorageRun where
  storage : EventStorage
  notifications : List Notification

namespace StorageRun

/-- The allocator gives an address no element has; `Update` keeps the elements
it takes out until it ends, so the addresses of one batch differ. -/
def enabled (r : StorageRun) : StorageOp → Prop
  | .update events => (events.map Prod.fst).Nodup ∧ ∀ e ∈ events, ¬ r.storage.Stores e.1
  | _ => True

instance (r : StorageRun) (op : StorageOp) : Decidable (r.enabled op) := by
  cases op <;> unfold enabled <;> infer_instance

def step (r : StorageRun) : StorageOp → Option StorageRun
  | .update events => do
      let (storage, notifications) ← r.storage.update events
      return ⟨storage, r.notifications ++ notifications⟩
  | .clear => some ⟨r.storage.clear.1, r.notifications ++ r.storage.clear.2⟩
  | .addObserver observer => some { r with storage := r.storage.addObserver observer }
  | .removeObserver observer => some { r with storage := r.storage.removeObserver observer }
  | .addNodeObserver nodeId observer =>
      some { r with storage := r.storage.addNodeObserver nodeId observer }
  | .removeNodeObserver nodeId observer =>
      some { r with storage := r.storage.removeNodeObserver nodeId observer }

end StorageRun

def storageMachine : Machine StorageRun StorageOp where
  init := ⟨.empty, []⟩
  enabled := StorageRun.enabled
  step := StorageRun.step

instance (r : StorageRun) (op : StorageOp) : Decidable (storageMachine.enabled r op) :=
  inferInstanceAs (Decidable (r.enabled op))

end ScadaCommon
