import ScadaCommon.Events.EventAckQueueRuns
import ScadaCommon.Events.EventFetcher
import ScadaCommon.Events.EventStorageIndex
import ScadaCommon.Foundation.LiveLoops

/-!
# Acknowledging a group of events

`AcknowledgeItemEvents` and `AcknowledgeAllEvents` walk over the stored events and hand
each to the acknowledgement queue. With an executor that runs what is dispatched at
once, a round may get as far as the server and back: its confirmation takes events out
of the container that the loop is on.

§1 the loop · §2 the machine · §3 what a round must not do · §4 where iterators get to ·
§5 what a delivery keeps · §6 each event is acknowledged once.
-/

namespace ScadaCommon

open Foundation

/-! ## §1  The loop -/

/-- The events of a node, or all. -/
inductive EventGroup where
  | item (nodeId : NodeId)
  | all
deriving DecidableEq

/-- A call: the events present when it began, and those handed to the queue. -/
structure AckedGroup where
  present : List EventId
  passed : List EventId := []
deriving DecidableEq

/-- A call whose loop is at work. -/
structure AckLoop extends AckedGroup where
  group : EventGroup
  /-- The event that the iterator is on. -/
  current : EventId
  /-- It has not been erased. -/
  intact : Bool := true
deriving DecidableEq

namespace EventStorage

/-- `event->event_id`; there may be no event under a pointer. -/
def eventIdOf (s : EventStorage) (ptr : EventPtr) : Option EventId :=
  (s.events.entries.find? fun e => e.2.ptr = ptr).map (·.2.event.eventId)

def eventsIn (s : EventStorage) : EventGroup → List EventId
  | .item nodeId => (s.nodeEntry nodeId).events.filterMap s.eventIdOf
  | .all => s.events.keys

/-- The event under an iterator over a set, if that is not at the end. -/
def readAt (s : EventStorage) : Option EventPtr → Option (Option EventId)
  | none => some none
  | some ptr => (s.eventIdOf ptr).map some

/-- Where a loop begins. -/
def firstIn (s : EventStorage) : EventGroup → Option (Option EventId)
  | .item nodeId => s.readAt (s.nodeEntry nodeId).events.head?
  | .all => some (firstOf s.events.keys.toFinset)

/-- Where a loop goes on. -/
def nextIn (s : EventStorage) (current : EventId) : EventGroup → Option (Option EventId)
  | .item nodeId => do
      let stored ← s.stored current
      s.readAt (OrderedSet.next stored.ptr (s.nodeEntry nodeId).events)
  | .all => some (nextOf s.events.keys.toFinset current)

end EventStorage

/-- What a batch does to the iterator. -/
def AckLoop.delivered (loop : AckLoop) (events : List (EventPtr × Event)) : AckLoop :=
  { loop with
    intact := loop.intact ∧ ¬ ∃ e ∈ events, e.2.acked = true ∧ e.2.eventId = loop.current }

/-! ## §2  The machine -/

structure AckingFetcher where
  fetcher : EventFetcher
  loop : Option AckLoop := none
  finished : List AckedGroup := []

inductive AckingAction where
  /-- `AcknowledgeItemEvents` or `AcknowledgeAllEvents`. -/
  | acknowledge (group : EventGroup)
  /-- A round of the loop is done. -/
  | roundDone
  | systemEvents (events : List (EventPtr × Event))
  | ackDispatch
  | ackCallDone (call : ℕ) (good : Bool)

namespace AckingFetcher

abbrev storage (w : AckingFetcher) : EventStorage := w.fetcher.eventStorage.storage

/-- The loop gets to an event, or to its end. -/
def enter (w : AckingFetcher) (group : EventGroup) (call : AckedGroup) :
    Option EventId → Option AckingFetcher
  | none => some { w with loop := none, finished := w.finished ++ [call] }
  | some id => do
      let eventAckQueue ← w.fetcher.eventAckQueue.step (.ack id)
      return { w with
        fetcher := { w.fetcher with eventAckQueue }
        loop := some {
          present := call.present
          passed := call.passed ++ [id]
          group
          current := id } }

def enabled (w : AckingFetcher) : AckingAction → Prop
  | .acknowledge _ => w.loop.isNone = true
  | .roundDone => w.loop.isSome = true
  | .systemEvents events => w.fetcher.eventStorage.enabled (.update events)
  | .ackDispatch => w.fetcher.eventAckQueue.enabled .dispatch
  | .ackCallDone call good => w.fetcher.eventAckQueue.enabled (.callDone call good)

instance (w : AckingFetcher) (a : AckingAction) : Decidable (w.enabled a) := by
  cases a <;> unfold enabled <;> infer_instance

def ackStep (w : AckingFetcher) (op : AckOp) : Option AckingFetcher := do
  let eventAckQueue ← w.fetcher.eventAckQueue.step op
  return { w with fetcher := { w.fetcher with eventAckQueue } }

/-- The events of a batch that get to the storage. -/
def filtered (w : AckingFetcher) (events : List (EventPtr × Event)) : List (EventPtr × Event) :=
  events.filter fun e => w.fetcher.severityMin ≤ e.2.severity

def step (w : AckingFetcher) : AckingAction → Option AckingFetcher
  | .acknowledge group => do
      let first ← w.storage.firstIn group
      w.enter group { present := w.storage.eventsIn group } first
  | .roundDone => do
      let loop ← w.loop
      check (loop.intact = true)
      let next ← w.storage.nextIn loop.current loop.group
      w.enter loop.group loop.toAckedGroup next
  | .systemEvents events => do
      let fetcher ← w.fetcher.onSystemEvents events
      return { w with fetcher, loop := w.loop.map (·.delivered (w.filtered events)) }
  | .ackDispatch => w.ackStep .dispatch
  | .ackCallDone call good => w.ackStep (.callDone call good)

end AckingFetcher

def ackingMachine (range : SeverityRange) : Machine AckingFetcher AckingAction :=
  ⟨{ fetcher := .init range }, AckingFetcher.enabled, AckingFetcher.step⟩

instance (range : SeverityRange) (w : AckingFetcher) (a : AckingAction) :
    Decidable ((ackingMachine range).enabled w a) :=
  inferInstanceAs (Decidable (w.enabled a))

/-! ## §3  What a round must not do -/

def EventGroup.Has : EventGroup → Event → Prop
  | .item nodeId, event => nodeId ≠ .null ∧ event.sourceNodeId = nodeId
  | .all, _ => True

/-- The order of the container. -/
def EventGroup.Before : EventGroup → StoredEvent → StoredEvent → Prop
  | .item _, e, e' => EventStorage.Precedes e e'
  | .all, e, e' => e.event.eventId < e'.event.eventId

/-- The loop has still to come to an event when it is on another. -/
def StillToCome (stored : EventId → Option StoredEvent) (group : EventGroup)
    (current id : EventId) : Prop :=
  ∃ e e', stored current = some e ∧ stored id = some e' ∧ group.Has e'.event ∧ group.Before e e'

/-- A delivery does not confirm the event that the loop is on or one it has still to
come to, and does not bring back one further on that it has passed. -/
def AckLoop.Spares (loop : AckLoop) (stored : EventId → Option StoredEvent) (ptr : EventPtr)
    (event : Event) : Prop :=
  if event.acked = true then
    event.eventId ≠ loop.current ∧ (event.eventId ∈ loop.present → event.eventId ∈ loop.passed)
  else
    event.eventId ∈ loop.passed → stored event.eventId = none →
      ¬ StillToCome (EventStorage.deliverAt stored ptr event) loop.group loop.current event.eventId

def AckLoop.SparesAll (loop : AckLoop) (stored : EventId → Option StoredEvent) :
    List (EventPtr × Event) → Prop
  | [] => True
  | (ptr, event) :: events =>
      loop.Spares stored ptr event ∧
        loop.SparesAll (EventStorage.deliverAt stored ptr event) events

/-- Deliveries replace stored events in place and spare what a loop needs. -/
def AckingFetcher.Sparing (w : AckingFetcher) : AckingAction → Prop
  | .systemEvents events =>
      EventStorage.BatchKeepsPlace w.storage.stored (w.filtered events) ∧
        ∀ loop ∈ w.loop, loop.SparesAll w.storage.stored (w.filtered events)
  | _ => True

instance (group : EventGroup) (event : Event) : Decidable (group.Has event) := by
  cases group <;> unfold EventGroup.Has <;> infer_instance

instance (group : EventGroup) (e e' : StoredEvent) : Decidable (group.Before e e') := by
  cases group <;> unfold EventGroup.Before <;> infer_instance

instance (stored : EventId → Option StoredEvent) (group : EventGroup) (current id : EventId) :
    Decidable (StillToCome stored group current id) :=
  decidable_of_iff
    (∃ e ∈ (stored current).toList, ∃ e' ∈ (stored id).toList,
      group.Has e'.event ∧ group.Before e e')
    (by simp [StillToCome])

instance (loop : AckLoop) (stored : EventId → Option StoredEvent) (ptr : EventPtr)
    (event : Event) : Decidable (loop.Spares stored ptr event) := by
  unfold AckLoop.Spares
  infer_instance

def AckLoop.decidableSparesAll (loop : AckLoop) (stored : EventId → Option StoredEvent) :
    (events : List (EventPtr × Event)) → Decidable (loop.SparesAll stored events)
  | [] => isTrue trivial
  | (ptr, event) :: events =>
      have : Decidable (loop.SparesAll (EventStorage.deliverAt stored ptr event) events) :=
        loop.decidableSparesAll _ events
      inferInstanceAs (Decidable (_ ∧ _))

instance (loop : AckLoop) (stored : EventId → Option StoredEvent)
    (events : List (EventPtr × Event)) : Decidable (loop.SparesAll stored events) :=
  loop.decidableSparesAll stored events

instance (w : AckingFetcher) (a : AckingAction) : Decidable (w.Sparing a) := by
  cases a <;> unfold AckingFetcher.Sparing <;> infer_instance

/-- The action hands an event to the queue, or ends a loop. -/
def AckingAction.IsRound : AckingAction → Prop
  | .acknowledge _ => True
  | .roundDone => True
  | _ => False

/-- What is expected of the calls. -/
structure AckingFetcher.AcksSnapshot (w : AckingFetcher) : Prop where
  /-- The iterator of a loop can go on. -/
  iterator : ∀ loop ∈ w.loop,
    loop.intact = true ∧ (w.storage.nextIn loop.current loop.group).isSome = true
  /-- No event is handed to the queue twice. -/
  once : ∀ loop ∈ w.loop, loop.passed.Nodup
  /-- A call that is done has handed over all that was present when it began. -/
  finished : ∀ call ∈ w.finished,
    call.passed.Nodup ∧ ∀ id ∈ call.present, id ∈ call.passed
  /-- The `Ack` of each round returns, that of the first one too. -/
  returns : ∀ a, w.enabled a → a.IsRound → (w.step a).isSome = true

/-! ## §4  Where iterators get to -/

section

open EventStorage

variable {stored : EventId → Option StoredEvent} {group : EventGroup} {current id b : EventId}
  {s : EventStorage}

theorem StillToCome.trans (h : StillToCome stored group current b)
    (h' : StillToCome stored group b id) : StillToCome stored group current id := by
  obtain ⟨e, e₁, he, he₁, -, hbefore⟩ := h
  obtain ⟨e₁', e₂, he₁', he₂, hhas, hbefore'⟩ := h'
  cases he₁.symm.trans he₁'
  refine ⟨e, e₂, he, he₂, hhas, ?_⟩
  cases group with
  | item nodeId =>
      unfold EventGroup.Before EventStorage.Precedes at *
      grind
  | all => exact Nat.lt_trans hbefore hbefore'

theorem not_stillToCome_self : ¬ StillToCome stored group id id := by
  rintro ⟨e, e', he, he', -, hbefore⟩
  cases he.symm.trans he'
  cases group with
  | item nodeId =>
      unfold EventGroup.Before EventStorage.Precedes at hbefore
      grind
  | all => exact Nat.lt_irrefl _ hbefore

theorem eventIdOf_eq (h : Indexed s) {e : StoredEvent} (he : s.stored id = some e) :
    s.eventIdOf e.ptr = some id := by
  unfold eventIdOf
  cases hfind : s.events.entries.find? fun e' => e'.2.ptr = e.ptr with
  | none =>
      have := List.find?_eq_none.mp hfind _ (mem_entries_iff.mpr he)
      simp at this
  | some found =>
      obtain ⟨id', e'⟩ := found
      have hptr : e'.ptr = e.ptr := by simpa using List.find?_some hfind
      have he' : s.stored id' = some e' := mem_entries_iff.mp (List.mem_of_find?_eq_some hfind)
      obtain rfl := h.distinct _ _ _ _ he' he hptr
      rw [Option.map_some, h.keyed _ _ he']

theorem mem_keys_iff : id ∈ s.events.keys.toFinset ↔ ∃ e, s.stored id = some e := by
  rw [List.mem_toFinset, ← AList.mem_keys, ← AList.lookup_isSome, Option.isSome_iff_exists]
  rfl

/-- What is in the set of a node. -/
theorem mem_item_iff (h : Indexed s) {nodeId : NodeId} {ptr : EventPtr} :
    ptr ∈ (s.nodeEntry nodeId).events ↔
      ∃ id e, s.stored id = some e ∧ e.ptr = ptr ∧ (EventGroup.item nodeId).Has e.event := by
  rw [h.mem_iff]
  constructor
  · rintro ⟨hne, id, e, he, hptr, hsource⟩
    exact ⟨id, e, he, hptr, hne, hsource⟩
  · rintro ⟨id, e, he, hptr, hne, hsource⟩
    exact ⟨hne, id, e, he, hptr, hsource⟩

theorem ptr_mem_events (h : Indexed s) {e : StoredEvent} (he : s.stored id = some e)
    {nodeId : NodeId} (hhas : (EventGroup.item nodeId).Has e.event) :
    e.ptr ∈ (s.nodeEntry nodeId).events :=
  (mem_item_iff h).mpr ⟨id, e, he, rfl, hhas⟩

theorem mem_eventsIn (h : Indexed s) :
    id ∈ s.eventsIn group ↔ ∃ e, s.stored id = some e ∧ group.Has e.event := by
  cases group with
  | item nodeId =>
      simp only [eventsIn, List.mem_filterMap, mem_item_iff h]
      constructor
      · rintro ⟨_, ⟨id', e, he, rfl, hhas⟩, hid⟩
        cases (eventIdOf_eq h he).symm.trans hid
        exact ⟨e, he, hhas⟩
      · rintro ⟨e, he, hhas⟩
        exact ⟨e.ptr, ⟨id, e, he, rfl, hhas⟩, eventIdOf_eq h he⟩
  | all =>
      rw [eventsIn, ← List.mem_toFinset, mem_keys_iff]
      exact exists_congr fun e => (and_iff_left trivial).symm

/-- The order of the set of a node. -/
theorem comparer_iff_before (h : Indexed s) {id' : EventId} {e e' : StoredEvent}
    (he : s.stored id = some e) (he' : s.stored id' = some e') (nodeId : NodeId) :
    EventComparer s.timeOf e.ptr e'.ptr ↔ (EventGroup.item nodeId).Before e e' :=
  comparer_iff h.distinct he he'

/-- A loop begins at the first event of its group. -/
theorem firstIn_spec (h : Indexed s) (group : EventGroup) :
    ∃ first, s.firstIn group = some first ∧
      (first = none → ∀ id e, s.stored id = some e → ¬ group.Has e.event) ∧
      ∀ b, first = some b → (∃ e, s.stored b = some e ∧ group.Has e.event) ∧
        ∀ id e, s.stored id = some e → group.Has e.event →
          id = b ∨ StillToCome s.stored group b id := by
  cases group with
  | item nodeId =>
      cases hfirst : (s.nodeEntry nodeId).events.head? with
      | none =>
          refine ⟨none, by rw [firstIn, hfirst, readAt], fun _ id e he hhas => ?_, nofun⟩
          have hnil := List.head?_eq_none_iff.mp hfirst
          exact absurd (hnil ▸ ptr_mem_events h he hhas) List.not_mem_nil
      | some ptr =>
          obtain ⟨hptr, hleast⟩ := OrderedSet.Sorted.head? (h.sorted nodeId) hfirst
          obtain ⟨b, e, he, rfl, hhas⟩ := (mem_item_iff h).mp hptr
          refine ⟨some b, by rw [firstIn, hfirst, readAt, eventIdOf_eq h he, Option.map_some],
            nofun, ?_⟩
          rintro _ ⟨⟩
          refine ⟨⟨e, he, hhas⟩, fun id e' he' hhas' => ?_⟩
          rcases hleast _ (ptr_mem_events h he' hhas') with heq | hless
          · exact Or.inl (h.distinct _ _ _ _ he' he heq)
          · exact Or.inr ⟨e, e', he, he', hhas', (comparer_iff_before h he he' nodeId).mp hless⟩
  | all =>
      refine ⟨_, rfl, fun hnone id e he => ?_, fun b hb => ?_⟩
      · have hid : id ∈ s.events.keys.toFinset := mem_keys_iff.mpr ⟨e, he⟩
        exact absurd (firstOf_eq_none hnone ▸ hid) (Finset.notMem_empty id)
      · obtain ⟨hmem, hleast⟩ := firstOf_eq_some hb
        obtain ⟨e, he⟩ := mem_keys_iff.mp hmem
        refine ⟨⟨e, he, trivial⟩, fun id e' he' _ => ?_⟩
        rcases (hleast id (mem_keys_iff.mpr ⟨e', he'⟩)).eq_or_lt with heq | hlt
        · exact Or.inl heq.symm
        · refine Or.inr ⟨e, e', he, he', trivial, ?_⟩
          rwa [EventGroup.Before, h.keyed _ _ he, h.keyed _ _ he']

/-- A loop goes on with the next one. -/
theorem nextIn_spec (h : Indexed s) {e : StoredEvent} (he : s.stored current = some e)
    (hhas : group.Has e.event) :
    ∃ next, s.nextIn current group = some next ∧
      (next = none → ∀ id, ¬ StillToCome s.stored group current id) ∧
      ∀ b, next = some b → StillToCome s.stored group current b ∧
        ∀ id, StillToCome s.stored group current id →
          id = b ∨ StillToCome s.stored group b id := by
  cases group with
  | item nodeId =>
      have hread : s.nextIn current (.item nodeId) =
          s.readAt (OrderedSet.next e.ptr (s.nodeEntry nodeId).events) := by
        rw [nextIn, he]
        rfl
      rw [hread]
      -- What comes after the event comes after its pointer.
      have hcomes : ∀ {id}, StillToCome s.stored (.item nodeId) current id →
          ∃ e', s.stored id = some e' ∧ e'.ptr ∈ (s.nodeEntry nodeId).events ∧
            EventComparer s.timeOf e.ptr e'.ptr := by
        rintro id ⟨e₀, e', he₀, he', hhas', hbefore⟩
        cases he.symm.trans he₀
        exact ⟨e', he', ptr_mem_events h he' hhas',
          (comparer_iff_before h he he' nodeId).mpr hbefore⟩
      cases hnext : OrderedSet.next e.ptr (s.nodeEntry nodeId).events with
      | none =>
          refine ⟨none, rfl, fun _ id hcome => ?_, nofun⟩
          obtain ⟨e', -, hmem', hless⟩ := hcomes hcome
          exact (h.sorted nodeId).next_eq_none (ptr_mem_events h he hhas) hnext _ hmem' hless
      | some ptr =>
          obtain ⟨hptr, hless, hleast⟩ :=
            (h.sorted nodeId).next_eq_some (ptr_mem_events h he hhas) hnext
          obtain ⟨b, e₁, he₁, rfl, hhas₁⟩ := (mem_item_iff h).mp hptr
          refine ⟨some b, by rw [readAt, eventIdOf_eq h he₁, Option.map_some], nofun, ?_⟩
          rintro _ ⟨⟩
          refine ⟨⟨e, e₁, he, he₁, hhas₁, (comparer_iff_before h he he₁ nodeId).mp hless⟩, ?_⟩
          intro id hcome
          obtain ⟨e', he', hmem', hless'⟩ := hcomes hcome
          obtain ⟨-, e₂, -, he₂, hhas₂, -⟩ := hcome
          cases he'.symm.trans he₂
          rcases hleast _ hmem' hless' with heq | hless₁
          · exact Or.inl (h.distinct _ _ _ _ he' he₁ heq)
          · exact Or.inr ⟨e₁, e', he₁, he', hhas₂, (comparer_iff_before h he₁ he' nodeId).mp hless₁⟩
  | all =>
      have hcomes : ∀ {id}, StillToCome s.stored .all current id ↔
          id ∈ s.events.keys.toFinset ∧ current < id := by
        intro id
        rw [mem_keys_iff]
        constructor
        · rintro ⟨e₀, e', he₀, he', -, hbefore⟩
          rw [EventGroup.Before, h.keyed _ _ he₀, h.keyed _ _ he'] at hbefore
          exact ⟨⟨e', he'⟩, hbefore⟩
        · rintro ⟨⟨e', he'⟩, hlt⟩
          refine ⟨e, e', he, he', trivial, ?_⟩
          rwa [EventGroup.Before, h.keyed _ _ he, h.keyed _ _ he']
      refine ⟨_, rfl, fun hnone id hcome => ?_, fun b hb => ?_⟩
      · obtain ⟨hmem, hlt⟩ := hcomes.mp hcome
        exact nextOf_eq_none hnone hmem hlt
      · obtain ⟨hmem, hlt, hleast⟩ := nextOf_eq_some hb
        refine ⟨hcomes.mpr ⟨hmem, hlt⟩, fun id hcome => ?_⟩
        obtain ⟨hid, hlt'⟩ := hcomes.mp hcome
        rcases (hleast id hid hlt').eq_or_lt with heq | hlt''
        · exact Or.inl heq.symm
        · obtain ⟨e₁, he₁⟩ := mem_keys_iff.mp hmem
          obtain ⟨e', he'⟩ := mem_keys_iff.mp hid
          refine Or.inr ⟨e₁, e', he₁, he', trivial, ?_⟩
          rwa [EventGroup.Before, h.keyed _ _ he₁, h.keyed _ _ he']

/-! ## §5  What a delivery keeps -/

variable {ptr : EventPtr} {event : Event} {loop : AckLoop}

theorem deliverAt_of_ne (hid : id ≠ event.eventId) :
    deliverAt stored ptr event id = stored id :=
  Function.update_of_ne hid ..

theorem deliverAt_acked (hacked : event.acked = true) :
    deliverAt stored ptr event event.eventId = none := by
  rw [deliverAt, Function.update_self, if_pos hacked]

theorem deliverAt_replaced {old : StoredEvent} (hacked : event.acked = false)
    (hold : stored event.eventId = some old) :
    deliverAt stored ptr event event.eventId = some ⟨old.ptr, event⟩ := by
  simp [deliverAt, hacked, hold]

/-- Stored events have addresses and ids of their own. -/
structure Addressed (stored : EventId → Option StoredEvent) : Prop where
  keyed : ∀ id e, stored id = some e → e.event.eventId = id
  distinct : Distinct stored

theorem addressed_of_indexed (h : Indexed s) : Addressed s.stored := ⟨h.keyed, h.distinct⟩

/-- Replacing an event in place leaves it in its group, before and behind the same
events. -/
theorem before_replaced (h : Addressed stored) (hplace : KeepsPlace stored event)
    {old e : StoredEvent} (hold : stored event.eventId = some old) (he : stored id = some e)
    (hid : id ≠ event.eventId) (hhas : group.Has old.event) (hhas' : group.Has e.event) :
    (group.Before old e ↔ group.Before ⟨old.ptr, event⟩ e) ∧
      (group.Before e old ↔ group.Before e ⟨old.ptr, event⟩) := by
  obtain ⟨hsource, horder⟩ := hplace old hold
  cases group with
  | item nodeId =>
      obtain ⟨hne, hnode⟩ := hhas
      have hbefore : EventStorage.Precedes old e ↔ EventStorage.Precedes ⟨old.ptr, event⟩ e :=
        horder (hsource ▸ hnode ▸ hne) id e he hid (hhas'.2.trans (hnode.symm.trans hsource))
      have hptr : e.ptr ≠ old.ptr := fun hptr => hid (h.distinct _ _ _ _ he hold hptr)
      -- Of two events with addresses of their own one is before the other.
      have hbehind : ∀ e' : StoredEvent, e'.ptr = old.ptr →
          (EventStorage.Precedes e e' ↔ ¬ EventStorage.Precedes e' e) :=
        fun e' he' => ⟨EventStorage.Precedes.asymm,
          precedes_total fun heq => hptr (heq.symm.trans he')⟩
      refine ⟨hbefore, ?_⟩
      exact (hbehind old rfl).trans ((not_congr hbefore).trans (hbehind ⟨old.ptr, event⟩ rfl).symm)
  | all =>
      have hsame : old.event.eventId = event.eventId := h.keyed _ _ hold
      simp [EventGroup.Before, hsame]

theorem has_replaced (hplace : KeepsPlace stored event) {old : StoredEvent}
    (hold : stored event.eventId = some old) : group.Has old.event ↔ group.Has event := by
  obtain ⟨hsource, -⟩ := hplace old hold
  cases group with
  | item nodeId => exact and_congr_right fun _ => by rw [hsource]
  | all => exact Iff.rfl

/-- What a delivery makes of an event that it does not take out. -/
theorem deliverAt_kept {e : StoredEvent} (ptr : EventPtr) (he : stored id = some e)
    (hkept : event.acked = true → event.eventId ≠ id) :
    ∃ e', deliverAt stored ptr event id = some e' ∧
      (id ≠ event.eventId ∧ e' = e ∨ id = event.eventId ∧ e' = ⟨e.ptr, event⟩) := by
  by_cases hid : id = event.eventId
  · subst hid
    have hacked : event.acked = false := by
      by_contra hacked
      exact hkept (by simpa using hacked) rfl
    exact ⟨_, deliverAt_replaced hacked he, Or.inr ⟨rfl, rfl⟩⟩
  · exact ⟨e, (deliverAt_of_ne hid).trans he, Or.inl ⟨hid, rfl⟩⟩

/-- A delivery keeps the order of what it does not take out. -/
theorem stillToCome_deliverAt (h : Addressed stored) (hplace : KeepsPlace stored event)
    {e e' : StoredEvent} (he : stored current = some e) (hhas : group.Has e.event)
    (he' : stored id = some e') (hcurrent : event.acked = true → event.eventId ≠ current)
    (hid : event.acked = true → event.eventId ≠ id) :
    StillToCome (deliverAt stored ptr event) group current id ↔
      StillToCome stored group current id := by
  obtain ⟨e₁, he₁, hcase⟩ := deliverAt_kept ptr he hcurrent
  obtain ⟨e₁', he₁', hcase'⟩ := deliverAt_kept ptr he' hid
  have hiff : ∀ {stored : EventId → Option StoredEvent} {a a' : StoredEvent},
      stored current = some a → stored id = some a' →
        (StillToCome stored group current id ↔ group.Has a'.event ∧ group.Before a a') := by
    intro stored a a' ha ha'
    constructor
    · rintro ⟨b, b', hb, hb', hhas, hbefore⟩
      cases ha.symm.trans hb
      cases ha'.symm.trans hb'
      exact ⟨hhas, hbefore⟩
    · rintro ⟨hhas, hbefore⟩
      exact ⟨a, a', ha, ha', hhas, hbefore⟩
  rw [hiff he₁ he₁', hiff he he']
  rcases hcase with ⟨hne, rfl⟩ | ⟨rfl, rfl⟩
  · rcases hcase' with ⟨hne', rfl⟩ | ⟨rfl, rfl⟩
    · exact Iff.rfl
    · rw [← has_replaced hplace he']
      refine and_congr_right fun hhas' => ?_
      exact (before_replaced h hplace he' he hne hhas' hhas).2.symm
  · rcases hcase' with ⟨hne', rfl⟩ | ⟨hid, rfl⟩
    · refine and_congr_right fun hhas' => ?_
      exact (before_replaced h hplace he he' hne' hhas hhas').1.symm
    · -- Nothing comes after itself.
      subst hid
      have hself : ¬ StillToCome (deliverAt stored ptr event) group event.eventId event.eventId :=
        not_stillToCome_self
      have hself' : ¬ StillToCome stored group event.eventId event.eventId := not_stillToCome_self
      rw [hiff he₁ he₁'] at hself
      rw [hiff he he'] at hself'
      exact iff_of_false hself hself'

/-- The loop is where it should be. -/
structure AckLoopInv (stored : EventId → Option StoredEvent) (loop : AckLoop) : Prop where
  current : ∃ e, stored loop.current = some e ∧ loop.group.Has e.event
  nodup : loop.passed.Nodup
  waiting : ∀ id ∈ loop.present, id ∉ loop.passed →
    StillToCome stored loop.group loop.current id
  behind : ∀ id ∈ loop.passed, ¬ StillToCome stored loop.group loop.current id

theorem AckLoopInv.deliver (h : AckLoopInv stored loop) (haddressed : Addressed stored)
    (hplace : KeepsPlace stored event) (hspares : loop.Spares stored ptr event) :
    AckLoopInv (deliverAt stored ptr event) loop := by
  obtain ⟨e, he, hhas⟩ := h.current
  have hcurrent : event.acked = true → event.eventId ≠ loop.current := fun hacked => by
    rw [AckLoop.Spares, if_pos hacked] at hspares
    exact hspares.1
  constructor
  case nodup => exact h.nodup
  case current =>
    obtain ⟨e', he', ⟨-, rfl⟩ | ⟨hid, rfl⟩⟩ := deliverAt_kept ptr he hcurrent
    · exact ⟨e', he', hhas⟩
    · exact ⟨_, he', (has_replaced hplace (hid ▸ he)).mp hhas⟩
  case waiting =>
    intro id hpresent hpassed
    have hcome := h.waiting id hpresent hpassed
    have ⟨_, _, _, he', _⟩ := hcome
    refine (stillToCome_deliverAt haddressed hplace he hhas he' hcurrent fun hacked hid => ?_).mpr
      hcome
    rw [AckLoop.Spares, if_pos hacked] at hspares
    exact hpassed (hid ▸ hspares.2 (hid.symm ▸ hpresent))
  case behind =>
    intro id hpassed hcome
    cases hstored : stored id with
    | some e' =>
        have hkept : event.acked = true → event.eventId ≠ id := by
          rintro hacked rfl
          obtain ⟨-, e₁, -, he₁, -⟩ := hcome
          rw [deliverAt_acked hacked] at he₁
          cases he₁
        exact h.behind id hpassed
          ((stillToCome_deliverAt haddressed hplace he hhas hstored hcurrent hkept).mp hcome)
    | none =>
        -- It has been taken out before, and is delivered again.
        have hid : id = event.eventId := by
          by_contra hne
          obtain ⟨-, e₁, -, he₁, -⟩ := hcome
          rw [deliverAt_of_ne hne, hstored] at he₁
          cases he₁
        subst hid
        by_cases hacked : event.acked = true
        · obtain ⟨-, e₁, -, he₁, -⟩ := hcome
          rw [deliverAt_acked hacked] at he₁
          cases he₁
        · rw [AckLoop.Spares, if_neg hacked] at hspares
          exact hspares hpassed hstored hcome

theorem AckLoopInv.updateLoop {events : List (EventPtr × Event)}
    {acc acc' : EventStorage × List Notification × List EventPtr} (hindexed : Indexed acc.1)
    (hnodup : (events.map Prod.fst).Nodup) (hfresh : ∀ e ∈ events, ¬ acc.1.Stores e.1)
    (hplace : BatchKeepsPlace acc.1.stored events)
    (hspares : loop.SparesAll acc.1.stored events) (h : AckLoopInv acc.1.stored loop)
    (hs : EventStorage.updateLoop events acc = some acc') : AckLoopInv acc'.1.stored loop := by
  induction events generalizing acc with
  | nil =>
      cases hs
      exact h
  | cons e events ih =>
      obtain ⟨ptr, event⟩ := e
      obtain ⟨hplace, hplaces⟩ := hplace
      obtain ⟨hspare, hspares⟩ := hspares
      obtain ⟨hptr, hnodup⟩ := List.nodup_cons.mp hnodup
      obtain ⟨acc₁, hone, hindexed₁⟩ := hindexed.updateOne (hfresh _ List.mem_cons_self) hplace
      have hstored := updateOne_stored hone
      rw [EventStorage.updateLoop, hone, Option.bind_some] at hs
      refine ih hindexed₁ hnodup ?_ (hstored ▸ hplaces) (hstored ▸ hspares) ?_ hs
      · intro e he hstores
        rcases Indexed.stores_of_updateOne hone hstores with heq | hstores
        · exact hptr (heq ▸ List.mem_map_of_mem he)
        · exact hfresh e (List.mem_cons_of_mem _ he) hstores
      · exact hstored ▸ h.deliver (addressed_of_indexed hindexed) hplace hspare

theorem AckLoop.SparesAll.ne_current {events : List (EventPtr × Event)}
    (h : loop.SparesAll stored events) :
    ∀ e ∈ events, e.2.acked = true → e.2.eventId ≠ loop.current := by
  induction events generalizing stored with
  | nil => exact fun e he => absurd he List.not_mem_nil
  | cons first events ih =>
      obtain ⟨hspare, hspares⟩ := h
      refine List.forall_mem_cons.mpr ⟨fun hacked => ?_, ih hspares⟩
      rw [AckLoop.Spares, if_pos hacked] at hspare
      exact hspare.1

/-! ## §6  Each event is acknowledged once -/

structure AckingInv (w : AckingFetcher) : Prop where
  indexed : Indexed w.storage
  acks : AckInv w.fetcher.eventAckQueue
  loop : ∀ loop ∈ w.loop, loop.intact = true ∧ AckLoopInv w.storage.stored loop
  finished : ∀ call ∈ w.finished, call.passed.Nodup ∧ ∀ id ∈ call.present, id ∈ call.passed

variable {w w' : AckingFetcher}

theorem AckInv.of_step {acks acks' : AckRun} {op : AckOp} (h : AckInv acks)
    (hs : acks.step op = some acks') (hen : acks.enabled op) : AckInv acks' := by
  obtain ⟨_, hs', hinv⟩ := h.step hen
  cases hs.symm.trans hs'
  exact hinv

theorem AckingInv.ackStep {op : AckOp} (h : AckingInv w)
    (hs : w.ackStep op = some w') (hen : w.fetcher.eventAckQueue.enabled op) : AckingInv w' := by
  obtain ⟨eventAckQueue, hacks, hs⟩ := Option.bind_eq_some_iff.mp hs
  cases hs
  exact ⟨h.indexed, h.acks.of_step hacks hen, h.loop, h.finished⟩

/-- The loop begins or goes on, or all that was present has been handed over. -/
theorem AckingInv.enter {call : AckedGroup} {next : Option EventId} (h : AckingInv w)
    (hloop : ∀ b, next = some b → AckLoopInv w.storage.stored
      { present := call.present, passed := call.passed ++ [b], group, current := b })
    (hend : next = none → call.passed.Nodup ∧ ∀ id ∈ call.present, id ∈ call.passed)
    (hs : w.enter group call next = some w') : AckingInv w' := by
  cases next with
  | none =>
      cases hs
      refine ⟨h.indexed, h.acks, nofun, fun call' hcall' => ?_⟩
      rcases List.mem_append.mp hcall' with hcall' | hcall'
      · exact h.finished call' hcall'
      · exact List.mem_singleton.mp hcall' ▸ hend rfl
  | some b =>
      obtain ⟨eventAckQueue, hacks, hs⟩ := Option.bind_eq_some_iff.mp hs
      cases hs
      refine ⟨h.indexed, h.acks.of_step hacks trivial, ?_, h.finished⟩
      rintro loop ⟨⟩
      exact ⟨rfl, hloop b rfl⟩

theorem AckingInv.acknowledge (h : AckingInv w)
    (hs : w.step (.acknowledge group) = some w') : AckingInv w' := by
  obtain ⟨first, hfirst, hnone, hsome⟩ := firstIn_spec h.indexed group
  simp only [AckingFetcher.step, hfirst, Option.bind_eq_bind, Option.bind_some] at hs
  refine h.enter ?_ ?_ hs
  · intro b hb
    obtain ⟨hcurrent, hleast⟩ := hsome b hb
    constructor
    case current => exact hcurrent
    case nodup => exact List.nodup_singleton b
    case waiting =>
      intro id hpresent hpassed
      obtain ⟨e, he, hhas⟩ := (mem_eventsIn h.indexed).mp hpresent
      refine (hleast id e he hhas).resolve_left fun hid => hpassed ?_
      exact hid ▸ List.mem_singleton_self b
    case behind =>
      intro id hid
      obtain rfl := List.mem_singleton.mp hid
      exact not_stillToCome_self
  · intro hend
    refine ⟨List.nodup_nil, fun id hpresent => ?_⟩
    obtain ⟨e, he, hhas⟩ := (mem_eventsIn h.indexed).mp hpresent
    exact absurd hhas (hnone hend id e he)

theorem AckingInv.roundDone (h : AckingInv w) (hs : w.step .roundDone = some w') :
    AckingInv w' := by
  obtain ⟨loop, hloop, hs⟩ := Option.bind_eq_some_iff.mp hs
  obtain ⟨-, hinv⟩ := h.loop loop hloop
  obtain ⟨e, he, hhas⟩ := hinv.current
  obtain ⟨next, hnext, hnone, hsome⟩ := nextIn_spec h.indexed he hhas
  obtain ⟨-, hs⟩ := check_bind_eq_some.mp hs
  simp only [hnext, Option.bind_eq_bind, Option.bind_some] at hs
  refine h.enter ?_ ?_ hs
  · intro b hb
    obtain ⟨hcome, hleast⟩ := hsome b hb
    constructor
    case current =>
      obtain ⟨-, e', -, he', hhas', -⟩ := hcome
      exact ⟨e', he', hhas'⟩
    case nodup =>
      refine List.nodup_append.mpr ⟨hinv.nodup, List.nodup_singleton b, ?_⟩
      rintro id hid c hc rfl
      exact hinv.behind id hid (List.mem_singleton.mp hc ▸ hcome)
    case waiting =>
      intro id hpresent hpassed
      rw [List.mem_append, not_or] at hpassed
      refine (hleast id (hinv.waiting id hpresent hpassed.1)).resolve_left fun hid => hpassed.2 ?_
      exact hid ▸ List.mem_singleton_self b
    case behind =>
      intro id hid hbehind
      rcases List.mem_append.mp hid with hid | hid
      · exact hinv.behind id hid (hcome.trans hbehind)
      · exact not_stillToCome_self (List.mem_singleton.mp hid ▸ hbehind)
  · intro hend
    refine ⟨hinv.nodup, fun id hpresent => ?_⟩
    by_contra hpassed
    exact hnone hend id (hinv.waiting id hpresent hpassed)

/-- An `Ack` returns wherever the loop gets to. -/
theorem AckingInv.isSome_enter {call : AckedGroup} {next : Option EventId} (h : AckingInv w) :
    (w.enter group call next).isSome = true := by
  cases next with
  | none => rfl
  | some b =>
      have hen : w.fetcher.eventAckQueue.enabled (.ack b) := trivial
      obtain ⟨acks, hacks, -⟩ := h.acks.step hen
      rw [AckingFetcher.enter, hacks]
      rfl

theorem AckingInv.isSome_step {a : AckingAction} (h : AckingInv w) (hen : w.enabled a)
    (ha : a.IsRound) : (w.step a).isSome = true := by
  cases a with
  | acknowledge group =>
      obtain ⟨first, hfirst, -⟩ := firstIn_spec h.indexed group
      simp only [AckingFetcher.step, hfirst, Option.bind_eq_bind, Option.bind_some]
      exact h.isSome_enter
  | roundDone =>
      obtain ⟨loop, hloop⟩ := Option.isSome_iff_exists.mp hen
      obtain ⟨hintact, hinv⟩ := h.loop loop hloop
      obtain ⟨e, he, hhas⟩ := hinv.current
      obtain ⟨next, hnext, -⟩ := nextIn_spec h.indexed he hhas
      simp only [AckingFetcher.step, hloop, check_of hintact, hnext, Option.bind_eq_bind,
        Option.bind_some]
      exact h.isSome_enter
  | systemEvents events => exact ha.elim
  | ackDispatch => exact ha.elim
  | ackCallDone call good => exact ha.elim

theorem AckInv.onAckedEvents {events : List (EventPtr × Event)} {acks acks' : AckRun}
    (h : AckInv acks) (hs : EventFetcher.onAckedEvents events acks = some acks') :
    AckInv acks' := by
  induction events generalizing acks with
  | nil =>
      cases hs
      exact h
  | cons e events ih =>
      unfold EventFetcher.onAckedEvents at hs
      split at hs
      · obtain ⟨acks₁, hone, hrest⟩ := Option.bind_eq_some_iff.mp hs
        exact ih (h.of_step hone trivial) hrest
      · exact ih h hs

/-- What a batch does to the queue and to the storage. -/
theorem exists_updateLoop {events : List (EventPtr × Event)} {fetcher : EventFetcher}
    (hs : w.fetcher.onSystemEvents events = some fetcher) :
    EventFetcher.onAckedEvents events w.fetcher.eventAckQueue = some fetcher.eventAckQueue ∧
    ∃ acc, EventStorage.updateLoop (w.filtered events) (w.storage, [], []) = some acc ∧
      fetcher.eventStorage.storage = acc.1 := by
  obtain ⟨acks, hacks, hs⟩ := Option.bind_eq_some_iff.mp hs
  obtain ⟨eventStorage, hupdate, hs⟩ := Option.bind_eq_some_iff.mp hs
  cases hs
  refine ⟨hacks, ?_⟩
  change EventFetcher.updateFiltered w.fetcher.eventStorage (w.filtered events) = _ at hupdate
  unfold EventFetcher.updateFiltered at hupdate
  split at hupdate
  · rename_i hnil
    cases hupdate
    exact ⟨_, by rw [hnil]; rfl, rfl⟩
  · obtain ⟨⟨storage, notifications⟩, hstorage, hupdate⟩ := Option.bind_eq_some_iff.mp hupdate
    obtain ⟨acc, hacc, hstorage⟩ := Option.bind_eq_some_iff.mp hstorage
    cases hupdate
    cases hstorage
    exact ⟨acc, hacc, rfl⟩

theorem AckingInv.systemEvents {events : List (EventPtr × Event)} (h : AckingInv w)
    (hen : w.enabled (.systemEvents events)) (hok : w.Sparing (.systemEvents events))
    (hs : w.step (.systemEvents events) = some w') : AckingInv w' := by
  obtain ⟨fetcher, hfetcher, hs⟩ := Option.bind_eq_some_iff.mp hs
  obtain ⟨hacks, acc, hacc, hstorage⟩ := exists_updateLoop hfetcher
  cases hs
  have hsub : (w.filtered events).Sublist events := List.filter_sublist
  have hnodup := hen.1.sublist (hsub.map Prod.fst)
  have hfresh : ∀ e ∈ w.filtered events, ¬ w.storage.Stores e.1 :=
    fun e he => hen.2 e (hsub.subset he)
  have hindexed : Indexed (w.storage, ([] : List Notification), ([] : List EventPtr)).1 := h.indexed
  constructor
  case indexed =>
    obtain ⟨acc', hacc', hindexed'⟩ := hindexed.updateLoop hnodup hfresh hok.1
    cases hacc.symm.trans hacc'
    rw [← hstorage] at hindexed'
    exact hindexed'
  case acks => exact h.acks.onAckedEvents hacks
  case loop =>
    intro loop' hloop'
    obtain ⟨loop, hloop, rfl⟩ := Option.map_eq_some_iff.mp hloop'
    obtain ⟨hintact, hinv⟩ := h.loop loop hloop
    have hspares := hok.2 loop hloop
    constructor
    · simp only [AckLoop.delivered, decide_eq_true_eq]
      exact ⟨hintact, fun ⟨e, he, hacked, hid⟩ => hspares.ne_current e he hacked hid⟩
    · have hkept := hinv.updateLoop hindexed hnodup hfresh hok.1 hspares hacc
      rw [← hstorage] at hkept
      exact ⟨hkept.current, hkept.nodup, hkept.waiting, hkept.behind⟩
  case finished => exact h.finished

theorem AckingInv.step {a : AckingAction} (h : AckingInv w) (hen : w.enabled a)
    (hok : w.Sparing a) (hs : w.step a = some w') : AckingInv w' := by
  cases a with
  | acknowledge group => exact h.acknowledge hs
  | roundDone => exact h.roundDone hs
  | systemEvents events => exact h.systemEvents hen hok hs
  | ackDispatch => exact h.ackStep hs hen
  | ackCallDone call good => exact h.ackStep hs hen

theorem AckingInv.snapshot (h : AckingInv w) : w.AcksSnapshot where
  iterator := by
    intro loop hloop
    obtain ⟨hintact, hinv⟩ := h.loop loop hloop
    obtain ⟨e, he, hhas⟩ := hinv.current
    obtain ⟨next, hnext, -⟩ := nextIn_spec h.indexed he hhas
    exact ⟨hintact, Option.isSome_iff_exists.mpr ⟨next, hnext⟩⟩
  once := fun loop hloop => (h.loop loop hloop).2.nodup
  finished := h.finished
  returns := fun _ => h.isSome_step

end

/-- **A group is acknowledged as it was.** As long as no round of a loop confirms the
event it is at or one still to come, and none that has been passed comes back further
on, each call hands the events that were present to the queue, and each once. -/
theorem acknowledges_snapshot {range : SeverityRange} {w : AckingFetcher}
    (h : (ackingMachine range).Reaches AckingFetcher.Sparing w) : w.AcksSnapshot := by
  have hinv : AckingInv w := by
    refine h.invariant (I := AckingInv) ⟨.empty, .init, fun loop hloop => ?_, fun call hcall => ?_⟩
      fun _ _ _ hinv hen hok hs => hinv.step hen hok hs
    · cases hloop
    · cases hcall
  exact hinv.snapshot

/-- Two events of a node are acknowledged. While the loop is on the first, an event of another
node is confirmed, the second is delivered again and a third one comes; while it is on the
second, the first is confirmed. -/
theorem acknowledges_snapshot_beside :
    ∃ w, (ackingMachine ⟨0, 1000⟩).Reaches AckingFetcher.Sparing w ∧
      w.finished = [{ present := [1, 2], passed := [1, 2, 4] }] ∧
      w.storage.events.keys = [4, 2] ∧ w.AcksSnapshot := by
  obtain ⟨w, hreach, hp⟩ := Machine.exists_reaches_of_exec (M := ackingMachine ⟨0, 1000⟩)
    AckingFetcher.Sparing
    (p := fun w => decide (w.finished = [{ present := [1, 2], passed := [1, 2, 4] }] ∧
      w.storage.events.keys = [4, 2]))
    [.systemEvents [(0, ⟨1, 5, .numeric 7 1, 100, false⟩), (1, ⟨2, 6, .numeric 7 1, 100, false⟩),
        (2, ⟨3, 5, .numeric 8 1, 100, false⟩)],
      .acknowledge (.item (.numeric 7 1)), .ackDispatch,
      .systemEvents [(3, ⟨3, 5, .numeric 8 1, 100, true⟩), (4, ⟨2, 7, .numeric 7 1, 300, false⟩),
        (5, ⟨4, 9, .numeric 7 1, 100, false⟩)],
      .roundDone, .ackDispatch, .systemEvents [(6, ⟨1, 5, .numeric 7 1, 100, true⟩)],
      .ackCallDone 0 true, .roundDone, .roundDone] (by decide +kernel)
  obtain ⟨hfinished, hkeys⟩ := of_decide_eq_true hp
  exact ⟨w, hreach, hfinished, hkeys, acknowledges_snapshot hreach⟩

/-- **The iterator is on an erased event.** The first of two events is sent and confirmed
before its round is done: the loop cannot go on. -/
theorem confirmed_event_is_erased :
    ∃ w, (ackingMachine ⟨0, 1000⟩).Reachable w ∧
      w.loop.map (·.toAckedGroup) = some { present := [1, 2], passed := [1] } ∧
      ¬ w.AcksSnapshot ∧ w.step .roundDone = none := by
  obtain ⟨w, hreach, hp⟩ := Machine.exists_reachable_of_exec (M := ackingMachine ⟨0, 1000⟩)
    (p := fun w => w.loop.map (·.toAckedGroup) = some { present := [1, 2], passed := [1] } ∧
      w.loop.map (·.intact) = some false ∧ (w.step .roundDone).isNone = true)
    [.systemEvents [(0, ⟨1, 5, .numeric 7 1, 100, false⟩), (1, ⟨2, 6, .numeric 7 1, 100, false⟩)],
      .acknowledge (.item (.numeric 7 1)), .ackDispatch,
      .systemEvents [(2, ⟨1, 5, .numeric 7 1, 100, true⟩)]] (by decide)
  obtain ⟨hcall, hintact, hstep⟩ := of_decide_eq_true hp
  refine ⟨w, hreach, hcall, fun hsnapshot => ?_, Option.isNone_iff_eq_none.mp hstep⟩
  obtain ⟨loop, hloop, -⟩ := Option.map_eq_some_iff.mp hcall
  rw [hloop, Option.map_some, (hsnapshot.iterator loop hloop).1] at hintact
  cases hintact

end ScadaCommon
