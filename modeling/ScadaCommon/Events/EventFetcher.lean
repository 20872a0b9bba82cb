import ScadaCommon.Events.EventAckQueue
import ScadaCommon.Events.EventStorage

/-!
# The event fetcher

`EventFetcher` keeps the storage of unacknowledged events up to date from two
sources: the system events the server announces, and history reads that answer
with the events unacknowledged at some moment. Both end in `OnSystemEvents`.

§1 the fetcher as the code has it · §2 the server, the channel and the reads
around it · §3 what a step does to the contents.
-/

namespace ScadaCommon

open Foundation

/-! ## §1  The fetcher -/

/-- `scada::kSeverityMin` and `scada::kSeverityMax`. -/
structure SeverityRange where
  kSeverityMin : ℕ
  kSeverityMax : ℕ

structure EventFetcher where
  connected : Bool
  severityMin : ℕ
  eventStorage : StorageRun
  eventAckQueue : AckRun

namespace EventFetcher

def init (range : SeverityRange) : EventFetcher :=
  ⟨false, range.kSeverityMin, storageMachine.init, .init⟩

/-- The first loop of `OnSystemEvents`. -/
def onAckedEvents : List (EventPtr × Event) → AckRun → Option AckRun
  | [], acks => some acks
  | e :: events, acks =>
      if e.2.acked then (acks.step (.onAcked e.2.eventId)).bind (onAckedEvents events)
      else onAckedEvents events acks

/-- The end of `OnSystemEvents`. -/
def updateFiltered (eventStorage : StorageRun) (filteredEvents : List (EventPtr × Event)) :
    Option StorageRun :=
  if filteredEvents = [] then some eventStorage
  else eventStorage.step (.update filteredEvents)

/-- Each event comes with the address the storage would give it. -/
def onSystemEvents (f : EventFetcher) (events : List (EventPtr × Event)) :
    Option EventFetcher := do
  let eventAckQueue ← onAckedEvents events f.eventAckQueue
  let filteredEvents := events.filter fun e => f.severityMin ≤ e.2.severity
  let eventStorage ← updateFiltered f.eventStorage filteredEvents
  return { f with eventStorage, eventAckQueue }

/-- The flag tells whether `Update` issued a read. -/
def setSeverityMin (range : SeverityRange) (f : EventFetcher) (severity : ℕ) :
    Option (EventFetcher × Bool) :=
  if severity < range.kSeverityMin ∨ range.kSeverityMax < severity then some (f, false)
  else if f.severityMin = severity then some (f, false)
  else do
    let eventAckQueue ← f.eventAckQueue.step .reset
    let eventStorage ← f.eventStorage.step .clear
    return ({ f with severityMin := severity, eventStorage, eventAckQueue }, true)

/-- Issues a read; the storage stays as it is. -/
def onChannelOpened (f : EventFetcher) : EventFetcher :=
  { f with connected := true }

def onChannelClosed (f : EventFetcher) : EventFetcher :=
  { f with connected := false }

/-- `unacked_events()`. -/
def unackedEvents (f : EventFetcher) : EventId → Option Event :=
  f.eventStorage.storage.contents

/-! ### What the operations do to the contents -/

/-- The events of a batch that pass the severity filter are delivered to the
storage, in order. -/
theorem onSystemEvents_spec {f f' : EventFetcher} {events : List (EventPtr × Event)}
    (h : f.onSystemEvents events = some f') :
    f'.severityMin = f.severityMin ∧
    f'.unackedEvents = ((events.map Prod.snd).filter fun e => f.severityMin ≤ e.severity).foldl
      EventStorage.deliver f.unackedEvents := by
  obtain ⟨acks, -, hrest⟩ := Option.bind_eq_some_iff.mp h
  obtain ⟨storage, hstorage, hf'⟩ := Option.bind_eq_some_iff.mp hrest
  cases hf'
  refine ⟨rfl, ?_⟩
  have hfilter : (events.map Prod.snd).filter (fun e => f.severityMin ≤ e.severity) =
      (events.filter fun e => f.severityMin ≤ e.2.severity).map Prod.snd := by
    rw [List.filter_map]
    rfl
  rw [hfilter]
  unfold updateFiltered at hstorage
  split at hstorage
  · rename_i hnil
    cases hstorage
    rw [hnil]
    rfl
  · obtain ⟨⟨s', notifications⟩, hs', hstorage'⟩ := Option.bind_eq_some_iff.mp hstorage
    cases hstorage'
    exact EventStorage.update_contents hs'

/-- Either nothing happens, or the storage is emptied and a read is issued. -/
theorem setSeverityMin_spec {range : SeverityRange} {f f' : EventFetcher} {severity : ℕ}
    {issued : Bool} (h : f.setSeverityMin range severity = some (f', issued)) :
    f' = f ∧ issued = false ∨
    f'.severityMin = severity ∧ f'.unackedEvents = (fun _ => none) ∧ issued = true := by
  unfold setSeverityMin at h
  split at h
  · cases h
    exact Or.inl ⟨rfl, rfl⟩
  · split at h
    · cases h
      exact Or.inl ⟨rfl, rfl⟩
    · cases h
      exact Or.inr ⟨rfl, EventStorage.clear_contents _, rfl⟩

end EventFetcher

/-! ## §2  The world

The server raises events and acknowledges them, and announces both while the
channel is open; what it announces while the channel is closed is lost.
Announcements of one event are delivered in order, those of different events in
any order. A read is answered with the events unacknowledged at one moment
(`snapshot`) between its request and its completion. -/

structure FetcherWorld where
  fetcher : EventFetcher
  /-- The events ever raised, as announced first. -/
  raised : List Event
  acked : Finset EventId
  channelOpen : Bool
  inFlight : List Event
  /-- The reads that have not completed, with the answer of those the server
  has got to. -/
  reads : List (Option (List Event))
  /-- The events whose acked notification the fetcher has processed. -/
  processedAcked : Finset EventId
  /-- That many of the reads, the first ones, were issued before the last `OnChannelOpened`. -/
  staleReads : ℕ
  /-- The channel has not been closed since the last `OnChannelOpened`, and no read issued
  since has failed. -/
  undisturbed : Bool

inductive FetcherOp where
  | raise (event : Event)
  | acknowledge (event : Event)
  | deliver (index : ℕ) (ptr : EventPtr)
  | setSeverityMin (severity : ℕ)
  | channelOpened
  | channelClosed
  | snapshot (read : ℕ) (events : List Event)
  | readDone (read : ℕ) (ptrs : List EventPtr)
  | readFailed (read : ℕ)
  /-- A user acknowledges an event. -/
  | ack (ackId : EventId)
  /-- `AckPendingEvents`, dispatched before, runs. -/
  | ackDispatch
  | ackCallDone (call : ℕ) (good : Bool)

namespace FetcherWorld

def init (range : SeverityRange) : FetcherWorld :=
  ⟨.init range, [], ∅, false, [], [], ∅, 0, false⟩

/-- The server's unacknowledged events. -/
def unacked (w : FetcherWorld) : List Event :=
  w.raised.filter fun e => e.eventId ∉ w.acked

/-- The answer of a read. -/
def answer (w : FetcherWorld) (read : ℕ) : List Event :=
  (w.reads[read]?).join.getD []

/-- The reads issued since the last `OnChannelOpened`. -/
def currentReads (w : FetcherWorld) : List (Option (List Event)) :=
  w.reads.drop w.staleReads

/-- A read has completed. -/
def endRead (w : FetcherWorld) (read : ℕ) : FetcherWorld :=
  { w with
    reads := w.reads.eraseIdx read
    staleReads := if read < w.staleReads then w.staleReads - 1 else w.staleReads }

/-- The addresses are those of elements not yet in the map. -/
def Fresh (w : FetcherWorld) (ptrs : List EventPtr) : Prop :=
  ptrs.Nodup ∧ ∀ ptr ∈ ptrs, ¬ w.fetcher.eventStorage.storage.Stores ptr

instance (w : FetcherWorld) (ptrs : List EventPtr) : Decidable (w.Fresh ptrs) := by
  unfold Fresh
  infer_instance

def enabled (w : FetcherWorld) : FetcherOp → Prop
  | .raise event => event.acked = false ∧ ∀ e ∈ w.raised, e.eventId ≠ event.eventId
  | .acknowledge event => event ∈ w.unacked
  | .deliver index ptr => index < w.inFlight.length ∧ w.Fresh [ptr] ∧
      ∀ e ∈ w.inFlight.take index, some e.eventId ≠ (w.inFlight[index]?).map (·.eventId)
  | .snapshot read events => w.reads[read]? = some none ∧ events.Perm w.unacked
  | .readDone read ptrs => w.Fresh ptrs ∧
      (w.reads[read]?).join.map (·.length) = some ptrs.length
  | .readFailed read => read < w.reads.length
  | .ackDispatch => w.fetcher.eventAckQueue.enabled .dispatch
  | .ackCallDone call good => w.fetcher.eventAckQueue.enabled (.callDone call good)
  | _ => True

instance (w : FetcherWorld) (op : FetcherOp) : Decidable (w.enabled op) := by
  cases op <;> unfold enabled <;> infer_instance

/-- What the server announces reaches the channel while it is open. -/
def announce (w : FetcherWorld) (event : Event) : FetcherWorld :=
  if w.channelOpen then { w with inFlight := w.inFlight ++ [event] } else w

/-- The acknowledgement queue takes a step of its own. -/
def ackStep (w : FetcherWorld) (op : AckOp) : Option FetcherWorld := do
  let eventAckQueue ← w.fetcher.eventAckQueue.step op
  return { w with fetcher := { w.fetcher with eventAckQueue } }

def step (range : SeverityRange) (w : FetcherWorld) : FetcherOp → Option FetcherWorld
  | .raise event => some ({ w with raised := w.raised ++ [event] }.announce event)
  | .acknowledge event =>
      some ({ w with acked := insert event.eventId w.acked }.announce { event with acked := true })
  | .deliver index ptr => do
      let event ← w.inFlight[index]?
      let fetcher ← w.fetcher.onSystemEvents [(ptr, event)]
      return { w with
        fetcher
        inFlight := w.inFlight.eraseIdx index
        processedAcked :=
          if event.acked then insert event.eventId w.processedAcked else w.processedAcked }
  | .setSeverityMin severity => do
      let (fetcher, issued) ← w.fetcher.setSeverityMin range severity
      return { w with
        fetcher
        reads := if issued then w.reads ++ [none] else w.reads }
  | .channelOpened => some { w with
      fetcher := w.fetcher.onChannelOpened
      channelOpen := true
      reads := w.reads ++ [none]
      staleReads := w.reads.length
      undisturbed := true }
  | .channelClosed => some { w with
      fetcher := w.fetcher.onChannelClosed
      channelOpen := false
      undisturbed := false }
  | .snapshot read events => some { w with
      reads := w.reads.set read (some events) }
  | .readDone read ptrs => do
      let fetcher ← w.fetcher.onSystemEvents (ptrs.zip (w.answer read))
      return { w.endRead read with fetcher }
  | .readFailed read => do
      -- The status is not looked at; a failed read carries no events.
      let fetcher ← w.fetcher.onSystemEvents []
      return { w.endRead read with
        fetcher
        undisturbed := w.undisturbed && decide (read < w.staleReads) }
  | .ack ackId => w.ackStep (.ack ackId)
  | .ackDispatch => w.ackStep .dispatch
  | .ackCallDone call good => w.ackStep (.callDone call good)

/-! ## §3  What a step does to the contents -/

variable {range : SeverityRange} {w w' : FetcherWorld}

theorem deliver_spec {index : ℕ} {ptr : EventPtr}
    (h : w.step range (.deliver index ptr) = some w') :
    ∃ event fetcher, w.inFlight[index]? = some event ∧
      w' = { w with
        fetcher
        inFlight := w.inFlight.eraseIdx index
        processedAcked :=
          if event.acked then insert event.eventId w.processedAcked else w.processedAcked } ∧
      fetcher.severityMin = w.fetcher.severityMin ∧
      fetcher.unackedEvents =
        if w.fetcher.severityMin ≤ event.severity then
          EventStorage.deliver w.fetcher.unackedEvents event
        else w.fetcher.unackedEvents := by
  obtain ⟨event, hevent, hrest⟩ := Option.bind_eq_some_iff.mp h
  obtain ⟨fetcher, hfetcher, hw'⟩ := Option.bind_eq_some_iff.mp hrest
  cases hw'
  obtain ⟨hmin, hcontents⟩ := EventFetcher.onSystemEvents_spec hfetcher
  refine ⟨event, fetcher, hevent, rfl, hmin, ?_⟩
  rw [hcontents]
  by_cases hsev : w.fetcher.severityMin ≤ event.severity
  · simp [hsev]
  · simp [hsev]

theorem readDone_spec {read : ℕ} {ptrs : List EventPtr} (hen : w.enabled (.readDone read ptrs))
    (h : w.step range (.readDone read ptrs) = some w') :
    ∃ fetcher, w.reads[read]? = some (some (w.answer read)) ∧
      w' = { w.endRead read with fetcher } ∧
      fetcher.severityMin = w.fetcher.severityMin ∧
      fetcher.unackedEvents =
        ((w.answer read).filter fun e => w.fetcher.severityMin ≤ e.severity).foldl
          EventStorage.deliver w.fetcher.unackedEvents := by
  obtain ⟨fetcher, hfetcher, hw'⟩ := Option.bind_eq_some_iff.mp h
  cases hw'
  obtain ⟨hmin, hcontents⟩ := EventFetcher.onSystemEvents_spec hfetcher
  obtain ⟨-, hlen⟩ := hen
  obtain ⟨events, hevents, hlen⟩ := Option.map_eq_some_iff.mp hlen
  have hanswer : w.answer read = events := by
    rw [answer, hevents, Option.getD_some]
  rw [hanswer, List.map_snd_zip hlen.le] at hcontents
  refine ⟨fetcher, ?_, rfl, hmin, ?_⟩
  · rw [hanswer]
    exact Option.join_eq_some_iff.mp hevents
  · rw [hanswer]
    exact hcontents

theorem readFailed_spec {read : ℕ} (h : w.step range (.readFailed read) = some w') :
    w' = { w.endRead read with
      undisturbed := w.undisturbed && decide (read < w.staleReads) } :=
  (Option.some.inj h).symm

theorem setSeverityMin_spec {severity : ℕ} (h : w.step range (.setSeverityMin severity) = some w') :
    w' = w ∨ ∃ fetcher, w' = { w with fetcher, reads := w.reads ++ [none] } ∧
      fetcher.unackedEvents = fun _ => none := by
  obtain ⟨⟨fetcher, issued⟩, hfetcher, hw'⟩ := Option.bind_eq_some_iff.mp h
  cases hw'
  rcases EventFetcher.setSeverityMin_spec hfetcher with ⟨rfl, rfl⟩ | ⟨-, hcontents, rfl⟩
  · exact Or.inl rfl
  · exact Or.inr ⟨fetcher, rfl, hcontents⟩

/-- The acknowledgement queue works beside the storage. -/
theorem ackStep_spec {op : AckOp} (h : w.ackStep op = some w') :
    ∃ eventAckQueue, w' = { w with fetcher := { w.fetcher with eventAckQueue } } := by
  obtain ⟨eventAckQueue, -, hw'⟩ := Option.bind_eq_some_iff.mp h
  cases hw'
  exact ⟨eventAckQueue, rfl⟩

theorem announce_eq (w : FetcherWorld) (event : Event) :
    w.announce event =
      { w with inFlight := w.inFlight ++ if w.channelOpen then [event] else [] } := by
  unfold announce
  split
  · rfl
  · rw [List.append_nil]

end FetcherWorld

def fetcherMachine (range : SeverityRange) : Machine FetcherWorld FetcherOp where
  init := .init range
  enabled := FetcherWorld.enabled
  step := FetcherWorld.step range

instance (range : SeverityRange) (w : FetcherWorld) (op : FetcherOp) :
    Decidable ((fetcherMachine range).enabled w op) :=
  inferInstanceAs (Decidable (w.enabled op))

end ScadaCommon
