import ScadaCommon.Events.EventStorage
import ScadaCommon.Foundation.LiveLoops

/-!
# Observers that come and go

The storage calls its observers in loops over the very sets that they register in,
and a callback may register and unregister whom it likes. An iterator that is
incremented before the call lets an observer unregister itself, but not the one after
it.

§1 the sets of observers · §2 the operations, up to each loop · §3 the machine · §4
what callbacks must not do · §5 each observer is called once.
-/

namespace ScadaCommon

open Foundation

/-! ## §1  The sets of observers -/

inductive ObserverSet where
  | all
  | node (nodeId : NodeId)
deriving DecidableEq

inductive ObserverEdit where
  | add (set : ObserverSet) (observer : ObserverId)
  | remove (set : ObserverSet) (observer : ObserverId)
deriving DecidableEq

/-- What a loop calls on its observers. -/
inductive ObserverCall where
  | itemEventsChanged (nodeId : NodeId)
  | events (events : List EventPtr)
  | allEventsAcknowledged
deriving DecidableEq

namespace EventStorage

def observersOf (s : EventStorage) : ObserverSet → Finset ObserverId
  | .all => s.observers
  | .node nodeId => (s.nodeEntry nodeId).observers

/-- `AddObserver`, `RemoveObserver`, `AddNodeObserver` and `RemoveNodeObserver`. -/
def edit (s : EventStorage) : ObserverEdit → EventStorage
  | .add .all observer => s.addObserver observer
  | .add (.node nodeId) observer => s.addNodeObserver nodeId observer
  | .remove .all observer => s.removeObserver observer
  | .remove (.node nodeId) observer => s.removeNodeObserver nodeId observer

end EventStorage

/-! ## §2  The operations, up to each loop -/

/-- What an operation has still to do. -/
inductive StorageTask where
  /-- A round of the loop of `Update`. -/
  | deliver (ptr : EventPtr) (event : Event)
  | notify (set : ObserverSet) (call : ObserverCall)
  /-- `Remove` drops the entry of a node without events and observers. -/
  | dropEntry (nodeId : NodeId)
  | extract (eventId : EventId)
  | updateAlerting
  /-- The end of `Update`. -/
  | notifyEvents
  /-- `Clear` has got to the entries after this one. -/
  | clearEntries (after : Option NodeId)
  | clearEvents

structure RunningLoop extends LiveLoop ObserverId where
  set : ObserverSet
  call : ObserverCall

structure NotifyingStorage where
  storage : EventStorage
  tasks : List StorageTask := []
  /-- The loop whose callback is at work. -/
  loop : Option RunningLoop := none
  notifyEvents : List EventPtr := []

namespace NotifyingStorage

variable (nodeIdLess : NodeId → NodeId → Bool)

/-- The loop goes on when its callback has returned, or begins. Without an element
under its iterator there is nothing that it could call. -/
def goOn (w : NotifyingStorage) (loop : RunningLoop) : Option NotifyingStorage :=
  match loop.next with
  | none => some { w with loop := none }
  | some observer => do
      check (loop.intact = true)
      return { w with
        loop := some { loop with
          toLiveLoop := loop.visit (w.storage.observersOf loop.set) observer } }

/-- The beginning of `Add`; the rest of `tasks` follows. -/
def beginAdd (w : NotifyingStorage) (ptr : EventPtr) (event : Event) : Option NotifyingStorage :=
  match w.storage.events.lookup event.eventId with
  | some contained =>
      some { w with
        storage := { w.storage with
          events := w.storage.events.insert event.eventId ⟨contained.ptr, event⟩ }
        notifyEvents := w.notifyEvents ++ [contained.ptr]
        tasks := .updateAlerting :: w.tasks }
  | none => do
      let storage := { w.storage with
        events := w.storage.events.insert event.eventId ⟨ptr, event⟩ }
      let (storage, changed) ← storage.addToNode ptr event.sourceNodeId
      let notify := if changed = [] then [] else
        [.notify .all (.itemEventsChanged event.sourceNodeId),
          .notify (.node event.sourceNodeId) (.itemEventsChanged event.sourceNodeId)]
      return { w with
        storage
        notifyEvents := w.notifyEvents ++ [ptr]
        tasks := notify ++ .updateAlerting :: w.tasks }

/-- The beginning of `Remove`; the rest of `tasks` follows. -/
def beginRemove (w : NotifyingStorage) (event : Event) : Option NotifyingStorage :=
  match w.storage.events.lookup event.eventId with
  | none => some w
  | some contained =>
      let storage := { w.storage with
        events := w.storage.events.insert event.eventId ⟨contained.ptr, event⟩ }
      let w := { w with
        storage
        notifyEvents := w.notifyEvents ++ [contained.ptr]
        tasks := .extract event.eventId :: .updateAlerting :: w.tasks }
      if event.sourceNodeId = .null then some w
      else
        match storage.nodeEvents.lookup event.sourceNodeId with
        | none => some w
        | some entry => do
            check (∀ p ∈ entry.events, storage.Stores p)
            let found := OrderedSet.find (EventComparer storage.timeOf) contained.ptr entry.events
            check (found.isSome = true)
            let events := entry.events.erase (found.getD contained.ptr)
            return { w with
              storage := { storage with
                nodeEvents :=
                  storage.nodeEvents.insert event.sourceNodeId ⟨events, entry.observers⟩ }
              tasks := .notify .all (.itemEventsChanged event.sourceNodeId) ::
                .notify (.node event.sourceNodeId) (.itemEventsChanged event.sourceNodeId) ::
                .dropEntry event.sourceNodeId :: w.tasks }

/-- The entry that an iterator over `node_events_` gets to. -/
def nextEntry (w : NotifyingStorage) (after : Option NodeId) : Option NodeId :=
  let ahead := w.storage.nodeEvents.keys.filter fun nodeId => after.all (nodeIdLess · nodeId)
  ahead.find? fun nodeId => ahead.all fun other => !nodeIdLess other nodeId

/-- A round of the loop of `Clear`. -/
def clearEntry (w : NotifyingStorage) (nodeId : NodeId) : NotifyingStorage :=
  if w.storage.observersOf (.node nodeId) = ∅ then
    { w with
      storage := { w.storage with nodeEvents := w.storage.nodeEvents.erase nodeId }
      tasks := .clearEntries (some nodeId) :: w.tasks }
  else
    { w with
      storage := { w.storage with
        nodeEvents :=
          w.storage.nodeEvents.insert nodeId ⟨[], w.storage.observersOf (.node nodeId)⟩ }
      tasks := .notify .all (.itemEventsChanged nodeId) ::
        .notify (.node nodeId) (.itemEventsChanged nodeId) :: .clearEntries (some nodeId) ::
        w.tasks }

/-- Does a task up to the first call of a loop. -/
def runTask (w : NotifyingStorage) : StorageTask → Option NotifyingStorage
  | .deliver ptr event => if event.acked then w.beginRemove event else w.beginAdd ptr event
  | .notify set call =>
      w.goOn { toLiveLoop := LiveLoop.start (w.storage.observersOf set), set, call }
  | .dropEntry nodeId =>
      let entry := w.storage.nodeEntry nodeId
      some <| if entry.events = [] ∧ entry.observers = ∅ then
        { w with storage := { w.storage with nodeEvents := w.storage.nodeEvents.erase nodeId } }
      else w
  | .extract eventId =>
      some { w with storage := { w.storage with events := w.storage.events.erase eventId } }
  | .updateAlerting =>
      let alerting := decide (w.storage.events.keys ≠ [])
      some <| if w.storage.alerting = alerting then w
      else
        { w with
          storage := { w.storage with alerting }
          tasks := .notify .all .allEventsAcknowledged :: w.tasks }
  | .notifyEvents =>
      some <| if w.notifyEvents = [] then w
      else { w with tasks := .notify .all (.events w.notifyEvents) :: w.tasks }
  | .clearEntries after =>
      some <| match w.nextEntry nodeIdLess after with
      | none => w
      | some nodeId => w.clearEntry nodeId
  | .clearEvents => some { w with storage := { w.storage with events := ∅ } }

end NotifyingStorage

/-! ## §3  The machine -/

inductive NotifyAction where
  /-- Each event comes with the address the allocator would give it. -/
  | update (events : List (EventPtr × Event))
  | clear
  | edit (edit : ObserverEdit)
  /-- The callback returns, or the operation goes on. -/
  | proceed

/-- An edit of the set that a loop goes over. -/
def RunningLoop.edit (loop : RunningLoop) : ObserverEdit → RunningLoop
  | .add _ _ => loop
  | .remove set observer =>
      if loop.set = set then { loop with toLiveLoop := loop.erased observer } else loop

namespace NotifyingStorage

/-- Operations are called one after the other; observers are edited between them and in
callbacks. -/
def enabled (w : NotifyingStorage) : NotifyAction → Prop
  | .update _ | .clear => w.loop.isNone = true ∧ w.tasks.isEmpty = true
  | .edit _ => w.loop.isSome = true ∨ w.tasks.isEmpty = true
  | .proceed => w.loop.isSome = true ∨ w.tasks.isEmpty = false

instance (w : NotifyingStorage) (a : NotifyAction) : Decidable (w.enabled a) := by
  unfold enabled
  split <;> infer_instance

def edit (w : NotifyingStorage) (edit : ObserverEdit) : NotifyingStorage :=
  { w with
    storage := w.storage.edit edit
    loop := w.loop.map (·.edit edit) }

def step (nodeIdLess : NodeId → NodeId → Bool) (w : NotifyingStorage) :
    NotifyAction → Option NotifyingStorage
  | .update events =>
      some { w with
        tasks := events.map (fun (ptr, event) => .deliver ptr event) ++ [.notifyEvents]
        notifyEvents := [] }
  | .clear => some { w with tasks := [.clearEntries none, .clearEvents, .updateAlerting] }
  | .edit edit => some (w.edit edit)
  | .proceed =>
      match w.loop, w.tasks with
      | some loop, _ => w.goOn loop
      | none, [] => none
      | none, task :: tasks => { w with tasks }.runTask nodeIdLess task

end NotifyingStorage

/-- Any storage, with the order of its map of nodes. -/
def notifyMachine (nodeIdLess : NodeId → NodeId → Bool) (storage : EventStorage) :
    Machine NotifyingStorage NotifyAction :=
  ⟨{ storage }, NotifyingStorage.enabled, NotifyingStorage.step nodeIdLess⟩

instance (nodeIdLess : NodeId → NodeId → Bool) (storage : EventStorage) (w : NotifyingStorage)
    (a : NotifyAction) : Decidable ((notifyMachine nodeIdLess storage).enabled w a) :=
  inferInstanceAs (Decidable (w.enabled a))

/-! ## §4  What callbacks must not do -/

/-- A callback does not unregister the observer after its own, and does not bring back
one that its loop has left behind. -/
def NotifyingStorage.Undisturbing (w : NotifyingStorage) : NotifyAction → Prop
  | .edit (.remove set observer) =>
      ∀ loop ∈ w.loop, loop.set = set → loop.next ≠ some observer
  | .edit (.add set observer) =>
      ∀ loop ∈ w.loop, loop.set = set → ¬ loop.StepsOver observer
  | _ => True

instance (w : NotifyingStorage) (a : NotifyAction) : Decidable (w.Undisturbing a) := by
  unfold NotifyingStorage.Undisturbing
  split <;> infer_instance

/-- What observers can rely on. -/
structure NotifyingStorage.NotifiesSafely (w : NotifyingStorage) : Prop where
  /-- A loop goes on with an observer that is still registered. -/
  next : ∀ loop ∈ w.loop, ∀ observer ∈ loop.next,
    loop.intact = true ∧ observer ∈ w.storage.observersOf loop.set
  /-- It has called those once that it is past and that have been registered from its
  beginning. -/
  once : ∀ loop ∈ w.loop, ∀ observer ∈ loop.started,
    observer ∈ w.storage.observersOf loop.set → loop.Behind observer →
      loop.visited.count observer = 1

/-- The loop at work keeps what loops keep. -/
def NotifyingStorage.LoopInv (w : NotifyingStorage) : Prop :=
  ∀ loop ∈ w.loop, loop.toLiveLoop.Inv (w.storage.observersOf loop.set)

variable {w w' : NotifyingStorage} {nodeIdLess : NodeId → NodeId → Bool}

namespace EventStorage

variable {s : EventStorage} {set set' : ObserverSet} {observer : ObserverId}

theorem observersOf_add :
    (s.edit (.add set observer)).observersOf set = insert observer (s.observersOf set) := by
  cases set with
  | all => rfl
  | node nodeId =>
      simp [edit, observersOf, addNodeObserver, nodeEntry, AList.lookup_insert]

theorem observersOf_remove :
    (s.edit (.remove set observer)).observersOf set = (s.observersOf set).erase observer := by
  cases set with
  | all => rfl
  | node nodeId =>
      simp [edit, observersOf, removeNodeObserver, nodeEntry, AList.lookup_insert]

/-- Sets do not share observers. -/
theorem observersOf_edit_of_ne {e : ObserverEdit} (he : e = .add set observer ∨
    e = .remove set observer) (hne : set' ≠ set) :
    (s.edit e).observersOf set' = s.observersOf set' := by
  rcases he with rfl | rfl
  all_goals
    cases set with
    | all =>
        cases set' with
        | all => exact absurd rfl hne
        | node nodeId => rfl
    | node nodeId =>
        cases set' with
        | all => rfl
        | node other =>
            have hne : other ≠ nodeId := fun h => hne (h ▸ rfl)
            simp [edit, observersOf, addNodeObserver, removeNodeObserver, nodeEntry,
              AList.lookup_insert_ne hne]

end EventStorage

namespace NotifyingStorage

theorem goOn_inv {loop : RunningLoop}
    (h : loop.toLiveLoop.Inv (w.storage.observersOf loop.set)) (hs : w.goOn loop = some w') :
    w'.LoopInv := by
  unfold goOn at hs
  split at hs
  · cases hs
    intro loop hloop
    cases hloop
  · rename_i observer hnext
    obtain ⟨-, hs⟩ := check_bind_eq_some.mp hs
    cases hs
    intro loop hloop
    cases hloop
    exact h.visit hnext

theorem beginAdd_loop {ptr : EventPtr} {event : Event} (hs : w.beginAdd ptr event = some w') :
    w'.loop = w.loop := by
  unfold beginAdd at hs
  split at hs
  · cases hs
    rfl
  · obtain ⟨⟨storage, changed⟩, -, hs⟩ := Option.bind_eq_some_iff.mp hs
    cases hs
    rfl

theorem beginRemove_loop {event : Event} (hs : w.beginRemove event = some w') :
    w'.loop = w.loop := by
  unfold beginRemove at hs
  split at hs
  · cases hs
    rfl
  · dsimp only at hs
    split at hs
    · cases hs
      rfl
    · split at hs
      · cases hs
        rfl
      · simp only [Option.bind_eq_bind, check_bind_eq_some] at hs
        obtain ⟨-, -, hs⟩ := hs
        cases hs
        rfl

theorem clearEntry_loop (nodeId : NodeId) : (w.clearEntry nodeId).loop = w.loop := by
  unfold clearEntry
  split <;> rfl

theorem loopInv_of_none (h : w.loop = none) : w.LoopInv := by
  intro loop hloop
  rw [h] at hloop
  cases hloop

/-- Only a task that notifies gets into a loop. -/
theorem runTask_inv {task : StorageTask} (h : w.loop = none)
    (hs : w.runTask nodeIdLess task = some w') : w'.LoopInv := by
  cases task with
  | deliver ptr event =>
      simp only [runTask] at hs
      split at hs
      · exact loopInv_of_none ((beginRemove_loop hs).trans h)
      · exact loopInv_of_none ((beginAdd_loop hs).trans h)
  | notify set call => exact goOn_inv (LiveLoop.Inv.start _) hs
  | dropEntry nodeId =>
      cases hs
      refine loopInv_of_none ?_
      split <;> exact h
  | extract eventId =>
      cases hs
      exact loopInv_of_none h
  | updateAlerting =>
      cases hs
      refine loopInv_of_none ?_
      split <;> exact h
  | notifyEvents =>
      cases hs
      refine loopInv_of_none ?_
      split <;> exact h
  | clearEntries after =>
      cases hs
      refine loopInv_of_none ?_
      split
      · exact h
      · exact (clearEntry_loop _).trans h
  | clearEvents =>
      cases hs
      exact loopInv_of_none h

/-- An edit that does not disturb the loop. -/
theorem LoopInv.edit {e : ObserverEdit} (h : w.LoopInv) (hok : w.Undisturbing (.edit e)) :
    (w.edit e).LoopInv := by
  intro loop' hloop'
  obtain ⟨loop, hloop, rfl⟩ := Option.map_eq_some_iff.mp hloop'
  have hinv := h loop hloop
  cases e with
  | add set observer =>
      change loop.toLiveLoop.Inv ((w.storage.edit (.add set observer)).observersOf loop.set)
      by_cases hset : loop.set = set
      · subst hset
        rw [EventStorage.observersOf_add]
        exact hinv.insert (hok loop hloop rfl)
      · rw [EventStorage.observersOf_edit_of_ne (Or.inl rfl) hset]
        exact hinv
  | remove set observer =>
      by_cases hset : loop.set = set
      · subst hset
        rw [RunningLoop.edit, if_pos rfl]
        change (loop.erased observer).Inv
          ((w.storage.edit (.remove loop.set observer)).observersOf loop.set)
        rw [EventStorage.observersOf_remove]
        exact hinv.erase (hok loop hloop rfl)
      · rw [RunningLoop.edit, if_neg hset]
        change loop.toLiveLoop.Inv ((w.storage.edit (.remove set observer)).observersOf loop.set)
        rw [EventStorage.observersOf_edit_of_ne (Or.inr rfl) hset]
        exact hinv

/-- **What a step keeps.** -/
theorem LoopInv.step {a : NotifyAction} (h : w.LoopInv) (hen : w.enabled a)
    (hok : w.Undisturbing a) (hs : w.step nodeIdLess a = some w') : w'.LoopInv := by
  cases a with
  | update events =>
      cases hs
      exact loopInv_of_none (Option.isNone_iff_eq_none.mp hen.1)
  | clear =>
      cases hs
      exact loopInv_of_none (Option.isNone_iff_eq_none.mp hen.1)
  | edit e =>
      cases hs
      exact h.edit hok
  | proceed =>
      simp only [NotifyingStorage.step] at hs
      split at hs
      · rename_i loop hloop
        exact goOn_inv (h loop hloop) hs
      · cases hs
      · rename_i hloop _
        refine runTask_inv ?_ hs
        exact hloop

theorem LoopInv.safe (h : w.LoopInv) : w.NotifiesSafely where
  next := fun loop hloop observer hobserver =>
    ⟨(h loop hloop).intact, (h loop hloop).next observer hobserver⟩
  once := fun loop hloop _ hstarted hmem hbehind =>
    (h loop hloop).count_visited hstarted hmem hbehind

/-- A callback that disturbs its loop leaves it unsafe. -/
theorem undisturbing_of_safe {e : ObserverEdit} (h : (w.edit e).NotifiesSafely) :
    w.Undisturbing (.edit e) := by
  cases e with
  | remove set observer =>
      intro loop hloop hset hnext
      have hloop' : loop.edit (.remove set observer) ∈ (w.edit (.remove set observer)).loop :=
        Option.mem_map_of_mem _ hloop
      rw [RunningLoop.edit, if_pos hset] at hloop'
      have hintact := (h.next _ hloop' observer hnext).1
      simp [LiveLoop.erased, hnext] at hintact
  | add set observer =>
      rintro loop hloop rfl ⟨hstarted, hvisited, hbehind⟩
      have hmem : observer ∈ (w.edit (.add loop.set observer)).storage.observersOf loop.set := by
        change observer ∈ (w.storage.edit (.add loop.set observer)).observersOf loop.set
        rw [EventStorage.observersOf_add]
        exact Finset.mem_insert_self _ _
      have hloop' : loop ∈ (w.edit (.add loop.set observer)).loop :=
        Option.mem_map_of_mem (RunningLoop.edit · (.add loop.set observer)) hloop
      have hcount := h.once loop hloop' observer hstarted hmem hbehind
      rw [List.count_eq_zero_of_not_mem hvisited] at hcount
      cases hcount

end NotifyingStorage

/-! ## §5  Each observer is called once -/

/-- **Observers may come and go, with two exceptions.** Whatever a storage is like at
first: as long as no callback unregisters the observer after its own or brings one back
behind its loop, the loops call registered observers only, and once those that stay;
and a callback that does so spoils just that. -/
theorem observers_called_once {nodeIdLess : NodeId → NodeId → Bool} {storage : EventStorage}
    {w : NotifyingStorage}
    (h : (notifyMachine nodeIdLess storage).Reaches NotifyingStorage.Undisturbing w) :
    w.NotifiesSafely ∧
      ∀ e, (w.edit e).NotifiesSafely ↔ w.Undisturbing (.edit e) := by
  have hinv : w.LoopInv := h.invariant (NotifyingStorage.loopInv_of_none rfl)
    fun _ _ _ hinv hen hok hs => hinv.step hen hok hs
  refine ⟨hinv.safe, fun e => ⟨NotifyingStorage.undisturbing_of_safe, fun hok => ?_⟩⟩
  exact (hinv.edit hok).safe

/-- Two observers, and the first event that they hear of: the first one is called. -/
def firstAlert : List NotifyAction :=
  [.edit (.add .all 1), .edit (.add .all 2), .update [(7, ⟨1, 5, .null, 3, false⟩)], .proceed,
    .proceed, .proceed]

/-- An observer unregisters itself. -/
theorem observers_called_once_self :
    ∃ w, (notifyMachine (fun _ _ => false) .empty).Reaches NotifyingStorage.Undisturbing w ∧
      w.storage.observers = {2} ∧ w.loop.map (·.visited) = some [1] ∧ w.NotifiesSafely := by
  obtain ⟨w, hreach, hp⟩ := Machine.exists_reaches_of_exec
    (M := notifyMachine (fun _ _ => false) .empty) NotifyingStorage.Undisturbing
    (p := fun w => w.storage.observers = {2} ∧ w.loop.map (·.visited) = some [1])
    (firstAlert ++ [.edit (.remove .all 1)]) (by decide)
  obtain ⟨hobservers, hvisited⟩ := of_decide_eq_true hp
  exact ⟨w, hreach, hobservers, hvisited, (observers_called_once hreach).1⟩

/-- **The next one is gone.** The first observer unregisters the second: the iterator is
on an erased element, which the loop goes on with. -/
theorem next_observer_is_erased :
    ∃ w, (notifyMachine (fun _ _ => false) .empty).Reachable w ∧ w.storage.observers = {1} ∧
      w.loop.map (·.next) = some (some 2) ∧ ¬ w.NotifiesSafely ∧
        w.step (fun _ _ => false) .proceed = none := by
  obtain ⟨w, hreach, hp⟩ := Machine.exists_reachable_of_exec
    (M := notifyMachine (fun _ _ => false) .empty)
    (p := fun w => w.storage.observers = {1} ∧ w.loop.map (·.next) = some (some 2) ∧
      w.loop.map (·.intact) = some false ∧ (w.step (fun _ _ => false) .proceed).isNone = true)
    (firstAlert ++ [.edit (.remove .all 2)]) (by decide)
  obtain ⟨hobservers, hnext, hintact, hstep⟩ := of_decide_eq_true hp
  refine ⟨w, hreach, hobservers, hnext, fun hsafe => ?_, Option.isNone_iff_eq_none.mp hstep⟩
  obtain ⟨loop, hloop, hnext⟩ := Option.map_eq_some_iff.mp hnext
  rw [hloop, Option.map_some, (hsafe.next loop hloop 2 hnext).1] at hintact
  cases hintact

end ScadaCommon
