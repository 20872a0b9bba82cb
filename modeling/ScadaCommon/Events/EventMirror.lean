import ScadaCommon.Events.EventStorageIndex

/-!
# Mirrors of the node events

An observer that keeps, for each node, the set it was told last should always
have what `GetNodeEvents` returns.

§1 the mirror · §2 what the operations tell · §3 runs.
-/

namespace ScadaCommon

open Foundation

/-! ## §1  The mirror -/

/-- The observer is notified, and keeps the sets of the nodes. -/
def Notification.record (observer : ObserverId) (mirror : NodeId → List EventPtr) :
    Notification → NodeId → List EventPtr
  | .itemEventsChanged observers nodeId nodeEvents =>
      if observer ∈ observers then Function.update mirror nodeId nodeEvents else mirror
  | .events _ _ => mirror
  | .allEventsAcknowledged _ => mirror

/-- For each node the last set that was delivered, empty if none was. -/
def mirrored (observer : ObserverId) (notifications : List Notification) :
    NodeId → List EventPtr :=
  notifications.foldl (Notification.record observer) fun _ => []

theorem mirrored_append (observer : ObserverId) (old new : List Notification) :
    mirrored observer (old ++ new) =
      new.foldl (Notification.record observer) (mirrored observer old) :=
  List.foldl_append

namespace EventStorage

variable {s s' s'' : EventStorage} {observer : ObserverId} {changed : List Notification}

/-- The sets of the nodes, empty where there is no entry. -/
def nodeSets (s : EventStorage) (nodeId : NodeId) : List EventPtr :=
  (s.getNodeEvents nodeId).getD []

theorem nodeSets_eq (s : EventStorage) : s.nodeSets = fun n => (s.nodeEntry n).events :=
  funext fun n => getNodeEvents_getD s n

theorem nodeSets_congr (h : s'.nodeEvents = s.nodeEvents) : s'.nodeSets = s.nodeSets := by
  simp only [nodeSets_eq, nodeEntry_congr h]

theorem nodeEntry_update {n : NodeId} {entry : NodeEntry}
    (h : s'.nodeEvents = s.nodeEvents.insert n entry) :
    s'.nodeEntry = Function.update s.nodeEntry n entry := by
  funext m
  rw [nodeEntry_insert h, Function.update_apply]

theorem nodeEntry_updateErase {n : NodeId} (h : s'.nodeEvents = s.nodeEvents.erase n) :
    s'.nodeEntry = Function.update s.nodeEntry n ⟨[], ∅⟩ := by
  funext m
  rw [nodeEntry_erase h, Function.update_apply]

theorem nodeSets_update {n : NodeId} {entry : NodeEntry}
    (h : s'.nodeEntry = Function.update s.nodeEntry n entry) :
    s'.nodeSets = Function.update s.nodeSets n entry.events := by
  funext m
  simp only [nodeSets_eq, h, Function.update_apply]
  split <;> rfl

/-! ## §2  What the operations tell -/

/-- A relation of two storages and of what is told between them that can be put together,
and that has the change of a node with its two loops and all that is about no node. -/
structure Follows (R : EventStorage → List Notification → EventStorage → Prop) : Prop where
  append : ∀ {s s' s'' changed changed'}, R s changed s' → R s' changed' s'' →
    R s (changed ++ changed') s''
  nothing : ∀ {s s' : EventStorage}, s'.observers = s.observers →
    s'.nodeEvents = s.nodeEvents → R s [] s'
  node : ∀ {s s' : EventStorage} (n : NodeId) (events : List EventPtr),
    s'.observers = s.observers →
    s'.nodeEntry = Function.update s.nodeEntry n ⟨events, (s.nodeEntry n).observers⟩ →
    R s [.itemEventsChanged s.observers n events,
      .itemEventsChanged (s.nodeEntry n).observers n events] s'
  events : ∀ (s : EventStorage) (called : Finset ObserverId) (events : List EventPtr),
    R s [.events called events] s
  acknowledged : ∀ {s s' : EventStorage} (called : Finset ObserverId),
    s'.observers = s.observers → s'.nodeEvents = s.nodeEvents →
    R s [.allEventsAcknowledged called] s'

namespace Follows

variable {R : EventStorage → List Notification → EventStorage → Prop}

/-- What happens to the events before does not matter. -/
theorem of_frame (hR : Follows R) {s₁ : EventStorage} (h : R s₁ changed s')
    (hobservers : s₁.observers = s.observers) (hnodeEvents : s₁.nodeEvents = s.nodeEvents) :
    R s changed s' :=
  hR.append (hR.nothing hobservers hnodeEvents) h

theorem updateAlerting (hR : Follows R) (s : EventStorage) :
    R s s.updateAlerting.2 s.updateAlerting.1 := by
  unfold EventStorage.updateAlerting
  dsimp only
  split
  · exact hR.nothing rfl rfl
  · exact hR.acknowledged s.observers rfl rfl

theorem alerted (hR : Follows R) (h : R s changed s') :
    R s (changed ++ s'.updateAlerting.2) s'.updateAlerting.1 :=
  hR.append h (hR.updateAlerting s')

theorem addToNode (hR : Follows R) {ptr : EventPtr} {n : NodeId}
    (h : s.addToNode ptr n = some (s', changed)) : R s changed s' := by
  unfold EventStorage.addToNode at h
  split at h
  · cases h
    exact hR.nothing rfl rfl
  · obtain ⟨-, h⟩ := check_bind_eq_some.mp h
    cases h
    exact hR.node n _ rfl (nodeEntry_update rfl)

theorem add (hR : Follows R) {ptr added : EventPtr} {event : Event}
    (h : s.add ptr event = some (s', changed, added)) : R s changed s' := by
  unfold EventStorage.add at h
  split at h
  · cases h
    -- The event is replaced in place, so its pointer stays where it is.
    exact hR.of_frame (hR.updateAlerting _) rfl rfl
  · obtain ⟨⟨s₁, indexed⟩, hindexed, h⟩ := Option.bind_eq_some_iff.mp h
    cases h
    have hnode : R s indexed s₁ := hR.of_frame (hR.addToNode hindexed) rfl rfl
    exact hR.alerted hnode

theorem removeFromNode (hR : Follows R) {ptr : EventPtr} {n : NodeId}
    (h : s.removeFromNode ptr n = some (s', changed)) : R s changed s' := by
  unfold EventStorage.removeFromNode at h
  split at h
  · cases h
    exact hR.nothing rfl rfl
  · split at h
    · cases h
      exact hR.nothing rfl rfl
    · rename_i entry hentry
      obtain ⟨-, h⟩ := check_bind_eq_some.mp h
      obtain ⟨-, h⟩ := check_bind_eq_some.mp h
      cases h
      have hobservers : (s.nodeEntry n).observers = entry.observers := by
        unfold nodeEntry
        rw [hentry]
        rfl
      rw [← hobservers]
      refine hR.node n _ rfl ?_
      -- An entry that goes is the entry that would be left.
      by_cases hlast : entry.events.erase ((OrderedSet.find (EventComparer s.timeOf) ptr
          entry.events).getD ptr) = [] ∧ (s.nodeEntry n).observers = ∅
      · rw [nodeEntry_updateErase (if_pos hlast), hlast.1, hlast.2]
      · exact nodeEntry_update (if_neg hlast)

theorem remove (hR : Follows R) {event : Event} {node : Option EventPtr}
    (h : s.remove event = some (s', changed, node)) : R s changed s' := by
  unfold EventStorage.remove at h
  split at h
  · cases h
    exact hR.nothing rfl rfl
  · obtain ⟨⟨s₁, indexed⟩, hindexed, h⟩ := Option.bind_eq_some_iff.mp h
    cases h
    have hnode : R s indexed s₁ := hR.of_frame (hR.removeFromNode hindexed) rfl rfl
    exact hR.append hnode (hR.of_frame (hR.updateAlerting _) rfl rfl)

/-- One round of the loop adds its notifications. -/
theorem updateOne (hR : Follows R) {ptr : EventPtr} {event : Event}
    {notifyEvents : List EventPtr} {acc : EventStorage × List Notification × List EventPtr}
    {old : List Notification}
    (h : EventStorage.updateOne ptr event (s, old, notifyEvents) = some acc) :
    ∃ new, acc.2.1 = old ++ new ∧ R s new acc.1 := by
  unfold EventStorage.updateOne at h
  dsimp only at h
  split at h
  · obtain ⟨⟨s₁, new, node⟩, hremove, h⟩ := Option.bind_eq_some_iff.mp h
    cases h
    exact ⟨new, rfl, hR.remove hremove⟩
  · obtain ⟨⟨s₁, new, added⟩, hadd, h⟩ := Option.bind_eq_some_iff.mp h
    cases h
    exact ⟨new, rfl, hR.add hadd⟩

theorem updateLoop (hR : Follows R) {events : List (EventPtr × Event)}
    {notifyEvents : List EventPtr} {acc : EventStorage × List Notification × List EventPtr}
    {old : List Notification}
    (h : EventStorage.updateLoop events (s, old, notifyEvents) = some acc) :
    ∃ new, acc.2.1 = old ++ new ∧ R s new acc.1 := by
  induction events generalizing s old notifyEvents with
  | nil =>
      cases h
      exact ⟨[], (List.append_nil _).symm, hR.nothing rfl rfl⟩
  | cons event events ih =>
      obtain ⟨⟨s₁, old₁, notify₁⟩, hone, hrest⟩ := Option.bind_eq_some_iff.mp h
      obtain ⟨new₁, rfl, hfollows₁⟩ := hR.updateOne hone
      obtain ⟨new, hnew, hfollows⟩ := ih hrest
      exact ⟨new₁ ++ new, by rw [hnew, List.append_assoc], hR.append hfollows₁ hfollows⟩

/-- **A batch** is followed by what follows each change of a node. -/
theorem update (hR : Follows R) {events : List (EventPtr × Event)}
    (h : s.update events = some (s', changed)) : R s changed s' := by
  obtain ⟨⟨s₁, notifications, notifyEvents⟩, hloop, h⟩ := Option.bind_eq_some_iff.mp h
  obtain ⟨new, rfl, hfollows⟩ := hR.updateLoop hloop
  cases h
  split
  · exact hfollows
  · exact hR.append hfollows (hR.events _ _ notifyEvents)

end Follows

/-- The observer stays registered, and a mirror that was right is right again
after the notifications. -/
structure Tells (observer : ObserverId) (s : EventStorage) (changed : List Notification)
    (s' : EventStorage) : Prop where
  observers : s'.observers = s.observers
  sets : changed.foldl (Notification.record observer) s.nodeSets = s'.nodeSets

/-- Who observes the storage is told of the change of a node in the first of the two loops. -/
theorem Tells.follows (observer : ObserverId) :
    Follows fun s changed s' => observer ∈ s.observers → Tells observer s changed s' where
  append h h' hmem :=
    { observers := (h' ((h hmem).observers ▸ hmem)).observers.trans (h hmem).observers
      sets := by rw [List.foldl_append, (h hmem).sets, (h' ((h hmem).observers ▸ hmem)).sets] }
  nothing hobservers hnodeEvents _ := ⟨hobservers, (nodeSets_congr hnodeEvents).symm⟩
  node {s _} n events hobservers hentry hmem :=
    { observers := hobservers
      sets := by
        rw [nodeSets_update hentry]
        by_cases hnode : observer ∈ (s.nodeEntry n).observers <;>
          simp [Notification.record, hmem, hnode] }
  events _ _ _ _ := ⟨rfl, rfl⟩
  acknowledged _ hobservers hnodeEvents _ := ⟨hobservers, (nodeSets_congr hnodeEvents).symm⟩

/-! ### Clearing -/

/-- Every node that has events has an observer of its own. -/
def AllObserved (s : EventStorage) : Prop :=
  ∀ e ∈ s.nodeEvents.entries, e.2.observers = ∅ → e.2.events = []

instance (s : EventStorage) : Decidable s.AllObserved := by
  unfold AllObserved
  infer_instance

theorem nodeSets_clear (s : EventStorage) : s.clear.1.nodeSets = fun _ => [] := by
  funext n
  have hnode : s.clear.1.nodeEvents = AssocMap.filterMap
      (fun (_ : NodeId) (entry : NodeEntry) => if entry.observers = ∅ then none
        else some { entry with events := [] }) s.nodeEvents := by
    simp [clear]
  unfold nodeSets getNodeEvents
  rw [hnode, AssocMap.lookup_filterMap]
  cases s.nodeEvents.lookup n with
  | none => rfl
  | some entry => by_cases hempty : entry.observers = ∅ <;> simp [hempty]

/-- The loop of `Clear` takes back the sets of the nodes it comes to. -/
theorem foldl_clearLoop {observers : Finset ObserverId} (hmem : observer ∈ observers)
    (entries : List (Sigma fun _ : NodeId => NodeEntry)) (mirror : NodeId → List EventPtr)
    (n : NodeId) :
    (entries.flatMap fun e => [.itemEventsChanged observers e.1 [],
        .itemEventsChanged e.2.observers e.1 []]).foldl (Notification.record observer) mirror n =
      if n ∈ entries.map (·.1) then [] else mirror n := by
  induction entries generalizing mirror with
  | nil => simp
  | cons e entries ih =>
      rw [List.flatMap_cons, List.foldl_append, ih, List.map_cons]
      by_cases hnode : observer ∈ e.2.observers <;> by_cases hn : n = e.1 <;>
        simp only [Notification.record, List.foldl_cons, List.foldl_nil, hmem, hnode, hn,
          List.mem_cons, true_or, false_or, if_true, if_false, Function.update_self, ite_self,
          ne_eq, not_false_eq_true, Function.update_of_ne]

theorem foldl_updateAlerting (s : EventStorage) (mirror : NodeId → List EventPtr) :
    s.updateAlerting.2.foldl (Notification.record observer) mirror = mirror := by
  unfold updateAlerting
  dsimp only
  split <;> rfl

/-- The nodes that `Clear` tells of. -/
theorem mem_observedNodes (s : EventStorage) (n : NodeId) :
    n ∈ (s.nodeEvents.entries.filter fun e => e.2.observers ≠ ∅).map (·.1) ↔
      (s.nodeEntry n).observers ≠ ∅ := by
  unfold nodeEntry
  rw [List.mem_map]
  constructor
  · rintro ⟨e, he, rfl⟩
    obtain ⟨he, hne⟩ := List.mem_filter.mp he
    rw [Option.mem_def.mp (AList.mem_lookup_iff.mpr he)]
    exact of_decide_eq_true hne
  · intro hne
    cases hentry : s.nodeEvents.lookup n with
    | none =>
        rw [hentry] at hne
        exact absurd rfl hne
    | some entry =>
        rw [hentry] at hne
        refine ⟨⟨n, entry⟩, List.mem_filter.mpr ⟨AList.mem_lookup_iff.mp hentry, ?_⟩, rfl⟩
        exact decide_eq_true hne

/-- A mirror keeps the sets of the nodes that nobody observes. -/
theorem foldl_clear (hmem : observer ∈ s.observers) (mirror : NodeId → List EventPtr) (n : NodeId) :
    s.clear.2.foldl (Notification.record observer) mirror n =
      if (s.nodeEntry n).observers = ∅ then mirror n else [] := by
  unfold clear
  dsimp only
  rw [List.foldl_append, foldl_updateAlerting, foldl_clearLoop hmem]
  have hlisted := mem_observedNodes s n
  by_cases hempty : (s.nodeEntry n).observers = ∅
  · rw [if_pos hempty, if_neg (fun hmem => hlisted.mp hmem hempty)]
  · rw [if_neg hempty, if_pos (hlisted.mpr hempty)]

theorem allObserved_iff (s : EventStorage) :
    s.AllObserved ↔ ∀ n, (s.nodeEntry n).observers = ∅ → (s.nodeEntry n).events = [] := by
  unfold AllObserved nodeEntry
  constructor
  · intro h n
    cases hentry : s.nodeEvents.lookup n with
    | none => exact fun _ => rfl
    | some entry => exact h ⟨n, entry⟩ (AList.mem_lookup_iff.mp hentry)
  · intro h e he
    have hn := h e.1
    rwa [Option.mem_def.mp (AList.mem_lookup_iff.mpr he)] at hn

theorem clear_observers (s : EventStorage) : s.clear.1.observers = s.observers := by
  unfold clear updateAlerting
  dsimp only
  split <;> rfl

/-- **`Clear`** leaves a mirror right just when no set is taken back silently. -/
theorem tells_clear_iff (hmem : observer ∈ s.observers) :
    Tells observer s s.clear.2 s.clear.1 ↔ s.AllObserved := by
  rw [allObserved_iff]
  constructor
  · intro h n hempty
    have hsets := congrFun h.sets n
    rw [foldl_clear hmem, if_pos hempty, nodeSets_clear, nodeSets_eq] at hsets
    exact hsets
  · intro h
    refine ⟨clear_observers s, funext fun n => ?_⟩
    rw [foldl_clear hmem, nodeSets_clear, nodeSets_eq]
    by_cases hempty : (s.nodeEntry n).observers = ∅
    · rw [if_pos hempty]
      exact h n hempty
    · rw [if_neg hempty]

/-! ### Observers -/

theorem nodeSets_addNodeObserver (s : EventStorage) (n : NodeId) (o : ObserverId) :
    (s.addNodeObserver n o).nodeSets = s.nodeSets := by
  rw [nodeSets_update (n := n) (nodeEntry_update rfl),
    nodeSets_eq]
  exact Function.update_eq_self n _

theorem nodeSets_removeNodeObserver (s : EventStorage) (n : NodeId) (o : ObserverId) :
    (s.removeNodeObserver n o).nodeSets = s.nodeSets := by
  rw [nodeSets_update (n := n) (nodeEntry_update rfl),
    nodeSets_eq]
  exact Function.update_eq_self n _

end EventStorage

/-! ## §3  Runs -/

namespace StorageRun

variable {r r' : StorageRun} {observer : ObserverId} {op : StorageOp}

/-- The observer is registered, and its mirror agrees with `GetNodeEvents`. -/
structure Mirrors (observer : ObserverId) (r : StorageRun) : Prop where
  registered : observer ∈ r.storage.observers
  agrees : ∀ n, mirrored observer r.notifications n = (r.storage.getNodeEvents n).getD []

theorem Mirrors.sets (h : r.Mirrors observer) :
    mirrored observer r.notifications = r.storage.nodeSets :=
  funext h.agrees

/-- The observer stays registered. -/
def StaysRegistered (observer : ObserverId) : StorageOp → Prop
  | .removeObserver other => other ≠ observer
  | _ => True

instance (op : StorageOp) : Decidable (StaysRegistered observer op) := by
  apply StorageOp.casesOn (motive := fun op => Decidable (StaysRegistered observer op)) op <;>
    intros <;> unfold StaysRegistered <;> infer_instance

/-- `Clear` comes only when every node with events has an observer. -/
def ClearsObserved (r : StorageRun) : StorageOp → Prop
  | .clear => r.storage.AllObserved
  | _ => True

instance (r : StorageRun) (op : StorageOp) : Decidable (r.ClearsObserved op) := by
  unfold ClearsObserved
  split <;> infer_instance

theorem Mirrors.of_tells {storage : EventStorage} {new : List Notification}
    (h : r.Mirrors observer) (htells : EventStorage.Tells observer r.storage new storage) :
    Mirrors observer ⟨storage, r.notifications ++ new⟩ where
  registered := htells.observers ▸ h.registered
  agrees := by
    intro n
    show mirrored observer (r.notifications ++ new) n = storage.nodeSets n
    rw [mirrored_append, h.sets, htells.sets]

theorem Mirrors.of_sets {storage : EventStorage} (h : r.Mirrors observer)
    (hregistered : observer ∈ storage.observers) (hsets : storage.nodeSets = r.storage.nodeSets) :
    Mirrors observer { r with storage } where
  registered := hregistered
  agrees := by
    intro n
    show mirrored observer r.notifications n = storage.nodeSets n
    rw [h.sets, hsets]

theorem step_registered (h : observer ∈ r.storage.observers)
    (hstays : StaysRegistered observer op) (hs : r.step op = some r') :
    observer ∈ r'.storage.observers := by
  cases op with
  | update events =>
      obtain ⟨⟨storage, new⟩, hupdate, hs⟩ := Option.bind_eq_some_iff.mp hs
      cases hs
      exact ((EventStorage.Tells.follows observer).update hupdate h).observers ▸ h
  | clear =>
      cases hs
      exact EventStorage.clear_observers r.storage ▸ h
  | addObserver other =>
      cases hs
      exact Finset.mem_insert_of_mem h
  | removeObserver other =>
      cases hs
      exact Finset.mem_erase.mpr ⟨Ne.symm hstays, h⟩
  | addNodeObserver n other =>
      cases hs
      exact h
  | removeNodeObserver n other =>
      cases hs
      exact h

/-- **One operation** keeps the mirror right just when it is not a `Clear` that
takes back sets nobody observes. -/
theorem Mirrors.step_iff (h : r.Mirrors observer) (hstays : StaysRegistered observer op)
    (hs : r.step op = some r') : r'.Mirrors observer ↔ r.ClearsObserved op := by
  cases op with
  | update events =>
      obtain ⟨⟨storage, new⟩, hupdate, hs⟩ := Option.bind_eq_some_iff.mp hs
      cases hs
      exact iff_of_true
        (h.of_tells ((EventStorage.Tells.follows observer).update hupdate h.registered)) trivial
  | clear =>
      cases hs
      refine Iff.trans ?_ (EventStorage.tells_clear_iff h.registered)
      constructor
      · intro hmirrors
        refine ⟨EventStorage.clear_observers _, ?_⟩
        rw [← h.sets, ← mirrored_append]
        exact hmirrors.sets
      · exact h.of_tells
  | addObserver other =>
      cases hs
      exact iff_of_true (h.of_sets (Finset.mem_insert_of_mem h.registered) rfl) trivial
  | removeObserver other =>
      cases hs
      refine iff_of_true (h.of_sets ?_ rfl) trivial
      exact Finset.mem_erase.mpr ⟨Ne.symm hstays, h.registered⟩
  | addNodeObserver n other =>
      cases hs
      refine iff_of_true (h.of_sets h.registered ?_) trivial
      exact EventStorage.nodeSets_addNodeObserver _ n other
  | removeNodeObserver n other =>
      cases hs
      refine iff_of_true (h.of_sets h.registered ?_) trivial
      exact EventStorage.nodeSets_removeNodeObserver _ n other

/-- The storage with one observer, before anything happened. -/
def watched (observer : ObserverId) : StorageRun :=
  ⟨EventStorage.empty.addObserver observer, []⟩

end StorageRun

open StorageRun

/-- **Mirrors agree** with `GetNodeEvents` in every run in which `Clear` finds no
events of a node without observers; the first such `Clear` ends this. -/
theorem mirror_agrees {observer : ObserverId} {r : StorageRun}
    (h : storageMachine.ReachesFrom
      (fun r op => StaysRegistered observer op ∧ r.ClearsObserved op) (watched observer) r) :
    (∀ n, mirrored observer r.notifications n = (r.storage.getNodeEvents n).getD []) ∧
      ∀ op r', StaysRegistered observer op → storageMachine.step r op = some r' →
        ((∀ n, mirrored observer r'.notifications n = (r'.storage.getNodeEvents n).getD []) ↔
          r.ClearsObserved op) := by
  have hstart : (watched observer).Mirrors observer := by
    refine ⟨Finset.mem_insert_self _ _, fun n => ?_⟩
    rfl
  have hinv : r.Mirrors observer :=
    h.invariant hstart fun t op t' ht _ hok hs => (ht.step_iff hok.1 hs).mpr hok.2
  refine ⟨hinv.agrees, ?_⟩
  intro op r' hstays hs
  rw [← hinv.step_iff hstays hs]
  refine ⟨fun hagrees => ⟨?_, hagrees⟩, fun hmirrors => hmirrors.agrees⟩
  exact step_registered hinv.registered hstays hs

/-- A node with an observer gets an event, and the storage is cleared. -/
theorem mirror_agrees_cleared : ∃ r : StorageRun,
    r.storage.getNodeEvents (.numeric 7 1) = some [] ∧
      r.notifications.length = 7 ∧ mirrored 1 r.notifications (.numeric 7 1) = [] := by
  obtain ⟨r, hr, hp⟩ := Machine.exists_reachesFrom_of_exec (M := storageMachine) (watched 1)
    (fun r op => StaysRegistered 1 op ∧ r.ClearsObserved op)
    (p := fun r => decide (r.storage.getNodeEvents (.numeric 7 1) = some [] ∧
      r.notifications.length = 7))
    [.addNodeObserver (.numeric 7 1) 2, .update [(0, ⟨1, 5, .numeric 7 1, 100, false⟩)], .clear]
    (by decide)
  obtain ⟨hset, hlength⟩ := of_decide_eq_true hp
  refine ⟨r, hset, hlength, ?_⟩
  rw [(mirror_agrees hr).1, hset]
  rfl

/-- Nobody observes the node of an event: `Clear` takes its entry out, and the
mirror keeps the pointer. -/
theorem cleared_node_stays_in_mirror : ∃ r : StorageRun,
    storageMachine.ReachesFrom (fun _ op => StaysRegistered 1 op) (watched 1) r ∧
      r.storage.getNodeEvents (.numeric 7 1) = none ∧
      mirrored 1 r.notifications (.numeric 7 1) = [0] := by
  obtain ⟨r, hr, hp⟩ := Machine.exists_reachesFrom_of_exec (M := storageMachine) (watched 1)
    (fun _ op => StaysRegistered 1 op)
    (p := fun r => decide (r.storage.getNodeEvents (.numeric 7 1) = none ∧
      mirrored 1 r.notifications (.numeric 7 1) = [0]))
    [.update [(0, ⟨1, 5, .numeric 7 1, 100, false⟩)], .clear] (by decide)
  obtain ⟨hset, hmirror⟩ := of_decide_eq_true hp
  exact ⟨r, hr, hset, hmirror⟩

end ScadaCommon
