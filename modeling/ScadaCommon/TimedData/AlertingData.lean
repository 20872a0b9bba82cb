import ScadaCommon.Events.EventMirror

/-!
# Alerting of timed data

`TimedDataImpl` observes the events of its node and keeps a flag whether there are
any, which `EventStorage` has to keep right by telling it of every change.

§1 timed data and their storage · §2 what the observers of a node are told ·
§3 what the operations tell · §4 runs · §5 the flag and the stored events.
-/

namespace ScadaCommon

open Foundation

/-! ## §1  Timed data and their storage -/

/-- `EventFetcher::IsAlerting`. -/
def EventStorage.isAlerting (s : EventStorage) (nodeId : NodeId) : Bool :=
  match s.getNodeEvents nodeId with
  | some events => !events.isEmpty
  | none => false

/-- The part of `TimedDataImpl` that is about events. -/
structure TimedDataImpl where
  node : Option NodeId := none
  alerting : Bool := false
deriving DecidableEq

namespace TimedDataImpl

/-- Asserts that it is about the node of the data. -/
def onItemEventsChanged (data : TimedDataImpl) (nodeId : NodeId) (events : List EventPtr) :
    Option TimedDataImpl := do
  check (data.node = some nodeId)
  return { data with alerting := !events.isEmpty }

/-- `GetEvents`. -/
def getEvents (data : TimedDataImpl) (s : EventStorage) : Option (List EventPtr) :=
  data.node.bind s.getNodeEvents

end TimedDataImpl

/-- The timed data, by the addresses under which they are observers. -/
abbrev TimedDataImpls := AssocMap ObserverId TimedDataImpl

namespace TimedDataImpls

/-- One loop over observers; those that are no timed data do not matter. -/
def deliver (datas : TimedDataImpls) : Notification → Option TimedDataImpls
  | .itemEventsChanged observers nodeId events => do
      check (∀ e ∈ datas.entries, e.1 ∈ observers →
        (e.2.onItemEventsChanged nodeId events).isSome = true)
      return AssocMap.filterMap
        (fun o data => if o ∈ observers then data.onItemEventsChanged nodeId events else some data)
        datas
  | .events _ _ => some datas
  | .allEventsAcknowledged _ => some datas

end TimedDataImpls

structure AlertingWorld where
  storage : EventStorage
  datas : TimedDataImpls

inductive AlertingAction where
  /-- The storage is updated or cleared, or has other observers. -/
  | storage (op : StorageOp)
  /-- `GetNodeTimedData` makes a timed data and calls its `Init`, if the id is not null. -/
  | init (o : ObserverId) (nodeId : NodeId)
  /-- `OnModelChanged`, when the node is deleted. -/
  | nodeDeleted (o : ObserverId)
  /-- `~TimedDataImpl`. -/
  | destroy (o : ObserverId)

namespace AlertingWorld

/-- Nobody else registers what is a timed data. -/
def foreign (w : AlertingWorld) : StorageOp → Prop
  | .addObserver o => o ∉ w.datas
  | .removeObserver o => o ∉ w.datas
  | .addNodeObserver _ o => o ∉ w.datas
  | .removeNodeObserver _ o => o ∉ w.datas
  | _ => True

instance (w : AlertingWorld) (op : StorageOp) : Decidable (w.foreign op) := by
  apply StorageOp.casesOn (motive := fun op => Decidable (w.foreign op)) op <;>
    intros <;> unfold foreign <;> infer_instance

/-- No object at that address is in use. -/
def free (w : AlertingWorld) (o : ObserverId) : Prop :=
  o ∉ w.datas ∧ o ∉ w.storage.observers ∧
    ∀ e ∈ w.storage.nodeEvents.entries, o ∉ e.2.observers

instance (w : AlertingWorld) (o : ObserverId) : Decidable (w.free o) := by
  unfold free
  infer_instance

/-- A timed data is connected to the signal of its node while it has one. -/
def enabled (w : AlertingWorld) : AlertingAction → Prop
  | .storage op => StorageRun.enabled ⟨w.storage, []⟩ op ∧ w.foreign op
  | .init o nodeId => w.free o ∧ nodeId ≠ .null
  | .nodeDeleted o => ((w.datas.lookup o).bind (·.node)).isSome = true
  | .destroy o => o ∈ w.datas

instance (w : AlertingWorld) (a : AlertingAction) : Decidable (w.enabled a) := by
  apply AlertingAction.casesOn (motive := fun a => Decidable (w.enabled a)) a <;>
    intros <;> unfold enabled <;> infer_instance

/-- `if (node_) RemoveItemObserver(..)`. -/
def forgetNode (s : EventStorage) (o : ObserverId) : Option NodeId → EventStorage
  | some old => s.removeNodeObserver old o
  | none => s

/-- `SetNode` of the data at the address. -/
def setNode (w : AlertingWorld) (o : ObserverId) (data : TimedDataImpl) (node : Option NodeId) :
    AlertingWorld :=
  if data.node = node then { w with datas := w.datas.insert o data }
  else
    let storage := forgetNode w.storage o data.node
    match node with
    | some nodeId =>
        let storage := storage.addNodeObserver nodeId o
        let data := { data with node, alerting := storage.isAlerting nodeId }
        ⟨storage, w.datas.insert o data⟩
    | none => ⟨storage, w.datas.insert o { data with node }⟩

def step (w : AlertingWorld) : AlertingAction → Option AlertingWorld
  | .storage op => do
      let r ← StorageRun.step ⟨w.storage, []⟩ op
      let datas ← r.notifications.foldlM TimedDataImpls.deliver w.datas
      return ⟨r.storage, datas⟩
  | .init o nodeId => some (w.setNode o {} (some nodeId))
  | .nodeDeleted o => do
      let data ← w.datas.lookup o
      return w.setNode o data none
  | .destroy o => do
      let data ← w.datas.lookup o
      let w := w.setNode o data none
      return { w with datas := w.datas.erase o }

end AlertingWorld

def alertingMachine : Machine AlertingWorld AlertingAction where
  init := ⟨.empty, ∅⟩
  enabled := AlertingWorld.enabled
  step := AlertingWorld.step

instance (w : AlertingWorld) (a : AlertingAction) : Decidable (alertingMachine.enabled w a) :=
  inferInstanceAs (Decidable (w.enabled a))

/-! ## §2  What the observers of a node are told -/

/-- The sets of the nodes change from one table to another, and the two loops over
the observers tell of each change that somebody may have seen. -/
inductive TellsNodes (observers : Finset ObserverId) (table : NodeId → NodeEntry) :
    List Notification → (NodeId → NodeEntry) → Prop where
  | nothing : TellsNodes observers table [] table
  | nodeEventsChanged {changed : List Notification} {table' : NodeId → NodeEntry} (n : NodeId)
      (events : List EventPtr) : TellsNodes observers table changed table' →
      TellsNodes observers table
        (changed ++ [.itemEventsChanged observers n events,
          .itemEventsChanged (table' n).observers n events])
        (Function.update table' n ⟨events, (table' n).observers⟩)
  /-- An entry without observers goes. -/
  | forgotten {changed : List Notification} {table' : NodeId → NodeEntry} (n : NodeId) :
      (table' n).observers = ∅ → TellsNodes observers table changed table' →
      TellsNodes observers table changed (Function.update table' n ⟨[], ∅⟩)
  | events {changed : List Notification} {table' : NodeId → NodeEntry}
      (called : Finset ObserverId) (events : List EventPtr) :
      TellsNodes observers table changed table' →
      TellsNodes observers table (changed ++ [.events called events]) table'
  | allEventsAcknowledged {changed : List Notification} {table' : NodeId → NodeEntry}
      (called : Finset ObserverId) : TellsNodes observers table changed table' →
      TellsNodes observers table (changed ++ [.allEventsAcknowledged called]) table'

namespace TellsNodes

variable {observers : Finset ObserverId} {table table' table'' : NodeId → NodeEntry}
  {changed changed' : List Notification}

theorem append (h : TellsNodes observers table changed table')
    (h' : TellsNodes observers table' changed' table'') :
    TellsNodes observers table (changed ++ changed') table'' := by
  induction h' with
  | nothing =>
      rw [List.append_nil]
      exact h
  | nodeEventsChanged n events _ ih =>
      rw [← List.append_assoc]
      exact ih.nodeEventsChanged n events
  | forgotten n hempty _ ih => exact ih.forgotten n hempty
  | events called events _ ih =>
      rw [← List.append_assoc]
      exact ih.events called events
  | allEventsAcknowledged called _ ih =>
      rw [← List.append_assoc]
      exact ih.allEventsAcknowledged called

/-- One change, as an operation makes it. -/
theorem changed_node (n : NodeId) (events : List EventPtr)
    (h : table' = Function.update table n ⟨events, (table n).observers⟩) :
    TellsNodes observers table [.itemEventsChanged observers n events,
      .itemEventsChanged (table n).observers n events] table' := by
  subst h
  exact nothing.nodeEventsChanged n events

end TellsNodes

/-- What is right of the timed data: they are observers of their own nodes and of
nothing else, and their flags tell whether the sets of these are empty. -/
structure Watched (observers : Finset ObserverId) (table : NodeId → NodeEntry)
    (datas : TimedDataImpls) : Prop where
  named : ∀ o data, datas.lookup o = some data → data.node ≠ some .null
  alone : ∀ o data, datas.lookup o = some data → o ∉ observers
  observed : ∀ o data, datas.lookup o = some data →
    ∀ n, o ∈ (table n).observers ↔ data.node = some n
  alerting : ∀ o data, datas.lookup o = some data →
    ∀ n, data.node = some n → data.alerting = !(table n).events.isEmpty

namespace TimedDataImpl

/-- The data after a loop over observers. -/
def told (called : Finset ObserverId) (events : List EventPtr) (o : ObserverId)
    (data : TimedDataImpl) : TimedDataImpl :=
  if o ∈ called then { data with alerting := !events.isEmpty } else data

@[simp] theorem told_of_mem {called : Finset ObserverId} {o : ObserverId} (h : o ∈ called)
    (events : List EventPtr) (data : TimedDataImpl) :
    data.told called events o = { data with alerting := !events.isEmpty } :=
  if_pos h

@[simp] theorem told_of_notMem {called : Finset ObserverId} {o : ObserverId} (h : o ∉ called)
    (events : List EventPtr) (data : TimedDataImpl) : data.told called events o = data :=
  if_neg h

@[simp] theorem told_node (called : Finset ObserverId) (events : List EventPtr) (o : ObserverId)
    (data : TimedDataImpl) : (data.told called events o).node = data.node := by
  unfold told
  split <;> rfl

end TimedDataImpl

namespace Watched

variable {observers : Finset ObserverId} {table table' : NodeId → NodeEntry}
  {datas datas' : TimedDataImpls} {changed : List Notification}

/-- **A loop over observers** that are there for one node only asserts nothing wrong. -/
theorem deliver_eq (datas : TimedDataImpls) (called : Finset ObserverId) (n : NodeId)
    (events : List EventPtr)
    (h : ∀ o data, datas.lookup o = some data → o ∈ called → data.node = some n) :
    ∃ datas', datas.deliver (.itemEventsChanged called n events) = some datas' ∧
      ∀ o, datas'.lookup o = (datas.lookup o).map (TimedDataImpl.told called events o) := by
  have hright : ∀ o data, datas.lookup o = some data → o ∈ called →
      data.onItemEventsChanged n events = some { data with alerting := !events.isEmpty } := by
    intro o data hdata ho
    unfold TimedDataImpl.onItemEventsChanged
    exact check_bind_eq_some.mpr ⟨h o data hdata ho, rfl⟩
  refine ⟨_, check_bind_eq_some.mpr ⟨?_, rfl⟩, ?_⟩
  · intro e he ho
    rw [hright e.1 e.2 (AList.mem_lookup_iff.mpr he) ho]
    rfl
  · intro o
    rw [AssocMap.lookup_filterMap]
    cases hdata : datas.lookup o with
    | none => rfl
    | some data =>
        show (if o ∈ called then data.onItemEventsChanged n events else some data) =
          some (data.told called events o)
        by_cases ho : o ∈ called
        · rw [if_pos ho, hright o data hdata ho, TimedDataImpl.told_of_mem ho]
        · rw [if_neg ho, TimedDataImpl.told_of_notMem ho]

/-- The observers of the storage are no timed data. -/
theorem deliver_others (h : Watched observers table datas) (n : NodeId)
    (events : List EventPtr) :
    ∃ datas', datas.deliver (.itemEventsChanged observers n events) = some datas' ∧
      ∀ o, datas'.lookup o = datas.lookup o := by
  obtain ⟨datas', hdeliver, hlookup⟩ := deliver_eq datas observers n
    events fun o data hdata ho => absurd ho (h.alone o data hdata)
  refine ⟨datas', hdeliver, fun o => ?_⟩
  rw [hlookup]
  cases hdata : datas.lookup o with
  | none => rfl
  | some data =>
      show some _ = some _
      rw [TimedDataImpl.told_of_notMem (h.alone o data hdata)]

theorem congr (h : Watched observers table datas)
    (hlookup : ∀ o, datas'.lookup o = datas.lookup o) : Watched observers table datas' where
  named := fun o data hdata => h.named o data (hlookup o ▸ hdata)
  alone := fun o data hdata => h.alone o data (hlookup o ▸ hdata)
  observed := fun o data hdata => h.observed o data (hlookup o ▸ hdata)
  alerting := fun o data hdata => h.alerting o data (hlookup o ▸ hdata)

/-- **The two loops** of a change reach the timed data of that node, which then have
their flags right again. -/
theorem nodeEventsChanged (h : Watched observers table datas) (n : NodeId)
    (events : List EventPtr) :
    ∃ datas', [Notification.itemEventsChanged observers n events,
        .itemEventsChanged (table n).observers n events].foldlM TimedDataImpls.deliver datas =
          some datas' ∧
      Watched observers (Function.update table n ⟨events, (table n).observers⟩) datas' := by
  obtain ⟨datas₁, hdeliver₁, hlookup₁⟩ := h.deliver_others n events
  have h₁ := h.congr hlookup₁
  obtain ⟨datas₂, hdeliver₂, hlookup₂⟩ := deliver_eq datas₁ (table n).observers n
    events fun o data hdata ho => (h₁.observed o data hdata n).mp ho
  have hobservers : ∀ m, (Function.update table n ⟨events, (table n).observers⟩ m).observers =
      (table m).observers := by
    intro m
    by_cases hm : m = n
    · rw [hm, Function.update_self]
    · rw [Function.update_of_ne hm]
  refine ⟨datas₂, ?_, ?_, ?_, ?_, ?_⟩
  · simp only [List.foldlM_cons, List.foldlM_nil, hdeliver₁, hdeliver₂, Option.bind_eq_bind,
      Option.bind_some, Option.pure_def]
  · intro o data hdata
    rw [hlookup₂] at hdata
    obtain ⟨data₁, hdata₁, rfl⟩ := Option.map_eq_some_iff.mp hdata
    rw [TimedDataImpl.told_node]
    exact h₁.named o data₁ hdata₁
  · intro o data hdata
    rw [hlookup₂] at hdata
    obtain ⟨data₁, hdata₁, -⟩ := Option.map_eq_some_iff.mp hdata
    exact h₁.alone o data₁ hdata₁
  · intro o data hdata m
    rw [hlookup₂] at hdata
    obtain ⟨data₁, hdata₁, rfl⟩ := Option.map_eq_some_iff.mp hdata
    rw [hobservers, h₁.observed o data₁ hdata₁ m, TimedDataImpl.told_node]
  · intro o data hdata m hm
    rw [hlookup₂] at hdata
    obtain ⟨data₁, hdata₁, rfl⟩ := Option.map_eq_some_iff.mp hdata
    have hiff := h₁.observed o data₁ hdata₁ n
    rw [TimedDataImpl.told_node] at hm
    by_cases ho : o ∈ (table n).observers
    · -- The data is of this node, so `m` is the node that changes.
      rw [TimedDataImpl.told_of_mem ho]
      have hmn : n = m := Option.some.inj ((hiff.mp ho).symm.trans hm)
      subst hmn
      rw [Function.update_self]
    · rw [TimedDataImpl.told_of_notMem ho]
      have hmn : m ≠ n := by
        rintro rfl
        exact ho (hiff.mpr hm)
      rw [Function.update_of_ne hmn]
      exact h₁.alerting o data₁ hdata₁ m hm

/-- Nobody is there to see it. -/
theorem forgotten (h : Watched observers table datas) {n : NodeId}
    (hempty : (table n).observers = ∅) :
    Watched observers (Function.update table n ⟨[], ∅⟩) datas := by
  refine ⟨h.named, h.alone, ?_, ?_⟩
  · intro o data hdata m
    by_cases hm : m = n
    · subst hm
      rw [Function.update_self, ← h.observed o data hdata, hempty]
    · rw [Function.update_of_ne hm]
      exact h.observed o data hdata m
  · intro o data hdata m hnode
    have hm : m ≠ n := by
      rintro rfl
      have hmem := (h.observed o data hdata m).mpr hnode
      rw [hempty] at hmem
      cases hmem
    rw [Function.update_of_ne hm]
    exact h.alerting o data hdata m hnode

/-- **Whatever is told** is delivered without a failed assertion, and leaves the flags
right. -/
theorem tells (h : Watched observers table datas)
    (htells : TellsNodes observers table changed table') :
    ∃ datas', changed.foldlM TimedDataImpls.deliver datas = some datas' ∧
      Watched observers table' datas' := by
  induction htells with
  | nothing => exact ⟨datas, rfl, h⟩
  | nodeEventsChanged n events _ ih =>
      obtain ⟨datas₁, hdatas₁, h₁⟩ := ih
      obtain ⟨datas₂, hdatas₂, h₂⟩ := h₁.nodeEventsChanged n events
      refine ⟨datas₂, ?_, h₂⟩
      rw [List.foldlM_append, hdatas₁]
      exact hdatas₂
  | forgotten n hempty _ ih =>
      obtain ⟨datas₁, hdatas₁, h₁⟩ := ih
      exact ⟨datas₁, hdatas₁, h₁.forgotten hempty⟩
  | events called events _ ih =>
      obtain ⟨datas₁, hdatas₁, h₁⟩ := ih
      refine ⟨datas₁, ?_, h₁⟩
      rw [List.foldlM_append, hdatas₁]
      rfl
  | allEventsAcknowledged called _ ih =>
      obtain ⟨datas₁, hdatas₁, h₁⟩ := ih
      refine ⟨datas₁, ?_, h₁⟩
      rw [List.foldlM_append, hdatas₁]
      rfl

end Watched

/-! ## §3  What the operations tell -/

namespace EventStorage

/-- An operation keeps the observers, and tells of what becomes of the sets. -/
structure Reports (s : EventStorage) (changed : List Notification) (s' : EventStorage) : Prop where
  observers : s'.observers = s.observers
  tells : TellsNodes s.observers s.nodeEntry changed s'.nodeEntry

namespace Reports

theorem follows : Follows Reports where
  append h h' := ⟨h'.observers.trans h.observers, h.tells.append (h.observers ▸ h'.tells)⟩
  nothing {s s'} hobservers hnodeEvents := by
    have htable : s'.nodeEntry = s.nodeEntry := funext fun n => nodeEntry_congr hnodeEvents
    exact ⟨hobservers, htable ▸ .nothing⟩
  node n _ hobservers hentry := ⟨hobservers, TellsNodes.changed_node n _ hentry⟩
  events _ called events := ⟨rfl, TellsNodes.nothing.events called events⟩
  acknowledged {s s'} called hobservers hnodeEvents := by
    have htable : s'.nodeEntry = s.nodeEntry := funext fun n => nodeEntry_congr hnodeEvents
    exact ⟨hobservers, htable ▸ TellsNodes.nothing.allEventsAcknowledged called⟩

/-- The loop of `Clear` over some of the entries. -/
theorem clearLoop (observers : Finset ObserverId) (table : NodeId → NodeEntry)
    (entries : List (Sigma fun _ : NodeId => NodeEntry))
    (hentries : ∀ e ∈ entries, table e.1 = e.2) (hkeys : (entries.map (·.1)).Nodup) :
    TellsNodes observers table
      ((entries.filter fun e => e.2.observers ≠ ∅).flatMap fun e =>
        [.itemEventsChanged observers e.1 [], .itemEventsChanged e.2.observers e.1 []])
      (fun n => if n ∈ entries.map (·.1) then ⟨[], (table n).observers⟩ else table n) := by
  induction entries using List.reverseRecOn with
  | nil =>
      simp only [List.map_nil, List.not_mem_nil, if_false]
      exact .nothing
  | append_singleton entries e ih =>
      rw [List.map_append, List.nodup_append] at hkeys
      have hlast : e.1 ∉ entries.map (·.1) := fun hmem =>
        hkeys.2.2 e.1 hmem e.1 (List.mem_singleton_self e.1) rfl
      have he : table e.1 = e.2 := hentries e (List.mem_append_right _ (List.mem_singleton_self e))
      have ih := ih (fun e' he' => hentries e' (List.mem_append_left _ he')) hkeys.1
      have htable : (fun n => if n ∈ (entries ++ [e]).map (·.1) then
            NodeEntry.mk [] (table n).observers else table n) =
          Function.update (fun n => if n ∈ entries.map (·.1) then
            NodeEntry.mk [] (table n).observers else table n) e.1 ⟨[], (table e.1).observers⟩ := by
        funext n
        have hmem : n ∈ (entries ++ [e]).map (·.1) ↔ n ∈ entries.map (·.1) ∨ n = e.1 := by simp
        rw [Function.update_apply]
        by_cases hn : n = e.1
        · rw [if_pos hn, if_pos (hmem.mpr (Or.inr hn)), hn]
        · rw [if_neg hn]
          by_cases hbefore : n ∈ entries.map (·.1)
          · rw [if_pos hbefore, if_pos (hmem.mpr (Or.inl hbefore))]
          · rw [if_neg hbefore, if_neg fun h => (hmem.mp h).elim hbefore hn]
      rw [htable, List.filter_append, List.flatMap_append]
      by_cases hempty : e.2.observers = ∅
      · have hforgotten := ih.forgotten e.1 (by rw [if_neg hlast, he]; exact hempty)
        rw [he, hempty]
        simpa [hempty] using hforgotten
      · have hchanged := ih.nodeEventsChanged e.1 []
        rw [if_neg hlast, he] at hchanged
        rw [he]
        simpa [hempty] using hchanged

theorem clear (s : EventStorage) : Reports s s.clear.2 s.clear.1 := by
  have hloop := clearLoop s.observers s.nodeEntry s.nodeEvents.entries (by
    intro e he
    unfold nodeEntry
    rw [Option.mem_def.mp (AList.mem_lookup_iff.mpr he)]
    rfl) s.nodeEvents.nodupKeys
  unfold EventStorage.clear
  dsimp only
  refine follows.alerted ⟨rfl, ?_⟩
  refine Eq.subst (motive := fun table => TellsNodes _ _ _ table) ?_ hloop
  funext n
  show _ = nodeEntry _ n
  unfold nodeEntry
  dsimp only
  rw [AssocMap.lookup_filterMap]
  cases hentry : s.nodeEvents.lookup n with
  | none =>
      have hn : n ∉ s.nodeEvents.entries.map (·.1) := AList.lookup_eq_none.mp hentry
      rw [if_neg hn]
      rfl
  | some entry =>
      have hn : n ∈ s.nodeEvents.entries.map (·.1) :=
        AList.lookup_isSome.mp (hentry ▸ rfl)
      rw [if_pos hn]
      by_cases hempty : entry.observers = ∅ <;> simp [hempty]

end Reports

end EventStorage

/-! ## §4  Runs -/

/-- A node with other observers. -/
def reobserve (table : NodeId → NodeEntry) (n : NodeId) (observers : Finset ObserverId) :
    NodeId → NodeEntry :=
  Function.update table n ⟨(table n).events, observers⟩

theorem reobserve_events (table : NodeId → NodeEntry) (n : NodeId)
    (observers : Finset ObserverId) (m : NodeId) :
    (reobserve table n observers m).events = (table m).events := by
  unfold reobserve
  by_cases hm : m = n
  · rw [hm, Function.update_self]
  · rw [Function.update_of_ne hm]

theorem reobserve_observers (table : NodeId → NodeEntry) (n : NodeId)
    (observers : Finset ObserverId) (m : NodeId) :
    (reobserve table n observers m).observers =
      if m = n then observers else (table m).observers := by
  unfold reobserve
  by_cases hm : m = n
  · rw [hm, Function.update_self, if_pos rfl]
  · rw [Function.update_of_ne hm, if_neg hm]

theorem mem_reobserve {table : NodeId → NodeEntry} {n : NodeId} {observers : Finset ObserverId}
    {o : ObserverId} (h : o ∈ observers ↔ o ∈ (table n).observers) (m : NodeId) :
    o ∈ (reobserve table n observers m).observers ↔ o ∈ (table m).observers := by
  rw [reobserve_observers]
  split
  · rename_i hm
    rw [hm, h]
  · rfl

theorem EventStorage.nodeEntry_addNodeObserver (s : EventStorage) (n : NodeId) (o : ObserverId) :
    (s.addNodeObserver n o).nodeEntry =
      reobserve s.nodeEntry n (insert o (s.nodeEntry n).observers) :=
  nodeEntry_update rfl

theorem EventStorage.nodeEntry_removeNodeObserver (s : EventStorage) (n : NodeId)
    (o : ObserverId) : (s.removeNodeObserver n o).nodeEntry =
      reobserve s.nodeEntry n ((s.nodeEntry n).observers.erase o) :=
  nodeEntry_update rfl

namespace Watched

variable {observers : Finset ObserverId} {table table' : NodeId → NodeEntry}
  {datas : TimedDataImpls}

/-- Others come and go. -/
theorem of_others {observers' : Finset ObserverId} (h : Watched observers table datas)
    (halone : ∀ o ∈ datas, o ∈ observers' → o ∈ observers)
    (hobserved : ∀ o ∈ datas, ∀ n, o ∈ (table' n).observers ↔ o ∈ (table n).observers)
    (hevents : ∀ n, (table' n).events = (table n).events) : Watched observers' table' datas where
  named := h.named
  alone := fun o data hdata hmem =>
    h.alone o data hdata (halone o (AList.lookup_isSome.mp (hdata ▸ rfl)) hmem)
  observed := by
    intro o data hdata n
    rw [hobserved o (AList.lookup_isSome.mp (hdata ▸ rfl)) n]
    exact h.observed o data hdata n
  alerting := by
    intro o data hdata n hn
    rw [hevents]
    exact h.alerting o data hdata n hn

/-- Who comes or goes at a node is no timed data. -/
theorem of_reobserve {n : NodeId} {nodeObservers : Finset ObserverId}
    (h : Watched observers table datas) (htable : table' = reobserve table n nodeObservers)
    (hothers : ∀ o ∈ datas, o ∈ nodeObservers ↔ o ∈ (table n).observers) :
    Watched observers table' datas := by
  rw [htable]
  exact h.of_others (fun _ _ hmem => hmem) (fun o ho m => mem_reobserve (hothers o ho) m) fun m =>
    reobserve_events table n nodeObservers m

/-- **One timed data** gets a node or loses it; the others stay as they are. -/
theorem set (h : Watched observers table datas) {o : ObserverId} {data : TimedDataImpl}
    (hnamed : data.node ≠ some .null) (halone : o ∉ observers)
    (hobserved : ∀ n, o ∈ (table' n).observers ↔ data.node = some n)
    (halerting : ∀ n, data.node = some n → data.alerting = !(table n).events.isEmpty)
    (hothers : ∀ o', o' ≠ o → ∀ n, o' ∈ (table' n).observers ↔ o' ∈ (table n).observers)
    (hevents : ∀ n, (table' n).events = (table n).events) :
    Watched observers table' (datas.insert o data) := by
  refine ⟨?_, ?_, ?_, ?_⟩
  · intro o' data' hdata'
    obtain ⟨rfl, rfl⟩ | ⟨ho, hdata'⟩ := AssocMap.lookup_insert_cases hdata'
    · exact hnamed
    · exact h.named o' data' hdata'
  · intro o' data' hdata'
    obtain ⟨rfl, rfl⟩ | ⟨ho, hdata'⟩ := AssocMap.lookup_insert_cases hdata'
    · exact halone
    · exact h.alone o' data' hdata'
  · intro o' data' hdata' n
    obtain ⟨rfl, rfl⟩ | ⟨ho, hdata'⟩ := AssocMap.lookup_insert_cases hdata'
    · exact hobserved n
    · rw [hothers o' ho]
      exact h.observed o' data' hdata' n
  · intro o' data' hdata' n hn
    rw [hevents]
    obtain ⟨rfl, rfl⟩ | ⟨ho, hdata'⟩ := AssocMap.lookup_insert_cases hdata'
    · exact halerting n hn
    · exact h.alerting o' data' hdata' n hn

theorem erase (h : Watched observers table datas) (o : ObserverId) :
    Watched observers table (datas.erase o) := by
  have hold : ∀ o' data, (datas.erase o).lookup o' = some data → datas.lookup o' = some data :=
    fun _ _ => AssocMap.lookup_of_erase
  exact ⟨fun o' data hdata => h.named o' data (hold o' data hdata),
    fun o' data hdata => h.alone o' data (hold o' data hdata),
    fun o' data hdata => h.observed o' data (hold o' data hdata),
    fun o' data hdata => h.alerting o' data (hold o' data hdata)⟩

end Watched

namespace AlertingWorld

variable {w w' : AlertingWorld} {a : AlertingAction}

def Watches (w : AlertingWorld) : Prop :=
  Watched w.storage.observers w.storage.nodeEntry w.datas

theorem isAlerting_eq (s : EventStorage) (n : NodeId) :
    s.isAlerting n = !(s.nodeEntry n).events.isEmpty := by
  unfold EventStorage.isAlerting EventStorage.getNodeEvents EventStorage.nodeEntry
  cases s.nodeEvents.lookup n <;> rfl

/-- A free address observes nothing. -/
theorem free.notMem {o : ObserverId} (h : w.free o) (n : NodeId) :
    o ∉ (w.storage.nodeEntry n).observers := by
  unfold EventStorage.nodeEntry
  cases hentry : w.storage.nodeEvents.lookup n with
  | none => exact Finset.notMem_empty o
  | some entry => exact h.2.2 ⟨n, entry⟩ (AList.mem_lookup_iff.mp hentry)

/-- **`Init`** of a new timed data. -/
theorem Watches.init (h : w.Watches) {o : ObserverId} (hfree : w.free o) {n : NodeId}
    (hn : n ≠ .null) : (w.setNode o {} (some n)).Watches := by
  have htable := EventStorage.nodeEntry_addNodeObserver w.storage n o
  show Watched w.storage.observers (w.storage.addNodeObserver n o).nodeEntry _
  refine Watched.set h ?_ hfree.2.1 ?_ ?_ ?_ ?_
  · exact fun hnull => hn (Option.some.inj hnull)
  · intro m
    rw [htable, reobserve_observers]
    split
    · rename_i hm
      simp [hm]
    · rename_i hm
      exact iff_of_false (hfree.notMem m) fun h => hm (Option.some.inj h).symm
  · intro m hm
    cases hm
    show (w.storage.addNodeObserver n o).isAlerting n = _
    rw [isAlerting_eq, htable, reobserve_events]
  · intro o' ho m
    rw [htable]
    exact mem_reobserve (by simp [ho]) m
  · intro m
    rw [htable, reobserve_events]

/-- **`SetNode(nullptr)`**. -/
theorem Watches.setNode_none (h : w.Watches) {o : ObserverId} {data : TimedDataImpl}
    (hdata : w.datas.lookup o = some data) : (w.setNode o data none).Watches := by
  unfold setNode
  split
  · -- The entry is written again.
    exact Watched.set h (h.named o data hdata) (h.alone o data hdata) (h.observed o data hdata)
      (h.alerting o data hdata) (fun _ _ _ => Iff.rfl) fun _ => rfl
  · rename_i hsome
    obtain ⟨old, hold⟩ := Option.ne_none_iff_exists'.mp hsome
    have htable := EventStorage.nodeEntry_removeNodeObserver w.storage old o
    dsimp only
    rw [hold]
    show Watched w.storage.observers (w.storage.removeNodeObserver old o).nodeEntry _
    refine Watched.set h (by simp) (h.alone o data hdata) ?_ ?_ ?_ ?_
    · intro m
      rw [htable, reobserve_observers]
      split
      · simp
      · rename_i hm
        refine iff_of_false ?_ (by simp)
        rw [h.observed o data hdata, hold]
        exact fun heq => hm (Option.some.inj heq).symm
    · rintro m ⟨⟩
    · intro o' ho m
      rw [htable]
      exact mem_reobserve (by simp [ho]) m
    · intro m
      rw [htable, reobserve_events]

/-- **One operation of the storage** is followed by deliveries that assert nothing
wrong. -/
theorem Watches.storage (h : w.Watches) {op : StorageOp} (hforeign : w.foreign op)
    {r : StorageRun} (hr : StorageRun.step ⟨w.storage, []⟩ op = some r) :
    ∃ datas, r.notifications.foldlM TimedDataImpls.deliver w.datas = some datas ∧
      Watches ⟨r.storage, datas⟩ := by
  cases op with
  | update events =>
      obtain ⟨⟨s, changed⟩, hupdate, hr⟩ := Option.bind_eq_some_iff.mp hr
      cases hr
      have hreports := EventStorage.Reports.follows.update hupdate
      obtain ⟨datas, hdatas, hwatched⟩ := Watched.tells h hreports.tells
      exact ⟨datas, hdatas, by unfold Watches; rw [hreports.observers]; exact hwatched⟩
  | clear =>
      cases hr
      have hreports := EventStorage.Reports.clear w.storage
      obtain ⟨datas, hdatas, hwatched⟩ := Watched.tells h hreports.tells
      exact ⟨datas, hdatas, by unfold Watches; rw [hreports.observers]; exact hwatched⟩
  | addObserver other =>
      cases hr
      refine ⟨w.datas, rfl, Watched.of_others h ?_ (fun _ _ _ => Iff.rfl) fun _ => rfl⟩
      intro o ho hmem
      obtain rfl | hmem := Finset.mem_insert.mp hmem
      · exact absurd ho hforeign
      · exact hmem
  | removeObserver other =>
      cases hr
      refine ⟨w.datas, rfl, Watched.of_others h ?_ (fun _ _ _ => Iff.rfl) fun _ => rfl⟩
      exact fun o _ hmem => Finset.mem_of_mem_erase hmem
  | addNodeObserver n other =>
      cases hr
      have hothers : ∀ o ∈ w.datas, o ≠ other := fun o ho heq => hforeign (heq ▸ ho)
      refine ⟨w.datas, rfl, Watched.of_reobserve h
        (EventStorage.nodeEntry_addNodeObserver w.storage n other) fun o ho => ?_⟩
      simp [hothers o ho]
  | removeNodeObserver n other =>
      cases hr
      have hothers : ∀ o ∈ w.datas, o ≠ other := fun o ho heq => hforeign (heq ▸ ho)
      refine ⟨w.datas, rfl, Watched.of_reobserve h
        (EventStorage.nodeEntry_removeNodeObserver w.storage n other) fun o ho => ?_⟩
      simp [hothers o ho]

/-- What an operation of the storage does in all, when the storage asserts nothing. -/
theorem Watches.step_storage (h : w.Watches) {op : StorageOp} (hforeign : w.foreign op)
    {r : StorageRun} (hr : StorageRun.step ⟨w.storage, []⟩ op = some r) :
    ∃ w', w.step (.storage op) = some w' ∧ w'.storage = r.storage ∧ w'.Watches := by
  obtain ⟨datas, hdatas, hwatches⟩ := h.storage hforeign hr
  refine ⟨⟨r.storage, datas⟩, ?_, rfl, hwatches⟩
  show (StorageRun.step ⟨w.storage, []⟩ op).bind _ = _
  rw [hr, Option.bind_some]
  show (r.notifications.foldlM TimedDataImpls.deliver w.datas).bind _ = _
  rw [hdatas]
  rfl

theorem Watches.step (h : w.Watches) (hen : w.enabled a) (hs : w.step a = some w') :
    w'.Watches := by
  cases a with
  | storage op =>
      obtain ⟨r, hr, -⟩ := Option.bind_eq_some_iff.mp hs
      obtain ⟨w₁, hw₁, -, hwatches⟩ := h.step_storage hen.2 hr
      cases hw₁.symm.trans hs
      exact hwatches
  | init o n =>
      cases hs
      exact h.init hen.1 hen.2
  | nodeDeleted o =>
      obtain ⟨data, hdata, hs⟩ := Option.bind_eq_some_iff.mp hs
      cases hs
      exact h.setNode_none hdata
  | destroy o =>
      obtain ⟨data, hdata, hs⟩ := Option.bind_eq_some_iff.mp hs
      cases hs
      exact Watched.erase (h.setNode_none hdata) o

theorem Watches.start : alertingMachine.init.Watches := by
  refine ⟨?_, ?_, ?_, ?_⟩ <;> rintro o data ⟨⟩

/-- Only the storage can stop a step. -/
theorem Watches.step_isSome (h : w.Watches) (hen : w.enabled a)
    (hstorage : ∀ op, a = .storage op → (StorageRun.step ⟨w.storage, []⟩ op).isSome = true) :
    (w.step a).isSome = true := by
  cases a with
  | storage op =>
      obtain ⟨r, hr⟩ := Option.isSome_iff_exists.mp (hstorage op rfl)
      obtain ⟨w', hw', -⟩ := h.step_storage hen.2 hr
      rw [hw']
      rfl
  | init o n => rfl
  | nodeDeleted o =>
      obtain ⟨nodeId, hnode⟩ := Option.isSome_iff_exists.mp hen
      obtain ⟨data, hdata, -⟩ := Option.bind_eq_some_iff.mp hnode
      show ((w.datas.lookup o).bind _).isSome = true
      rw [hdata]
      rfl
  | destroy o =>
      obtain ⟨data, hdata⟩ := Option.isSome_iff_exists.mp (AList.lookup_isSome.mpr hen)
      show ((w.datas.lookup o).bind _).isSome = true
      rw [hdata]
      rfl

/-- **The flag is right**: in every reachable state a timed data that has a node is
alerting just when the storage has unacknowledged events of that node. No delivery
reaches a timed data that is about another node, which would be asserted. -/
theorem alerting_of_reachable (h : alertingMachine.Reachable w) :
    (∀ o data n, w.datas.lookup o = some data → data.node = some n →
      data.alerting = w.storage.isAlerting n) ∧
    ∀ a, alertingMachine.enabled w a →
      (∀ op, a = .storage op → (StorageRun.step ⟨w.storage, []⟩ op).isSome = true) →
      (alertingMachine.step w a).isSome = true := by
  have hwatches : w.Watches :=
    h.invariant .start fun t a t' ht hen _ hs => ht.step hen hs
  refine ⟨?_, fun a hen hstorage => hwatches.step_isSome hen hstorage⟩
  intro o data n hdata hn
  rw [isAlerting_eq]
  exact hwatches.alerting o data hdata n hn

/-- A node gets two timed data, one before an event and one after it; the event is
acknowledged once the first of them is gone. -/
theorem alerting_of_reachable_two :
    ∃ w, alertingMachine.Reachable w ∧ w.storage.isAlerting (.numeric 7 1) = false ∧
      (w.datas.lookup 1).isNone = true ∧
      ∃ data, w.datas.lookup 2 = some data ∧ data.alerting = false := by
  obtain ⟨w, hw, hp⟩ := Machine.exists_reachable_of_exec (M := alertingMachine)
    (p := fun w => decide (w.storage.isAlerting (.numeric 7 1) = false ∧
      (w.datas.lookup 1).isNone = true ∧
      (w.datas.lookup 2).map (·.node) = some (some (.numeric 7 1))))
    [.init 1 (.numeric 7 1), .storage (.update [(0, ⟨1, 5, .numeric 7 1, 100, false⟩)]),
      .init 2 (.numeric 7 1), .destroy 1,
      .storage (.update [(1, ⟨1, 5, .numeric 7 1, 100, true⟩)])] (by decide)
  obtain ⟨halerting, hgone, hdata⟩ := of_decide_eq_true hp
  obtain ⟨data, hdata, hnode⟩ := Option.map_eq_some_iff.mp hdata
  refine ⟨w, hw, halerting, hgone, data, hdata, ?_⟩
  rw [(alerting_of_reachable hw).1 2 data _ hdata hnode, halerting]

end AlertingWorld

/-! ## §5  The flag and the stored events -/

namespace AlertingWorld

variable {w w' : AlertingWorld} {a : AlertingAction}

/-- A batch keeps the places of its events. -/
def InPlace (w : AlertingWorld) : AlertingAction → Prop
  | .storage op => StorageRun.InPlace ⟨w.storage, []⟩ op
  | _ => True

instance (w : AlertingWorld) (a : AlertingAction) : Decidable (w.InPlace a) := by
  apply AlertingAction.casesOn (motive := fun a => Decidable (w.InPlace a)) a <;>
    intros <;> unfold InPlace <;> infer_instance

theorem indexed_setNode {o : ObserverId} (h : w.storage.Indexed) (data : TimedDataImpl)
    (node : Option NodeId) : (w.setNode o data node).storage.Indexed := by
  have hforgotten : ∀ old, (forgetNode w.storage o old).Indexed := by
    intro old
    cases old with
    | none => exact h
    | some old => exact h.removeNodeObserver old o
  unfold setNode
  split
  · exact h
  · cases node with
    | none => exact hforgotten data.node
    | some nodeId => exact (hforgotten data.node).addNodeObserver nodeId o

/-- **One step** keeps the sets an index of the events, and asserts nothing wrong. -/
theorem Watches.step_indexed (h : w.Watches) (hindexed : w.storage.Indexed) (hen : w.enabled a)
    (hok : w.InPlace a) : ∃ w', w.step a = some w' ∧ w'.storage.Indexed := by
  cases a with
  | storage op =>
      obtain ⟨r, hr, hindexed'⟩ := EventStorage.Indexed.step (r := ⟨w.storage, []⟩) hindexed
        hen.1 hok
      obtain ⟨w', hw', hstorage, -⟩ := h.step_storage hen.2 hr
      exact ⟨w', hw', hstorage ▸ hindexed'⟩
  | init o n => exact ⟨_, rfl, indexed_setNode hindexed {} (some n)⟩
  | nodeDeleted o =>
      obtain ⟨w', hw'⟩ := Option.isSome_iff_exists.mp (h.step_isSome hen (by simp))
      obtain ⟨data, -, hs⟩ := Option.bind_eq_some_iff.mp hw'
      cases hs
      exact ⟨_, hw', indexed_setNode hindexed data none⟩
  | destroy o =>
      obtain ⟨w', hw'⟩ := Option.isSome_iff_exists.mp (h.step_isSome hen (by simp))
      obtain ⟨data, -, hs⟩ := Option.bind_eq_some_iff.mp hw'
      cases hs
      exact ⟨_, hw', indexed_setNode hindexed data none⟩

/-- `GetEvents` of a timed data that has a node. -/
theorem Watches.getEvents (h : w.Watches) {o : ObserverId} {data : TimedDataImpl} {n : NodeId}
    (hdata : w.datas.lookup o = some data) (hn : data.node = some n) :
    data.getEvents w.storage = some (w.storage.nodeEntry n).events := by
  have hmem := (h.observed o data hdata n).mpr hn
  unfold TimedDataImpl.getEvents
  rw [hn, Option.bind_some]
  unfold EventStorage.getNodeEvents
  unfold EventStorage.nodeEntry at hmem ⊢
  cases hentry : w.storage.nodeEvents.lookup n with
  | none =>
      rw [hentry] at hmem
      exact absurd hmem (Finset.notMem_empty o)
  | some entry => rfl

/-- **The flag and the events**: while batches keep the places of their events, a timed
data that has a node is alerting just when some stored event is of that node, its
`GetEvents` is the set of exactly these, and every call goes through. -/
theorem alerting_iff_stored (h : alertingMachine.Reaches InPlace w) :
    (∀ o data n, w.datas.lookup o = some data → data.node = some n →
      (data.alerting = true ↔
        ∃ id event, w.storage.contents id = some event ∧ event.sourceNodeId = n) ∧
      ∃ events, data.getEvents w.storage = some events ∧ events.Nodup ∧
        ∀ ptr, ptr ∈ events ↔ ∃ id stored, w.storage.stored id = some stored ∧
          stored.ptr = ptr ∧ stored.event.sourceNodeId = n) ∧
    ∀ a, alertingMachine.enabled w a → w.InPlace a → (alertingMachine.step w a).isSome = true := by
  obtain ⟨hwatches, hindexed⟩ : w.Watches ∧ w.storage.Indexed := by
    refine h.invariant (I := fun w => w.Watches ∧ w.storage.Indexed)
      ⟨.start, EventStorage.Indexed.empty⟩ ?_
    intro t a t' ht hen hok hs
    obtain ⟨t₁, ht₁, hindexed⟩ := ht.1.step_indexed ht.2 hen hok
    cases ht₁.symm.trans hs
    exact ⟨ht.1.step hen hs, hindexed⟩
  constructor
  · intro o data n hdata hn
    have hnull : n ≠ .null := fun heq => hwatches.named o data hdata (heq ▸ hn)
    have hmem : ∀ ptr, ptr ∈ (w.storage.nodeEntry n).events ↔
        ∃ id stored, w.storage.stored id = some stored ∧ stored.ptr = ptr ∧
          stored.event.sourceNodeId = n := by
      intro ptr
      rw [hindexed.mem_iff]
      simp [hnull]
    refine ⟨?_, _, hwatches.getEvents hdata hn, (hindexed.sorted n).nodup, hmem⟩
    rw [hwatches.alerting o data hdata n hn]
    constructor
    · intro halerting
      have hne : (w.storage.nodeEntry n).events ≠ [] := by simpa using halerting
      obtain ⟨ptr, hptr⟩ := List.exists_mem_of_ne_nil _ hne
      obtain ⟨id, stored, hstored, -, hsource⟩ := (hmem ptr).mp hptr
      refine ⟨id, stored.event, ?_, hsource⟩
      unfold EventStorage.contents
      rw [hstored]
      rfl
    · rintro ⟨id, event, hcontents, hsource⟩
      obtain ⟨stored, hstored, rfl⟩ := Option.map_eq_some_iff.mp hcontents
      have hptr := (hmem stored.ptr).mpr ⟨id, stored, hstored, rfl, hsource⟩
      have hne := List.ne_nil_of_mem hptr
      simpa using hne
  · intro a hen hok
    obtain ⟨w', hw', -⟩ := hwatches.step_indexed hindexed hen hok
    show (w.step a).isSome = true
    rw [hw']
    rfl

/-- Two events of a node that has a timed data: the first is delivered again with a later time,
still before the second, and the second is acknowledged. The acknowledgement of the first one
goes through as well. -/
theorem alerting_iff_stored_again : ∃ w, alertingMachine.Reaches InPlace w ∧
    ∃ data, w.datas.lookup 1 = some data ∧ data.alerting = true ∧
      data.getEvents w.storage = some [0] ∧
      (alertingMachine.step w (.storage (.update [(4, ⟨1, 7, .numeric 7 1, 200, true⟩)]))).isSome :=
      by
  obtain ⟨w, hw, hp⟩ := Machine.exists_reaches_of_exec (M := alertingMachine) InPlace
    (p := fun w => decide ((w.datas.lookup 1).map (·.node) = some (some (.numeric 7 1)) ∧
      w.storage.events.entries = [⟨1, ⟨0, ⟨1, 7, .numeric 7 1, 200, false⟩⟩⟩] ∧
      alertingMachine.enabled w (.storage (.update [(4, ⟨1, 7, .numeric 7 1, 200, true⟩)])) ∧
      w.InPlace (.storage (.update [(4, ⟨1, 7, .numeric 7 1, 200, true⟩)]))))
    [.init 1 (.numeric 7 1),
      .storage (.update [(0, ⟨1, 5, .numeric 7 1, 100, false⟩),
        (1, ⟨2, 10, .numeric 7 1, 100, false⟩)]),
      .storage (.update [(2, ⟨1, 7, .numeric 7 1, 200, false⟩)]),
      .storage (.update [(3, ⟨2, 10, .numeric 7 1, 100, true⟩)])]
    (by decide +kernel)
  obtain ⟨hdata, hentries, hen, hplace⟩ := of_decide_eq_true hp
  obtain ⟨data, hdata, hnode⟩ := Option.map_eq_some_iff.mp hdata
  have hstored : ∀ id stored, w.storage.stored id = some stored ↔
      id = 1 ∧ stored = ⟨0, ⟨1, 7, .numeric 7 1, 200, false⟩⟩ := by
    intro id stored
    have hmem := AList.mem_lookup_iff (s := w.storage.events) (a := id) (b := stored)
    rw [hentries] at hmem
    simpa [EventStorage.stored] using hmem
  have hone := (hstored 1 _).mpr ⟨rfl, rfl⟩
  obtain ⟨hall, hsteps⟩ := alerting_iff_stored hw
  obtain ⟨halerting, events, hevents, hnodup, hmem⟩ := hall 1 data _ hdata hnode
  have honly : events = [0] := by
    refine List.perm_singleton.mp ((List.perm_ext_iff_of_nodup hnodup (by decide)).mpr ?_)
    intro ptr
    rw [hmem, List.mem_singleton]
    constructor
    · rintro ⟨id, stored, h, rfl, -⟩
      rw [((hstored id stored).mp h).2]
    · rintro rfl
      exact ⟨1, _, hone, rfl, rfl⟩
  refine ⟨w, hw, data, hdata, halerting.mpr ⟨1, ⟨1, 7, .numeric 7 1, 200, false⟩, ?_, rfl⟩,
    honly ▸ hevents, hsteps _ hen hplace⟩
  unfold EventStorage.contents
  rw [hone]
  rfl

end AlertingWorld

end ScadaCommon
