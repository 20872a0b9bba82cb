import ScadaCommon.Foundation.Machine
import ScadaCommon.Scada.Basic

/-!
# Monitored items over replaceable services

Clients keep their monitored items while the services below are replaced.
`SetServices` runs foreign code in three places: while it signals that the old
session is gone, while it signals the new one, and in the handlers that the
reconnect loop calls. The machine stops there: what that code calls comes as
steps of its own, and `proceed` is `SetServices` going on.

§1 state · §2 operations · §3 what an item is bound to · §4 one step · §5 runs.
-/

namespace ScadaCommon

open Foundation

/-! ## §1  State -/

abbrev ItemId := ℕ

/-- Names the services of one `SetServices`. -/
abbrev ConnectionId := ℕ

inductive HandlerStatus where
  | uncertainDisconnected
  | bad
deriving DecidableEq

/-- `underlying_item_` by the services it was created from. -/
structure MasterMonitoredItem (R P : Type) where
  readValueId : R
  params : P
  handler : Option MonitoredItemHandler
  underlyingItem : Option ConnectionId
deriving DecidableEq

/-- A call of `CreateMonitoredItem`, and whether it returned an item. -/
structure Creation (R P : Type) where
  item : ItemId
  connection : ConnectionId
  readValueId : R
  params : P
  returned : Bool
deriving DecidableEq

/-- Which services are there. -/
structure DataServices where
  sessionService : Bool
  monitoredItemService : Bool
deriving DecidableEq

/-- Where a running `SetServices` has called out. -/
inductive SetServicesPhase where
  | disconnected (services : DataServices)
  | connected
  /-- The iterators of the loop are `valid` until the vector changes. -/
  | reconnecting (position : ℕ) (handlerRuns valid : Bool)
deriving DecidableEq

/-- The fields from `phase` on say what runs and what was done so far. -/
structure MasterDataServices (R P : Type) where
  connected : Bool
  underlyingItemAdapter : Option ConnectionId
  monitoredItems : List ItemId
  items : ItemId → Option (MasterMonitoredItem R P)
  phase : Option SetServicesPhase
  nextItem : ItemId
  connections : ℕ
  created : List (Creation R P)
  notified : List (ItemId × MonitoredItemHandler × HandlerStatus)

inductive MasterAction (R P : Type) where
  | createItem (readValueId : R) (params : P)
  /-- The flag is what `CreateMonitoredItem` returns if it is called. -/
  | subscribe (id : ItemId) (handler : MonitoredItemHandler) (returned : Bool)
  | destroyItem (id : ItemId)
  | setServices (services : DataServices)
  | proceed (returned : Bool)

namespace MasterDataServices

variable {R P : Type}

/-! ## §2  Operations -/

def initial : MasterDataServices R P where
  connected := false
  underlyingItemAdapter := none
  monitoredItems := []
  items _ := none
  phase := none
  nextItem := 0
  connections := 0
  created := []
  notified := []

/-- The program may call in: no `SetServices` runs, or it has called out. -/
def calledOut (s : MasterDataServices R P) : Bool :=
  match s.phase with
  | some (.reconnecting _ handlerRuns _) => handlerRuns
  | _ => true

/-- `emplace_back` and `erase` under a running loop. -/
def invalidate : SetServicesPhase → SetServicesPhase
  | .reconnecting position handlerRuns _ => .reconnecting position handlerRuns false
  | phase => phase

def createItem (s : MasterDataServices R P) (readValueId : R) (params : P) :
    MasterDataServices R P :=
  { s with
    monitoredItems := s.monitoredItems ++ [s.nextItem]
    items := Function.update s.items s.nextItem (some ⟨readValueId, params, none, none⟩)
    nextItem := s.nextItem + 1
    phase := s.phase.map invalidate }

def destroyItem (s : MasterDataServices R P) (id : ItemId) :
    Option (MasterDataServices R P) :=
  (check (id ∈ s.monitoredItems)).bind fun _ =>
    some { s with
      monitoredItems := s.monitoredItems.erase id
      items := Function.update s.items id none
      phase := s.phase.map invalidate }

def setItem (s : MasterDataServices R P) (id : ItemId) (item : MasterMonitoredItem R P) :
    MasterDataServices R P :=
  { s with items := Function.update s.items id (some item) }

def notify (s : MasterDataServices R P) (id : ItemId) (handler : MonitoredItemHandler)
    (status : HandlerStatus) : MasterDataServices R P :=
  { s with notified := s.notified ++ [(id, handler, status)] }

/-- `underlying_item_adapter_->CreateMonitoredItem`, and null without an
adapter. -/
def createMonitoredItem (s : MasterDataServices R P) (id : ItemId)
    (item : MasterMonitoredItem R P) (returned : Bool) :
    MasterDataServices R P × Option ConnectionId :=
  match s.underlyingItemAdapter with
  | none => (s, none)
  | some connection =>
      ({ s with created := s.created ++
          [⟨id, connection, item.readValueId, item.params, returned⟩] },
        if returned then some connection else none)

def reconnect (s : MasterDataServices R P) (id : ItemId) (item : MasterMonitoredItem R P)
    (returned : Bool) : MasterDataServices R P :=
  match item.handler with
  | none => s
  | some handler =>
      if s.connected then
        let (s, underlyingItem) := s.createMonitoredItem id item returned
        let s := s.setItem id { item with underlyingItem := underlyingItem }
        if underlyingItem = none then s.notify id handler .bad else s
      else if handler = .dataChange then s.notify id handler .uncertainDisconnected
      else s

def subscribe (s : MasterDataServices R P) (id : ItemId) (handler : MonitoredItemHandler)
    (returned : Bool) : Option (MasterDataServices R P) :=
  (s.items id).bind fun item =>
    (check (item.handler = none)).bind fun _ =>
      let item := { item with handler := some handler }
      some ((s.setItem id item).reconnect id item returned)

/-- `SetServices` from the assignment of `services_` up to the signal. -/
def installServices (s : MasterDataServices R P) (services : DataServices) :
    MasterDataServices R P :=
  if services.sessionService then
    { s with
      connected := true
      connections := s.connections + 1
      underlyingItemAdapter :=
        if services.monitoredItemService then some (s.connections + 1)
        else s.underlyingItemAdapter
      phase := some .connected }
  else { s with connected := false, phase := none }

/-- `SetServices` up to its first signal. -/
def setServices (s : MasterDataServices R P) (services : DataServices) :
    MasterDataServices R P :=
  if s.connected then
    { s with
      items := fun id => if id ∈ s.monitoredItems then
          (s.items id).map fun item => { item with underlyingItem := none }
        else s.items id
      connected := false
      underlyingItemAdapter := none
      phase := some (.disconnected services) }
  else s.installServices services

/-- `SetServices` goes on; an iterator that is not valid must not be used. -/
def proceed (s : MasterDataServices R P) (returned : Bool) : Option (MasterDataServices R P) :=
  match s.phase with
  | none => none
  | some (.disconnected services) => some (s.installServices services)
  | some .connected => some { s with phase := some (.reconnecting 0 false true) }
  | some (.reconnecting position _ valid) =>
      (check (valid = true)).bind fun _ =>
        match s.monitoredItems[position]? with
        | none => some { s with phase := none }
        | some id =>
            (s.items id).bind fun item =>
              some { s.reconnect id item returned with
                phase := some (.reconnecting (position + 1) item.handler.isSome true) }

def step (s : MasterDataServices R P) : MasterAction R P → Option (MasterDataServices R P)
  | .createItem readValueId params => some (s.createItem readValueId params)
  | .subscribe id handler returned => s.subscribe id handler returned
  | .destroyItem id => s.destroyItem id
  | .setServices services => some (s.setServices services)
  | .proceed returned => s.proceed returned

/-- `SetServices` is not called from inside itself. -/
def Enabled (s : MasterDataServices R P) : MasterAction R P → Prop
  | .setServices _ => s.phase = none
  | .proceed _ => s.phase ≠ none
  | _ => s.calledOut

instance (s : MasterDataServices R P) : ∀ a, Decidable (s.Enabled a)
  | .setServices _ => inferInstanceAs (Decidable (s.phase = none))
  | .proceed _ => inferInstanceAs (Decidable (s.phase ≠ none))
  | .createItem _ _ | .subscribe _ _ _ | .destroyItem _ =>
      inferInstanceAs (Decidable (s.calledOut = true))

def machine (R P : Type) : Machine (MasterDataServices R P) (MasterAction R P) where
  init := initial
  enabled := Enabled
  step := step

/-! ## §3  What an item is bound to -/

/-- The calls made for an item on a connection. -/
def creations (s : MasterDataServices R P) (id : ItemId) (connection : ConnectionId) :
    List (Creation R P) :=
  s.created.filter fun creation => creation.item = id ∧ creation.connection = connection

/-- Nothing was created from the current services. -/
structure Pending (s : MasterDataServices R P) (id : ItemId) (item : MasterMonitoredItem R P) :
    Prop where
  created : ∀ c, s.underlyingItemAdapter = some c → s.creations id c = []
  underlyingItem : item.underlyingItem = none

/-- Created once from the current services, and bound to what they returned. -/
def CreatedOnce (s : MasterDataServices R P) (id : ItemId) (item : MasterMonitoredItem R P)
    (c : ConnectionId) : Prop :=
  ∃ returned, s.creations id c = [⟨id, c, item.readValueId, item.params, returned⟩] ∧
    item.underlyingItem = if returned then some c else none

/-- What a client may expect of its item: a subscribed one has its one
underlying item of the current services, if they monitor items at all. -/
def Bound (s : MasterDataServices R P) (id : ItemId) (item : MasterMonitoredItem R P) : Prop :=
  match item.handler, s.underlyingItemAdapter with
  | some _, some c => s.CreatedOnce id item c
  | _, _ => s.Pending id item

/-- The binding of the monitored items, when `SetServices` is over and on the
way there. -/
structure Settled (s : MasterDataServices R P) : Prop where
  bound : s.phase = none → ∀ id ∈ s.monitoredItems, ∃ item, s.items id = some item ∧
    s.Bound id item
  once : ∀ id c, (s.creations id c).length ≤ 1
  current : ∀ id item c, s.items id = some item → item.underlyingItem = some c →
    s.underlyingItemAdapter = some c
  /-- No iterator of the loop is used after the vector changed. -/
  proceeds : s.phase ≠ none → ∀ returned, (s.proceed returned).isSome

/-- The item the loop comes to next. -/
def upcoming (s : MasterDataServices R P) : Option ItemId :=
  match s.phase with
  | some (.reconnecting position _ _) => s.monitoredItems[position]?
  | _ => none

def looping (s : MasterDataServices R P) : Bool :=
  match s.phase with
  | some (.reconnecting _ _ _) => true
  | _ => false

/-- No item is created or destroyed while the loop runs, and the loop comes to
no item for which something was created from the new services already: nobody
subscribed it while they were signalled, or in the handler of an earlier item. -/
def Undisturbed (s : MasterDataServices R P) : MasterAction R P → Prop
  | .createItem _ _ | .destroyItem _ => s.looping = false
  | .proceed _ => ∀ id ∈ s.upcoming, ∀ c ∈ s.underlyingItemAdapter, s.creations id c = []
  | _ => True

variable {s s' : MasterDataServices R P} {id : ItemId} {item : MasterMonitoredItem R P}
  {c : ConnectionId} {returned : Bool}

theorem Pending.congr (h : s.Pending id item) (hcreated : s'.created = s.created)
    (hadapter : s'.underlyingItemAdapter = s.underlyingItemAdapter) : s'.Pending id item := by
  refine ⟨fun c hc => ?_, h.underlyingItem⟩
  rw [hadapter] at hc
  simpa [creations, hcreated] using h.created c hc

theorem Bound.congr (h : s.Bound id item) (hcreated : ∀ c, s'.creations id c = s.creations id c)
    (hadapter : s'.underlyingItemAdapter = s.underlyingItemAdapter) : s'.Bound id item := by
  simp only [Bound, CreatedOnce, hadapter, hcreated] at h ⊢
  split at h
  · exact h
  · exact ⟨fun c hc => (hcreated c).trans (h.created c (hadapter ▸ hc)), h.underlyingItem⟩

/-- What was not subscribed cannot be bound. -/
theorem Pending.bound_of_handler (h : s.Pending id item) (hhandler : item.handler = none) :
    s.Bound id item := by
  simpa [Bound, hhandler] using h

/-- Without an adapter nothing can be bound. -/
theorem Pending.bound_of_adapter (h : s.Pending id item)
    (hadapter : s.underlyingItemAdapter = none) : s.Bound id item := by
  unfold Bound
  rw [hadapter]
  split
  · contradiction
  · exact h

theorem Bound.underlyingItem_current (h : s.Bound id item) (hc : item.underlyingItem = some c) :
    s.underlyingItemAdapter = some c := by
  unfold Bound at h
  split at h
  · rename_i _ c' _ hadapter
    obtain ⟨returned, -, hunderlying⟩ := h
    rw [hc] at hunderlying
    cases returned <;> simp_all
  · rw [h.underlyingItem] at hc
    cases hc

/-! ## §4  One step -/

/-- Items the loop is still to visit. -/
def waiting (s : MasterDataServices R P) : List ItemId :=
  match s.phase with
  | some .connected => s.monitoredItems
  | some (.reconnecting position _ _) => s.monitoredItems.drop position
  | _ => []

structure Inv (s : MasterDataServices R P) : Prop where
  nodup : s.monitoredItems.Nodup
  live : ∀ id, id ∈ s.monitoredItems ↔ ∃ item, s.items id = some item
  fresh : ∀ id ∈ s.monitoredItems, id < s.nextItem
  log : ∀ creation ∈ s.created, creation.item < s.nextItem ∧ creation.connection ≤ s.connections
  adapter : ∀ c, s.underlyingItemAdapter = some c → s.connected = true ∧ c ≤ s.connections
  once : ∀ id c, (s.creations id c).length ≤ 1
  valid : ∀ position handlerRuns valid,
    s.phase = some (.reconnecting position handlerRuns valid) → valid = true
  disconnected : ∀ services, s.phase = some (.disconnected services) → s.connected = false
  bound : ∀ id item, s.items id = some item →
    s.Bound id item ∨ id ∈ s.waiting ∧ s.Pending id item

theorem Inv.initial : (initial : MasterDataServices R P).Inv := by
  constructor <;> simp [MasterDataServices.initial, creations]

theorem Inv.settled (h : s.Inv) : s.Settled where
  bound hphase id hid := by
    obtain ⟨item, hitem⟩ := (h.live id).mp hid
    rcases h.bound id item hitem with hbound | ⟨hwaiting, -⟩
    · exact ⟨item, hitem, hbound⟩
    · simp [waiting, hphase] at hwaiting
  once := h.once
  current id item c hitem hc := by
    rcases h.bound id item hitem with hbound | ⟨-, hpending⟩
    · exact hbound.underlyingItem_current hc
    · rw [hpending.underlyingItem] at hc
      cases hc
  proceeds hphase returned := by
    unfold MasterDataServices.proceed
    split
    · contradiction
    · rfl
    · rfl
    · rename_i position handlerRuns valid hp
      rw [check_of (h.valid position handlerRuns valid hp), Option.bind_some]
      split
      · rfl
      · rename_i id hid
        obtain ⟨item, hitem⟩ := (h.live id).mp (List.mem_of_getElem? hid)
        rw [hitem]
        rfl

/-- The calls of `CreateMonitoredItem` that `Reconnect` makes. -/
def reconnectCalls (s : MasterDataServices R P) (id : ItemId) (item : MasterMonitoredItem R P)
    (returned : Bool) : List (Creation R P) :=
  match item.handler, s.underlyingItemAdapter with
  | some _, some c => [⟨id, c, item.readValueId, item.params, returned⟩]
  | _, _ => []

/-- What `Reconnect` changes: the underlying item of its own item. -/
structure Reconnects (s : MasterDataServices R P) (id : ItemId) (item : MasterMonitoredItem R P)
    (returned : Bool) (s' : MasterDataServices R P) : Prop where
  connected : s'.connected = s.connected
  underlyingItemAdapter : s'.underlyingItemAdapter = s.underlyingItemAdapter
  monitoredItems : s'.monitoredItems = s.monitoredItems
  phase : s'.phase = s.phase
  nextItem : s'.nextItem = s.nextItem
  connections : s'.connections = s.connections
  created : s'.created = s.created ++ s.reconnectCalls id item returned
  items : s'.items = Function.update s.items id (some { item with
    underlyingItem := if returned ∧ item.handler ≠ none then s.underlyingItemAdapter else none })

/-- The item has no underlying item yet, and only a connected session has an
adapter. -/
theorem reconnect_spec (hitem : s.items id = some item) (hunderlying : item.underlyingItem = none)
    (hadapter : s.connected = false → s.underlyingItemAdapter = none) :
    s.Reconnects id item returned (s.reconnect id item returned) := by
  obtain ⟨readValueId, params, handler, underlyingItem⟩ := item
  subst hunderlying
  cases handler with
  | none => constructor <;> simp [reconnect, reconnectCalls, hitem]
  | some handler =>
      by_cases hconnected : s.connected = true
      · cases hc : s.underlyingItemAdapter with
        | none =>
            constructor <;>
              simp [reconnect, hconnected, createMonitoredItem, setItem, notify, reconnectCalls, hc]
        | some c =>
            cases returned <;> constructor <;>
              simp [reconnect, hconnected, createMonitoredItem, setItem, notify, reconnectCalls, hc]
      · have hnone := hadapter (by simpa using hconnected)
        by_cases hhandler : handler = .dataChange <;> constructor <;>
          simp [reconnect, hconnected, hhandler, notify, reconnectCalls, hnone, hitem]

theorem reconnect_created (hadapter : s.connected = false → s.underlyingItemAdapter = none) :
    (s.reconnect id item returned).created = s.created ++ s.reconnectCalls id item returned := by
  unfold reconnect reconnectCalls
  cases item.handler with
  | none => simp
  | some handler =>
      by_cases hconnected : s.connected = true
      · cases hc : s.underlyingItemAdapter with
        | none => simp [hconnected, createMonitoredItem, hc, setItem, notify]
        | some c => cases returned <;> simp [hconnected, createMonitoredItem, hc, setItem, notify]
      · have hnone := hadapter (by simpa using hconnected)
        by_cases hhandler : handler = .dataChange <;> simp [hconnected, hhandler, notify, hnone]

theorem creations_append {new : List (Creation R P)} (hcreated : s'.created = s.created ++ new)
    (id : ItemId) (c : ConnectionId) :
    s'.creations id c = s.creations id c ++ new.filter fun x => x.item = id ∧ x.connection = c := by
  simp [creations, hcreated]

theorem reconnectCalls_of_ne {id' : ItemId} (hne : id' ≠ id) (c : ConnectionId) :
    (s.reconnectCalls id item returned).filter
      (fun x => x.item = id' ∧ x.connection = c) = [] := by
  unfold reconnectCalls
  split <;> simp [hne.symm]

theorem mem_reconnectCalls {x : Creation R P} (hx : x ∈ s.reconnectCalls id item returned) :
    x.item = id ∧ s.underlyingItemAdapter = some x.connection := by
  unfold reconnectCalls at hx
  split at hx
  · rename_i hadapter
    obtain rfl := List.mem_singleton.mp hx
    exact ⟨rfl, hadapter⟩
  · cases hx

namespace Reconnects

variable (h : s.Reconnects id item returned s')
include h

theorem creations_of_ne {id' : ItemId} (hne : id' ≠ id) (c : ConnectionId) :
    s'.creations id' c = s.creations id' c := by
  rw [creations_append h.created, reconnectCalls_of_ne hne, List.append_nil]

theorem once (honce : ∀ id c, (s.creations id c).length ≤ 1) (hpending : s.Pending id item)
    (id' : ItemId) (c : ConnectionId) : (s'.creations id' c).length ≤ 1 := by
  by_cases hid : id' = id
  · subst hid
    rw [creations_append h.created]
    unfold reconnectCalls
    split
    · rename_i c' _ hadapter
      by_cases hc : c' = c
      · subst hc
        simp [hpending.created c' hadapter]
      · simpa [hc] using honce id' c
    · simpa using honce id' c
  · rw [h.creations_of_ne hid]
    exact honce id' c

/-- The item gets what was created for it. -/
theorem bound (hpending : s.Pending id item) :
    ∃ item', s'.items = Function.update s.items id (some item') ∧ s'.Bound id item' := by
  refine ⟨_, h.items, ?_⟩
  simp only [Bound, h.underlyingItemAdapter]
  split
  · rename_i handler c hhandler hadapter
    refine ⟨returned, ?_, ?_⟩
    · rw [creations_append h.created, hpending.created c hadapter, reconnectCalls, hhandler,
        hadapter]
      simp
    · cases returned <;> simp [hhandler, hadapter]
  · rename_i hno
    have hcalls : s.reconnectCalls id item returned = [] := by
      unfold reconnectCalls
      split
      · rename_i handler c hhandler hadapter
        exact (hno handler c hhandler hadapter).elim
      · rfl
    refine ⟨fun c hc => ?_, ?_⟩
    · rw [creations_append h.created, hcalls, hpending.created c (h.underlyingItemAdapter ▸ hc)]
      rfl
    · cases hhandler : item.handler with
      | none => simp
      | some handler =>
          cases hadapter : s.underlyingItemAdapter with
          | none => simp
          | some c => exact (hno handler c hhandler hadapter).elim

end Reconnects

namespace Inv

theorem adapter_of_disconnected (h : s.Inv) (hconnected : s.connected = false) :
    s.underlyingItemAdapter = none := by
  cases hc : s.underlyingItemAdapter with
  | none => rfl
  | some c =>
      rw [(h.adapter c hc).1] at hconnected
      cases hconnected

theorem pending_of_disconnected (h : s.Inv) (hconnected : s.connected = false)
    (hitem : s.items id = some item) : s.Pending id item := by
  rcases h.bound id item hitem with hbound | ⟨-, hpending⟩
  · unfold Bound at hbound
    rw [h.adapter_of_disconnected hconnected] at hbound
    split at hbound
    · contradiction
    · exact hbound
  · exact hpending

theorem pending_of_handler (h : s.Inv) (hitem : s.items id = some item)
    (hhandler : item.handler = none) : s.Pending id item := by
  rcases h.bound id item hitem with hbound | ⟨-, hpending⟩
  · simpa [Bound, hhandler] using hbound
  · exact hpending

/-- Only the items that the new phase does not wait for have to be bound. -/
theorem setPhase (h : s.Inv) {phase : Option SetServicesPhase}
    (hvalid : ∀ position handlerRuns valid,
      phase = some (.reconnecting position handlerRuns valid) → valid = true)
    (hdisconnected : ∀ services, phase ≠ some (.disconnected services))
    (hbound : ∀ id item, s.items id = some item → id ∈ s.waiting → s.Bound id item ∨
      id ∈ waiting { s with phase := phase }) : Inv { s with phase := phase } where
  nodup := h.nodup
  live := h.live
  fresh := h.fresh
  log := h.log
  adapter := h.adapter
  once := h.once
  valid := hvalid
  disconnected services hs := (hdisconnected services hs).elim
  bound id item hitem := by
    rcases h.bound id item hitem with hb | ⟨hwaiting, hpending⟩
    · exact .inl (hb.congr (fun _ => rfl) rfl)
    · rcases hbound id item hitem hwaiting with hb | hwaiting'
      · exact .inl (hb.congr (fun _ => rfl) rfl)
      · exact .inr ⟨hwaiting', hpending.congr rfl rfl⟩

theorem createItem (h : s.Inv) (readValueId : R) (params : P)
    (hphase : s.phase.map invalidate = s.phase) : (s.createItem readValueId params).Inv where
  nodup := by
    refine h.nodup.append (List.nodup_singleton _) ?_
    intro id hid hnew
    obtain rfl := List.mem_singleton.mp hnew
    exact (h.fresh _ hid).false
  live id := by
    by_cases hid : id = s.nextItem
    · simp [MasterDataServices.createItem, hid]
    · simpa [MasterDataServices.createItem, hid] using h.live id
  fresh id hid := by
    rcases List.mem_append.mp hid with hold | hnew
    · exact Nat.lt_succ_of_lt (h.fresh id hold)
    · obtain rfl := List.mem_singleton.mp hnew
      exact Nat.lt_succ_self _
  log creation hcreation :=
    ⟨Nat.lt_succ_of_lt (h.log creation hcreation).1, (h.log creation hcreation).2⟩
  adapter := h.adapter
  once := h.once
  valid position handlerRuns valid hp := h.valid position handlerRuns valid (hphase ▸ hp)
  disconnected services hp := h.disconnected services (hphase ▸ hp)
  bound id item hitem := by
    by_cases hid : id = s.nextItem
    · subst hid
      obtain rfl : _ = item := by simpa [MasterDataServices.createItem] using hitem
      have hpending : (s.createItem readValueId params).Pending s.nextItem
          ⟨readValueId, params, none, none⟩ := by
        refine ⟨fun c _ => List.filter_eq_nil_iff.mpr fun creation hcreation => ?_, rfl⟩
        simp [(h.log creation hcreation).1.ne]
      exact .inl (hpending.bound_of_handler rfl)
    · have hitem' : s.items id = some item := by
        simpa [MasterDataServices.createItem, hid] using hitem
      rcases h.bound id item hitem' with hbound | ⟨hwaiting, hpending⟩
      · exact .inl (hbound.congr (fun _ => rfl) rfl)
      · refine .inr ⟨?_, hpending.congr rfl rfl⟩
        simp only [waiting, MasterDataServices.createItem, hphase] at hwaiting ⊢
        split
        · rename_i hp
          rw [hp] at hwaiting
          exact List.mem_append_left _ hwaiting
        · rename_i position _ _ hp
          rw [hp] at hwaiting
          rw [List.drop_append]
          exact List.mem_append_left _ hwaiting
        · rename_i hno hno'
          split at hwaiting
          · exact (hno ‹_›).elim
          · exact (hno' _ _ _ ‹_›).elim
          · exact hwaiting

theorem destroyItem (h : s.Inv) (hphase : ∀ position handlerRuns valid,
      s.phase ≠ some (.reconnecting position handlerRuns valid))
    (hs : s.destroyItem id = some s') : s'.Inv := by
  unfold MasterDataServices.destroyItem at hs
  obtain ⟨hid, hs⟩ := check_bind_eq_some.mp hs
  cases hs
  have hsame : s.phase.map invalidate = s.phase := by
    cases hp : s.phase with
    | none => rfl
    | some phase =>
        cases phase with
        | disconnected services => rfl
        | connected => rfl
        | reconnecting position handlerRuns valid => exact (hphase _ _ _ hp).elim
  constructor
  case nodup => exact h.nodup.erase id
  case live =>
    intro id'
    by_cases hne : id' = id
    · simp [hne, h.nodup.mem_erase_iff]
    · simpa [hne, h.nodup.mem_erase_iff] using h.live id'
  case fresh => exact fun id' hid' => h.fresh id' (List.mem_of_mem_erase hid')
  case log => exact h.log
  case adapter => exact h.adapter
  case once => exact h.once
  case valid => exact fun position handlerRuns valid hp => h.valid _ handlerRuns valid (hsame ▸ hp)
  case disconnected => exact fun services hp => h.disconnected services (hsame ▸ hp)
  case bound =>
    intro id' item hitem
    by_cases hne : id' = id
    · simp [hne] at hitem
    · have hitem' : s.items id' = some item := by simpa [hne] using hitem
      rcases h.bound id' item hitem' with hbound | ⟨hwaiting, hpending⟩
      · exact .inl (hbound.congr (fun _ => rfl) rfl)
      · refine .inr ⟨?_, hpending.congr rfl rfl⟩
        simp only [waiting, hsame] at hwaiting ⊢
        split
        · rename_i hp
          rw [hp] at hwaiting
          exact (List.mem_erase_of_ne hne).mpr hwaiting
        · exact (hphase _ _ _ ‹_›).elim
        · rename_i hno hno'
          split at hwaiting
          · exact (hno ‹_›).elim
          · exact (hno' _ _ _ ‹_›).elim
          · exact hwaiting

/-- Binding an item that nothing was created for. -/
theorem reconnect (h : s.Inv) (hid : id ∈ s.monitoredItems) (hpending : s.Pending id item) :
    ((s.setItem id item).reconnect id item returned).Inv ∧
      ∃ item', ((s.setItem id item).reconnect id item returned).items id = some item' ∧
        ((s.setItem id item).reconnect id item returned).Bound id item' := by
  have hspec : (s.setItem id item).Reconnects id item returned
      ((s.setItem id item).reconnect id item returned) := by
    refine reconnect_spec ?_ hpending.underlyingItem h.adapter_of_disconnected
    simp [setItem]
  have hpending' : (s.setItem id item).Pending id item := hpending.congr rfl rfl
  obtain ⟨item', hitems, hbound⟩ := hspec.bound hpending'
  generalize (s.setItem id item).reconnect id item returned = s' at *
  have hitem' : s'.items id = some item' := by simp [hitems]
  refine ⟨?_, item', hitem', hbound⟩
  constructor
  case nodup =>
    rw [hspec.monitoredItems]
    exact h.nodup
  case live =>
    intro id'
    rw [hspec.monitoredItems, hitems]
    by_cases hne : id' = id
    · simpa [hne, setItem] using hid
    · simpa [hne, setItem] using h.live id'
  case fresh =>
    rw [hspec.monitoredItems, hspec.nextItem]
    exact h.fresh
  case log =>
    intro creation hcreation
    rw [hspec.created] at hcreation
    rw [hspec.nextItem, hspec.connections]
    rcases List.mem_append.mp hcreation with hold | hnew
    · exact h.log creation hold
    · obtain ⟨hitem, hadapter⟩ := mem_reconnectCalls hnew
      exact ⟨hitem ▸ h.fresh id hid, (h.adapter _ hadapter).2⟩
  case adapter =>
    rw [hspec.underlyingItemAdapter, hspec.connected, hspec.connections]
    exact h.adapter
  case once => exact hspec.once h.once hpending'
  case valid =>
    rw [hspec.phase]
    exact h.valid
  case disconnected =>
    rw [hspec.phase, hspec.connected]
    exact h.disconnected
  case bound =>
    intro id' item'' hitem''
    by_cases hne : id' = id
    · subst hne
      obtain rfl := Option.some.inj (hitem'.symm.trans hitem'')
      exact .inl hbound
    · have hold : s.items id' = some item'' := by simpa [hitems, hne, setItem] using hitem''
      have hcreations := hspec.creations_of_ne hne
      rcases h.bound id' item'' hold with hb | ⟨hwaiting, hp⟩
      · exact .inl (hb.congr hcreations hspec.underlyingItemAdapter)
      · refine .inr ⟨?_, fun c hc => ?_, hp.underlyingItem⟩
        · simp only [waiting, hspec.phase, hspec.monitoredItems]
          exact hwaiting
        · exact (hcreations c).trans (hp.created c (hspec.underlyingItemAdapter ▸ hc))

theorem subscribe (h : s.Inv) {handler : MonitoredItemHandler}
    (hs : s.subscribe id handler returned = some s') : s'.Inv := by
  unfold MasterDataServices.subscribe at hs
  obtain ⟨item, hitem, hs⟩ := Option.bind_eq_some_iff.mp hs
  obtain ⟨hhandler, hs⟩ := check_bind_eq_some.mp hs
  cases hs
  have hpending := h.pending_of_handler hitem hhandler
  have hpending' : s.Pending id { item with handler := some handler } :=
    ⟨hpending.created, hpending.underlyingItem⟩
  exact (h.reconnect ((h.live id).mpr ⟨item, hitem⟩) hpending').1

/-- The new services have an own number, so that nothing was created from them. -/
theorem installServices (h : s.Inv) (services : DataServices) (hconnected : s.connected = false) :
    (s.installServices services).Inv := by
  have hnone := h.adapter_of_disconnected hconnected
  unfold MasterDataServices.installServices
  split
  · refine ⟨h.nodup, h.live, h.fresh, ?_, ?_, h.once, ?_, ?_, ?_⟩
    · intro creation hcreation
      exact ⟨(h.log creation hcreation).1, Nat.le_succ_of_le (h.log creation hcreation).2⟩
    · intro c hc
      refine ⟨rfl, ?_⟩
      simp only [hnone] at hc
      split at hc
      · exact (Option.some.inj hc).ge
      · cases hc
    · intro position handlerRuns valid hp
      cases hp
    · intro services' hp
      cases hp
    · intro id item hitem
      refine .inr ⟨(h.live id).mpr ⟨item, hitem⟩, ?_, ?_⟩
      · intro c hc
        simp only [hnone] at hc
        split at hc
        · obtain rfl := Option.some.inj hc
          refine List.filter_eq_nil_iff.mpr fun creation hcreation => ?_
          have hne : creation.connection ≠ s.connections + 1 :=
            (Nat.lt_succ_of_le (h.log creation hcreation).2).ne
          simp [hne]
        · cases hc
      · exact (h.pending_of_disconnected hconnected hitem).underlyingItem
  · refine ⟨h.nodup, h.live, h.fresh, h.log, ?_, h.once, ?_, ?_, ?_⟩
    · intro c hc
      cases hnone.symm.trans hc
    · intro position handlerRuns valid hp
      cases hp
    · intro services' hp
      cases hp
    · intro id item hitem
      have hpending := h.pending_of_disconnected hconnected hitem
      exact .inl (Pending.bound_of_adapter (hpending.congr rfl rfl) hnone)

theorem setServices (h : s.Inv) (services : DataServices) : (s.setServices services).Inv := by
  unfold MasterDataServices.setServices
  split
  · refine ⟨h.nodup, fun id => ?_, h.fresh, h.log, ?_, h.once, ?_, fun _ _ => rfl, ?_⟩
    · by_cases hid : id ∈ s.monitoredItems
      · simpa [hid] using (h.live id).mp hid
      · simpa [hid] using mt (h.live id).mpr hid
    · intro c hc
      cases hc
    · intro position handlerRuns valid hp
      cases hp
    · intro id item hitem
      have hid : id ∈ s.monitoredItems := by
        by_contra hno
        exact hno ((h.live id).mpr ⟨item, by simpa [hno] using hitem⟩)
      obtain ⟨item₀, -, rfl⟩ : ∃ item₀, s.items id = some item₀ ∧
          { item₀ with underlyingItem := none } = item := by simpa [hid] using hitem
      refine .inl (Pending.bound_of_adapter ⟨fun c hc => ?_, rfl⟩ rfl)
      cases hc
  · exact h.installServices services (by simp_all)

/-- The loop visits an item of the vector, and then all before its position are
bound. -/
theorem visit (h : s.Inv) {position : ℕ} {handlerRuns valid : Bool}
    (hphase : s.phase = some (.reconnecting position handlerRuns valid))
    (hid : s.monitoredItems[position]? = some id) (hitem : s.items id = some item)
    (hpending : s.Pending id item) (runs : Bool) :
    Inv { s.reconnect id item returned with
      phase := some (.reconnecting (position + 1) runs true) } := by
  have hset : s.setItem id item = s := by
    unfold setItem
    rw [← hitem, Function.update_eq_self]
  obtain ⟨hinv, item', hitem', hbound⟩ :=
    h.reconnect (List.mem_of_getElem? hid) hpending
  have hspec : s.Reconnects id item returned (s.reconnect id item returned) :=
    reconnect_spec hitem hpending.underlyingItem h.adapter_of_disconnected
  rw [hset] at hinv hitem' hbound
  refine hinv.setPhase ?_ (by simp) ?_
  · intro position' handlerRuns' valid' hp
    cases hp
    rfl
  · intro id' item'' hitem'' hwaiting
    have hdrop : s.monitoredItems.drop position = id :: s.monitoredItems.drop (position + 1) := by
      obtain ⟨hlt, rfl⟩ := List.getElem?_eq_some_iff.mp hid
      exact List.drop_eq_getElem_cons hlt
    simp only [waiting, hspec.phase, hphase, hspec.monitoredItems, hdrop] at hwaiting ⊢
    rcases List.mem_cons.mp hwaiting with rfl | hlater
    · obtain rfl := Option.some.inj (hitem'.symm.trans hitem'')
      exact .inl hbound
    · exact .inr hlater

/-- What the loop comes to next has nothing created from these services. -/
theorem pending_of_undisturbed (h : s.Inv) (hitem : s.items id = some item)
    (hcreated : ∀ c ∈ s.underlyingItemAdapter, s.creations id c = []) : s.Pending id item := by
  rcases h.bound id item hitem with hbound | ⟨-, hpending⟩
  · unfold Bound at hbound
    split at hbound
    · rename_i c _ hadapter
      obtain ⟨returned, hone, -⟩ := hbound
      rw [hcreated c hadapter] at hone
      cases hone
    · exact hbound
  · exact hpending

theorem proceed (h : s.Inv) (hok : s.Undisturbed (.proceed returned))
    (hs : s.proceed returned = some s') : s'.Inv := by
  unfold MasterDataServices.proceed at hs
  split at hs
  · cases hs
  · rename_i services hphase
    cases hs
    exact h.installServices services (h.disconnected services hphase)
  · rename_i hphase
    cases hs
    refine h.setPhase ?_ (by simp) fun id item _ hwaiting => .inr ?_
    · intro position handlerRuns valid hp
      cases hp
      rfl
    · simpa [waiting, hphase] using hwaiting
  · rename_i position handlerRuns valid hphase
    obtain ⟨-, hs⟩ := check_bind_eq_some.mp hs
    split at hs
    · rename_i hend
      cases hs
      refine h.setPhase (by simp) (by simp) fun id item _ hwaiting => ?_
      have hempty : s.monitoredItems.drop position = [] :=
        List.drop_eq_nil_of_le (List.getElem?_eq_none_iff.mp hend)
      simp [waiting, hphase, hempty] at hwaiting
    · rename_i id hid
      obtain ⟨item, hitem, hs⟩ := Option.bind_eq_some_iff.mp hs
      cases hs
      have hnext : id ∈ s.upcoming := by simpa [upcoming, hphase] using hid
      exact h.visit hphase hid hitem (h.pending_of_undisturbed hitem (hok id hnext)) _

theorem step {a : MasterAction R P} (h : s.Inv) (hok : s.Undisturbed a) (hs : s.step a = some s') :
    s'.Inv := by
  cases a with
  | createItem readValueId params =>
      cases hs
      refine h.createItem readValueId params ?_
      cases hp : s.phase with
      | none => rfl
      | some phase => cases phase <;> simp_all [Undisturbed, looping, invalidate]
  | subscribe id handler returned => exact h.subscribe hs
  | destroyItem id =>
      refine h.destroyItem (fun position handlerRuns valid hp => ?_) hs
      simp [Undisturbed, looping, hp] at hok
  | setServices services =>
      cases hs
      exact h.setServices services
  | proceed returned => exact h.proceed hok hs

end Inv

/-- A vector changed under the loop stops it. -/
theorem Settled.not_invalidated (position : ℕ) (handlerRuns : Bool) (h : s.Settled)
    (hphase : s.phase = some (.reconnecting position handlerRuns false)) : False := by
  have hproceeds := h.proceeds (by simp [hphase]) true
  simp [MasterDataServices.proceed, hphase, check] at hproceeds

/-- The second creation for one item. -/
theorem Settled.undisturbed_proceed (hinv : s.Inv) (h : s'.Settled)
    (hs : s.proceed returned = some s') : s.Undisturbed (.proceed returned) := by
  intro id hid c hc
  unfold upcoming at hid
  split at hid
  · rename_i position handlerRuns valid hphase
    unfold MasterDataServices.proceed at hs
    simp only [hphase, Option.mem_def.mp hid] at hs
    obtain ⟨-, hs⟩ := check_bind_eq_some.mp hs
    obtain ⟨item, hitem, hs⟩ := Option.bind_eq_some_iff.mp hs
    cases hs
    have honce : ((s.reconnect id item returned).creations id c).length ≤ 1 := h.once id c
    rw [creations_append (reconnect_created hinv.adapter_of_disconnected)] at honce
    cases hhandler : item.handler with
    | none => exact (hinv.pending_of_handler hitem hhandler).created c hc
    | some handler =>
        have hadapter : s.underlyingItemAdapter = some c := hc
        simpa [reconnectCalls, hhandler, hadapter] using honce
  · cases hid

/-- Exactly the undisturbed steps keep the items settled. -/
theorem Inv.settled_iff {a : MasterAction R P} (h : s.Inv) (hs : s.step a = some s') :
    s'.Settled ↔ s.Undisturbed a := by
  refine ⟨fun hsettled => ?_, fun hok => (h.step hok hs).settled⟩
  cases a with
  | createItem readValueId params =>
      cases hs
      simp only [Undisturbed, looping]
      split
      · rename_i position handlerRuns valid hphase
        refine (hsettled.not_invalidated position handlerRuns ?_).elim
        simp [MasterDataServices.createItem, hphase, invalidate]
      · rfl
  | subscribe id handler returned => trivial
  | destroyItem id =>
      obtain ⟨-, hs⟩ := check_bind_eq_some.mp hs
      cases hs
      simp only [Undisturbed, looping]
      split
      · rename_i position handlerRuns valid hphase
        refine (hsettled.not_invalidated position handlerRuns ?_).elim
        simp [hphase, invalidate]
      · rfl
  | setServices services => trivial
  | proceed returned => exact hsettled.undisturbed_proceed h hs

/-! ## §5  Runs -/

instance (s : MasterDataServices R P) (a : MasterAction R P) :
    Decidable ((machine R P).enabled s a) :=
  inferInstanceAs (Decidable (s.Enabled a))

instance (s : MasterDataServices R P) : ∀ a, Decidable (s.Undisturbed a)
  | .createItem _ _ | .destroyItem _ => inferInstanceAs (Decidable (s.looping = false))
  | .proceed _ => inferInstanceAs
      (Decidable (∀ id ∈ s.upcoming, ∀ c ∈ s.underlyingItemAdapter, s.creations id c = []))
  | .subscribe _ _ _ | .setServices _ => inferInstanceAs (Decidable True)

theorem items_bound (h : (machine R P).Reaches Undisturbed s) :
    s.Settled ∧ ∀ a s', s.step a = some s' → (s'.Settled ↔ s.Undisturbed a) := by
  have hinv : s.Inv :=
    h.invariant Inv.initial fun _ _ _ ht _ hok hs => ht.step hok hs
  exact ⟨hinv.settled, fun a s' hs => hinv.settled_iff hs⟩

/-- One item waits for a connection, and a handler subscribes a second one that
was visited. -/
theorem items_bound_reconnected : ∃ s : MasterDataServices ℕ ℕ, s.phase = none ∧
    s.monitoredItems = [0, 1] ∧ (s.creations 0 1).length = 1 ∧ s.Settled := by
  obtain ⟨s, hs, hp⟩ := Machine.exists_reaches_of_exec (M := machine ℕ ℕ) Undisturbed
    (p := fun s => decide (s.phase = none ∧ s.monitoredItems = [0, 1] ∧
      (s.creations 0 1).length = 1))
    [.createItem 10 20, .createItem 11 21, .subscribe 1 .dataChange true,
      .setServices ⟨true, true⟩, .proceed true, .proceed true, .proceed true,
      .subscribe 0 .event true, .proceed true]
    (by decide)
  obtain ⟨hphase, hitems, honce⟩ := of_decide_eq_true hp
  exact ⟨s, hphase, hitems, honce, (items_bound hs).1⟩

/-- A callback subscribes an item while the new session is signalled, and the
loop creates its underlying item once more. -/
theorem subscribed_in_signal_created_twice : ∃ s : MasterDataServices ℕ ℕ,
    (machine ℕ ℕ).Reachable s ∧ s.phase = none ∧ s.monitoredItems = [0] ∧
      (s.creations 0 1).length = 2 := by
  obtain ⟨s, hs, hp⟩ := Machine.exists_reachable_of_exec (M := machine ℕ ℕ)
    (p := fun s => decide (s.phase = none ∧ s.monitoredItems = [0] ∧
      (s.creations 0 1).length = 2))
    [.createItem 10 20, .setServices ⟨true, true⟩, .subscribe 0 .dataChange true,
      .proceed true, .proceed true, .proceed true]
    (by decide)
  exact ⟨s, hs, of_decide_eq_true hp⟩

end MasterDataServices

end ScadaCommon
