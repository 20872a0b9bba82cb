import Mathlib.Data.List.Induction
import ScadaCommon.Foundation.AssocMap
import ScadaCommon.Foundation.Machine
import ScadaCommon.OpcuaBridge.ServiceConversion

/-!
# The adapter of a subscription

The adapter of monitored items keeps the select clauses of the last request under each
client handle, and the handle of the first event request. It writes both before the inner
subscription answers, and a removal leaves them as they are.

§1 what the bridge uses · §2 notifications · §3 the adapter · §4 the items · §5 runs.
-/

namespace ScadaCommon.OpcuaBridge

open Foundation

variable {D P E : Type}

/-! ## §1  What the bridge uses -/

/-- Browse paths of the fields of an event. -/
abbrev FieldPaths := List (List Bytes)

/-- Functions and default values of the libraries on both sides; `E` stands for the events
that are no `scada::Event`. -/
structure Libraries (D P E : Type) where
  codec : BinaryCodec
  doubles : Doubles D
  text : NodeIdText
  normalizeEventFieldPaths : FieldPaths → FieldPaths
  parseEventFilterFieldPaths : Json D → FieldPaths
  projectEventFields : FieldPaths → Option (Event .opcua D OpcuaPayload) →
    List (Variant .opcua D OpcuaPayload)
  disassembleEvent : E → List (Variant .scada D (ScadaPayload P))
  emptyValue : DataValue .opcua D OpcuaPayload OpcuaStatusCode
  emptyEvent : Event .opcua D OpcuaPayload
  kSeverityCritical : UInt32

/-- `AttributeId::EventNotifier`. -/
def eventNotifier : AttributeId := 12

/-- The `std::any` of an event notification. -/
inductive CoreEvent (D P E : Type) where
  | empty
  | event (event : Event .scada D (ScadaPayload P))
  | other (event : E)

/-- `scada::MonitoredItemNotification`. -/
inductive ScadaItemNotification (D P E : Type) where
  | dataChange (clientHandle : UInt32) (value : DataValue .scada D (ScadaPayload P) ScadaStatusCode)
  | event (clientHandle : UInt32) (event : CoreEvent D P E)
  | overflow (status : ScadaStatusCode)
  | itemStatus (clientHandle : UInt32) (status : ScadaStatusCode)

/-- `opcua::ItemNotification`. -/
inductive OpcuaItemNotification (D : Type) where
  | monitoredItem (clientHandle : UInt32) (value : DataValue .opcua D OpcuaPayload OpcuaStatusCode)
  | eventFieldList (clientHandle : UInt32) (eventFields : List (Variant .opcua D OpcuaPayload))

/-- Both readings of the clock, and the counter of the process. -/
structure Moment where
  now : DateTime .opcua
  time : DateTime .opcua
  counter : UInt64

namespace OpcuaMonitoredItemCreateRequest

variable (libraries : Libraries D P E) (request : OpcuaMonitoredItemCreateRequest D)

abbrev clientHandle : UInt32 := request.requestedParameters.clientHandle

/-- Asks for events. -/
def IsEvent : Prop := request.itemToMonitor.attributeId = eventNotifier

instance : Decidable request.IsEvent := inferInstanceAs (Decidable (_ = _))

/-- The select clauses, `ParseWireEventFieldPaths`. -/
def fieldPaths : FieldPaths :=
  match request.requestedParameters.filter with
  | some (.json rawFilter) => libraries.parseEventFilterFieldPaths rawFilter
  | _ => libraries.normalizeEventFieldPaths []

end OpcuaMonitoredItemCreateRequest

/-! ## §2  Notifications -/

/-- `MonitoredItemSubscriptionAdapter`. -/
structure SubscriptionAdapter where
  fieldPathsByHandle : AssocMap UInt32 FieldPaths
  eventItemHandle : Option UInt32

namespace SubscriptionAdapter

variable (libraries : Libraries D P E)

def fieldPathsOf (adapter : SubscriptionAdapter) (clientHandle : UInt32) : FieldPaths :=
  (adapter.fieldPathsByHandle.lookup clientHandle).getD (libraries.normalizeEventFieldPaths [])

/-- The event of an overflow. -/
def overflowEvent (moment : Moment) : Event .opcua D OpcuaPayload :=
  { libraries.emptyEvent with
    eventTypeId := .numericId 3035 0
    eventId := (UInt64.ofInt moment.now.internalValue <<< 12) ||| (moment.counter &&& 0xfff)
    time := moment.time
    receiveTime := moment.time
    severity := libraries.kSeverityCritical
    sourceNodeId := .numericId 2253 0
    sourceName := "Server".toUTF8.toList
    message := ⟨[], "Event queue overflowed; event notifications were lost".toList.map
      fun c => c.toNat.toUInt16⟩ }

/-- Only an event of the core is projected. -/
def eventFields (fieldPaths : FieldPaths) : CoreEvent D P E → List (Variant .opcua D OpcuaPayload)
  | .event event => libraries.projectEventFields fieldPaths (some (event.toOpcua libraries.codec))
  | .other event => (libraries.disassembleEvent event).map (·.toOpcua libraries.codec)
  | .empty => libraries.projectEventFields fieldPaths none

/-- A status without a value. -/
def statusOnly (status : ScadaStatusCode) : DataValue .opcua D OpcuaPayload OpcuaStatusCode :=
  { libraries.emptyValue with statusCode := status.toOpcua }

def toItemNotification (adapter : SubscriptionAdapter) (moment : Moment) :
    ScadaItemNotification D P E → OpcuaItemNotification D
  | .dataChange clientHandle value => .monitoredItem clientHandle (value.toOpcua libraries.codec)
  | .event clientHandle event =>
      .eventFieldList clientHandle
        (eventFields libraries (adapter.fieldPathsOf libraries clientHandle) event)
  | .overflow status =>
      match adapter.eventItemHandle with
      | some clientHandle =>
          .eventFieldList clientHandle
            (libraries.projectEventFields (adapter.fieldPathsOf libraries clientHandle)
              (some (overflowEvent libraries moment)))
      | none => .monitoredItem 0 (statusOnly libraries status)
  | .itemStatus clientHandle status => .monitoredItem clientHandle (statusOnly libraries status)

def readNext (adapter : SubscriptionAdapter)
    (result : Except ScadaStatusCode (List (Moment × ScadaItemNotification D P E))) :
    Except OpcuaStatusCode (List (OpcuaItemNotification D)) :=
  match result with
  | .error status => .error status.toOpcua
  | .ok notifications =>
      .ok (notifications.map fun (moment, notification) =>
        adapter.toItemNotification libraries moment notification)

/-! ## §3  The adapter -/

/-- The body of the loop of `AddItems`. -/
def remember (adapter : SubscriptionAdapter) (request : OpcuaMonitoredItemCreateRequest D) :
    SubscriptionAdapter where
  fieldPathsByHandle :=
    adapter.fieldPathsByHandle.insert request.clientHandle (request.fieldPaths libraries)
  eventItemHandle :=
    if adapter.eventItemHandle = none ∧ request.IsEvent then some request.clientHandle
    else adapter.eventItemHandle

/-- What `AddItems` writes before it asks the inner subscription. -/
def rememberAll (adapter : SubscriptionAdapter)
    (requests : List (OpcuaMonitoredItemCreateRequest D)) : SubscriptionAdapter :=
  requests.foldl (fun adapter request => adapter.remember libraries request) adapter

/-- The last request on a handle. -/
def lastOn (requests : List (OpcuaMonitoredItemCreateRequest D)) (clientHandle : UInt32) :
    Option (OpcuaMonitoredItemCreateRequest D) :=
  requests.reverse.find? fun request => request.clientHandle = clientHandle

variable {libraries}

theorem of_lastOn {requests : List (OpcuaMonitoredItemCreateRequest D)} {clientHandle : UInt32}
    {request : OpcuaMonitoredItemCreateRequest D} (h : lastOn requests clientHandle = some request) :
    request ∈ requests ∧ request.clientHandle = clientHandle :=
  ⟨List.mem_reverse.mp (List.mem_of_find?_eq_some h), by simpa using List.find?_some h⟩

theorem eventItemHandle_rememberAll (adapter : SubscriptionAdapter)
    (requests : List (OpcuaMonitoredItemCreateRequest D)) :
    (adapter.rememberAll libraries requests).eventItemHandle =
      adapter.eventItemHandle.or ((requests.find? (·.IsEvent)).map (·.clientHandle)) := by
  unfold rememberAll
  induction requests generalizing adapter with
  | nil => simp
  | cons request requests ih =>
      rw [List.foldl_cons, ih]
      cases hhandle : adapter.eventItemHandle with
      | some handle => simp [remember, hhandle]
      | none =>
          by_cases hevent : request.IsEvent
          · simp [remember, hhandle, hevent]
          · simp [remember, hhandle, hevent]

/-- **The last request on a handle is remembered**, whatever becomes of it. -/
theorem fieldPathsOf_rememberAll (adapter : SubscriptionAdapter)
    (requests : List (OpcuaMonitoredItemCreateRequest D)) (clientHandle : UInt32) :
    (adapter.rememberAll libraries requests).fieldPathsOf libraries clientHandle =
      ((lastOn requests clientHandle).map (·.fieldPaths libraries)).getD
        (adapter.fieldPathsOf libraries clientHandle) := by
  unfold rememberAll lastOn
  induction requests using List.reverseRecOn with
  | nil => rfl
  | append_singleton requests request ih =>
      rw [List.foldl_append, List.reverse_append, List.foldl_cons, List.foldl_nil]
      show fieldPathsOf libraries (remember libraries _ request) clientHandle =
        ((List.find? _ (request :: requests.reverse)).map _).getD _
      unfold fieldPathsOf remember at *
      by_cases hhandle : request.clientHandle = clientHandle
      · simp [hhandle]
      · rw [AList.lookup_insert_ne (Ne.symm hhandle), ih, List.find?_cons]
        simp [hhandle]

end SubscriptionAdapter

/-! ## §4  The items -/

/-- An item that the inner subscription accepted. -/
structure MonitoredItem (D : Type) where
  itemId : UInt32
  request : OpcuaMonitoredItemCreateRequest D

/-- The items of the inner subscription from the last one on, beside the adapter. -/
structure SubscriptionState (D : Type) where
  adapter : SubscriptionAdapter := ⟨∅, none⟩
  items : List (MonitoredItem D) := []

/-- The calls, with what the inner subscription answers to each: the id of an item or why
there is none, and whether it is removed. -/
inductive SubscriptionCall (D P E : Type) where
  | addItems (requests : List (OpcuaMonitoredItemCreateRequest D))
      (answers : List (Except ScadaStatusCode UInt32))
  | removeItems (itemIds : List UInt32) (answers : List (Except ScadaStatusCode Unit))
  | readNext (result : Except ScadaStatusCode (List (Moment × ScadaItemNotification D P E)))

namespace SubscriptionState

open SubscriptionAdapter

variable (libraries : Libraries D P E)

/-- The requests that became items. -/
def acceptedItems (requests : List (OpcuaMonitoredItemCreateRequest D))
    (answers : List (Except ScadaStatusCode UInt32)) : List (MonitoredItem D) :=
  (requests.zip answers).filterMap fun (request, answer) =>
    match answer with
    | .ok itemId => some ⟨itemId, request⟩
    | .error _ => none

/-- A request that the conversion throws at reaches no inner subscription. -/
def itemsAfterAdd (state : SubscriptionState D)
    (requests : List (OpcuaMonitoredItemCreateRequest D))
    (answers : List (Except ScadaStatusCode UInt32)) : List (MonitoredItem D) :=
  match requests.mapM (·.toScada libraries.doubles libraries.text) with
  | some _ => (acceptedItems requests answers).reverse ++ state.items
  | none => state.items

def itemsAfterRemove (state : SubscriptionState D) (itemIds : List UInt32)
    (answers : List (Except ScadaStatusCode Unit)) : List (MonitoredItem D) :=
  state.items.filter fun item => (item.itemId, Except.ok ()) ∉ itemIds.zip answers

/-- The call is over before the next one. -/
def call (state : SubscriptionState D) : SubscriptionCall D P E → SubscriptionState D
  | .addItems requests answers =>
      { adapter := state.adapter.rememberAll libraries requests
        items := state.itemsAfterAdd libraries requests answers }
  | .removeItems itemIds answers =>
      { state with items := state.itemsAfterRemove itemIds answers }
  | .readNext _ => state

/-- The item that owns a handle. -/
def owner (items : List (MonitoredItem D)) (clientHandle : UInt32) : Option (MonitoredItem D) :=
  items.find? fun item => item.request.clientHandle = clientHandle

/-- An event item has the handle. -/
def HasEventItem (items : List (MonitoredItem D)) (clientHandle : UInt32) : Prop :=
  ∃ item ∈ items, item.request.IsEvent ∧ item.request.clientHandle = clientHandle

/-- An overflow is shown on the handle of an event item, by the clauses of its owner, and
without a handle when there is no event item. An event is shown by the clauses of the
owner of its handle. -/
def NotificationAddressed (state : SubscriptionState D) (moment : Moment) :
    ScadaItemNotification D P E → OpcuaItemNotification D → Prop
  | .overflow _, .eventFieldList clientHandle eventFields =>
      HasEventItem state.items clientHandle ∧
        ∃ item, owner state.items clientHandle = some item ∧
          eventFields = libraries.projectEventFields (item.request.fieldPaths libraries)
            (some (overflowEvent libraries moment))
  | .overflow status, .monitoredItem clientHandle value =>
      (∀ item ∈ state.items, ¬item.request.IsEvent) ∧
        clientHandle = 0 ∧ value = statusOnly libraries status
  | .event clientHandle event, notification =>
      ∀ item, owner state.items clientHandle = some item →
        notification = .eventFieldList clientHandle
          (eventFields libraries (item.request.fieldPaths libraries) event)
  | _, _ => True

/-- **Notifications are addressed to live items.** -/
structure Addressed (state : SubscriptionState D) : Prop where
  clauses : ∀ clientHandle item, owner state.items clientHandle = some item →
    state.adapter.fieldPathsOf libraries clientHandle = item.request.fieldPaths libraries
  readNext : ∀ result notifications,
    state.adapter.readNext libraries result = .ok notifications →
      ∃ inner, result = .ok inner ∧
        List.Forall₂ (fun read notification =>
          state.NotificationAddressed libraries read.1 read.2 notification) inner notifications

variable {libraries}

theorem hasEventItem_append {items items' : List (MonitoredItem D)} {clientHandle : UInt32}
    (h : HasEventItem items clientHandle) : HasEventItem (items' ++ items) clientHandle := by
  obtain ⟨item, hitem, hevent⟩ := h
  exact ⟨item, List.mem_append_right _ hitem, hevent⟩

theorem of_owner {items : List (MonitoredItem D)} {clientHandle : UInt32} {item : MonitoredItem D}
    (h : owner items clientHandle = some item) :
    item ∈ items ∧ item.request.clientHandle = clientHandle :=
  ⟨List.mem_of_find?_eq_some h, by simpa using List.find?_some h⟩

/-- A handle of an item has an owner. -/
theorem exists_owner {items : List (MonitoredItem D)} {clientHandle : UInt32}
    (h : HasEventItem items clientHandle) : ∃ item, owner items clientHandle = some item := by
  obtain ⟨item, hitem, -, hhandle⟩ := h
  apply Option.isSome_iff_exists.mp
  unfold owner
  rw [List.find?_isSome]
  exact ⟨item, hitem, by simpa using hhandle⟩

theorem Addressed.toItemNotification {state : SubscriptionState D}
    (h : state.Addressed libraries) (moment : Moment) (notification : ScadaItemNotification D P E) :
    state.NotificationAddressed libraries moment notification
      (state.adapter.toItemNotification libraries moment notification) := by
  obtain ⟨inner, hinner, hforall⟩ := h.readNext (.ok [(moment, notification)]) _ rfl
  cases hinner
  exact (List.forall₂_cons.mp hforall).1

/-- What the adapter has to know. -/
theorem addressed_iff (state : SubscriptionState D) :
    state.Addressed libraries ↔
      (∀ clientHandle, state.adapter.eventItemHandle = some clientHandle →
        HasEventItem state.items clientHandle) ∧
      (state.adapter.eventItemHandle = none → ∀ item ∈ state.items, ¬item.request.IsEvent) ∧
      (∀ clientHandle item, owner state.items clientHandle = some item →
        state.adapter.fieldPathsOf libraries clientHandle =
          item.request.fieldPaths libraries) := by
  constructor
  · intro h
    have hoverflow := h.toItemNotification ⟨⟨0⟩, ⟨0⟩, 0⟩ (.overflow .good)
    refine ⟨?_, ?_, h.clauses⟩
    · intro clientHandle hhandle
      simp only [SubscriptionAdapter.toItemNotification, hhandle, NotificationAddressed] at hoverflow
      exact hoverflow.1
    · intro hhandle
      simp only [SubscriptionAdapter.toItemNotification, hhandle, NotificationAddressed] at hoverflow
      exact hoverflow.1
  · rintro ⟨hsome, hnone, hclauses⟩
    have hone : ∀ moment (notification : ScadaItemNotification D P E),
        state.NotificationAddressed libraries moment notification
          (state.adapter.toItemNotification libraries moment notification) := by
      intro moment notification
      cases notification with
      | dataChange clientHandle value => trivial
      | itemStatus clientHandle status => trivial
      | event clientHandle event =>
          intro item hitem
          show OpcuaItemNotification.eventFieldList _ _ = _
          rw [hclauses clientHandle item hitem]
      | overflow status =>
          cases hhandle : state.adapter.eventItemHandle with
          | none =>
              simp only [SubscriptionAdapter.toItemNotification, hhandle, NotificationAddressed]
              exact ⟨hnone hhandle, trivial, trivial⟩
          | some clientHandle =>
              simp only [SubscriptionAdapter.toItemNotification, hhandle, NotificationAddressed]
              have hevent := hsome clientHandle hhandle
              obtain ⟨item, hitem⟩ := exists_owner hevent
              refine ⟨hevent, item, hitem, ?_⟩
              rw [hclauses clientHandle item hitem]
    refine ⟨hclauses, ?_⟩
    intro result notifications hread
    cases result with
    | error status => cases hread
    | ok inner =>
        cases hread
        refine ⟨inner, rfl, ?_⟩
        rw [List.forall₂_map_right_iff, List.forall₂_same]
        intro read _
        exact hone read.1 read.2

/-! ## §5  Runs -/

variable (libraries) in
/-- The inner subscription has items that go with what the adapter is to write: the first
event request of all shares its handle with an accepted event request, and the item that
owns a handle has the clauses of the last request on it. -/
def AddOk (state : SubscriptionState D) (requests : List (OpcuaMonitoredItemCreateRequest D))
    (items : List (MonitoredItem D)) : Prop :=
  (state.adapter.eventItemHandle = none → ∀ request, requests.find? (·.IsEvent) = some request →
    HasEventItem items request.clientHandle) ∧
  ∀ clientHandle request item, lastOn requests clientHandle = some request →
    owner items clientHandle = some item →
      request.fieldPaths libraries = item.request.fieldPaths libraries

variable (libraries) in
/-- An event item keeps the handle of overflows, and a handle with a new owner keeps its
clauses. -/
def RemoveOk (state : SubscriptionState D) (items : List (MonitoredItem D)) : Prop :=
  (∀ clientHandle, state.adapter.eventItemHandle = some clientHandle →
    HasEventItem items clientHandle) ∧
  ∀ clientHandle item item', owner state.items clientHandle = some item →
    owner items clientHandle = some item' →
      item.request.fieldPaths libraries = item'.request.fieldPaths libraries

variable (libraries) in
def CallOk (state : SubscriptionState D) : SubscriptionCall D P E → Prop
  | .addItems requests answers =>
      state.AddOk libraries requests (state.itemsAfterAdd libraries requests answers)
  | .removeItems itemIds answers =>
      state.RemoveOk libraries (state.itemsAfterRemove itemIds answers)
  | .readNext _ => True

variable (libraries) in
def machine : Machine (SubscriptionState D) (SubscriptionCall D P E) where
  init := {}
  enabled _ _ := True
  step state c := some (state.call libraries c)

/-- A new item was asked for. -/
theorem mem_acceptedItems {requests : List (OpcuaMonitoredItemCreateRequest D)}
    {answers : List (Except ScadaStatusCode UInt32)} {item : MonitoredItem D}
    (h : item ∈ acceptedItems requests answers) : item.request ∈ requests := by
  unfold acceptedItems at h
  rw [List.mem_filterMap] at h
  obtain ⟨⟨request, answer⟩, hzip, haccepted⟩ := h
  cases answer with
  | error _ => cases haccepted
  | ok itemId =>
      cases haccepted
      exact (List.of_mem_zip hzip).1

theorem mem_itemsAfterAdd {state : SubscriptionState D}
    {requests : List (OpcuaMonitoredItemCreateRequest D)}
    {answers : List (Except ScadaStatusCode UInt32)} {item : MonitoredItem D}
    (h : item ∈ state.itemsAfterAdd libraries requests answers) :
    item.request ∈ requests ∨ item ∈ state.items := by
  unfold itemsAfterAdd at h
  split at h
  · rw [List.mem_append, List.mem_reverse] at h
    rcases h with hnew | hold
    · exact .inl (mem_acceptedItems hnew)
    · exact .inr hold
  · exact .inr h

/-- A handle that no request names keeps its owner. -/
theorem owner_itemsAfterAdd {state : SubscriptionState D}
    {requests : List (OpcuaMonitoredItemCreateRequest D)}
    {answers : List (Except ScadaStatusCode UInt32)} {clientHandle : UInt32}
    (h : lastOn requests clientHandle = none) :
    owner (state.itemsAfterAdd libraries requests answers) clientHandle =
      owner state.items clientHandle := by
  have hrequests : ∀ request ∈ requests, request.clientHandle ≠ clientHandle := by
    simpa [lastOn] using h
  unfold itemsAfterAdd
  split
  · have hnew : ∀ item ∈ (acceptedItems requests answers).reverse,
        item.request.clientHandle ≠ clientHandle := by
      intro item hitem
      apply hrequests
      exact mem_acceptedItems (List.mem_reverse.mp hitem)
    unfold owner
    rw [List.find?_append, List.find?_eq_none.mpr (by simpa using hnew), Option.none_or]
  · rfl

theorem hasEventItem_itemsAfterAdd {state : SubscriptionState D}
    (requests : List (OpcuaMonitoredItemCreateRequest D))
    (answers : List (Except ScadaStatusCode UInt32)) {clientHandle : UInt32}
    (h : HasEventItem state.items clientHandle) :
    HasEventItem (state.itemsAfterAdd libraries requests answers) clientHandle := by
  unfold itemsAfterAdd
  split
  · exact hasEventItem_append h
  · exact h

/-- **Items are added.** -/
theorem addressed_addItems_iff {state : SubscriptionState D} (h : state.Addressed libraries)
    (requests : List (OpcuaMonitoredItemCreateRequest D))
    (answers : List (Except ScadaStatusCode UInt32)) :
    (state.call libraries (.addItems requests answers)).Addressed libraries ↔
      state.AddOk libraries requests (state.itemsAfterAdd libraries requests answers) := by
  obtain ⟨hsome, hnone, hclauses⟩ := (addressed_iff state).mp h
  rw [addressed_iff]
  simp only [call, eventItemHandle_rememberAll, fieldPathsOf_rememberAll]
  constructor
  · rintro ⟨hsome', -, hclauses'⟩
    refine ⟨?_, ?_⟩
    · intro hhandle request hrequest
      apply hsome'
      rw [hhandle, hrequest]
      rfl
    · intro clientHandle request item hlast hitem
      have hpaths := hclauses' clientHandle item hitem
      rw [hlast] at hpaths
      exact hpaths
  · rintro ⟨hevent, hlast⟩
    refine ⟨?_, ?_, ?_⟩
    · intro clientHandle hhandle
      cases hbefore : state.adapter.eventItemHandle with
      | some before =>
          rw [hbefore, Option.some_or] at hhandle
          cases hhandle
          exact hasEventItem_itemsAfterAdd requests answers (hsome _ hbefore)
      | none =>
          rw [hbefore, Option.none_or, Option.map_eq_some_iff] at hhandle
          obtain ⟨request, hrequest, rfl⟩ := hhandle
          exact hevent hbefore request hrequest
    · intro hhandle item hitem
      rw [Option.or_eq_none_iff, Option.map_eq_none_iff] at hhandle
      rcases mem_itemsAfterAdd hitem with hrequested | hold
      · simpa using List.find?_eq_none.mp hhandle.2 _ hrequested
      · exact hnone hhandle.1 item hold
    · intro clientHandle item hitem
      cases hrequest : lastOn requests clientHandle with
      | some request => exact hlast clientHandle request item hrequest hitem
      | none =>
          rw [owner_itemsAfterAdd hrequest] at hitem
          exact hclauses clientHandle item hitem

/-- An item that is left has not changed hands. -/
theorem exists_owner_of_itemsAfterRemove {state : SubscriptionState D} {itemIds : List UInt32}
    {answers : List (Except ScadaStatusCode Unit)} {clientHandle : UInt32} {item : MonitoredItem D}
    (h : owner (state.itemsAfterRemove itemIds answers) clientHandle = some item) :
    ∃ before, owner state.items clientHandle = some before := by
  apply Option.isSome_iff_exists.mp
  unfold owner
  rw [List.find?_isSome]
  obtain ⟨hmem, hhandle⟩ := of_owner h
  exact ⟨item, List.mem_of_mem_filter hmem, by simpa using hhandle⟩

/-- **Items are removed.** -/
theorem addressed_removeItems_iff {state : SubscriptionState D} (h : state.Addressed libraries)
    (itemIds : List UInt32) (answers : List (Except ScadaStatusCode Unit)) :
    (state.call libraries (.removeItems itemIds answers)).Addressed libraries ↔
      state.RemoveOk libraries (state.itemsAfterRemove itemIds answers) := by
  obtain ⟨-, hnone, hclauses⟩ := (addressed_iff state).mp h
  rw [addressed_iff]
  simp only [call]
  constructor
  · rintro ⟨hsome', -, hclauses'⟩
    refine ⟨hsome', ?_⟩
    intro clientHandle item item' hitem hitem'
    rw [← hclauses clientHandle item hitem, hclauses' clientHandle item' hitem']
  · rintro ⟨hevent, howner⟩
    refine ⟨hevent, ?_, ?_⟩
    · intro hhandle item hitem
      exact hnone hhandle item (List.mem_of_mem_filter hitem)
    · intro clientHandle item' hitem'
      obtain ⟨item, hitem⟩ := exists_owner_of_itemsAfterRemove hitem'
      rw [hclauses clientHandle item hitem]
      exact howner clientHandle item item' hitem hitem'

/-- **A call keeps notifications addressed** when it is to. -/
theorem addressed_call_iff {state : SubscriptionState D} (h : state.Addressed libraries)
    (c : SubscriptionCall D P E) :
    (state.call libraries c).Addressed libraries ↔ state.CallOk libraries c := by
  cases c with
  | addItems requests answers => exact addressed_addItems_iff h requests answers
  | removeItems itemIds answers => exact addressed_removeItems_iff h itemIds answers
  | readNext result => exact iff_of_true h trivial

theorem addressed_init : (machine libraries).init.Addressed libraries := by
  rw [addressed_iff]
  exact ⟨fun _ h => (nomatch h), fun _ _ h => (nomatch h), fun _ _ h => (nomatch h)⟩

/-- **Notifications are addressed to live items** in the runs whose calls are all in order,
and no longer after a call that is not. -/
theorem notifications_are_addressed (libraries : Libraries D P E) :
    (∀ state, (machine libraries).Reaches (CallOk libraries) state → state.Addressed libraries) ∧
    ∀ state c, (machine libraries).Reaches (CallOk libraries) state →
      (state.call libraries c).Addressed libraries → state.CallOk libraries c := by
  have hrun : ∀ state, (machine libraries).Reaches (CallOk libraries) state →
      state.Addressed libraries := by
    intro state hreach
    refine hreach.invariant addressed_init ?_
    intro before c after hbefore _ hok hstep
    cases hstep
    exact (addressed_call_iff hbefore c).mpr hok
  refine ⟨hrun, ?_⟩
  intro state c hreach hafter
  exact (addressed_call_iff (hrun state hreach) c).mp hafter

/-- Libraries that know no select clauses but those of a message. -/
def messageLibraries : Libraries ℚ Empty Empty where
  codec := opcuaBinary
  doubles := rationals
  text := numericText
  normalizeEventFieldPaths fieldPaths :=
    if fieldPaths = [] then [[[77, 101, 115, 115, 97, 103, 101]]] else fieldPaths
  parseEventFilterFieldPaths _ := []
  projectEventFields fieldPaths event :=
    fieldPaths.map fun _ => (event.map fun e => .localizedText (.scalar e.message)).getD .empty
  disassembleEvent := nofun
  emptyValue := ⟨.empty, ⟨0⟩, ⟨0⟩, ⟨0⟩, .good⟩
  emptyEvent := ⟨.numericId 0 0, 0, ⟨0⟩, ⟨0⟩, 0, 0, .numericId 0 0, [], .numericId 0 0, .empty,
    ⟨0⟩, ⟨[], []⟩, false, ⟨0⟩, .numericId 0 0⟩
  kSeverityCritical := 1000

/-- Events of the server on the handle 7. -/
def serverEvents : OpcuaMonitoredItemCreateRequest ℚ where
  itemToMonitor := ⟨.numericId 2253 0, eventNotifier⟩
  monitoringMode := .reporting
  requestedParameters :=
    { clientHandle := 7, samplingIntervalMs := 0, filter := none, queueSize := 1 }

/-- Events of the server on the handle 8, with select clauses of their own. -/
def filteredEvents : OpcuaMonitoredItemCreateRequest ℚ where
  itemToMonitor := ⟨.numericId 2253 0, eventNotifier⟩
  monitoringMode := .reporting
  requestedParameters :=
    { clientHandle := 8, samplingIntervalMs := 0, filter := some (.json .null), queueSize := 1 }

/-- The value of a node that there is not, on the handle 9. -/
def missingValue : OpcuaMonitoredItemCreateRequest ℚ where
  itemToMonitor := ⟨.numericId 1 5, 13⟩
  monitoringMode := .reporting
  requestedParameters :=
    { clientHandle := 9, samplingIntervalMs := 0, filter := none, queueSize := 1 }

/-- One of three requests is rejected. -/
def addServerItems : SubscriptionCall ℚ Empty Empty :=
  .addItems [serverEvents, missingValue, filteredEvents] [.ok 1, .error .badWrongNodeId, .ok 2]

/-- One of two ids is that of an item. -/
def removeFilteredEvents : SubscriptionCall ℚ Empty Empty :=
  .removeItems [2, 3] [.ok (), .error .badMonitoredItemIdInvalid]

def serverItems : List (MonitoredItem ℚ) := [⟨2, filteredEvents⟩, ⟨1, serverEvents⟩]

theorem callOk_addServerItems :
    CallOk messageLibraries (machine messageLibraries).init addServerItems := by
  show AddOk messageLibraries _ _ serverItems
  refine ⟨?_, ?_⟩
  · intro _ request hrequest
    cases hrequest
    exact ⟨⟨1, serverEvents⟩, by simp [serverItems], rfl, rfl⟩
  · intro clientHandle request item hlast hitem
    obtain ⟨hrequest, rfl⟩ := of_lastOn hlast
    obtain ⟨hmem, hhandle⟩ := of_owner hitem
    simp only [serverItems, List.mem_cons, List.not_mem_nil, or_false] at hrequest hmem
    -- The requests have handles of their own, so an owner of the same handle is the request.
    rcases hrequest with rfl | rfl | rfl <;> rcases hmem with rfl | rfl <;>
      first | rfl | exact absurd hhandle (by decide)

theorem callOk_removeFilteredEvents : CallOk messageLibraries
    ((machine messageLibraries).init.call messageLibraries addServerItems)
    removeFilteredEvents := by
  show RemoveOk messageLibraries ⟨_, serverItems⟩ [⟨1, serverEvents⟩]
  refine ⟨?_, ?_⟩
  · rintro clientHandle ⟨⟩
    exact ⟨⟨1, serverEvents⟩, List.mem_singleton.mpr rfl, rfl, rfl⟩
  · intro clientHandle item item' hitem hitem'
    obtain ⟨hmem, hhandle⟩ := of_owner hitem
    obtain ⟨hmem', rfl⟩ := of_owner hitem'
    simp only [serverItems, List.mem_cons, List.not_mem_nil, or_false] at hmem hmem'
    rcases hmem with rfl | rfl
    · rw [hmem'] at hhandle
      exact absurd hhandle (by decide)
    · rw [hmem']

/-- Three requests of which one is rejected, the removal of an item, and a read of an
overflow and an event. -/
theorem notifications_are_addressed_added :
    ∃ state, (machine messageLibraries).Reaches (CallOk messageLibraries) state ∧
      state.items = [⟨1, serverEvents⟩] ∧ state.Addressed messageLibraries ∧
      ∀ moment : Moment, ∃ overflow event,
        state.adapter.readNext messageLibraries
            (.ok [(moment, .overflow .good), (moment, .event 7 .empty)]) =
          .ok [.eventFieldList 7 overflow, .eventFieldList 7 event] := by
  have hadded : (machine messageLibraries).Reaches (CallOk messageLibraries) _ :=
    .tail .refl trivial callOk_addServerItems rfl
  have hremoved := hadded.tail trivial callOk_removeFilteredEvents rfl
  have hread := hremoved.tail trivial
    (show CallOk messageLibraries _ (.readNext (.ok [])) from trivial) rfl
  exact ⟨_, hread, rfl, (notifications_are_addressed messageLibraries).1 _ hread,
    fun moment => ⟨_, _, rfl⟩⟩

/-- **An overflow is sent to a removed item**: the handle of an event item that is added
and removed again is kept. -/
theorem overflow_on_removed_item :
    ∃ state, (machine messageLibraries).Reachable state ∧ state.items = [] ∧
      (∀ moment status, ∃ eventFields,
        state.adapter.toItemNotification messageLibraries moment (.overflow status) =
          .eventFieldList 7 eventFields) ∧
      ¬state.Addressed messageLibraries := by
  refine ⟨((machine messageLibraries).init.call messageLibraries
      (.addItems [serverEvents] [.ok 1])).call messageLibraries (.removeItems [1] [.ok ()]),
    ?_, by decide, fun moment status => ⟨_, rfl⟩, ?_⟩
  · exact (Machine.ReachesFrom.refl.tail trivial trivial rfl).tail trivial trivial rfl
  · intro h
    obtain ⟨⟨item, hitem, -⟩, -⟩ := h.toItemNotification ⟨⟨0⟩, ⟨0⟩, 0⟩ (.overflow .good)
    cases hitem

end SubscriptionState

end ScadaCommon.OpcuaBridge
