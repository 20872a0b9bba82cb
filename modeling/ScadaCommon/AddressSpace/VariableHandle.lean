import ScadaCommon.Foundation.AssocMap
import ScadaCommon.Foundation.Machine
import ScadaCommon.Scada.Basic

/-!
# Variables, their handles and monitored items

A variable has one handle while somebody uses it, which the variable passes the values on
to that it is given and which tells the monitored items. The handlers of these do not call
back, and are no empty functions.

§1 handles · §2 variables and their monitored items · §3 what a handle tells ·
§4 replays · §5 nothing is lost.
-/

namespace ScadaCommon

open Foundation

/-! ## §1  Handles -/

/-- A sample with its status. -/
structure StatusDataValue (V S : Type) extends DataValue V where
  statusCode : S
deriving DecidableEq

/-- What is used of `DataValue`, `Variant`, `Qualifier` and `StatusCode`. -/
structure DataValueCore (V S : Type) where
  /-- `Variant{}`. -/
  empty : V
  /-- `StatusCode::Good`. -/
  good : S
  /-- `DataValue::is_null`. -/
  isNull : StatusDataValue V S → Bool
  /-- Whether a value comes after the current one. -/
  isUpdate : StatusDataValue V S → StatusDataValue V S → Bool
  /-- `Qualifier::Update`. -/
  updated : ℕ → ℕ → ℕ → ℕ

structure VariableHandle (V S : Type) where
  lastValue : StatusDataValue V S
  lastChangeTime : DateTime
deriving DecidableEq

variable {V S : Type}

namespace VariableHandle

variable [DecidableEq V] [DecidableEq S] (core : DataValueCore V S)

/-- Up to the signal; the flag tells whether it is emitted. -/
def forwardData (handle : VariableHandle V S) (value : StatusDataValue V S) :
    VariableHandle V S × Bool :=
  if value = handle.lastValue then (handle, false)
  else if core.isUpdate handle.lastValue value then
    let isChange := handle.lastValue.value ≠ value.value ||
      handle.lastValue.qualifier ≠ value.qualifier
    ({ lastValue := value
       lastChangeTime := if isChange then value.sourceTimestamp else handle.lastChangeTime },
      true)
  else (handle, true)

/-- The value that `UpdateQualifier` forwards, if any. -/
def requalified (handle : VariableHandle V S) (remove add : ℕ) (now : DateTime) :
    Option (StatusDataValue V S) :=
  if core.isNull handle.lastValue then
    some {
      value := core.empty, qualifier := add, sourceTimestamp := .null, serverTimestamp := now
      statusCode := core.good }
  else
    let qualifier := core.updated handle.lastValue.qualifier remove add
    if handle.lastValue.qualifier = qualifier then none
    else some { handle.lastValue with qualifier, serverTimestamp := now }

end VariableHandle

/-! ## §2  Variables and their monitored items -/

abbrev MonitoredItemId := ℕ

/-- `VariableMonitoredItem`. -/
structure VariableMonitoredItem (V S : Type) where
  /-- The handle as it was when the item was subscribed. -/
  subscribed : Option (VariableHandle V S) := none
  /-- How many values the variable had accepted then. -/
  since : ℕ := 0
  /-- What its handler was called with. -/
  received : List (StatusDataValue V S) := []
deriving DecidableEq

/-- A `BaseVariable`, its handle and the items that monitor it. -/
structure VariableWorld (V S : Type) where
  value : StatusDataValue V S
  changeTime : DateTime := .null
  /-- There is one as long as it has owners. -/
  handle : Option (VariableHandle V S) := none
  /-- The owners of the handle that are no items. -/
  owners : ℕ := 0
  items : AssocMap MonitoredItemId (VariableMonitoredItem V S) := ∅
  /-- The values that `SetValue` was called with and that were not the current one. -/
  accepted : List (StatusDataValue V S) := []

inductive VariableAction (V S : Type) where
  | setValue (value : StatusDataValue V S)
  /-- The caller keeps the pointer. -/
  | getVariableHandle
  /-- An owner lets its pointer go. -/
  | release
  /-- `CreateMonitoredVariable`, called by an owner. -/
  | createMonitoredVariable (item : MonitoredItemId)
  | subscribe (item : MonitoredItemId) (handler : MonitoredItemHandler)
  /-- An item is destroyed. -/
  | destroy (item : MonitoredItemId)
  /-- An owner calls `UpdateQualifier`. -/
  | updateQualifier (remove add : ℕ) (now : DateTime)

/-- `std::get<DataChangeHandler>`, which throws if the handler is of the other kind. -/
def MonitoredItemHandler.getDataChange : MonitoredItemHandler → Option Unit
  | .dataChange => some ()
  | .event => none

namespace VariableMonitoredItem

/-- The signal calls the handler, if it is connected. -/
def told (item : VariableMonitoredItem V S) (value : StatusDataValue V S) :
    VariableMonitoredItem V S :=
  if item.subscribed.isSome then { item with received := item.received ++ [value] } else item

/-- The handler is called with the last value, if that has been received from somewhere. -/
def subscribe (handle : VariableHandle V S) (since : ℕ) : VariableMonitoredItem V S where
  subscribed := some handle
  since := since
  received := if handle.lastValue.serverTimestamp ≠ .null then [handle.lastValue] else []

theorem told_of_some {item : VariableMonitoredItem V S} {handle : VariableHandle V S}
    (h : item.subscribed = some handle) (value : StatusDataValue V S) :
    item.told value = { item with received := item.received ++ [value] } := by
  unfold told
  rw [if_pos]
  simp [h]

@[simp] theorem told_subscribed (item : VariableMonitoredItem V S) (value : StatusDataValue V S) :
    (item.told value).subscribed = item.subscribed := by
  unfold told
  split <;> rfl

end VariableMonitoredItem

namespace VariableWorld

variable [DecidableEq V] [DecidableEq S] (core : DataValueCore V S)

/-- `ForwardData` of a handle, with its signal. -/
def forwardData (w : VariableWorld V S) (handle : VariableHandle V S)
    (value : StatusDataValue V S) : VariableWorld V S :=
  let forwarded := handle.forwardData core value
  { w with
    handle := some forwarded.1
    items :=
      if forwarded.2 then AssocMap.filterMap (fun _ item => some (item.told value)) w.items
      else w.items }

/-- `BaseVariable::SetValue`. -/
def setValue (w : VariableWorld V S) (value : StatusDataValue V S) : VariableWorld V S :=
  if w.value = value then w
  else
    let w := { w with
      value := if core.isUpdate w.value value then value else w.value
      accepted := w.accepted ++ [value] }
    match w.handle with
    | some handle => w.forwardData core handle value
    | none => w

/-- The handle goes with its last owner. -/
def released (w : VariableWorld V S) : VariableWorld V S :=
  if w.owners = 0 ∧ w.items.entries = [] then { w with handle := none } else w

def enabled (w : VariableWorld V S) : VariableAction V S → Prop
  | .setValue _ => True
  | .getVariableHandle => True
  | .release => 0 < w.owners
  | .createMonitoredVariable item => 0 < w.owners ∧ item ∉ w.items
  | .subscribe item _ => item ∈ w.items
  | .destroy item => item ∈ w.items
  | .updateQualifier _ _ _ => 0 < w.owners

instance (w : VariableWorld V S) (a : VariableAction V S) : Decidable (w.enabled a) := by
  apply VariableAction.casesOn (motive := fun a => Decidable (w.enabled a)) a <;>
    intros <;> unfold enabled <;> infer_instance

def step (w : VariableWorld V S) : VariableAction V S → Option (VariableWorld V S)
  | .setValue value => some (w.setValue core value)
  | .getVariableHandle =>
      some { w with handle := some (w.handle.getD ⟨w.value, w.changeTime⟩), owners := w.owners + 1 }
  | .release => some { w with owners := w.owners - 1 }.released
  | .createMonitoredVariable item => some { w with items := w.items.insert item {} }
  | .subscribe item handler => do
      let handle ← w.handle
      let monitored ← w.items.lookup item
      check (monitored.subscribed = none)
      handler.getDataChange
      return { w with items := w.items.insert item (.subscribe handle w.accepted.length) }
  | .destroy item => some { w with items := w.items.erase item }.released
  | .updateQualifier remove add now => do
      let handle ← w.handle
      return match handle.requalified core remove add now with
        | some value => w.forwardData core handle value
        | none => w

end VariableWorld

variable [DecidableEq V] [DecidableEq S]

/-- A variable that has been given its first value. -/
def variableMachine (core : DataValueCore V S) (value : StatusDataValue V S) :
    Machine (VariableWorld V S) (VariableAction V S) where
  init := { value }
  enabled := VariableWorld.enabled
  step := VariableWorld.step core

instance (core : DataValueCore V S) (value : StatusDataValue V S) (w : VariableWorld V S)
    (a : VariableAction V S) : Decidable ((variableMachine core value).enabled w a) :=
  inferInstanceAs (Decidable (w.enabled a))

/-! ## §3  What a handle tells -/

variable {core : DataValueCore V S}

namespace VariableHandle

variable {handle : VariableHandle V S} {value : StatusDataValue V S}

/-- A handle that is forwarded what it has tells nobody. -/
theorem forwardData_self (handle : VariableHandle V S) :
    handle.forwardData core handle.lastValue = (handle, false) :=
  if_pos rfl

/-- It is told of only if nothing changes. -/
theorem forwardData_fst_of_silent (h : (handle.forwardData core value).2 = false) :
    (handle.forwardData core value).1 = handle := by
  unfold forwardData at h ⊢
  split
  · rfl
  · rename_i hne
    rw [if_neg hne] at h
    split at h <;> cases h

theorem forwardData_of_ne (h : value ≠ handle.lastValue) :
    (handle.forwardData core value).2 = true ∧
      (handle.forwardData core value).1.lastValue =
        if core.isUpdate handle.lastValue value then value else handle.lastValue := by
  unfold forwardData
  rw [if_neg h]
  split
  · exact ⟨rfl, rfl⟩
  · exact ⟨rfl, rfl⟩

end VariableHandle

namespace VariableWorld

variable {w w' : VariableWorld V S} {handle : VariableHandle V S} {value : StatusDataValue V S}
  {i : MonitoredItemId}

theorem forwardData_handle (w : VariableWorld V S) (handle : VariableHandle V S)
    (value : StatusDataValue V S) :
    (w.forwardData core handle value).handle = some (handle.forwardData core value).1 := rfl

/-- The items after a value has been forwarded. -/
theorem lookup_forwardData (w : VariableWorld V S) (handle : VariableHandle V S)
    (value : StatusDataValue V S) (i : MonitoredItemId) :
    (w.forwardData core handle value).items.lookup i =
      (w.items.lookup i).map fun item =>
        if (handle.forwardData core value).2 then item.told value else item := by
  unfold forwardData
  dsimp only
  split
  · rw [AssocMap.lookup_filterMap]
    cases w.items.lookup i <;> rfl
  · cases w.items.lookup i <;> rfl

/-! ## §4  Replays -/

/-- A handle that an item would make from what it was told. -/
def replay (core : DataValueCore V S) (handle : VariableHandle V S)
    (received : List (StatusDataValue V S)) : VariableHandle V S :=
  received.foldl (fun handle value => (handle.forwardData core value).1) handle

theorem replay_snoc (handle : VariableHandle V S) (received : List (StatusDataValue V S))
    (value : StatusDataValue V S) : replay core handle (received ++ [value]) =
      ((replay core handle received).forwardData core value).1 := by
  unfold replay
  rw [List.foldl_append]
  rfl

theorem replay_subscribe (core : DataValueCore V S) (handle : VariableHandle V S) (since : ℕ) :
    replay core handle (VariableMonitoredItem.subscribe handle since).received = handle := by
  unfold VariableMonitoredItem.subscribe
  dsimp only
  split
  · show (handle.forwardData core handle.lastValue).1 = handle
    rw [VariableHandle.forwardData_self]
  · rfl

/-- The handle is there while it is used, and every item that is subscribed has been told
what makes the handle what it is. -/
structure Inv (core : DataValueCore V S) (w : VariableWorld V S) : Prop where
  owned : 0 < w.owners → w.handle.isSome = true
  monitored : ∀ i item, w.items.lookup i = some item → w.handle.isSome = true
  replays : ∀ i item start, w.items.lookup i = some item → item.subscribed = some start →
    w.handle = some (replay core start item.received) ∧
      (start.lastValue.serverTimestamp ≠ .null → item.received.head? = some start.lastValue)

namespace Inv

theorem init (value : StatusDataValue V S) : Inv core { value } where
  owned h := absurd h (Nat.lt_irrefl 0)
  monitored i item h := by cases h
  replays i item start h := by cases h

/-- Nothing of it is about the value. -/
theorem accept (h : Inv core w) (value : StatusDataValue V S)
    (accepted : List (StatusDataValue V S)) : Inv core { w with value, accepted } :=
  ⟨h.owned, h.monitored, h.replays⟩

/-- **A value is forwarded.** -/
theorem forwardData (h : Inv core w) (hhandle : w.handle = some handle)
    (value : StatusDataValue V S) : Inv core (w.forwardData core handle value) := by
  refine ⟨fun _ => rfl, fun _ _ _ => rfl, ?_⟩
  intro i item start hitem hstart
  rw [lookup_forwardData] at hitem
  obtain ⟨old, hold, rfl⟩ := Option.map_eq_some_iff.mp hitem
  rw [forwardData_handle]
  cases hsignal : (handle.forwardData core value).2 with
  | true =>
      rw [hsignal, if_pos rfl] at hstart
      rw [VariableMonitoredItem.told_subscribed] at hstart
      obtain ⟨hreplay, hhead⟩ := h.replays i old start hold hstart
      rw [if_pos rfl, VariableMonitoredItem.told_of_some hstart]
      have hsame : replay core start old.received = handle :=
        Option.some.inj (hreplay.symm.trans hhandle)
      refine ⟨?_, fun hstamped => ?_⟩
      · show _ = some (replay core start (old.received ++ [value]))
        rw [replay_snoc, hsame]
      · show (old.received ++ [value]).head? = _
        rw [List.head?_append, hhead hstamped]
        rfl
  | false =>
      rw [hsignal, if_neg Bool.false_ne_true] at hstart
      rw [if_neg Bool.false_ne_true, VariableHandle.forwardData_fst_of_silent hsignal, ← hhandle]
      exact h.replays i old start hold hstart

theorem setValue (h : Inv core w) (value : StatusDataValue V S) :
    Inv core (w.setValue core value) := by
  unfold VariableWorld.setValue
  split
  · exact h
  · dsimp only
    split
    · rename_i handle hhandle
      have haccepted := h.accept (if core.isUpdate w.value value then value else w.value)
        (w.accepted ++ [value])
      exact haccepted.forwardData hhandle value
    · exact h.accept _ _

/-- An owner goes, or an item. -/
theorem released (h : Inv core w) : Inv core w.released := by
  unfold VariableWorld.released
  split
  · rename_i hunused
    have hnone : ∀ i, w.items.lookup i = none := by
      intro i
      rw [AList.lookup_eq_none, AList.mem_keys]
      show i ∉ w.items.entries.map _
      rw [hunused.2]
      exact List.not_mem_nil
    refine ⟨fun howned => ?_, fun i item hitem => ?_, fun i item start hitem => ?_⟩
    · exact absurd hunused.1 howned.ne'
    · exact absurd (hitem.symm.trans (hnone i)) (Option.some_ne_none item)
    · exact absurd (hitem.symm.trans (hnone i)) (Option.some_ne_none item)
  · exact h

theorem step {a : VariableAction V S} (h : Inv core w) (hen : w.enabled a)
    (hs : w.step core a = some w') : Inv core w' := by
  cases a with
  | setValue value =>
      cases hs
      exact h.setValue value
  | getVariableHandle =>
      cases hs
      refine ⟨fun _ => rfl, fun _ _ _ => rfl, ?_⟩
      intro i item start hitem hstart
      obtain ⟨handle, hhandle⟩ := Option.isSome_iff_exists.mp (h.monitored i item hitem)
      show some (w.handle.getD _) = _ ∧ _
      rw [hhandle, Option.getD_some, ← hhandle]
      exact h.replays i item start hitem hstart
  | release =>
      cases hs
      refine released ⟨fun howned => h.owned ?_, h.monitored, h.replays⟩
      exact lt_of_lt_of_le howned (Nat.sub_le w.owners 1)
  | createMonitoredVariable i =>
      cases hs
      refine ⟨h.owned, fun _ _ _ => h.owned hen.1, ?_⟩
      intro j item start hitem hstart
      rcases AssocMap.lookup_insert_cases hitem with ⟨-, rfl⟩ | ⟨-, hitem⟩
      · cases hstart
      · exact h.replays j item start hitem hstart
  | subscribe i handler =>
      obtain ⟨handle, hhandle, hs⟩ := Option.bind_eq_some_iff.mp hs
      obtain ⟨monitored, -, hs⟩ := Option.bind_eq_some_iff.mp hs
      obtain ⟨-, hs⟩ := check_bind_eq_some.mp hs
      obtain ⟨-, -, hs⟩ := Option.bind_eq_some_iff.mp hs
      cases hs
      have hsome : w.handle.isSome = true := Option.isSome_iff_exists.mpr ⟨handle, hhandle⟩
      refine ⟨h.owned, fun _ _ _ => hsome, ?_⟩
      intro j item start hitem hstart
      rcases AssocMap.lookup_insert_cases hitem with ⟨-, rfl⟩ | ⟨-, hitem⟩
      · obtain rfl : handle = start := Option.some.inj hstart
        rw [replay_subscribe]
        refine ⟨hhandle, fun hstamped => ?_⟩
        unfold VariableMonitoredItem.subscribe
        rw [if_pos hstamped]
        rfl
      · exact h.replays j item start hitem hstart
  | destroy i =>
      cases hs
      refine released ⟨h.owned, ?_, ?_⟩
      · exact fun j item hitem => h.monitored j item (AssocMap.lookup_of_erase hitem)
      · exact fun j item start hitem => h.replays j item start (AssocMap.lookup_of_erase hitem)
  | updateQualifier remove add now =>
      obtain ⟨handle, hhandle, hs⟩ := Option.bind_eq_some_iff.mp hs
      obtain rfl := Option.some.inj hs
      split
      · exact h.forwardData hhandle _
      · exact h

end Inv

theorem inv_of_reaches {ok : VariableWorld V S → VariableAction V S → Prop}
    {first : StatusDataValue V S} (h : (variableMachine core first).Reaches ok w) : Inv core w :=
  h.invariant (Inv.init first) fun _ _ _ ht hen _ hs => ht.step hen hs

/-- What makes a call fail: the item is subscribed already, or the handler is for events. -/
def Refused (w : VariableWorld V S) : VariableAction V S → Prop
  | .subscribe i handler =>
      handler = .event ∨ ∃ item, w.items.lookup i = some item ∧ item.subscribed ≠ none
  | _ => False

/-- **Which calls fail.** -/
theorem Inv.step_eq_none_iff {a : VariableAction V S} (h : Inv core w) (hen : w.enabled a) :
    w.step core a = none ↔ w.Refused a := by
  have hsucceeds : ∀ b : VariableAction V S, (w.step core b).isSome = true → ¬ w.Refused b →
      (w.step core b = none ↔ w.Refused b) :=
    fun b hb hnot => iff_of_false (Option.isSome_iff_ne_none.mp hb) hnot
  cases a with
  | setValue value => exact hsucceeds _ rfl id
  | getVariableHandle => exact hsucceeds _ rfl id
  | release => exact hsucceeds _ rfl id
  | createMonitoredVariable i => exact hsucceeds _ rfl id
  | destroy i => exact hsucceeds _ rfl id
  | updateQualifier remove add now =>
      obtain ⟨handle, hhandle⟩ := Option.isSome_iff_exists.mp (h.owned hen)
      refine hsucceeds _ ?_ id
      show (w.handle.bind _).isSome = true
      rw [hhandle]
      rfl
  | subscribe i handler =>
      obtain ⟨item, hitem⟩ := Option.isSome_iff_exists.mp (AList.lookup_isSome.mpr hen)
      obtain ⟨handle, hhandle⟩ := Option.isSome_iff_exists.mp (h.monitored i item hitem)
      have hstep : w.step core (.subscribe i handler) =
          (check (item.subscribed = none)).bind fun _ => handler.getDataChange.bind fun _ =>
            some { w with items := w.items.insert i (.subscribe handle w.accepted.length) } := by
        show w.handle.bind _ = _
        rw [hhandle, Option.bind_some]
        show (w.items.lookup i).bind _ = _
        rw [hitem]
        rfl
      have hrefused : w.Refused (.subscribe i handler) ↔
          handler = .event ∨ item.subscribed ≠ none := by
        unfold Refused
        simp [hitem]
      rw [hstep, hrefused]
      by_cases hfresh : item.subscribed = none
      · rw [check_of hfresh]
        cases handler <;> simp [MonitoredItemHandler.getDataChange, hfresh]
      · simp [check, hfresh]

/-- **A monitored item can replay the handle**: in every run, an item that is subscribed has
been told exactly what makes the handle of its subscription the handle of now, with its last
value and the time of its last change, beginning with the last value if that had come from
somewhere. No call fails but the second `Subscribe` of an item and one with a handler for
events. -/
theorem replays_of_reachable {first : StatusDataValue V S}
    (h : (variableMachine core first).Reachable w) :
    (∀ i item start, w.items.lookup i = some item → item.subscribed = some start →
      w.handle = some (replay core start item.received) ∧
        (start.lastValue.serverTimestamp ≠ .null →
          item.received.head? = some start.lastValue)) ∧
    ∀ a, w.enabled a → (w.step core a = none ↔ w.Refused a) :=
  ⟨(inv_of_reaches h).replays, fun _ hen => (inv_of_reaches h).step_eq_none_iff hen⟩

/-- A value with a later time is an update. -/
def laterIsUpdate : DataValueCore ℕ Bool where
  empty := 0
  good := true
  isNull value := value.serverTimestamp = .null
  isUpdate current value := current.sourceTimestamp ≤ value.sourceTimestamp
  updated qualifier remove add := (qualifier - remove) + add

/-- A sample that has just come. -/
def sampleAt (value : ℕ) (time : DateTime) : StatusDataValue ℕ Bool where
  value := value
  qualifier := 0
  sourceTimestamp := time
  serverTimestamp := time
  statusCode := true

/-- An item is subscribed to a value; then come a later one and one from between. Another item
does not take a handler for events. -/
theorem replays_of_reachable_later :
    ∃ w, (variableMachine laterIsUpdate (sampleAt 1 10)).Reachable w ∧
      w.handle = some ⟨sampleAt 2 30, 30⟩ ∧
      (∃ item start, w.items.lookup 7 = some item ∧ item.received.length = 3 ∧
        replay laterIsUpdate start item.received = ⟨sampleAt 2 30, 30⟩) ∧
      w.step laterIsUpdate (.subscribe 8 .event) = none ∧
      w.step laterIsUpdate (.subscribe 8 .dataChange) ≠ none := by
  obtain ⟨w, hw, hp⟩ := Machine.exists_reachable_of_exec
    (M := variableMachine laterIsUpdate (sampleAt 1 10))
    (p := fun w => decide (w.handle = some ⟨sampleAt 2 30, 30⟩ ∧
      (w.items.lookup 7).map (·.received.length) = some 3 ∧
      ((w.items.lookup 7).bind (·.subscribed)).isSome = true ∧ w.items.lookup 8 = some {}))
    [.getVariableHandle, .createMonitoredVariable 7, .createMonitoredVariable 8, .release,
      .subscribe 7 .dataChange, .setValue (sampleAt 2 30), .setValue (sampleAt 3 20)] (by decide)
  obtain ⟨hhandle, hlength, hsubscribed, hother⟩ := of_decide_eq_true hp
  obtain ⟨start, hstart⟩ := Option.isSome_iff_exists.mp hsubscribed
  obtain ⟨item, hitem, hstart⟩ := Option.bind_eq_some_iff.mp hstart
  rw [hitem] at hlength
  obtain ⟨hreplays, hfails⟩ := replays_of_reachable hw
  have hmem : 8 ∈ w.items := AList.lookup_isSome.mp (by rw [hother]; rfl)
  refine ⟨w, hw, hhandle, ⟨item, start, hitem, Option.some.inj hlength, ?_⟩, ?_, ?_⟩
  · have hreplay := (hreplays 7 item start hitem hstart).1
    exact Option.some.inj (hreplay.symm.trans hhandle)
  · exact (hfails (.subscribe 8 .event) hmem).mpr (Or.inl rfl)
  · refine mt (hfails (.subscribe 8 .dataChange) hmem).mp ?_
    simp [Refused, hother]

/-! ## §5  Nothing is lost -/

/-- Nobody changes the handle but the variable. -/
def FromVariable : VariableWorld V S → VariableAction V S → Prop
  | _, .updateQualifier _ _ _ => False
  | _, _ => True

instance (w : VariableWorld V S) (a : VariableAction V S) : Decidable (FromVariable w a) := by
  apply VariableAction.casesOn (motive := fun a => Decidable (FromVariable w a)) a <;>
    intros <;> unfold FromVariable <;> infer_instance

/-- What an item has been told of the accepted values. -/
structure Told (accepted : List (StatusDataValue V S)) (item : VariableMonitoredItem V S)
    (start : VariableHandle V S) : Prop where
  since : item.since ≤ accepted.length
  received : item.received =
    (VariableMonitoredItem.subscribe start item.since).received ++ accepted.drop item.since

/-- The handle has the value of the variable, and the items were told of all values. -/
structure Follows (w : VariableWorld V S) : Prop where
  value : ∀ handle, w.handle = some handle → handle.lastValue = w.value
  told : ∀ i item start, w.items.lookup i = some item → item.subscribed = some start →
    Told w.accepted item start

namespace Follows

omit [DecidableEq V] [DecidableEq S] in
theorem init (value : StatusDataValue V S) : Follows { value } where
  value handle h := by cases h
  told i item start h := by cases h

/-- **A value that is not the current one** gets to the handle, and through it to every
item. -/
theorem setValue (h : w.Follows) (hinv : Inv core w) (value : StatusDataValue V S) :
    (w.setValue core value).Follows := by
  unfold VariableWorld.setValue
  split
  · exact h
  · rename_i hne
    dsimp only
    split
    · rename_i handle hhandle
      have hlast : handle.lastValue = w.value := h.value handle hhandle
      have hne' : value ≠ handle.lastValue := fun heq => hne (heq.trans hlast).symm
      obtain ⟨hsignal, hforwarded⟩ : (handle.forwardData core value).2 = true ∧
          (handle.forwardData core value).1.lastValue =
            if core.isUpdate handle.lastValue value then value else handle.lastValue :=
        VariableHandle.forwardData_of_ne hne'
      constructor
      · intro handle' hhandle'
        rw [forwardData_handle] at hhandle'
        cases hhandle'
        rw [hforwarded, hlast]
        rfl
      · intro i item start hitem hstart
        rw [lookup_forwardData] at hitem
        obtain ⟨old, hold, rfl⟩ := Option.map_eq_some_iff.mp hitem
        rw [hsignal, if_pos rfl] at hstart ⊢
        rw [VariableMonitoredItem.told_subscribed] at hstart
        rw [VariableMonitoredItem.told_of_some hstart]
        obtain ⟨hsince, hreceived⟩ := h.told i old start hold hstart
        refine ⟨?_, ?_⟩
        · show old.since ≤ (w.accepted ++ [value]).length
          rw [List.length_append]
          exact le_trans hsince (Nat.le_add_right _ _)
        · show old.received ++ [value] = _ ++ (w.accepted ++ [value]).drop old.since
          rw [List.drop_append_of_le_length hsince, ← List.append_assoc, ← hreceived]
    · rename_i hnone
      refine ⟨fun handle hhandle => ?_, fun i item start hitem _ => ?_⟩
      · rw [hnone] at hhandle
        cases hhandle
      · have hsome := hinv.monitored i item hitem
        rw [hnone] at hsome
        cases hsome

omit [DecidableEq V] [DecidableEq S] in
theorem released (h : w.Follows) : w.released.Follows := by
  unfold VariableWorld.released
  split
  · refine ⟨fun handle hhandle => ?_, h.told⟩
    cases hhandle
  · exact h

theorem step {a : VariableAction V S} (h : w.Follows) (hinv : Inv core w)
    (hok : FromVariable w a) (hs : w.step core a = some w') : w'.Follows := by
  cases a with
  | setValue value =>
      cases hs
      exact h.setValue hinv value
  | getVariableHandle =>
      cases hs
      refine ⟨?_, h.told⟩
      intro handle hhandle
      show handle.lastValue = w.value
      cases hold : w.handle with
      | none =>
          have hnew : some (w.handle.getD ⟨w.value, w.changeTime⟩) = some handle := hhandle
          rw [hold] at hnew
          cases hnew
          rfl
      | some old =>
          have hsame : some (w.handle.getD ⟨w.value, w.changeTime⟩) = some handle := hhandle
          rw [hold] at hsame
          cases hsame
          exact h.value _ hold
  | release =>
      cases hs
      exact released ⟨h.value, h.told⟩
  | createMonitoredVariable i =>
      cases hs
      refine ⟨h.value, ?_⟩
      intro j item start hitem hstart
      rcases AssocMap.lookup_insert_cases hitem with ⟨-, rfl⟩ | ⟨-, hitem⟩
      · cases hstart
      · exact h.told j item start hitem hstart
  | subscribe i handler =>
      obtain ⟨handle, hhandle, hs⟩ := Option.bind_eq_some_iff.mp hs
      obtain ⟨monitored, -, hs⟩ := Option.bind_eq_some_iff.mp hs
      obtain ⟨-, hs⟩ := check_bind_eq_some.mp hs
      obtain ⟨-, -, hs⟩ := Option.bind_eq_some_iff.mp hs
      cases hs
      refine ⟨h.value, ?_⟩
      intro j item start hitem hstart
      rcases AssocMap.lookup_insert_cases hitem with ⟨-, rfl⟩ | ⟨-, hitem⟩
      · obtain rfl : handle = start := Option.some.inj hstart
        refine ⟨le_refl _, ?_⟩
        show _ = _ ++ w.accepted.drop w.accepted.length
        rw [List.drop_length, List.append_nil]
        rfl
      · exact h.told j item start hitem hstart
  | destroy i =>
      cases hs
      refine released ⟨h.value, ?_⟩
      exact fun j item start hitem => h.told j item start (AssocMap.lookup_of_erase hitem)
  | updateQualifier remove add now => exact absurd hok id

end Follows

/-- **No value is lost**: in every run in which nobody but the variable changes its handle,
the handle has the value of the variable, and a monitored item has been told the last value
of its subscription, if that had come from somewhere, and then every value that the variable
has been given since and did not have, in order, the older ones too. What it replays is the
value of the variable. -/
theorem values_of_reaches {first : StatusDataValue V S}
    (h : (variableMachine core first).Reaches FromVariable w) :
    (∀ handle, w.handle = some handle → handle.lastValue = w.value) ∧
    ∀ i item start, w.items.lookup i = some item → item.subscribed = some start →
      item.received = (if start.lastValue.serverTimestamp ≠ .null then [start.lastValue] else []) ++
        w.accepted.drop item.since ∧
      (replay core start item.received).lastValue = w.value := by
  have hfollows : w.Follows := by
    have hboth : Inv core w ∧ w.Follows := by
      refine h.invariant (I := fun w => Inv core w ∧ w.Follows) ⟨.init first, .init first⟩ ?_
      exact fun t a t' ht hen hok hs => ⟨ht.1.step hen hs, ht.2.step ht.1 hok hs⟩
    exact hboth.2
  refine ⟨hfollows.value, fun i item start hitem hstart => ?_⟩
  refine ⟨(hfollows.told i item start hitem hstart).received, ?_⟩
  exact hfollows.value _ ((inv_of_reaches h).replays i item start hitem hstart).1

/-- A value that is older than the current one is told of too. -/
theorem values_of_reaches_older :
    ∃ w, (variableMachine laterIsUpdate (sampleAt 1 10)).Reaches FromVariable w ∧
      w.accepted = [sampleAt 2 30, sampleAt 3 20] ∧ ∃ item, w.items.lookup 7 = some item ∧
        item.received = [sampleAt 1 10, sampleAt 2 30, sampleAt 3 20] := by
  obtain ⟨w, hw, hp⟩ := Machine.exists_reaches_of_exec
    (M := variableMachine laterIsUpdate (sampleAt 1 10)) FromVariable
    (p := fun w => decide (w.accepted = [sampleAt 2 30, sampleAt 3 20] ∧
      (w.items.lookup 7).map (fun item => (item.subscribed, item.since)) =
        some (some ⟨sampleAt 1 10, 0⟩, 0)))
    [.getVariableHandle, .createMonitoredVariable 7, .release, .subscribe 7 .dataChange,
      .setValue (sampleAt 2 30), .setValue (sampleAt 3 20)] (by decide)
  obtain ⟨haccepted, hitem⟩ := of_decide_eq_true hp
  obtain ⟨item, hitem, heq⟩ := Option.map_eq_some_iff.mp hitem
  have hstart : item.subscribed = some ⟨sampleAt 1 10, 0⟩ := congrArg Prod.fst heq
  have hsince : item.since = 0 := congrArg Prod.snd heq
  refine ⟨w, hw, haccepted, item, hitem, ?_⟩
  rw [((values_of_reaches hw).2 7 item _ hitem hstart).1, hsince, haccepted]
  rfl

end VariableWorld

end ScadaCommon
