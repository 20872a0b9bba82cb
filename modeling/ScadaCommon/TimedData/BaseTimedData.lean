import ScadaCommon.TimedData.BufferActions

/-!
# The owner of a buffer

`BaseTimedData` keeps the current value beside its buffer, and puts it into the
buffer once somebody has asked for history. `TimedDataImpl` gets the current
value from a channel.

Observers run when the buffer changes and may call back, so a call is cut into
steps where they run.

§1 the owner · §2 the owner and its callers.
-/

namespace ScadaCommon

open Foundation

variable {V : Type}

/-! ## §1  The owner -/

/-- What is used of `DataValue` and `Qualifier`. -/
structure SampleCore (V : Type) where
  /-- The default-constructed value. -/
  default : DataValue V
  /-- `DataValue::is_null`. -/
  isNull : DataValue V → Bool
  /-- Whether a value comes after the current one. -/
  isUpdate : DataValue V → DataValue V → Bool
  /-- `Qualifier::failed`. -/
  isFailed : ℕ → Bool
  /-- `Qualifier::set_failed(true)`. -/
  setFailed : ℕ → ℕ

structure BaseTimedData (V : Type) where
  buffer : TimedDataBuffer V := {}
  /-- Populate history with currents. Never changes back. -/
  historical : Bool := false
  current : DataValue V
  changeTime : DateTime := .null

namespace BaseTimedData

/-- Up to the call of `OnObservedRangesChanged`. -/
def updateObservedRanges (core : SampleCore V) (data : BaseTimedData V) (hasObservers : Bool) :
    BaseTimedData V :=
  let historical := data.historical || hasObservers
  if historical && !core.isNull data.current then
    { data with historical, buffer := (data.buffer.insertOrUpdate data.current).1 }
  else { data with historical }

variable [DecidableEq V]

def isChange (data : BaseTimedData V) (value : DataValue V) : Bool :=
  data.current.value ≠ value.value || data.current.qualifier ≠ value.qualifier

/-- Whether `UpdateCurrent` adds a point to the history. -/
def addsPoint (data : BaseTimedData V) (value : DataValue V) : Bool :=
  value ≠ data.current && data.historical && data.isChange value && value.timestamp ≠ .null

/-- `UpdateCurrent` up to the notification of the new point. -/
def addPoint (data : BaseTimedData V) (value : DataValue V) : BaseTimedData V :=
  if data.addsPoint value then { data with buffer := (data.buffer.insertOrUpdate value).1 }
  else data

/-- The rest of `UpdateCurrent`. -/
def setCurrent (data : BaseTimedData V) (value : DataValue V) (isChange : Bool) :
    BaseTimedData V :=
  { data with
    current := value
    changeTime := if isChange then value.timestamp else data.changeTime }

omit [DecidableEq V] in
/-- `Delete`, without the notifications. -/
def delete (core : SampleCore V) (data : BaseTimedData V) : BaseTimedData V :=
  { data with
    current := { data.current with qualifier := core.setFailed data.current.qualifier } }

end BaseTimedData

/-! ## §2  The owner and its callers -/

structure TimedDataWorld (V : Type) where
  data : BaseTimedData V
  /-- The buffer is about to call the handler of the observed ranges. -/
  updatedRanges : Option Bool := none
  /-- The calls of `UpdateCurrent` during which observers run, with whether they
  change the value. -/
  updates : List (DataValue V × Bool) := []

inductive TimedDataAction (V : Type) where
  | buffer (a : BufferAction V)
  /-- The handler runs. -/
  | updateObservedRanges
  /-- `OnChannelData`. -/
  | channelData (value : DataValue V)
  /-- A call of `UpdateCurrent` goes on. -/
  | setCurrent

namespace TimedDataWorld

/-- No observer runs before the handler does. -/
def enabled (w : TimedDataWorld V) : TimedDataAction V → Prop
  | .updateObservedRanges => w.updatedRanges ≠ none
  | .setCurrent => w.updatedRanges = none ∧ w.updates ≠ []
  | _ => w.updatedRanges = none

instance (w : TimedDataWorld V) (a : TimedDataAction V) : Decidable (w.enabled a) := by
  unfold enabled
  split
  · exact decidable_of_iff (w.updatedRanges.isSome = true) Option.isSome_iff_ne_none
  · exact decidable_of_iff (w.updatedRanges = none ∧ w.updates.isEmpty = false) (by simp)
  · infer_instance

/-- `OnChannelData`; the world stops in `UpdateCurrent` when the value is a new
current one. -/
def onChannelData [DecidableEq V] (core : SampleCore V) (w : TimedDataWorld V)
    (value : DataValue V) : TimedDataWorld V :=
  if core.isFailed value.qualifier then { w with data := w.data.delete core }
  else if core.isUpdate w.data.current value then
    if value = w.data.current then w
    else { w with
      data := w.data.addPoint value
      updates := (value, w.data.isChange value) :: w.updates }
  else { w with
    data := { w.data with buffer := (w.data.buffer.insertOrUpdate value).1 } }

def step [DecidableEq V] (I : IntervalUtil) (core : SampleCore V) (w : TimedDataWorld V) :
    TimedDataAction V → Option (TimedDataWorld V)
  | .buffer a => do
      let buffer ← w.data.buffer.step I a
      let updatedRanges :=
        match a with
        | .addObserver .. | .removeObserver .. => some (!buffer.observedRanges.isEmpty)
        | _ => none
      return { w with data := { w.data with buffer }, updatedRanges }
  | .updateObservedRanges =>
      some { w with
        data := w.data.updateObservedRanges core (w.updatedRanges.getD false)
        updatedRanges := none }
  | .channelData value => some (w.onChannelData core value)
  | .setCurrent =>
      match w.updates with
      | [] => none
      | (value, isChange) :: updates =>
          some { w with data := w.data.setCurrent value isChange, updates }

end TimedDataWorld

def timedDataMachine [DecidableEq V] (I : IntervalUtil) (core : SampleCore V) :
    Machine (TimedDataWorld V) (TimedDataAction V) :=
  ⟨{ data := { current := core.default } }, TimedDataWorld.enabled, TimedDataWorld.step I core⟩

instance [DecidableEq V] (I : IntervalUtil) (core : SampleCore V) (w : TimedDataWorld V)
    (a : TimedDataAction V) : Decidable ((timedDataMachine I core).enabled w a) :=
  inferInstanceAs (Decidable (w.enabled a))

end ScadaCommon
