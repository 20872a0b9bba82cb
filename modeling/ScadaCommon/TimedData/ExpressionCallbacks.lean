import ScadaCommon.TimedData.BaseTimedData
import ScadaCommon.TimedData.BufferInvariant
import ScadaCommon.TimedData.ExpressionTimedData
import ScadaCommon.TimedData.UpdateBatch

/-!
# The callbacks of an expression

An expression observes its operands, which others observe too. It asks for their
current values only, but a buffer notifies whoever is registered of everything
that changes, and the expression asserts that this is history it has asked for.

Other observers of an operand may run before the expression does and change any
operand meanwhile; so a notification is kept until the expression takes it.

§1 the expression · §2 an operand · §3 operands and expression together.
-/

namespace ScadaCommon

open Foundation TimedDataBuffer

variable {V D : Type}

/-! ## §1  The expression -/

/-- `GetReadyFrom`. -/
def getReadyFrom (readyRanges : List DateTimeRange) (range : DateTimeRange) : DateTime :=
  match readyRanges[partitionPoint (fun r => r.first < range.second) readyRanges]? with
  | none => .max
  | some i => if i.second ≤ range.first then .max else max range.first i.first

structure ExpressionTimedData (V : Type) where
  data : BaseTimedData V
  /-- The values of the items. -/
  items : List (DataValue V)
  /-- `from_`. -/
  fromTime : DateTime := .max
  readyFrom : DateTime := .max

namespace ExpressionTimedData

/-- The loop of `GetOperandsReadyFrom`, with the latest time so far. -/
def operandsReadyFrom (range : DateTimeRange) :
    DateTime → List (List DateTimeRange) → Option DateTime
  | readyFrom, [] => some (if readyFrom = .null then .max else readyFrom)
  | readyFrom, readyRanges :: operands =>
      let operandReadyFrom := getReadyFrom readyRanges range
      if operandReadyFrom = .max then some .max
      else do
        check (operandReadyFrom ≠ .null)
        operandsReadyFrom range (max readyFrom operandReadyFrom) operands

def getOperandsReadyFrom (e : ExpressionTimedData V) (readyRanges : List (List DateTimeRange)) :
    Option DateTime :=
  operandsReadyFrom ⟨e.fromTime, .max⟩ .null readyRanges

section

variable (I : IntervalUtil) (core : ExpressionCore V D) (samples : SampleCore V)
  (evaluate : List V → D)

/-- `CalculateValuesInRange`, for the histories of the operands. -/
def calculateRange (e : ExpressionTimedData V) (histories : List (List (DataValue V)))
    (range : DateTimeRange) : Option (ExpressionTimedData V) := do
  let (operands, buffer) ← calculateValuesInRange core evaluate histories range e.data.buffer
  return { e with data := { e.data with buffer }, items := operands.map (·.value) }

/-- `UpdateReadyRange`. -/
def updateReadyRange (e : ExpressionTimedData V) (histories : List (List (DataValue V)))
    (readyRanges : List (List DateTimeRange)) : Option (ExpressionTimedData V) := do
  check (e.data.historical = true)
  let operandsReadyFrom ← e.getOperandsReadyFrom readyRanges
  if operandsReadyFrom = .max then return e
  else
    check (operandsReadyFrom ≠ .null)
    let range := ⟨operandsReadyFrom, e.readyFrom⟩
    let e ← e.calculateRange core evaluate histories range
    return { e with data := { e.data with buffer := e.data.buffer.addReadyRange I range } }

/-- The value of the operands' current ones, at the time `now`. -/
def currentTotal (currents : List (DataValue V)) (now : DateTime) : DataValue V :=
  let present := currents.filter (·.timestamp ≠ .null)
  let latest := present.foldl
    (fun time cur => if time = .null ∨ time < cur.timestamp then cur.timestamp else time) .null
  { value := calculate core evaluate
      (currents.map fun cur => if cur.timestamp = .null then samples.default else cur)
    qualifier := present.foldl
      (fun total cur => if core.isBad cur.qualifier then core.setBad total else total) 0
    sourceTimestamp := if currents.isEmpty then now else latest
    serverTimestamp := now }

/-- `CalculateCurrent`. -/
def calculateCurrent [DecidableEq V] (e : ExpressionTimedData V) (currents : List (DataValue V))
    (now : DateTime) : ExpressionTimedData V :=
  let value := currentTotal core samples evaluate currents now
  let data :=
    if value = e.data.current then e.data
    else (e.data.addPoint value).setCurrent value (e.data.isChange value)
  { e with
    data
    items := currents.map fun cur => if cur.timestamp = .null then samples.default else cur }

def onTimedDataUpdates (e : ExpressionTimedData V) (histories : List (List (DataValue V)))
    (values : List (DataValue V)) : Option (ExpressionTimedData V) := do
  check (e.data.historical = true)
  let front ← values.head?
  let back ← values.getLast?
  check (e.readyFrom ≤ front.timestamp)
  let range := ⟨front.timestamp, back.timestamp⟩
  let buffer ← e.data.buffer.clearRange range
  { e with data := { e.data with buffer } }.calculateRange core evaluate histories range

def onTimedDataReady (e : ExpressionTimedData V) (histories : List (List (DataValue V)))
    (readyRanges : List (List DateTimeRange)) : Option (ExpressionTimedData V) := do
  check (e.data.historical = true)
  e.updateReadyRange I core evaluate histories readyRanges

end

end ExpressionTimedData

/-! ## §2  An operand -/

abbrev OperandId := ℕ

/-- Any `BaseTimedData`. -/
structure OperandData (V : Type) where
  batched : BatchedBuffer V := {}
  historical : Bool := false
  current : DataValue V
  /-- The calls of `UpdateCurrent` during which observers run. -/
  updates : List (DataValue V) := []

namespace OperandData

/-- The handler of the observed ranges. -/
def updateObservedRanges (I : IntervalUtil) (samples : SampleCore V) (o : OperandData V) :
    Option (OperandData V) :=
  let historical := o.historical || !o.batched.buffer.observedRanges.isEmpty
  if historical && !samples.isNull o.current then do
    let batched ← o.batched.call I (.insertOrUpdate o.current)
    return { o with batched, historical }
  else some { o with historical }

/-- A call of the buffer; the handler runs when the observers change. -/
def call (I : IntervalUtil) (samples : SampleCore V) (o : OperandData V) (a : BufferAction V) :
    Option (OperandData V) := do
  let batched ← o.batched.call I a
  let o := { o with batched }
  match a with
  | .addObserver .. | .removeObserver .. => o.updateObservedRanges I samples
  | _ => some o

/-- `UpdateCurrent` up to the notification of the new point. -/
def updateCurrent [DecidableEq V] (I : IntervalUtil) (o : OperandData V) (value : DataValue V) :
    Option (OperandData V) :=
  if value = o.current then some o
  else
    let isChange := o.current.value ≠ value.value ∨ o.current.qualifier ≠ value.qualifier
    if o.historical = true ∧ isChange ∧ value.timestamp ≠ .null then do
      let batched ← o.batched.call I (.insertOrUpdate value)
      return { o with batched, updates := value :: o.updates }
    else some { o with updates := value :: o.updates }

end OperandData

/-! ## §3  Operands and expression together -/

/-- A call into the expression. -/
inductive OperandCall (V : Type) where
  | timedDataUpdates (values : List (DataValue V))
  | timedDataReady
  /-- The current value is among the changed properties. -/
  | propertyChanged

structure ExpressionWorld (V : Type) where
  operands : OperandId → OperandData V
  expression : Option (ExpressionTimedData V) := none
  /-- The calls the expression has not taken. -/
  pending : List (OperandCall V) := []

inductive ExpressionAction (V : Type) where
  /-- The operands and their other observers. -/
  | call (i : OperandId) (a : BufferAction V)
  | beginUpdate (i : OperandId)
  | endUpdate (i : OperandId)
  | updateCurrent (i : OperandId) (value : DataValue V)
  /-- A call of `UpdateCurrent` goes on. -/
  | setCurrent (i : OperandId)
  | notifyPropertyChanged (i : OperandId)
  /-- The expression and its observers. -/
  | construct (now : DateTime)
  | addObserver (observer : ObserverId) (range : DateTimeRange) (now : DateTime)
  | removeObserver (observer : ObserverId) (now : DateTime)
  /-- The expression takes a call. -/
  | deliver (k : ℕ) (now : DateTime)

/-- An expression over some operands, one of which may stand at several places. -/
structure ExpressionSetup (V D : Type) where
  core : ExpressionCore V D
  samples : SampleCore V
  evaluate : List V → D
  operands : List OperandId
  /-- The observer that the expression is. -/
  self : ObserverId

namespace ExpressionWorld

variable (I : IntervalUtil) (s : ExpressionSetup V D)

def histories (w : ExpressionWorld V) : List (List (DataValue V)) :=
  s.operands.map fun i => (w.operands i).batched.buffer.values

def readyRanges (w : ExpressionWorld V) : List (List DateTimeRange) :=
  s.operands.map fun i => (w.operands i).batched.buffer.readyRanges

def currents (w : ExpressionWorld V) : List (DataValue V) :=
  s.operands.map fun i => (w.operands i).current

/-- An operand changes, and notifies the expression if it is registered. -/
def put (w : ExpressionWorld V) (i : OperandId) (o : OperandData V)
    (calls : List (OperandCall V)) : ExpressionWorld V :=
  { w with
    operands := fun j =>
      if j = i then { o with batched := { o.batched with notified := [] } } else w.operands j
    pending := w.pending ++
      if o.batched.buffer.observerRanges.any (·.1 = s.self) then
        o.batched.notified.map .timedDataUpdates ++ calls
      else [] }

def callOperand (w : ExpressionWorld V) (i : OperandId) (a : BufferAction V) :
    Option (ExpressionWorld V) := do
  let o ← (w.operands i).call I s.samples a
  let calls :=
    match a with
    | .addReadyRange _ => [.timedDataReady]
    | _ => []
  return w.put s i o calls

/-- The expression asks its operands for their current values. -/
def connectOperands (w : ExpressionWorld V) (fromTime : DateTime) : Option (ExpressionWorld V) :=
  s.operands.foldlM (fun w i => w.callOperand I s i (.addObserver s.self ⟨fromTime, .max⟩)) w

variable [DecidableEq V]

def calculateCurrent (w : ExpressionWorld V) (e : ExpressionTimedData V) (now : DateTime) :
    ExpressionWorld V :=
  { w with
    expression := some (e.calculateCurrent s.core s.samples s.evaluate (w.currents s) now) }

def onObservedRangesChanged (w : ExpressionWorld V) (e : ExpressionTimedData V) (now : DateTime) :
    Option (ExpressionWorld V) := do
  let w ← w.connectOperands I s e.fromTime
  let e := if e.data.historical then
      e.updateReadyRange I s.core s.evaluate (w.histories s) (w.readyRanges s)
    else some e
  e.map fun e => w.calculateCurrent s e now

/-- The handler of the expression's buffer. -/
def updateObservedRanges (w : ExpressionWorld V) (e : ExpressionTimedData V) (now : DateTime) :
    Option (ExpressionWorld V) :=
  let hasObservers := !e.data.buffer.observedRanges.isEmpty
  w.onObservedRangesChanged I s
    { e with data := e.data.updateObservedRanges s.samples hasObservers } now

/-- The expression takes a call. -/
def take (w : ExpressionWorld V) (e : ExpressionTimedData V) (now : DateTime) :
    OperandCall V → Option (ExpressionTimedData V)
  | .timedDataUpdates values => e.onTimedDataUpdates s.core s.evaluate (w.histories s) values
  | .timedDataReady =>
      e.onTimedDataReady I s.core s.evaluate (w.histories s) (w.readyRanges s)
  | .propertyChanged =>
      some (e.calculateCurrent s.core s.samples s.evaluate (w.currents s) now)

/-- The calls meet the checks of the buffers, and times are not after `max`. -/
def enabled (w : ExpressionWorld V) : ExpressionAction V → Prop
  | .call _ a => a.Valid I ∧
      match a with
      | .addObserver observer _ | .removeObserver observer => observer ≠ s.self
      | .addReadyRange range => range.second ≤ .max
      | _ => True
  | .endUpdate i => 0 < (w.operands i).batched.batchDepth
  | .setCurrent i => (w.operands i).updates.isEmpty = false
  | .construct _ => w.expression.isNone = true
  | .addObserver observer range _ => w.expression.isSome = true ∧
      BufferAction.Valid (V := V) I (.addObserver observer range)
  | .removeObserver _ _ => w.expression.isSome = true
  | .deliver k _ => w.expression.isSome = true ∧ k < w.pending.length
  | _ => True

instance (w : ExpressionWorld V) (a : ExpressionAction V) : Decidable (w.enabled I s a) := by
  apply ExpressionAction.casesOn (motive := fun a => Decidable (w.enabled I s a)) a
  case call =>
    intro i a
    refine @instDecidableAnd _ _ _ ?_
    apply BufferAction.casesOn (motive := fun a => Decidable (match a with
      | .addObserver observer _ | .removeObserver observer => observer ≠ s.self
      | .addReadyRange range => range.second ≤ .max
      | _ => True)) a <;>
      intros <;> infer_instance
  all_goals
    intros
    unfold enabled
    infer_instance

def step (w : ExpressionWorld V) : ExpressionAction V → Option (ExpressionWorld V)
  | .call i a => w.callOperand I s i a
  | .beginUpdate i =>
      let o := w.operands i
      some (w.put s i { o with batched := { o.batched with batchDepth := o.batched.batchDepth + 1 } }
        [])
  | .endUpdate i => do
      let batched ← (w.operands i).batched.endBatch
      return w.put s i { w.operands i with batched } []
  | .updateCurrent i value => do
      let o ← (w.operands i).updateCurrent I value
      return w.put s i o []
  | .setCurrent i =>
      match (w.operands i).updates with
      | [] => none
      | value :: updates =>
          some (w.put s i { w.operands i with current := value, updates } [.propertyChanged])
  | .notifyPropertyChanged i => some (w.put s i (w.operands i) [.propertyChanged])
  | .construct now => do
      let e : ExpressionTimedData V := { data := { current := s.samples.default }, items := [] }
      let w ← w.connectOperands I s e.fromTime
      return w.calculateCurrent s e now
  | .addObserver observer range now => do
      let e ← w.expression
      let buffer ← e.data.buffer.addObserver I observer range
      w.updateObservedRanges I s { e with data := { e.data with buffer } } now
  | .removeObserver observer now => do
      let e ← w.expression
      let buffer ← e.data.buffer.removeObserver I observer
      w.updateObservedRanges I s { e with data := { e.data with buffer } } now
  | .deliver k now => do
      let e ← w.expression
      let call ← w.pending[k]?
      let e ← w.take I s e now call
      return { w with expression := some e, pending := w.pending.eraseIdx k }

end ExpressionWorld

def expressionMachine [DecidableEq V] (I : IntervalUtil) (s : ExpressionSetup V D) :
    Machine (ExpressionWorld V) (ExpressionAction V) :=
  ⟨{ operands := fun _ => { current := s.samples.default } }, ExpressionWorld.enabled I s,
    ExpressionWorld.step I s⟩

instance [DecidableEq V] (I : IntervalUtil) (s : ExpressionSetup V D) (w : ExpressionWorld V)
    (a : ExpressionAction V) : Decidable ((expressionMachine I s).enabled w a) :=
  inferInstanceAs (Decidable (w.enabled I s a))

end ScadaCommon
