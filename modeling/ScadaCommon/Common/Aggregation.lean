import ScadaCommon.Common.TimedDataUtil

/-!
# Aggregation

`AggregateState` turns a stream of raw samples, which arrives in chunks, into
one value per processing interval. Arithmetic on doubles and what the core
library does with values are parameters, so that the same definitions can be
read with floats or with exact numbers.

§1 what is used of the core library · §2 the aggregators · §3 the buckets ·
§4 `AggregateState`.
-/

namespace ScadaCommon

open Foundation

/-! ## §1  Values -/

/-- What aggregation uses of `Double` (`D`), `Variant` (`V`) and `DataValue`. -/
structure AggregationCore (V D : Type) where
  zero : D
  add : D → D → D
  /-- Division by a `size_t`. -/
  divCount : D → ℕ → D
  less : D → D → Bool
  /-- `numeric_limits<Double>::max()` and `min()`. -/
  doubleMax : D
  doubleMin : D
  nullVariant : V
  /-- `Variant::get<Double>`. -/
  get : V → Option D
  ofDouble : D → V
  ofUInt64 : ℕ → V
  isNull : DataValue V → Bool
  /-- A default-constructed value is null. -/
  isNull_default : isNull ⟨nullVariant, 0, .null, .null⟩ = true
  /-- A value that holds a number is not null. -/
  isNull_ofDouble : ∀ d q s t, isNull ⟨ofDouble d, q, s, t⟩ = false
  isNull_ofUInt64 : ∀ n q s t, isNull ⟨ofUInt64 n, q, s, t⟩ = false
  ofDouble_injective : Function.Injective ofDouble
  ofUInt64_injective : Function.Injective ofUInt64

variable {V D : Type}

/-- `DataValue{value, qualifier, interval.first, interval.second}`. -/
def DataValue.atInterval (value : V) (qualifier : ℕ) (interval : DateTimeRange) : DataValue V :=
  ⟨value, qualifier, interval.first, interval.second⟩

namespace AggregationCore

variable (core : AggregationCore V D)

/-- `DataValue{}`. -/
def null : DataValue V := ⟨core.nullVariant, 0, .null, .null⟩

/-! ## §2  Aggregators -/

/-- `CompareVariants`: values that are not both numeric are compared by their
addresses. -/
def compareVariants (left right : V) (addressLess : Bool) : Bool :=
  match core.get left, core.get right with
  | some leftDouble, some rightDouble => core.less leftDouble rightDouble
  | _, _ => addressLess

/-- The loop of `std::min_element`: the candidate stands before the element it
is compared with. -/
def minElement (smallest : DataValue V) : List (DataValue V) → DataValue V
  | [] => smallest
  | v :: values =>
      minElement (if core.compareVariants v.value smallest.value false then v else smallest) values

/-- The loop of `std::max_element`. -/
def maxElement (largest : DataValue V) : List (DataValue V) → DataValue V
  | [] => largest
  | v :: values =>
      maxElement (if core.compareVariants largest.value v.value true then v else largest) values

def calculateTotal (values : List (DataValue V)) : D :=
  values.foldl (fun prevSum v =>
    match core.get v.value with
    | some doubleValue => core.add prevSum doubleValue
    | none => prevSum) core.zero

/-- `std::min`. -/
def min (a b : D) : D := if core.less b a then b else a

/-- `std::max`. -/
def max (a b : D) : D := if core.less a b then b else a

/-- `min_value` with one more sample; one that is not numeric leaves it. -/
def lowered (minValue : D) (dataValue : DataValue V) : D :=
  match core.get dataValue.value with
  | some doubleValue => core.min minValue doubleValue
  | none => minValue

/-- `max_value` with one more sample. -/
def raised (maxValue : D) (dataValue : DataValue V) : D :=
  match core.get dataValue.value with
  | some doubleValue => core.max maxValue doubleValue
  | none => maxValue

end AggregationCore

inductive AggregateFunction where
  | functionTotal
  | functionAverage
  | functionCount
  | functionMinimum
  | functionMaximum
  | functionStart
  | functionEnd
deriving DecidableEq

/-- An `Aggregator` with what its closure captures by value besides the
interval. -/
inductive AggregatorState (V D : Type) where
  | total (total : D)
  | average (total : D) (count : ℕ)
  | count (count : ℕ)
  | minimum (minValue : D)
  | maximum (maxValue : D)
  | front (startDataValue : DataValue V)
  | back

structure Aggregator (V D : Type) where
  interval : DateTimeRange
  state : AggregatorState V D

section

variable (core : AggregationCore V D)

/-- `GetAggregator` for a function of the factory map. -/
def getAggregator (function : AggregateFunction) (interval : DateTimeRange) (forward : Bool) :
    Aggregator V D :=
  ⟨interval,
    match function with
    | .functionTotal => .total core.zero
    | .functionAverage => .average core.zero 0
    | .functionCount => .count 0
    | .functionMinimum => .minimum core.doubleMax
    | .functionMaximum => .maximum core.doubleMin
    | .functionStart => if forward then .front core.null else .back
    | .functionEnd => if forward then .back else .front core.null⟩

/-- The call of an aggregator on one non-empty span; `none` where it fails its
check or reads past an empty span. -/
def Aggregator.call (aggregator : Aggregator V D) (values : List (DataValue V)) :
    Option (Aggregator V D × DataValue V) :=
  let interval := aggregator.interval
  match aggregator.state with
  | .total total =>
      let total := core.add total (core.calculateTotal values)
      some (⟨interval, .total total⟩, .atInterval (core.ofDouble total) 0 interval)
  | .average total count => do
      let total := core.add total (core.calculateTotal values)
      let count := count + values.length
      check (count ≠ 0)
      return (⟨interval, .average total count⟩,
        .atInterval (core.ofDouble (core.divCount total count)) 0 interval)
  | .count count =>
      let count := count + values.length
      some (⟨interval, .count count⟩, .atInterval (core.ofUInt64 count) 0 interval)
  | .minimum minValue =>
      match values with
      | [] => none
      | first :: rest =>
          let dataValue := core.minElement first rest
          let minValue := core.lowered minValue dataValue
          some (⟨interval, .minimum minValue⟩,
            .atInterval (core.ofDouble minValue) dataValue.qualifier interval)
  | .maximum maxValue =>
      match values with
      | [] => none
      | first :: rest =>
          let dataValue := core.maxElement first rest
          let maxValue := core.raised maxValue dataValue
          some (⟨interval, .maximum maxValue⟩,
            .atInterval (core.ofDouble maxValue) dataValue.qualifier interval)
  | .front startDataValue =>
      match values with
      | [] => none
      | first :: _ =>
          let startDataValue := if core.isNull startDataValue then first else startDataValue
          some (⟨interval, .front startDataValue⟩,
            .atInterval startDataValue.value startDataValue.qualifier interval)
  | .back =>
      match values.getLast? with
      | none => none
      | some endDataValue =>
          some (aggregator, .atInterval endDataValue.value endDataValue.qualifier interval)

end

/-! ## §3  Buckets -/

/-- The remainder is that of C++, of the sign of the dividend. -/
def getAggregateInterval (time originTime : DateTime) (interval : Duration) : DateTimeRange :=
  if interval = 0 then ⟨time, time⟩
  else if time < originTime then ⟨originTime, originTime + interval⟩
  else
    let delta := time - originTime
    let delta := delta - Int.tmod delta interval
    ⟨originTime + delta, originTime + delta + interval⟩

/-! ## §4  `AggregateState` -/

/-- `AggregateFilter`; `none` is a node id that is not in the factory map. -/
structure AggregateFilter where
  startTime : DateTime
  interval : Duration
  aggregateType : Option AggregateFunction

structure AggregateState (V D : Type) where
  forward : Bool
  aggregation : AggregateFilter
  dataValues : List (DataValue V)
  aggregator : Option (Aggregator V D)
  aggregatorInterval : DateTimeRange
  aggregatedValue : DataValue V

namespace AggregateState

variable (core : AggregationCore V D)

/-- The state `Process` is first called on. -/
def init (forward : Bool) (aggregation : AggregateFilter) : AggregateState V D :=
  ⟨forward, aggregation, [], none, ⟨.null, .null⟩, core.null⟩

/-- What the value of the last bucket adds to `data_values`. -/
def emitted (value : DataValue V) : List (DataValue V) :=
  if core.isNull value then [] else [value]

/-- The change to another bucket. -/
def enter (st : AggregateState V D) (interval : DateTimeRange) : AggregateState V D :=
  if st.aggregatorInterval = interval then st
  else
    { st with
      dataValues := st.dataValues ++ emitted core st.aggregatedValue
      aggregatedValue := if core.isNull st.aggregatedValue then st.aggregatedValue else core.null
      aggregatorInterval := interval
      aggregator := st.aggregation.aggregateType.map (getAggregator core · interval st.forward) }

/-- `GetAggregateInterval` of the first sample, and how many samples go there. -/
def bucketOf (st : AggregateState V D) (v : DataValue V) : DateTimeRange :=
  getAggregateInterval v.sourceTimestamp st.aggregation.startTime st.aggregation.interval

def bucketCount (st : AggregateState V D) (interval : DateTimeRange)
    (rawSpan : List (DataValue V)) : ℕ :=
  if st.forward then upperBound rawSpan interval.second
  else reverseUpperBound rawSpan interval.first

/-- The aggregator takes the samples of one round. -/
def aggregate (st : AggregateState V D) (aggregator : Aggregator V D)
    (values : List (DataValue V)) : Option (AggregateState V D) := do
  let (aggregator, aggregatedValue) ← aggregator.call core values
  return { st with aggregator := some aggregator, aggregatedValue }

/-- The loop of `Process`. Each round takes at least one sample, so the fuel is
the length of the span. -/
def processLoop : ℕ → AggregateState V D → List (DataValue V) → Option (AggregateState V D)
  | _, st, [] => some st
  | 0, _, _ :: _ => none
  | fuel + 1, st, v :: values => do
      let interval := st.bucketOf v
      let count := st.bucketCount interval (v :: values)
      check (count ≠ 0)
      let st' := st.enter core interval
      match st'.aggregator with
      -- A new bucket without an aggregator ends the loop; an empty function is
      -- not called.
      | none => if st.aggregatorInterval = interval then none else some st'
      | some aggregator =>
          (st'.aggregate core aggregator ((v :: values).take count)).bind
            (processLoop fuel · ((v :: values).drop count))

def process (st : AggregateState V D) (rawSpan : List (DataValue V)) :
    Option (AggregateState V D) :=
  processLoop core rawSpan.length st rawSpan

def finish (st : AggregateState V D) : AggregateState V D :=
  { st with dataValues := st.dataValues ++ emitted core st.aggregatedValue }

end AggregateState

end ScadaCommon
