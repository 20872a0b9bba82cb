import ScadaCommon.Common.HistoryUtil
import ScadaCommon.TimedData.TimedDataBuffer

/-!
# The history fetcher

`TimedDataFetcher` reads the history of the observed ranges that are not ready,
one gap at a time. The buffer notifies its observers while the answer of a read
is worked in, and they may come and go meanwhile; so the completion of a read is
cut into steps at the two places where observers run.

§1 the fetcher · §2 the buffer, the fetcher and the server.
-/

namespace ScadaCommon

open Foundation

variable {V : Type}

/-! ## §1  The fetcher -/

def kMaxReadCount : ℕ := 10000

structure TimedDataFetcher where
  /-- Whether `node_` is set. -/
  hasNode : Bool := true
  querying : Bool := false
  queryingRange : DateTimeRange := ⟨.null, .null⟩

namespace TimedDataFetcher

section

variable (I : IntervalUtil)

/-- Starts a read of a gap. -/
def query (fetcher : TimedDataFetcher) (gap : DateTimeRange) :
    Option (TimedDataFetcher × List HistoryCall) := do
  check (I.isEmptyInterval gap = false)
  return ({ fetcher with querying := true, queryingRange := gap },
    [.historyReadRaw ⟨gap.first, gap.second, kMaxReadCount, none⟩])

def fetchNextGap (fetcher : TimedDataFetcher) (buffer : TimedDataBuffer V) :
    Option (TimedDataFetcher × List HistoryCall) :=
  if fetcher.querying then some (fetcher, [])
  else if !fetcher.hasNode then some (fetcher, [])
  else
    (buffer.findNextGap I).bind fun gap =>
      match gap with
      | none => some (fetcher, [])
      | some gap => fetcher.query I gap

/-- `none` also where the log statement reads a gap that is not there. -/
def fetchMore (fetcher : TimedDataFetcher) (buffer : TimedDataBuffer V)
    (continuationPoint : ContinuationPoint) : Option (TimedDataFetcher × List HistoryCall) := do
  check (fetcher.querying = true)
  if !fetcher.hasNode then
    -- The continuation point goes out of scope.
    return ({ fetcher with querying := false }, [.cancelHistory continuationPoint])
  else
    let gap ← (← buffer.findNextGap I)
    if !I.intervalContains gap fetcher.queryingRange then
      let (fetcher, calls) ← fetchNextGap I { fetcher with querying := false } buffer
      return (fetcher, .cancelHistory continuationPoint :: calls)
    else
      return (fetcher, [.historyReadRaw ⟨fetcher.queryingRange.second, fetcher.queryingRange.first,
        kMaxReadCount, some continuationPoint⟩])

/-- What `OnHistoryReadRawComplete` makes of the values of an answer. -/
def receivedValues (values : List (DataValue V)) : List (DataValue V) :=
  let values := values.filter (·.serverTimestamp ≠ .null)
  if isTimeSorted values then values else uniqueByTime (sortByTime values)

/-- How far the range is ready after an answer. -/
def readyTo (fetcher : TimedDataFetcher) (values : List (DataValue V))
    (continuationPoint : Option ContinuationPoint) : DateTime :=
  match continuationPoint with
  | none => fetcher.queryingRange.second
  | some _ =>
      match values.getLast? with
      | none => .null
      | some back =>
          max fetcher.queryingRange.first (min back.timestamp fetcher.queryingRange.second)

/-- The part of `OnHistoryReadRawComplete` before observers are notified of new
samples. -/
def replaceValues (fetcher : TimedDataFetcher) (buffer : TimedDataBuffer V)
    (values : List (DataValue V)) : Option (TimedDataBuffer V) := do
  check (fetcher.querying = true)
  buffer.replaceRange (receivedValues values)

/-- The part up to the notification that a range is ready. -/
def addReady (fetcher : TimedDataFetcher) (buffer : TimedDataBuffer V)
    (values : List (DataValue V)) (continuationPoint : Option ContinuationPoint) :
    TimedDataFetcher × TimedDataBuffer V :=
  let readyTo := fetcher.readyTo (receivedValues values) continuationPoint
  if readyTo = .null then (fetcher, buffer)
  else
    ({ fetcher with queryingRange := ⟨readyTo, fetcher.queryingRange.second⟩ },
      buffer.addReadyRange I ⟨fetcher.queryingRange.first, readyTo⟩)

/-- The rest. -/
def finishRead (fetcher : TimedDataFetcher) (buffer : TimedDataBuffer V)
    (continuationPoint : Option ContinuationPoint) :
    Option (TimedDataFetcher × List HistoryCall) :=
  match continuationPoint with
  | none => fetchNextGap I { fetcher with querying := false } buffer
  | some continuationPoint => fetcher.fetchMore I buffer continuationPoint

end

end TimedDataFetcher

/-! ## §2  The buffer, the fetcher and the server -/

/-- The samples the server stores of a node. -/
structure HistoryStore (V : Type) where
  samples : List (DataValue V)
  sorted : TimeSorted samples
  sourceTimestamp_ne : ∀ s ∈ samples, s.sourceTimestamp ≠ .null
  serverTimestamp_ne : ∀ s ∈ samples, s.serverTimestamp ≠ .null

/-- The samples of a range, ends included. -/
def HistoryStore.read (store : HistoryStore V) (first last : DateTime) : List (DataValue V) :=
  store.samples.filter fun s => first ≤ s.timestamp && s.timestamp ≤ last

/-- Where the completion of a read is while observers run. -/
inductive Completion where
  | notifyingUpdates
  | notifyingReady
deriving DecidableEq

structure HistoryWorld (V : Type) where
  buffer : TimedDataBuffer V := {}
  fetcher : TimedDataFetcher := {}
  /-- The read the server has not answered. -/
  read : Option HistoryReadRawDetails := none
  /-- The completion that is under way, with the values of its answer. -/
  completion : Option (Completion × List (DataValue V)) := none
  /-- The values that came as live updates. -/
  live : List (DataValue V) := []

inductive HistoryAction (V : Type) where
  | addObserver (observer : ObserverId) (range : DateTimeRange)
  | removeObserver (observer : ObserverId)
  | insertOrUpdate (value : DataValue V)
  | setNode (hasNode : Bool)
  /-- The server answers the read. -/
  | answer (values : List (DataValue V))
  /-- The observers have taken the new samples. -/
  | ready
  /-- The observers have taken that a range is ready. -/
  | finish

namespace HistoryWorld

variable (I : IntervalUtil)

def send (w : HistoryWorld V) : List HistoryCall → HistoryWorld V
  | [] => w
  | .historyReadRaw details :: calls => { w with read := some details }.send calls
  | .cancelHistory _ :: calls => w.send calls

/-- The handler of the observed ranges calls `FetchNextGap`. -/
def fetchNextGap (w : HistoryWorld V) : Option (HistoryWorld V) := do
  let (fetcher, calls) ← w.fetcher.fetchNextGap I w.buffer
  return { w with fetcher }.send calls

/-- What the server and the observers may do. The server answers Good, with
exactly what it stores in the range and without a continuation point. -/
def enabled (store : HistoryStore V) (w : HistoryWorld V) : HistoryAction V → Prop
  | .answer values =>
      match w.read with
      | some details => values.Perm (store.read details.fromTime details.toTime)
      | none => False
  | .ready =>
      match w.completion with
      | some (.notifyingUpdates, _) => True
      | _ => False
  | .finish =>
      match w.completion with
      | some (.notifyingReady, _) => True
      | _ => False
  | _ => True

instance [DecidableEq V] (store : HistoryStore V) (w : HistoryWorld V) (a : HistoryAction V) :
    Decidable (w.enabled store a) := by
  unfold enabled
  split
  · split <;> infer_instance
  · split <;> infer_instance
  · split <;> infer_instance
  · infer_instance

def step (w : HistoryWorld V) : HistoryAction V → Option (HistoryWorld V)
  | .addObserver observer range => do
      let buffer ← w.buffer.addObserver I observer range
      { w with buffer }.fetchNextGap I
  | .removeObserver observer => do
      let buffer ← w.buffer.removeObserver I observer
      { w with buffer }.fetchNextGap I
  | .insertOrUpdate value =>
      some { w with
        buffer := (w.buffer.insertOrUpdate value).1
        live := value :: w.live }
  | .setNode hasNode => some { w with fetcher := { w.fetcher with hasNode } }
  | .answer values => do
      let buffer ← w.fetcher.replaceValues w.buffer values
      return { w with buffer, read := none, completion := some (.notifyingUpdates, values) }
  | .ready =>
      let values := w.completion.elim [] (·.2)
      let (fetcher, buffer) := w.fetcher.addReady I w.buffer values none
      some { w with fetcher, buffer, completion := some (.notifyingReady, values) }
  | .finish => do
      let (fetcher, calls) ← w.fetcher.finishRead I w.buffer none
      return { w with fetcher, completion := none }.send calls

end HistoryWorld

def historyMachine (I : IntervalUtil) (store : HistoryStore V) :
    Machine (HistoryWorld V) (HistoryAction V) :=
  ⟨{}, fun w a => w.enabled store a, fun w a => w.step I a⟩

instance [DecidableEq V] (I : IntervalUtil) (store : HistoryStore V) (w : HistoryWorld V)
    (a : HistoryAction V) : Decidable ((historyMachine I store).enabled w a) :=
  inferInstanceAs (Decidable (w.enabled store a))

end ScadaCommon
