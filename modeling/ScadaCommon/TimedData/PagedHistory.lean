import ScadaCommon.TimedData.BufferInvariant
import ScadaCommon.TimedData.TimedDataFetcher

/-!
# Reads that are answered in pages

The server answers a read by any number of pages, each but the last one with a
continuation point. The fetcher works a page into the buffer, makes what it
covers ready and asks for the next page, or drops the point when the range is of
no interest any more.

§1 continuing a read · §2 the fetcher, its observers and the server · §3 what
the fetcher keeps · §4 the steps.
-/

namespace ScadaCommon

open Foundation TimedDataBuffer

variable {V : Type}

/-! ## §1  Continuing a read -/

/-- `FetchMore`, for a log statement that evaluates its arguments or does not:
it reads the gap, also where there is none. -/
def TimedDataFetcher.continueRead (I : IntervalUtil) (logged : Bool) (fetcher : TimedDataFetcher)
    (buffer : TimedDataBuffer V) (point : ScopedContinuationPoint) :
    Option (TimedDataFetcher × List HistoryCall) := do
  check (fetcher.querying = true)
  check (point.empty = false)
  if !fetcher.hasNode then
    let calls ← point.destroy
    return ({ fetcher with querying := false }, calls)
  else
    let gap ← buffer.findNextGap I
    if !gap.any (I.intervalContains · fetcher.queryingRange) then
      check (logged = true → gap.isSome = true)
      let (_, calls) ← point.reset
      let (fetcher, nextCalls) ← fetchNextGap I { fetcher with querying := false } buffer
      return (fetcher, calls ++ nextCalls)
    else
      let (_, continuationPoint) := point.release
      return (fetcher, [.historyReadRaw ⟨fetcher.queryingRange.second, fetcher.queryingRange.first,
        kMaxReadCount, continuationPoint⟩])

/-- With the log statement it is `fetchMore`. -/
theorem TimedDataFetcher.continueRead_logged (I : IntervalUtil) (fetcher : TimedDataFetcher)
    (buffer : TimedDataBuffer V) (continuationPoint : ContinuationPoint) :
    fetcher.continueRead I true buffer (.ofResponse (some continuationPoint)) =
      fetcher.fetchMore I buffer continuationPoint := by
  unfold continueRead fetchMore
  cases fetcher.querying with
  | false => rfl
  | true =>
      cases fetcher.hasNode with
      | false => rfl
      | true =>
          cases buffer.findNextGap I with
          | none => rfl
          | some gap =>
              cases gap with
              | none => rfl
              | some gap =>
                  cases hcontains : I.intervalContains gap fetcher.queryingRange with
                  | true => simp [hcontains, check, ScopedContinuationPoint.ofResponse,
                      ScopedContinuationPoint.empty, ScopedContinuationPoint.release]
                  | false => simp [hcontains, check, ScopedContinuationPoint.ofResponse,
                      ScopedContinuationPoint.empty, ScopedContinuationPoint.reset, cancelHistory]

/-! ## §2  The fetcher, its observers and the server -/

structure HistoryAnswer (V : Type) where
  isGood : Bool
  values : List (DataValue V)
  continuationPoint : Option ContinuationPoint

/-- `OnHistoryReadRawComplete` while observers run. -/
structure PagedCompletion (V : Type) where
  phase : Completion
  values : List (DataValue V)
  point : ScopedContinuationPoint

structure PagedWorld (V : Type) where
  buffer : TimedDataBuffer V := {}
  fetcher : TimedDataFetcher := { hasNode := false }
  /-- The reads the server has not answered. -/
  reads : List HistoryReadRawDetails := []
  completion : Option (PagedCompletion V) := none
  /-- The calls of the history service, the last one first. -/
  calls : List HistoryCall := []
  /-- The continuation points that came. -/
  received : List ContinuationPoint := []
  /-- The range that was asked for first. -/
  query : DateTimeRange := ⟨.null, .null⟩
  /-- Up to where the server has delivered the query. -/
  served : DateTime := .null
  /-- What the Good pages of the query cover. -/
  pages : List DateTimeRange := []

inductive PagedAction (V : Type) where
  | addObserver (observer : ObserverId) (range : DateTimeRange)
  | removeObserver (observer : ObserverId)
  | insertOrUpdate (value : DataValue V)
  | setNode (hasNode : Bool)
  /-- The server answers a read. -/
  | answer (details : HistoryReadRawDetails) (answer : HistoryAnswer V)
  /-- The observers have taken the new samples. -/
  | ready
  /-- The observers have taken that a range is ready. -/
  | finish

namespace PagedWorld

variable (I : IntervalUtil) (logged : Bool)

/-- A read without a continuation point is a new query. -/
def sendOne (w : PagedWorld V) (call : HistoryCall) : PagedWorld V :=
  match call with
  | .historyReadRaw details =>
      let w := { w with reads := details :: w.reads, calls := call :: w.calls }
      if details.continuationPoint = none then
        { w with query := ⟨details.fromTime, details.toTime⟩, served := details.fromTime, pages := [] }
      else w
  | .cancelHistory _ => { w with calls := call :: w.calls }

def send (w : PagedWorld V) (calls : List HistoryCall) : PagedWorld V :=
  calls.foldl sendOne w

def fetchNextGap (w : PagedWorld V) : Option (PagedWorld V) := do
  let (fetcher, calls) ← w.fetcher.fetchNextGap I w.buffer
  return { w with fetcher }.send calls

/-- A Good page covers the range up to its last sample; the last page the rest
of the query. -/
def deliver (w : PagedWorld V) (answer : HistoryAnswer V) : PagedWorld V :=
  if answer.isGood then
    match answer.continuationPoint with
    | none =>
        { w with served := w.query.second, pages := ⟨w.served, w.query.second⟩ :: w.pages }
    | some _ =>
        match answer.values.getLast? with
        | none => w
        | some back =>
            { w with served := back.timestamp, pages := ⟨w.served, back.timestamp⟩ :: w.pages }
  else w

/-- Observers ask for ranges that `AddObserver` accepts. -/
def enabled (w : PagedWorld V) : PagedAction V → Prop
  | .addObserver _ range => range.second ≠ .null ∧ I.isValidInterval range = true ∧
      (range.first = .max ∨ I.isEmptyInterval range = false)
  | .answer details _ => details ∈ w.reads ∧ w.completion.isNone = true
  | .ready => w.completion.any (·.phase = .notifyingUpdates) = true
  | .finish => w.completion.any (·.phase = .notifyingReady) = true
  | _ => True

instance (w : PagedWorld V) (a : PagedAction V) : Decidable (w.enabled I a) := by
  unfold enabled
  split <;> infer_instance

def step (w : PagedWorld V) : PagedAction V → Option (PagedWorld V)
  | .addObserver observer range => do
      let buffer ← w.buffer.addObserver I observer range
      { w with buffer }.fetchNextGap I
  | .removeObserver observer => do
      let buffer ← w.buffer.removeObserver I observer
      { w with buffer }.fetchNextGap I
  | .insertOrUpdate value => some { w with buffer := (w.buffer.insertOrUpdate value).1 }
  | .setNode hasNode => some { w with fetcher := { w.fetcher with hasNode } }
  | .answer details answer => do
      let buffer ← w.fetcher.replaceValues w.buffer answer.values
      return { w.deliver answer with
        buffer
        reads := w.reads.erase details
        completion :=
          some ⟨.notifyingUpdates, answer.values, .ofResponse answer.continuationPoint⟩
        received := answer.continuationPoint.toList ++ w.received }
  | .ready => do
      let c ← w.completion
      let (fetcher, buffer) := w.fetcher.addReady I w.buffer c.values c.point.held.head?
      return { w with fetcher, buffer, completion := some { c with phase := .notifyingReady } }
  | .finish => do
      let c ← w.completion
      let (fetcher, calls) ←
        if c.point.empty then w.fetcher.finishRead I w.buffer none
        else w.fetcher.continueRead I logged w.buffer c.point
      return { w with fetcher, completion := none }.send calls

end PagedWorld

def pagedMachine (I : IntervalUtil) (logged : Bool) : Machine (PagedWorld V) (PagedAction V) :=
  ⟨{}, PagedWorld.enabled I, PagedWorld.step I logged⟩

instance (I : IntervalUtil) (logged : Bool) (w : PagedWorld V) (a : PagedAction V) :
    Decidable ((pagedMachine I logged).enabled w a) :=
  inferInstanceAs (Decidable (w.enabled I a))

/-! ## §3  What the fetcher keeps -/

namespace PagedWorld

variable {I : IntervalUtil} {logged : Bool} {w w' : PagedWorld V} {c : PagedCompletion V}

/-- One read is outstanding or being completed while the fetcher is querying,
and none otherwise. -/
structure PagedInv (I : IntervalUtil) (w : PagedWorld V) : Prop where
  buffer : BufferInv I w.buffer
  busy : w.reads.length + w.completion.toList.length = if w.fetcher.querying then 1 else 0
  range : w.fetcher.querying = true →
    w.fetcher.queryingRange.first ≤ w.fetcher.queryingRange.second
  point : ∀ c ∈ w.completion, c.point.Valid

/-- While a read is completed the fetcher is querying, and no read is out. -/
theorem PagedInv.completing (h : PagedInv I w) {c : PagedCompletion V}
    (hc : w.completion = some c) : w.fetcher.querying = true ∧ w.reads = [] := by
  have hbusy := h.busy
  rw [hc] at hbusy
  split at hbusy
  · rename_i hquerying
    refine ⟨hquerying, List.length_eq_zero_iff.mp ?_⟩
    simpa using hbusy
  · simp at hbusy

/-- While a read is out the fetcher is querying, and none is completed. -/
theorem PagedInv.waiting (h : PagedInv I w) {details : HistoryReadRawDetails}
    (hmem : details ∈ w.reads) : w.fetcher.querying = true ∧ w.reads = [details] := by
  have hbusy := h.busy
  have hpos := List.length_pos_of_mem hmem
  split at hbusy
  · rename_i hquerying
    have hone : w.reads.length = 1 := by omega
    obtain ⟨details', hreads⟩ := List.length_eq_one_iff.mp hone
    rw [hreads] at hmem
    rw [List.mem_singleton.mp hmem]
    exact ⟨hquerying, hreads⟩
  · omega

/-- A read of a gap is sent. -/
def startQuery (w : PagedWorld V) (gap : DateTimeRange) : PagedWorld V :=
  { w with
    fetcher := { w.fetcher with querying := true, queryingRange := gap }
    reads := ⟨gap.first, gap.second, kMaxReadCount, none⟩ :: w.reads
    calls := .historyReadRaw ⟨gap.first, gap.second, kMaxReadCount, none⟩ :: w.calls
    query := gap
    served := gap.first
    pages := [] }

/-- The fetcher is done with a read; what is left of it is released. -/
def endQuery (w : PagedWorld V) (continuationPoints : List ContinuationPoint) : PagedWorld V :=
  { w with
    fetcher := { w.fetcher with querying := false }
    completion := none }.send (continuationPoints.map HistoryCall.cancelHistory)

/-- The next page is asked for. -/
def continueQuery (w : PagedWorld V) (continuationPoint : ContinuationPoint) : PagedWorld V :=
  let details : HistoryReadRawDetails :=
    ⟨w.fetcher.queryingRange.second, w.fetcher.queryingRange.first, kMaxReadCount,
      some continuationPoint⟩
  { w with
    completion := none
    reads := details :: w.reads
    calls := .historyReadRaw details :: w.calls }

theorem send_cancel (w : PagedWorld V) (continuationPoints : List ContinuationPoint) :
    w.send (continuationPoints.map HistoryCall.cancelHistory) =
      { w with calls := (continuationPoints.map HistoryCall.cancelHistory).reverse ++ w.calls } := by
  induction continuationPoints generalizing w with
  | nil => rfl
  | cons c continuationPoints ih =>
      show (w.sendOne (.cancelHistory c)).send (continuationPoints.map HistoryCall.cancelHistory) = _
      rw [ih, List.map_cons, List.reverse_cons, List.append_assoc]
      rfl

theorem send_append (w : PagedWorld V) (calls calls' : List HistoryCall) :
    w.send (calls ++ calls') = (w.send calls).send calls' :=
  List.foldl_append

/-- Who looks for the next gap after the end of a query sends both. -/
theorem fetchNextGap_endQuery (I : IntervalUtil) (w : PagedWorld V)
    (continuationPoints : List ContinuationPoint) :
    (w.endQuery continuationPoints).fetchNextGap I =
      (TimedDataFetcher.fetchNextGap I { w.fetcher with querying := false } w.buffer).bind fun r =>
        some ({ w with fetcher := r.1, completion := none }.send
          (continuationPoints.map HistoryCall.cancelHistory ++ r.2)) := by
  unfold PagedWorld.fetchNextGap endQuery
  rw [send_cancel]
  dsimp only
  cases TimedDataFetcher.fetchNextGap I { w.fetcher with querying := false } w.buffer with
  | none => rfl
  | some r =>
      obtain ⟨fetcher, calls⟩ := r
      simp only [Option.bind_eq_bind, Option.bind_some, send_append]
      rw [send_cancel]
      rfl

/-- **What `FetchNextGap` does**: nothing, or it sends a read of the gap. -/
theorem fetchNextGap_cases (h : BufferInv I w.buffer) (hI : I.Merges) :
    w.fetchNextGap I = some (
      if w.fetcher.querying = true ∨ w.fetcher.hasNode = false then w
      else match firstGap w.buffer.observedRanges w.buffer.readyRanges with
        | none => w
        | some gap => w.startQuery gap) := by
  unfold PagedWorld.fetchNextGap TimedDataFetcher.fetchNextGap
  by_cases hquerying : w.fetcher.querying = true
  · rw [if_pos hquerying, if_pos (Or.inl hquerying)]
    rfl
  · rw [if_neg hquerying]
    cases hnode : w.fetcher.hasNode with
    | false =>
        rw [if_pos (Or.inr rfl)]
        rfl
    | true =>
        have hidle : ¬ (w.fetcher.querying = true ∨ true = false) := by simp [hquerying]
        rw [if_neg hidle, if_neg (by simp), h.findNextGap]
        cases hgap : firstGap w.buffer.observedRanges w.buffer.readyRanges with
        | none => rfl
        | some gap =>
            have hnonempty : I.isEmptyInterval gap = false := by
              rw [← Bool.not_eq_true, I.isEmpty_iff]
              exact (h.gap_lt hI hgap).ne
            simp only [Option.bind_some, TimedDataFetcher.query, check_of hnonempty]
            rfl

/-- What `FetchMore` does with the point of a page. -/
theorem continueRead_eq {fetcher : TimedDataFetcher} {buffer : TimedDataBuffer V}
    {point : ScopedContinuationPoint} (hbuffer : BufferInv I buffer)
    (hquerying : fetcher.querying = true) (hvalid : point.Valid) (hempty : point.empty = false) :
    fetcher.continueRead I logged buffer point =
      let gap := firstGap buffer.observedRanges buffer.readyRanges
      let calls := point.held.map HistoryCall.cancelHistory
      if fetcher.hasNode = false then some ({ fetcher with querying := false }, calls)
      else if gap.any (I.intervalContains · fetcher.queryingRange) = false then
        if logged = true ∧ gap = none then none
        else (TimedDataFetcher.fetchNextGap I { fetcher with querying := false } buffer).map
          fun r => (r.1, calls ++ r.2)
      else point.held.head?.map fun continuationPoint =>
        (fetcher, [.historyReadRaw ⟨fetcher.queryingRange.second, fetcher.queryingRange.first,
          kMaxReadCount, some continuationPoint⟩]) := by
  unfold TimedDataFetcher.continueRead
  rw [check_of hquerying, check_of hempty]
  dsimp only [Option.bind_eq_bind, Option.bind_some]
  by_cases hnode : fetcher.hasNode = false
  · have hdeleted : (!fetcher.hasNode) = true := by rw [hnode]; rfl
    rw [if_pos hnode, if_pos hdeleted, hvalid.destroy]
    rfl
  · have hdeleted : ¬ (!fetcher.hasNode) = true := by simpa using hnode
    rw [if_neg hnode, if_neg hdeleted, hbuffer.findNextGap]
    dsimp only [Option.bind_some]
    -- Where the gap has moved or closed the point goes back to the server.
    by_cases hcontains : (firstGap buffer.observedRanges buffer.readyRanges).any
        (I.intervalContains · fetcher.queryingRange) = false
    · rw [if_pos hcontains, if_pos (by rw [hcontains]; rfl)]
      obtain ⟨p', hreset, -⟩ := hvalid.reset
      rw [hreset]
      by_cases hlog : logged = true ∧ firstGap buffer.observedRanges buffer.readyRanges = none
      · have hcheck : check (logged = true →
            (firstGap buffer.observedRanges buffer.readyRanges).isSome = true) = none := by
          simp [check, hlog]
        rw [if_pos hlog, hcheck]
        rfl
      · have hsome : logged = true →
            (firstGap buffer.observedRanges buffer.readyRanges).isSome = true := by
          intro hlogged
          rw [Option.isSome_iff_ne_none]
          exact fun hnone => hlog ⟨hlogged, hnone⟩
        rw [if_neg hlog, check_of hsome]
        cases TimedDataFetcher.fetchNextGap I { fetcher with querying := false } buffer with
        | none => rfl
        | some r => rfl
    · obtain ⟨continuationPoint, hrelease, hheld⟩ := hvalid.release hempty
      rw [if_neg hcontains, if_neg (by simpa using hcontains), hrelease, hheld]
      rfl

/-- **The end of a completion.** -/
theorem step_finish (h : PagedInv I w) (hc : w.completion = some c) :
    w.step I logged .finish =
      if c.point.empty then (w.endQuery []).fetchNextGap I
      else if w.fetcher.hasNode = false then some (w.endQuery c.point.held)
      else
        let gap := firstGap w.buffer.observedRanges w.buffer.readyRanges
        if gap.any (I.intervalContains · w.fetcher.queryingRange) = false then
          if logged = true ∧ gap = none then none
          else (w.endQuery c.point.held).fetchNextGap I
        else c.point.held.head?.map w.continueQuery := by
  have hstep : w.step I logged .finish = (if c.point.empty then w.fetcher.finishRead I w.buffer none
      else w.fetcher.continueRead I logged w.buffer c.point).bind fun r =>
        some ({ w with fetcher := r.1, completion := none }.send r.2) := by
    unfold PagedWorld.step
    dsimp only
    rw [hc]
    dsimp only [Option.bind_eq_bind, Option.bind_some]
    split <;> rfl
  rw [hstep]
  by_cases hempty : c.point.empty = true
  · rw [if_pos hempty, if_pos hempty, fetchNextGap_endQuery]
    rfl
  · rw [if_neg hempty, if_neg hempty, continueRead_eq h.buffer (h.completing hc).1 (h.point c hc)
      (by simpa using hempty)]
    dsimp only
    split
    · rfl
    · split
      · split
        · rfl
        · rw [fetchNextGap_endQuery]
          cases TimedDataFetcher.fetchNextGap I { w.fetcher with querying := false } w.buffer with
          | none => rfl
          | some r => rfl
      · cases c.point.held <;> rfl

end PagedWorld

/-! ## §4  The steps -/

namespace PagedWorld

variable {I : IntervalUtil} {logged : Bool} {w w' : PagedWorld V} {a : PagedAction V}

/-- Whoever looks for a gap leaves the fetcher as it is, or sends a read. -/
theorem fetchNextGap_induct {P : PagedWorld V → Prop} (h : BufferInv I w.buffer) (hI : I.Merges)
    (hs : w.fetchNextGap I = some w') (hw : P w)
    (hstart : ∀ gap, w.fetcher.querying = false → gap.first < gap.second → P (w.startQuery gap)) :
    P w' := by
  rw [fetchNextGap_cases h hI] at hs
  cases hs
  split
  · exact hw
  · rename_i hidle
    rw [not_or, Bool.not_eq_true] at hidle
    cases hgap : firstGap w.buffer.observedRanges w.buffer.readyRanges with
    | none => exact hw
    | some gap => exact hstart gap hidle.1 (h.gap_lt hI hgap)

theorem exists_fetchNextGap (h : BufferInv I w.buffer) (hI : I.Merges) :
    ∃ w', w.fetchNextGap I = some w' :=
  ⟨_, fetchNextGap_cases h hI⟩

theorem PagedInv.init : PagedInv I ({} : PagedWorld V) where
  buffer := BufferInv.init
  busy := rfl
  range := by
    intro h
    cases h
  point := by
    rintro c ⟨⟩

theorem PagedInv.withBuffer (h : PagedInv I w) {buffer : TimedDataBuffer V}
    (hbuffer : BufferInv I buffer) : PagedInv I { w with buffer } :=
  ⟨hbuffer, h.busy, h.range, h.point⟩

theorem PagedInv.startQuery (h : PagedInv I w) (hidle : w.fetcher.querying = false)
    {gap : DateTimeRange} (hgap : gap.first < gap.second) : PagedInv I (w.startQuery gap) where
  buffer := h.buffer
  busy := by
    have hbusy := h.busy
    rw [hidle, if_neg (by simp)] at hbusy
    show (_ :: w.reads).length + w.completion.toList.length = if true = true then 1 else 0
    rw [if_pos rfl, List.length_cons]
    omega
  range := fun _ => hgap.le
  point := h.point

theorem PagedInv.fetchNextGap (h : PagedInv I w) (hI : I.Merges)
    (hs : w.fetchNextGap I = some w') : PagedInv I w' :=
  fetchNextGap_induct h.buffer hI hs h fun _ hidle hgap => h.startQuery hidle hgap

theorem PagedInv.endQuery (h : PagedInv I w) {c : PagedCompletion V}
    (hc : w.completion = some c) (continuationPoints : List ContinuationPoint) :
    PagedInv I (w.endQuery continuationPoints) := by
  unfold PagedWorld.endQuery
  rw [send_cancel]
  refine ⟨h.buffer, ?_, ?_, ?_⟩
  · show w.reads.length + 0 = 0
    rw [(h.completing hc).2, List.length_nil]
  · intro hquerying
    cases hquerying
  · rintro c ⟨⟩

theorem PagedInv.continueQuery (h : PagedInv I w) {c : PagedCompletion V}
    (hc : w.completion = some c) (continuationPoint : ContinuationPoint) :
    PagedInv I (w.continueQuery continuationPoint) where
  buffer := h.buffer
  busy := by
    obtain ⟨hquerying, hreads⟩ := h.completing hc
    show (_ :: w.reads).length + 0 = if w.fetcher.querying = true then 1 else 0
    rw [if_pos hquerying, hreads, List.length_singleton]
  range := h.range
  point := by
    rintro c ⟨⟩

theorem step_addObserver (logged : Bool) (h : PagedInv I w) {observer : ObserverId} {range : DateTimeRange}
    (hen : w.enabled I (.addObserver observer range)) :
    ∃ buffer, BufferInv I buffer ∧
      (∀ time, Covers buffer.readyRanges time → Covers w.buffer.readyRanges time) ∧
      w.step I logged (.addObserver observer range) = { w with buffer }.fetchNextGap I := by
  obtain ⟨buffer, hadd, hbuffer, hready⟩ := h.buffer.addObserver observer hen.1 hen.2.1
    hen.2.2
  refine ⟨buffer, hbuffer, hready, ?_⟩
  unfold PagedWorld.step
  dsimp only
  rw [hadd]
  rfl

theorem step_removeObserver (logged : Bool) (h : PagedInv I w) (observer : ObserverId) :
    ∃ buffer, BufferInv I buffer ∧
      (∀ time, Covers buffer.readyRanges time → Covers w.buffer.readyRanges time) ∧
      w.step I logged (.removeObserver observer) = { w with buffer }.fetchNextGap I := by
  obtain ⟨buffer, hremove, hbuffer, hready⟩ := h.buffer.removeObserver observer
  refine ⟨buffer, hbuffer, hready, ?_⟩
  unfold PagedWorld.step
  dsimp only
  rw [hremove]
  rfl

/-- The state after an answer whose page left the buffer `buffer`. -/
def answered (w : PagedWorld V) (details : HistoryReadRawDetails) (answer : HistoryAnswer V)
    (buffer : TimedDataBuffer V) : PagedWorld V :=
  { w.deliver answer with
    buffer
    reads := w.reads.erase details
    completion := some ⟨.notifyingUpdates, answer.values, .ofResponse answer.continuationPoint⟩
    received := answer.continuationPoint.toList ++ w.received }

theorem step_answer (logged : Bool) (h : PagedInv I w) {details : HistoryReadRawDetails} {answer : HistoryAnswer V}
    (hen : w.enabled I (.answer details answer)) :
    ∃ buffer, BufferInv I buffer ∧
      (∀ time, Covers buffer.readyRanges time → Covers w.buffer.readyRanges time) ∧
      w.step I logged (.answer details answer) = some (w.answered details answer buffer) := by
  obtain ⟨buffer, hreplace, hbuffer, hready⟩ :=
    h.buffer.replaceRange (TimedDataFetcher.receivedValues answer.values)
  refine ⟨buffer, hbuffer, hready, ?_⟩
  unfold PagedWorld.step TimedDataFetcher.replaceValues
  dsimp only
  rw [check_of (h.waiting hen.1).1]
  dsimp only [Option.bind_eq_bind, Option.bind_some]
  rw [hreplace]
  rfl

theorem deliver_fetcher (w : PagedWorld V) (answer : HistoryAnswer V) :
    (w.deliver answer).fetcher = w.fetcher ∧ (w.deliver answer).calls = w.calls ∧
      (w.deliver answer).query = w.query := by
  unfold deliver
  split
  · split
    · exact ⟨rfl, rfl, rfl⟩
    · split <;> exact ⟨rfl, rfl, rfl⟩
  · exact ⟨rfl, rfl, rfl⟩

theorem PagedInv.answered (h : PagedInv I w) {details : HistoryReadRawDetails}
    {answer : HistoryAnswer V} (hen : w.enabled I (.answer details answer))
    {buffer : TimedDataBuffer V} (hbuffer : BufferInv I buffer) :
    PagedInv I (w.answered details answer buffer) where
  buffer := hbuffer
  busy := by
    obtain ⟨hquerying, hreads⟩ := h.waiting hen.1
    show (w.reads.erase details).length + 1 = if (w.deliver answer).fetcher.querying = true then 1 else 0
    rw [(deliver_fetcher w answer).1, if_pos hquerying, hreads, List.erase_cons_head,
      List.length_nil]
  range := by
    show (w.deliver answer).fetcher.querying = true → _
    rw [PagedWorld.answered]
    dsimp only
    rw [(deliver_fetcher w answer).1]
    exact h.range
  point := by
    rintro c ⟨⟩
    exact ScopedContinuationPoint.valid_ofResponse answer.continuationPoint

/-- The state after the notification of new samples. -/
def readied (I : IntervalUtil) (w : PagedWorld V) (c : PagedCompletion V) : PagedWorld V :=
  let r := w.fetcher.addReady I w.buffer c.values c.point.held.head?
  { w with fetcher := r.1, buffer := r.2, completion := some { c with phase := .notifyingReady } }

theorem step_ready {c : PagedCompletion V} (hc : w.completion = some c) :
    w.step I logged .ready = some (w.readied I c) := by
  unfold PagedWorld.step
  dsimp only
  rw [hc]
  rfl

/-- **What a step does** that does not fail. -/
inductive Moves (I : IntervalUtil) (w : PagedWorld V) : PagedAction V → PagedWorld V → Prop
  | observed {a : PagedAction V} {buffer : TimedDataBuffer V} {w' : PagedWorld V} :
      (∀ hasNode, a ≠ .setNode hasNode) → BufferInv I buffer →
      (∀ time, Covers buffer.readyRanges time → Covers w.buffer.readyRanges time) →
      { w with buffer }.fetchNextGap I = some w' → Moves I w a w'
  | inserted (value : DataValue V) :
      Moves I w (.insertOrUpdate value) { w with buffer := (w.buffer.insertOrUpdate value).1 }
  | nodeSet (hasNode : Bool) :
      Moves I w (.setNode hasNode) { w with fetcher := { w.fetcher with hasNode } }
  | answered {details : HistoryReadRawDetails} {answer : HistoryAnswer V}
      {buffer : TimedDataBuffer V} : BufferInv I buffer →
      (∀ time, Covers buffer.readyRanges time → Covers w.buffer.readyRanges time) →
      Moves I w (.answer details answer) (w.answered details answer buffer)
  | readied {c : PagedCompletion V} : w.completion = some c → c.phase = .notifyingUpdates →
      Moves I w .ready (w.readied I c)
  /-- The query is over or cancelled, and the next gap is looked for. -/
  | ended {c : PagedCompletion V} {w' : PagedWorld V} : w.completion = some c →
      (w.endQuery c.point.held).fetchNextGap I = some w' → Moves I w .finish w'
  /-- The node is gone. -/
  | dropped {c : PagedCompletion V} : w.completion = some c → w.fetcher.hasNode = false →
      Moves I w .finish (w.endQuery c.point.held)
  | continued {c : PagedCompletion V} {continuationPoint : ContinuationPoint} :
      w.completion = some c → c.point.held = [continuationPoint] →
      Moves I w .finish (w.continueQuery continuationPoint)

theorem PagedInv.moves_finish (h : PagedInv I w) {c : PagedCompletion V}
    (hc : w.completion = some c) (hs : w.step I logged .finish = some w') :
    Moves I w .finish w' := by
  rw [step_finish h hc] at hs
  by_cases hempty : c.point.empty = true
  -- The last page: no point, so nothing to give back.
  · have hheld : c.point.held = [] := by
      have hservice : ¬ c.point.hasService = true := by
        simpa [ScopedContinuationPoint.empty] using hempty
      exact if_neg hservice
    rw [if_pos hempty, ← hheld] at hs
    exact .ended hc hs
  · rw [if_neg hempty] at hs
    by_cases hnode : w.fetcher.hasNode = false
    · rw [if_pos hnode] at hs
      cases hs
      exact .dropped hc hnode
    · rw [if_neg hnode] at hs
      dsimp only at hs
      split at hs
      · split at hs
        · cases hs
        · exact .ended hc hs
      · obtain ⟨continuationPoint, -, hheld⟩ := (h.point c hc).release (by simpa using hempty)
        rw [hheld] at hs
        cases hs
        exact .continued hc hheld

theorem PagedInv.moves (h : PagedInv I w) (hen : w.enabled I a)
    (hs : w.step I logged a = some w') : Moves I w a w' := by
  cases a with
  | addObserver observer range =>
      obtain ⟨buffer, hbuffer, hready, hstep⟩ := step_addObserver logged h hen
      rw [hstep] at hs
      exact .observed (by rintro hasNode ⟨⟩) hbuffer hready hs
  | removeObserver observer =>
      obtain ⟨buffer, hbuffer, hready, hstep⟩ := step_removeObserver logged h observer
      rw [hstep] at hs
      exact .observed (by rintro hasNode ⟨⟩) hbuffer hready hs
  | insertOrUpdate value =>
      cases hs
      exact .inserted value
  | setNode hasNode =>
      cases hs
      exact .nodeSet hasNode
  | answer details answer =>
      obtain ⟨buffer, hbuffer, hready, hstep⟩ := step_answer logged h hen
      rw [hstep] at hs
      cases hs
      exact .answered hbuffer hready
  | ready =>
      obtain ⟨c, hc, hphase⟩ := (Option.any_eq_true _ _).mp hen
      rw [step_ready hc] at hs
      cases hs
      exact .readied hc (of_decide_eq_true hphase)
  | finish =>
      obtain ⟨c, hc, -⟩ := (Option.any_eq_true _ _).mp hen
      exact h.moves_finish hc hs

theorem readyTo_mem {fetcher : TimedDataFetcher} {values : List (DataValue V)}
    {continuationPoint : Option ContinuationPoint}
    (hle : fetcher.queryingRange.first ≤ fetcher.queryingRange.second)
    (hne : fetcher.readyTo values continuationPoint ≠ .null) :
    fetcher.queryingRange.first ≤ fetcher.readyTo values continuationPoint ∧
      fetcher.readyTo values continuationPoint ≤ fetcher.queryingRange.second := by
  unfold TimedDataFetcher.readyTo at hne ⊢
  cases continuationPoint with
  | none => exact ⟨hle, le_rfl⟩
  | some continuationPoint =>
      cases hlast : values.getLast? with
      | none =>
          rw [hlast] at hne
          exact absurd rfl hne
      | some back => exact ⟨le_max_left .., max_le hle (min_le_right ..)⟩

theorem PagedInv.readied (h : PagedInv I w) (hI : I.Merges) {c : PagedCompletion V}
    (hc : w.completion = some c) : PagedInv I (w.readied I c) := by
  have hquerying := (h.completing hc).1
  have hbusy := h.busy
  rw [hc] at hbusy
  unfold PagedWorld.readied TimedDataFetcher.addReady
  dsimp only
  split
  · refine ⟨h.buffer, hbusy, h.range, ?_⟩
    rintro _ ⟨⟩
    exact h.point c hc
  · rename_i hne
    obtain ⟨hfirst, hsecond⟩ := readyTo_mem (h.range hquerying) hne
    refine ⟨h.buffer.addReadyRange hI hfirst, hbusy, fun _ => hsecond, ?_⟩
    rintro _ ⟨⟩
    exact h.point c hc

/-- The log statement of a cancelled query reads a gap; this one is there. -/
def LogsGap (logged : Bool) (w : PagedWorld V) : Prop :=
  logged = true → w.fetcher.hasNode = true →
    w.completion.any (!·.point.empty) = true → w.buffer.HasGap

instance (logged : Bool) (w : PagedWorld V) : Decidable (w.LogsGap logged) := by
  unfold LogsGap
  infer_instance

/-- **Steps keep the invariant.** -/
theorem PagedInv.of_step (h : PagedInv I w) (hI : I.Merges) (hen : w.enabled I a)
    (hs : w.step I logged a = some w') : PagedInv I w' := by
  cases h.moves hen hs with
  | observed _ hbuffer _ hs => exact (h.withBuffer hbuffer).fetchNextGap hI hs
  | inserted value => exact h.withBuffer (h.buffer.insertOrUpdate value)
  | nodeSet hasNode => exact ⟨h.buffer, h.busy, h.range, h.point⟩
  | answered hbuffer _ => exact h.answered hen hbuffer
  | readied hc _ => exact h.readied hI hc
  | ended hc hs => exact (h.endQuery hc _).fetchNextGap hI hs
  | dropped hc _ => exact h.endQuery hc _
  | continued hc _ => exact h.continueQuery hc _

theorem PagedInv.exists_finish (h : PagedInv I w) (hI : I.Merges) {c : PagedCompletion V}
    (hc : w.completion = some c) (hlog : w.LogsGap logged) :
    ∃ w', w.step I logged .finish = some w' := by
  have hfetch : ∀ continuationPoints, ∃ w', (w.endQuery continuationPoints).fetchNextGap I = some w' :=
    fun continuationPoints => exists_fetchNextGap (h.endQuery hc continuationPoints).buffer hI
  rw [step_finish h hc]
  by_cases hempty : c.point.empty = true
  · rw [if_pos hempty]
    exact hfetch []
  · rw [if_neg hempty]
    by_cases hnode : w.fetcher.hasNode = false
    · rw [if_pos hnode]
      exact ⟨_, rfl⟩
    · rw [if_neg hnode]
      dsimp only
      split
      · rw [if_neg]
        · exact hfetch c.point.held
        · rintro ⟨hlogged, hnone⟩
          refine (h.buffer.hasGap_iff hI).mp (hlog hlogged (by simpa using hnode) ?_) hnone
          rw [hc]
          simpa using hempty
      · obtain ⟨continuationPoint, -, hheld⟩ :=
          (h.point c hc).release (by simpa using hempty)
        rw [hheld]
        exact ⟨_, rfl⟩

theorem PagedInv.exists_step (h : PagedInv I w) (hI : I.Merges) (hen : w.enabled I a)
    (hlog : a = .finish → w.LogsGap logged) : ∃ w', w.step I logged a = some w' := by
  cases a with
  | addObserver observer range =>
      obtain ⟨buffer, hbuffer, -, hstep⟩ := step_addObserver logged h hen
      rw [hstep]
      exact exists_fetchNextGap hbuffer hI
  | removeObserver observer =>
      obtain ⟨buffer, hbuffer, -, hstep⟩ := step_removeObserver logged h observer
      rw [hstep]
      exact exists_fetchNextGap hbuffer hI
  | insertOrUpdate value => exact ⟨_, rfl⟩
  | setNode hasNode => exact ⟨_, rfl⟩
  | answer details answer =>
      obtain ⟨buffer, -, -, hstep⟩ := step_answer logged h hen
      exact ⟨_, hstep⟩
  | ready =>
      obtain ⟨c, hc, -⟩ := (Option.any_eq_true _ _).mp hen
      exact ⟨_, step_ready hc⟩
  | finish =>
      obtain ⟨c, hc, -⟩ := (Option.any_eq_true _ _).mp hen
      exact h.exists_finish hI hc (hlog rfl)

/-- A `finish` that logs a gap that is not there fails. -/
theorem PagedInv.logsGap_of_step (h : PagedInv I w) (hI : I.Merges)
    (hs : w.step I logged .finish = some w') : w.LogsGap logged := by
  intro hlogged hnode hany
  obtain ⟨c, hc, hne⟩ := (Option.any_eq_true _ _).mp hany
  by_contra hgap
  rw [h.buffer.hasGap_iff hI, not_not] at hgap
  rw [step_finish h hc, if_neg (by simpa using hne), if_neg (by simp [hnode]), hgap] at hs
  dsimp only [Option.any_none] at hs
  rw [if_pos rfl, if_pos ⟨hlogged, rfl⟩] at hs
  cases hs

end PagedWorld

end ScadaCommon
