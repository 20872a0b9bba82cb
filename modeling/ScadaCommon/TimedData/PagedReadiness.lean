import ScadaCommon.TimedData.PagedHistory

/-!
# What pages make ready

A page makes the range up to its last sample ready, the last page of a read all
of the rest. Whether the read failed is not looked at, so the values and the
continuation point of a failed read decide what it makes ready. A continuation
request names the ends of the rest the other way round than the first read.

§1 the server · §2 what the fetcher takes for delivered · §3 soundness.
-/

namespace ScadaCommon

open Foundation TimedDataBuffer

variable {V : Type}

namespace PagedWorld

/-! ## §1  The server -/

/-- A Good page is in the order of time, and within what is still to deliver. -/
def Serves (w : PagedWorld V) : PagedAction V → Prop
  | .answer _ answer => answer.isGood = true →
      answer.values.Pairwise (·.timestamp ≤ ·.timestamp) ∧
        ∀ v ∈ answer.values, w.served ≤ v.timestamp ∧ v.timestamp ≤ w.query.second
  | _ => True

instance (w : PagedWorld V) (a : PagedAction V) : Decidable (w.Serves a) := by
  apply PagedAction.casesOn (motive := fun a => Decidable (w.Serves a)) a <;>
    intros <;> unfold Serves <;> infer_instance

/-- What a failed read brings does not reach beyond what was delivered: all is
delivered already, or it has a continuation point and no sample beyond. -/
def Delivers (w : PagedWorld V) : PagedAction V → Prop
  | .answer _ answer => answer.isGood = true ∨ (w.pages ≠ [] ∧ w.served = w.query.second) ∨
      (answer.continuationPoint ≠ none ∧ ∀ v ∈ answer.values, v.serverTimestamp ≠ .null →
        w.pages ≠ [] ∧ v.timestamp ≤ w.served)
  | _ => True

instance (w : PagedWorld V) (a : PagedAction V) : Decidable (w.Delivers a) := by
  apply PagedAction.casesOn (motive := fun a => Decidable (w.Delivers a)) a <;>
    intros <;> unfold Delivers <;> infer_instance

/-! ## §2  What the fetcher takes for delivered -/

theorem mem_of_mem_receivedValues {values : List (DataValue V)} {v : DataValue V}
    (h : v ∈ TimedDataFetcher.receivedValues values) :
    v ∈ values ∧ v.serverTimestamp ≠ .null := by
  have hfilter : ∀ u ∈ values.filter (·.serverTimestamp ≠ .null),
      u ∈ values ∧ u.serverTimestamp ≠ .null := by
    intro u hu
    rw [List.mem_filter] at hu
    exact ⟨hu.1, of_decide_eq_true hu.2⟩
  unfold TimedDataFetcher.receivedValues at h
  dsimp only at h
  split at h
  · exact hfilter v h
  · exact hfilter v (List.mem_mergeSort.mp ((uniqueByTime_sublist _).subset h))

theorem timestamp_le_getLast {values : List (DataValue V)} {back v : DataValue V}
    (h : values.Pairwise (·.timestamp ≤ ·.timestamp)) (hlast : values.getLast? = some back)
    (hv : v ∈ values) : v.timestamp ≤ back.timestamp := by
  obtain ⟨front, rfl⟩ := List.getLast?_eq_some_iff.mp hlast
  rcases List.mem_append.mp hv with hv | hv
  · exact (List.pairwise_append.mp h).2.2 v hv back (List.mem_singleton_self _)
  · rw [List.mem_singleton.mp hv]

/-- A page does not make more ready than the time of all its samples. -/
theorem readyTo_le {fetcher : TimedDataFetcher} {values : List (DataValue V)}
    {continuationPoint : ContinuationPoint} {bound : DateTime}
    (hfirst : fetcher.queryingRange.first ≤ bound) (hvalues : ∀ v ∈ values, v.timestamp ≤ bound) :
    fetcher.readyTo values (some continuationPoint) ≠ .null →
      fetcher.readyTo values (some continuationPoint) ≤ bound ∧ values ≠ [] := by
  intro hne
  unfold TimedDataFetcher.readyTo at hne ⊢
  cases hlast : values.getLast? with
  | none =>
      rw [hlast] at hne
      exact absurd rfl hne
  | some back =>
      have hback := List.mem_of_getLast? hlast
      exact ⟨max_le hfirst ((min_le_left ..).trans (hvalues back hback)), List.ne_nil_of_mem hback⟩

/-- What the server has delivered of the query, against what the fetcher holds
for ready. -/
structure Delivered (w : PagedWorld V) : Prop where
  second : w.fetcher.queryingRange.second = w.query.second
  first : w.query.first ≤ w.fetcher.queryingRange.first
  first_le_served : w.fetcher.queryingRange.first ≤ w.served
  served_le : w.served ≤ w.query.second
  served_eq : w.pages = [] → w.served = w.query.first
  covers : w.pages ≠ [] → ∀ time, w.query.first ≤ time → time ≤ w.served → Covers w.pages time
  ready : ∀ c ∈ w.completion, c.phase = .notifyingUpdates →
    w.fetcher.readyTo (TimedDataFetcher.receivedValues c.values) c.point.held.head? ≠ .null →
      w.fetcher.readyTo (TimedDataFetcher.receivedValues c.values) c.point.held.head? ≤ w.served ∧
        w.pages ≠ []
  asks : ∀ details ∈ w.reads, details.continuationPoint ≠ none →
    details.fromTime = w.fetcher.queryingRange.second ∧
      details.toTime = w.fetcher.queryingRange.first

variable {I : IntervalUtil} {logged : Bool} {w w' : PagedWorld V} {a : PagedAction V}
  {c : PagedCompletion V}

theorem Delivered.withBuffer (h : w.Delivered) (buffer : TimedDataBuffer V) :
    Delivered { w with buffer } :=
  ⟨h.second, h.first, h.first_le_served, h.served_le, h.served_eq, h.covers, h.ready, h.asks⟩

theorem delivered_startQuery (hreads : w.reads = []) (hnone : w.completion = none)
    {gap : DateTimeRange} (hgap : gap.first < gap.second) : (w.startQuery gap).Delivered where
  second := rfl
  first := le_rfl
  first_le_served := le_rfl
  served_le := hgap.le
  served_eq := fun _ => rfl
  covers := fun hpages => absurd rfl hpages
  ready := by
    show ∀ c ∈ w.completion, _
    rw [hnone]
    rintro c ⟨⟩
  asks := by
    intro details hmem hne
    rw [PagedWorld.startQuery, hreads] at hmem
    rw [List.mem_singleton.mp hmem] at hne
    exact absurd rfl hne

theorem Delivered.continueQuery (h : w.Delivered) (hreads : w.reads = [])
    (continuationPoint : ContinuationPoint) : (w.continueQuery continuationPoint).Delivered where
  second := h.second
  first := h.first
  first_le_served := h.first_le_served
  served_le := h.served_le
  served_eq := h.served_eq
  covers := h.covers
  ready := by
    rintro c ⟨⟩
  asks := by
    intro details hmem _
    rw [PagedWorld.continueQuery, hreads] at hmem
    rw [List.mem_singleton.mp hmem]
    exact ⟨rfl, rfl⟩

theorem Delivered.readied (h : w.Delivered) (hreads : w.reads = []) (hc : w.completion = some c)
    (hphase : c.phase = .notifyingUpdates)
    (hrange : w.fetcher.queryingRange.first ≤ w.fetcher.queryingRange.second) :
    (w.readied I c).Delivered := by
  have hready := h.ready c hc hphase
  unfold PagedWorld.readied TimedDataFetcher.addReady
  dsimp only
  split
  · refine ⟨h.second, h.first, h.first_le_served, h.served_le, h.served_eq, h.covers, ?_, h.asks⟩
    rintro _ ⟨⟩ ⟨⟩
  · rename_i hne
    have hfirst := (readyTo_mem hrange hne).1
    refine ⟨h.second, h.first.trans hfirst, (hready hne).1, h.served_le, h.served_eq, h.covers,
      ?_, ?_⟩
    · rintro _ ⟨⟩ ⟨⟩
    · intro details hmem
      rw [hreads] at hmem
      cases hmem

/-- **What a page makes ready was delivered.** -/
theorem Delivered.covers_readied (h : w.Delivered) (hinv : PagedInv I w) (hI : I.Merges)
    (hc : w.completion = some c) (hphase : c.phase = .notifyingUpdates) {time : DateTime}
    (hcovers : Covers (w.readied I c).buffer.readyRanges time) :
    Covers w.buffer.readyRanges time ∨ Covers w.pages time := by
  have hready := h.ready c hc hphase
  unfold PagedWorld.readied TimedDataFetcher.addReady at hcovers
  dsimp only at hcovers
  split at hcovers
  · exact Or.inl hcovers
  · rename_i hne
    obtain ⟨hle, hpages⟩ := hready hne
    have hfirst := (readyTo_mem (hinv.range (hinv.completing hc).1) hne).1
    rcases hI.covers_union hinv.buffer.readyValid hfirst hcovers with hold | ⟨hlo, hhi⟩
    · exact Or.inl hold
    · exact Or.inr (h.covers hpages time (h.first.trans hlo) (hhi.trans hle))

/-! ### An answer -/

/-- A Good page that ends at `back` is delivered next. -/
theorem Delivered.covers_page (h : w.Delivered) {back time : DateTime}
    (hfirst : w.query.first ≤ time) (hback : time ≤ back) :
    Covers (⟨w.served, back⟩ :: w.pages) time := by
  rw [covers_cons]
  by_cases hserved : w.served ≤ time
  · exact Or.inl ⟨hserved, hback⟩
  · rw [not_le] at hserved
    by_cases hpages : w.pages = []
    · rw [h.served_eq hpages] at hserved
      exact absurd hfirst hserved.not_ge
    · exact Or.inr (h.covers hpages time hfirst hserved.le)

/-- What an answer must leave: the deliveries go on, and what it makes ready is
delivered. -/
structure Extends (w : PagedWorld V) (answer : HistoryAnswer V) : Prop where
  served_ge : w.served ≤ (w.deliver answer).served
  served_le : (w.deliver answer).served ≤ w.query.second
  served_eq : (w.deliver answer).pages = [] → (w.deliver answer).served = w.query.first
  covers : (w.deliver answer).pages ≠ [] → ∀ time, w.query.first ≤ time →
    time ≤ (w.deliver answer).served → Covers (w.deliver answer).pages time
  ready :
    w.fetcher.readyTo (TimedDataFetcher.receivedValues answer.values) answer.continuationPoint ≠
        .null →
      w.fetcher.readyTo (TimedDataFetcher.receivedValues answer.values) answer.continuationPoint ≤
          (w.deliver answer).served ∧
        (w.deliver answer).pages ≠ []

theorem Delivered.extends_unchanged (h : w.Delivered) {answer : HistoryAnswer V}
    (hdeliver : w.deliver answer = w)
    (hready : w.fetcher.readyTo (TimedDataFetcher.receivedValues answer.values)
        answer.continuationPoint ≠ .null →
      w.fetcher.readyTo (TimedDataFetcher.receivedValues answer.values) answer.continuationPoint ≤
          w.served ∧ w.pages ≠ []) : w.Extends answer where
  served_ge := by rw [hdeliver]
  served_le := by
    rw [hdeliver]
    exact h.served_le
  served_eq := by
    rw [hdeliver]
    exact h.served_eq
  covers := by
    rw [hdeliver]
    exact h.covers
  ready := by
    rw [hdeliver]
    exact hready

theorem Delivered.extends_last (h : w.Delivered) {answer : HistoryAnswer V}
    (hgood : answer.isGood = true) (hnone : answer.continuationPoint = none) :
    w.Extends answer := by
  have hdeliver : w.deliver answer =
      { w with served := w.query.second, pages := ⟨w.served, w.query.second⟩ :: w.pages } := by
    rw [deliver, if_pos hgood, hnone]
  refine ⟨?_, ?_, ?_, ?_, ?_⟩
  · rw [hdeliver]
    exact h.served_le
  · rw [hdeliver]
  · rw [hdeliver]
    rintro ⟨⟩
  · rw [hdeliver]
    intro _ time hfirst hsecond
    exact h.covers_page hfirst hsecond
  · intro _
    rw [hdeliver, hnone]
    exact ⟨h.second.le, List.cons_ne_nil _ _⟩

theorem Delivered.extends_page (h : w.Delivered) {details : HistoryReadRawDetails}
    {answer : HistoryAnswer V} (hserves : w.Serves (.answer details answer))
    (hgood : answer.isGood = true) {continuationPoint : ContinuationPoint}
    (hpoint : answer.continuationPoint = some continuationPoint) : w.Extends answer := by
  obtain ⟨hsorted, hrange⟩ := hserves hgood
  cases hlast : answer.values.getLast? with
  | none =>
      -- An empty page with a point makes nothing ready.
      have hdeliver : w.deliver answer = w := by
        rw [deliver, if_pos hgood, hpoint]
        dsimp only
        rw [hlast]
      refine h.extends_unchanged hdeliver ?_
      rw [List.getLast?_eq_none_iff.mp hlast, hpoint]
      intro hne
      exact absurd rfl hne
  | some back =>
      have hdeliver : w.deliver answer = { w with
          served := back.timestamp, pages := ⟨w.served, back.timestamp⟩ :: w.pages } := by
        rw [deliver, if_pos hgood, hpoint]
        dsimp only
        rw [hlast]
      have hback := List.mem_of_getLast? hlast
      obtain ⟨hge, hle⟩ := hrange back hback
      refine ⟨?_, ?_, ?_, ?_, ?_⟩
      · rw [hdeliver]
        exact hge
      · rw [hdeliver]
        exact hle
      · rw [hdeliver]
        rintro ⟨⟩
      · rw [hdeliver]
        intro _ time hfirst hsecond
        exact h.covers_page hfirst hsecond
      · intro hne
        rw [hpoint] at hne
        rw [hdeliver, hpoint]
        -- Ready up to a sample of the page, none of which is after its last one.
        refine ⟨(readyTo_le (h.first_le_served.trans hge) ?_ hne).1, List.cons_ne_nil _ _⟩
        intro v hv
        exact timestamp_le_getLast hsorted hlast (mem_of_mem_receivedValues hv).1

theorem Delivered.extends_failed (h : w.Delivered) {details : HistoryReadRawDetails}
    {answer : HistoryAnswer V} (hdelivers : w.Delivers (.answer details answer))
    (hrange : w.fetcher.queryingRange.first ≤ w.fetcher.queryingRange.second)
    (hbad : ¬ answer.isGood = true) : w.Extends answer := by
  refine h.extends_unchanged (if_neg hbad) ?_
  intro hne
  -- The status is dropped, so the failed read is taken for a page.
  rcases hdelivers with hgood | ⟨hpages, hserved⟩ | ⟨hpoint, hvalues⟩
  · exact absurd hgood hbad
  · refine ⟨(readyTo_mem hrange hne).2.trans ?_, hpages⟩
    rw [h.second, hserved]
  · obtain ⟨continuationPoint, hpoint⟩ := Option.ne_none_iff_exists'.mp hpoint
    rw [hpoint] at hne ⊢
    have hall : ∀ v ∈ TimedDataFetcher.receivedValues answer.values,
        w.pages ≠ [] ∧ v.timestamp ≤ w.served := by
      intro v hv
      obtain ⟨hmem, hserver⟩ := mem_of_mem_receivedValues hv
      exact hvalues v hmem hserver
    obtain ⟨hle, hsome⟩ := readyTo_le h.first_le_served (fun v hv => (hall v hv).2) hne
    obtain ⟨v, hv⟩ := List.exists_mem_of_ne_nil _ hsome
    exact ⟨hle, (hall v hv).1⟩

theorem Delivered.extends (h : w.Delivered) {details : HistoryReadRawDetails}
    {answer : HistoryAnswer V} (hserves : w.Serves (.answer details answer))
    (hdelivers : w.Delivers (.answer details answer))
    (hrange : w.fetcher.queryingRange.first ≤ w.fetcher.queryingRange.second) :
    w.Extends answer := by
  by_cases hgood : answer.isGood = true
  · cases hpoint : answer.continuationPoint with
    | none => exact h.extends_last hgood hpoint
    | some continuationPoint => exact h.extends_page hserves hgood hpoint
  · exact h.extends_failed hdelivers hrange hgood

/-! ## §3  Soundness -/

theorem Delivered.answered (h : w.Delivered) {details : HistoryReadRawDetails}
    (hreads : w.reads = [details])
    {answer : HistoryAnswer V} (hextends : w.Extends answer) (buffer : TimedDataBuffer V) :
    (w.answered details answer buffer).Delivered := by
  obtain ⟨hfetcher, -, hquery⟩ := deliver_fetcher w answer
  refine ⟨?_, ?_, ?_, ?_, ?_, ?_, ?_, ?_⟩
  · show (w.deliver answer).fetcher.queryingRange.second = (w.deliver answer).query.second
    rw [hfetcher, hquery]
    exact h.second
  · show (w.deliver answer).query.first ≤ (w.deliver answer).fetcher.queryingRange.first
    rw [hfetcher, hquery]
    exact h.first
  · show (w.deliver answer).fetcher.queryingRange.first ≤ (w.deliver answer).served
    rw [hfetcher]
    exact h.first_le_served.trans hextends.served_ge
  · show (w.deliver answer).served ≤ (w.deliver answer).query.second
    rw [hquery]
    exact hextends.served_le
  · show (w.deliver answer).pages = [] → (w.deliver answer).served = (w.deliver answer).query.first
    rw [hquery]
    exact hextends.served_eq
  · show (w.deliver answer).pages ≠ [] → ∀ time, (w.deliver answer).query.first ≤ time → _
    rw [hquery]
    exact hextends.covers
  · rintro _ ⟨⟩ _
    have hhead : (ScopedContinuationPoint.ofResponse answer.continuationPoint).held.head? =
        answer.continuationPoint := by
      rw [ScopedContinuationPoint.held_ofResponse]
      cases answer.continuationPoint <;> rfl
    rw [PagedWorld.answered]
    dsimp only
    rw [hfetcher, hhead]
    exact hextends.ready
  · intro details' hmem
    rw [PagedWorld.answered, hreads] at hmem
    dsimp only at hmem
    rw [List.erase_cons_head] at hmem
    cases hmem

/-- What a run keeps of the query that is under way. -/
def DeliveredInv (I : IntervalUtil) (w : PagedWorld V) : Prop :=
  PagedInv I w ∧ (w.fetcher.querying = true → w.Delivered)

theorem DeliveredInv.fetchNextGap (h : DeliveredInv I w) (hI : I.Merges)
    (hs : w.fetchNextGap I = some w') : DeliveredInv I w' := by
  refine fetchNextGap_induct h.1.buffer hI hs h ?_
  intro gap hidle hgap
  have hbusy := h.1.busy
  rw [hidle, if_neg (by simp)] at hbusy
  have hreads : w.reads = [] := List.length_eq_zero_iff.mp (by omega)
  have hnone : w.completion = none := by
    cases hc : w.completion with
    | none => rfl
    | some c =>
        rw [hc] at hbusy
        simp at hbusy
  exact ⟨h.1.startQuery hidle hgap, fun _ => delivered_startQuery hreads hnone hgap⟩

theorem DeliveredInv.withBuffer (h : DeliveredInv I w) {buffer : TimedDataBuffer V}
    (hbuffer : BufferInv I buffer) : DeliveredInv I { w with buffer } :=
  ⟨h.1.withBuffer hbuffer, fun hquerying => (h.2 hquerying).withBuffer buffer⟩

theorem DeliveredInv.endQuery (h : DeliveredInv I w) (hc : w.completion = some c)
    (continuationPoints : List ContinuationPoint) :
    DeliveredInv I (w.endQuery continuationPoints) := by
  refine ⟨h.1.endQuery hc continuationPoints, ?_⟩
  intro hquerying
  rw [PagedWorld.endQuery, send_cancel] at hquerying
  cases hquerying

/-- **A step keeps to what was delivered.** -/
theorem DeliveredInv.step (h : DeliveredInv I w) (hI : I.Merges) (hen : w.enabled I a)
    (hserves : w.Serves a) (hdelivers : w.Delivers a) (hs : w.step I logged a = some w') :
    DeliveredInv I w' := by
  have hinv := h.1.of_step hI hen hs
  cases h.1.moves hen hs with
  | observed _ hbuffer _ hs => exact (h.withBuffer hbuffer).fetchNextGap hI hs
  | inserted value => exact h.withBuffer (h.1.buffer.insertOrUpdate value)
  | nodeSet hasNode =>
      refine ⟨hinv, ?_⟩
      intro hquerying
      have hw := h.2 hquerying
      exact ⟨hw.second, hw.first, hw.first_le_served, hw.served_le, hw.served_eq, hw.covers,
        hw.ready, hw.asks⟩
  | answered _ _ =>
      obtain ⟨hquerying, hreads⟩ := h.1.waiting hen.1
      have hw := h.2 hquerying
      have hextends := hw.extends hserves hdelivers (h.1.range hquerying)
      exact ⟨hinv, fun _ => hw.answered hreads hextends _⟩
  | readied hc hphase =>
      obtain ⟨hquerying, hreads⟩ := h.1.completing hc
      exact ⟨hinv, fun _ => (h.2 hquerying).readied hreads hc hphase (h.1.range hquerying)⟩
  | ended hc hs => exact (h.endQuery hc _).fetchNextGap hI hs
  | dropped hc _ => exact h.endQuery hc _
  | continued hc _ =>
      obtain ⟨hquerying, hreads⟩ := h.1.completing hc
      exact ⟨hinv, fun _ => (h.2 hquerying).continueQuery hreads _⟩

/-- Who looks for a gap does not touch the buffer. -/
theorem buffer_fetchNextGap (h : BufferInv I w.buffer) (hI : I.Merges)
    (hs : w.fetchNextGap I = some w') : w'.buffer = w.buffer :=
  fetchNextGap_induct (P := fun w' => w'.buffer = w.buffer) h hI hs rfl fun _ _ _ => rfl

theorem buffer_endQuery (w : PagedWorld V) (continuationPoints : List ContinuationPoint) :
    (w.endQuery continuationPoints).buffer = w.buffer := by
  rw [endQuery, send_cancel]

theorem DeliveredInv.covers_step (h : DeliveredInv I w) (hI : I.Merges) (hen : w.enabled I a)
    (hs : w.step I logged a = some w') {time : DateTime}
    (hcovers : Covers w'.buffer.readyRanges time) :
    Covers w.buffer.readyRanges time ∨ Covers w.pages time := by
  cases h.1.moves hen hs with
  | observed _ hbuffer hready hs =>
      rw [buffer_fetchNextGap hbuffer hI hs] at hcovers
      exact Or.inl (hready time hcovers)
  | inserted value =>
      dsimp only at hcovers
      rw [(h.1.buffer.insertOrUpdate_ranges value).2] at hcovers
      exact Or.inl hcovers
  | nodeSet hasNode => exact Or.inl hcovers
  | answered _ hready => exact Or.inl (hready time hcovers)
  | readied hc hphase =>
      exact (h.2 (h.1.completing hc).1).covers_readied h.1 hI hc hphase hcovers
  | ended hc hs =>
      rw [buffer_fetchNextGap (h.1.endQuery hc _).buffer hI hs, buffer_endQuery] at hcovers
      exact Or.inl hcovers
  | dropped hc _ =>
      rw [buffer_endQuery] at hcovers
      exact Or.inl hcovers
  | continued hc _ => exact Or.inl hcovers

/-- A request asks for the rest exactly where the rest is one instant. -/
theorem DeliveredInv.asks_rest_iff (h : DeliveredInv I w) {details : HistoryReadRawDetails}
    (hmem : details ∈ w.reads) (hne : details.continuationPoint ≠ none) :
    details.fromTime = w.served ∧ details.toTime = w.query.second ↔
      w.fetcher.queryingRange.first = w.fetcher.queryingRange.second := by
  have hw := h.2 (h.1.waiting hmem).1
  obtain ⟨hfrom, hto⟩ := hw.asks details hmem hne
  rw [hfrom, hto, ← hw.second]
  refine and_iff_right_of_imp ?_
  intro heq
  refine le_antisymm ?_ ?_
  · rw [← heq]
    exact hw.first_le_served
  · rw [hw.second]
    exact hw.served_le

end PagedWorld

open PagedWorld

variable {I : IntervalUtil} {logged : Bool} {w : PagedWorld V}

/-- **Paged history.** The server delivers its pages in order, and a failed read
brings nothing beyond what was delivered. Then a step makes nothing ready that
the Good pages of the query do not cover. A continuation request asks for the
rest of the query, in its direction, exactly where one instant is left. -/
theorem pages_make_ready (hI : I.Merges)
    (h : (pagedMachine I logged).Reaches (fun w a => w.Serves a ∧ w.Delivers a) w) :
    (∀ a w', w.enabled I a → w.step I logged a = some w' →
        ∀ time, Covers w'.buffer.readyRanges time →
          Covers w.buffer.readyRanges time ∨ Covers w.pages time) ∧
      ∀ details ∈ w.reads, details.continuationPoint ≠ none →
        (details.fromTime = w.served ∧ details.toTime = w.query.second ↔
          w.fetcher.queryingRange.first = w.fetcher.queryingRange.second) := by
  have hinv : DeliveredInv I w := by
    refine h.invariant (I := DeliveredInv I) ?_ ?_
    · refine ⟨PagedInv.init, ?_⟩
      intro hquerying
      cases hquerying
    · intro t a t' ht hen hok hs
      exact ht.step hI hen hok.1 hok.2 hs
  refine ⟨?_, fun details hmem hne => hinv.asks_rest_iff hmem hne⟩
  intro a w' hen hs time hcovers
  exact hinv.covers_step hI hen hs hcovers

/-- The first page of `[1, 10]` makes `[1, 5]` ready. -/
theorem pages_make_ready_once : ∃ w : PagedWorld ℕ,
    w.pages = [⟨1, 5⟩] ∧ w.buffer.readyRanges = [] ∧
      ∀ w', w.step mergingIntervals true .ready = some w' →
        ∀ time, Covers w'.buffer.readyRanges time → Covers w.pages time := by
  obtain ⟨w, hw, hp⟩ := Machine.exists_reaches_of_exec (M := pagedMachine mergingIntervals true)
    (fun w a => w.Serves a ∧ w.Delivers a)
    (p := fun w : PagedWorld ℕ => decide (w.pages = [⟨1, 5⟩] ∧ w.buffer.readyRanges = [] ∧
      w.enabled mergingIntervals .ready))
    [.setNode true, .addObserver 1 ⟨1, 10⟩,
      .answer ⟨1, 10, kMaxReadCount, none⟩ ⟨true, [⟨1, 0, 5, 5⟩], some 7⟩] (by decide)
  obtain ⟨hpages, hready, hen⟩ := of_decide_eq_true hp
  refine ⟨w, hpages, hready, ?_⟩
  intro w' hs time hcovers
  refine ((pages_make_ready merges_mergingIntervals hw).1 .ready w' hen hs time hcovers).resolve_left
    ?_
  rw [hready]
  exact covers_nil time

/-- A read of `[1, 10]` fails, and the range is ready though nothing was
delivered. And the second request asks for `[10, 5]` where `[5, 10]` is left. -/
theorem failed_read_makes_ready :
    (∃ w : PagedWorld ℕ, (pagedMachine mergingIntervals true).Reaches Serves w ∧
        w.buffer.readyRanges = [⟨1, 10⟩] ∧ w.pages = []) ∧
      ∃ w : PagedWorld ℕ,
        (pagedMachine mergingIntervals true).Reaches (fun w a => w.Serves a ∧ w.Delivers a) w ∧
        w.reads = [⟨10, 5, kMaxReadCount, some 7⟩] ∧ w.query = ⟨1, 10⟩ ∧ w.served = 5 := by
  constructor
  · obtain ⟨w, hw, hp⟩ := Machine.exists_reaches_of_exec (M := pagedMachine mergingIntervals true)
      Serves
      (p := fun w : PagedWorld ℕ => decide (w.buffer.readyRanges = [⟨1, 10⟩] ∧ w.pages = []))
      [.setNode true, .addObserver 1 ⟨1, 10⟩,
        .answer ⟨1, 10, kMaxReadCount, none⟩ ⟨false, [], none⟩, .ready, .finish] (by decide)
    exact ⟨w, hw, of_decide_eq_true hp⟩
  · obtain ⟨w, hw, hp⟩ := Machine.exists_reaches_of_exec (M := pagedMachine mergingIntervals true)
      (fun w a => w.Serves a ∧ w.Delivers a)
      (p := fun w : PagedWorld ℕ => decide (w.reads = [⟨10, 5, kMaxReadCount, some 7⟩] ∧
        w.query = ⟨1, 10⟩ ∧ w.served = 5))
      [.setNode true, .addObserver 1 ⟨1, 10⟩,
        .answer ⟨1, 10, kMaxReadCount, none⟩ ⟨true, [⟨1, 0, 5, 5⟩], some 7⟩, .ready, .finish]
      (by decide)
    exact ⟨w, hw, of_decide_eq_true hp⟩

end ScadaCommon
