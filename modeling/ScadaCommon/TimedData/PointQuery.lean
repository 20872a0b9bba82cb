import ScadaCommon.TimedData.BatchWrites
import ScadaCommon.TimedData.Retention

/-!
# A query over history and current value

`BaseTimedData::GetValueAt` answers with the current value where that is not too
new, and looks into the buffer only otherwise. History may come later than the
current value and be newer.

§1 the query · §2 samples and times · §3 where the answer is right · §4 the
owner and all its callers · §5 the current value stays the newest · §6 runs.
-/

namespace ScadaCommon

open Foundation TimedDataBuffer

variable {V : Type}

/-! ## §1  The query -/

/-- `GetValueAt` over a run of samples. -/
def sampleAtOrBefore (values : List (DataValue V)) (time : DateTime) : Option (DataValue V) :=
  let i := lowerBound values time
  if isAt values i time then values[i]?
  else if i = 0 then none
  else values[i - 1]?

/-- `BaseTimedData::GetValueAt`. -/
def BaseTimedData.getValueAt (data : BaseTimedData V) (time : DateTime) : Option (DataValue V) :=
  if data.current.timestamp ≠ .null ∧ data.current.timestamp ≤ time then some data.current
  else sampleAtOrBefore data.buffer.values time

/-! ## §2  Samples and times -/

/-- A sample with the greatest time that is not after the given one, if there is
any. -/
def LatestAt (samples : DataValue V → Prop) (time : DateTime) : Option (DataValue V) → Prop
  | none => ∀ v, samples v → time < v.timestamp
  | some v => samples v ∧ v.timestamp ≤ time ∧
      ∀ u, samples u → u.timestamp ≤ time → u.timestamp ≤ v.timestamp

section

variable {values : List (DataValue V)} {time : DateTime}

theorem TimeSorted.le_getLast {back v : DataValue V} (h : TimeSorted values)
    (hback : values.getLast? = some back) (hv : v ∈ values) : v.timestamp ≤ back.timestamp := by
  obtain ⟨rest, rfl⟩ := List.getLast?_eq_some_iff.mp hback
  rcases List.mem_append.mp hv with hv | hv
  · exact ((List.pairwise_append.mp h).2.2 v hv back (List.mem_singleton_self _)).le
  · rw [List.mem_singleton.mp hv]

theorem lowerBound_le_length (h : TimeSorted values) (time : DateTime) :
    lowerBound values time ≤ values.length :=
  (lowerBound_le_upperBound h le_rfl).trans (upperBound_le_length h time)

/-- The sample in front of the lower bound is the last of those before the time. -/
theorem getElem?_before_lowerBound (h : TimeSorted values) (time : DateTime) :
    (if lowerBound values time = 0 then none else values[lowerBound values time - 1]?) =
      (values.filter (·.timestamp < time)).getLast? := by
  rw [← take_lowerBound h, List.getLast?_take]
  split
  · rfl
  · rename_i hpos
    have hle := lowerBound_le_length h time
    have hlt : lowerBound values time - 1 < values.length := by omega
    rw [List.getElem?_eq_getElem hlt]
    rfl

/-- **The buffer answers right.** -/
theorem latestAt_sampleAtOrBefore (h : TimeSorted values) (time : DateTime) :
    LatestAt (· ∈ values) time (sampleAtOrBefore values time) := by
  unfold sampleAtOrBefore
  dsimp only
  split
  · rename_i hat
    have hfound : ∃ v, values[lowerBound values time]? = some v ∧ v.timestamp = time := by
      unfold isAt at hat
      cases hget : values[lowerBound values time]? with
      | none =>
          rw [hget] at hat
          cases hat
      | some v =>
          rw [hget] at hat
          exact ⟨v, rfl, beq_iff_eq.mp hat⟩
    obtain ⟨v, hv, htime⟩ := hfound
    rw [hv]
    refine ⟨List.mem_of_getElem? hv, htime.le, ?_⟩
    intro u _ hu
    exact hu.trans htime.ge
  · rename_i hat
    -- Nothing is at the time, so what is not after it is before it.
    have hne : ∀ u ∈ values, u.timestamp ≠ time :=
      fun u hu htime => hat ((isAt_lowerBound h).mpr ⟨u, hu, htime⟩)
    have hbefore : ∀ u ∈ values, u.timestamp ≤ time →
        u ∈ values.filter (·.timestamp < time) := by
      intro u hu hle
      exact List.mem_filter.mpr ⟨hu, decide_eq_true (lt_of_le_of_ne hle (hne u hu))⟩
    rw [getElem?_before_lowerBound h]
    cases hlast : (values.filter (·.timestamp < time)).getLast? with
    | none =>
        have hnil := List.getLast?_eq_none_iff.mp hlast
        intro u hu
        by_contra hle
        have hmem := hbefore u hu (not_lt.mp hle)
        rw [hnil] at hmem
        cases hmem
    | some v =>
        obtain ⟨hv, hlt⟩ := List.mem_filter.mp (List.mem_of_getLast? hlast)
        refine ⟨hv, (of_decide_eq_true hlt).le, ?_⟩
        intro u hu hle
        exact TimeSorted.le_getLast (h.sublist List.filter_sublist) hlast (hbefore u hu hle)

end

/-! ## §3  Where the answer is right -/

namespace BaseTimedData

variable {data : BaseTimedData V}

/-- The samples of the buffer and the current value, if that has a time. -/
def HasSample (data : BaseTimedData V) (v : DataValue V) : Prop :=
  v ∈ data.buffer.values ∨ v = data.current ∧ data.current.timestamp ≠ .null

/-- None of the samples is newer than the current value. -/
def NoneNewer (data : BaseTimedData V) (samples : List (DataValue V)) : Prop :=
  data.current.timestamp = .null ∨ ∀ v ∈ samples, v.timestamp ≤ data.current.timestamp

instance (data : BaseTimedData V) (samples : List (DataValue V)) :
    Decidable (data.NoneNewer samples) := by
  unfold NoneNewer
  infer_instance

/-- **The answer is right at all times** just when no sample of the buffer is newer
than the current value. -/
theorem latestAt_getValueAt_iff (h : TimeSorted data.buffer.values) :
    (∀ time, LatestAt data.HasSample time (data.getValueAt time)) ↔
      data.NoneNewer data.buffer.values := by
  constructor
  · intro hlatest
    rw [NoneNewer, or_iff_not_imp_left]
    intro hnull v hv
    by_contra hnewer
    have hlt := not_le.mp hnewer
    have hanswer := hlatest v.timestamp
    rw [getValueAt, if_pos ⟨hnull, hlt.le⟩] at hanswer
    exact hnewer (hanswer.2.2 v (Or.inl hv) le_rfl)
  · intro hnewest time
    have hbuffer := latestAt_sampleAtOrBefore h time
    unfold getValueAt
    split
    · rename_i hcurrent
      refine ⟨Or.inr ⟨rfl, hcurrent.1⟩, hcurrent.2, ?_⟩
      rintro u (hu | ⟨rfl, -⟩) -
      · exact hnewest.resolve_left hcurrent.1 u hu
      · exact le_rfl
    · rename_i hcurrent
      have hlater : data.current.timestamp ≠ .null → time < data.current.timestamp :=
        fun hnull => not_le.mp fun hle => hcurrent ⟨hnull, hle⟩
      cases hanswer : sampleAtOrBefore data.buffer.values time with
      | none =>
          rw [hanswer] at hbuffer
          rintro u (hu | ⟨rfl, hnull⟩)
          · exact hbuffer u hu
          · exact hlater hnull
      | some v =>
          rw [hanswer] at hbuffer
          refine ⟨Or.inl hbuffer.1, hbuffer.2.1, ?_⟩
          rintro u (hu | ⟨rfl, hnull⟩) hle
          · exact hbuffer.2.2 u hu hle
          · exact absurd hle (hlater hnull).not_ge

end BaseTimedData

/-! ## §4  The owner and all its callers -/

inductive QueryAction (V : Type) where
  | owner (a : TimedDataAction V)
  /-- `UpdateCurrent`, with any value. -/
  | updateCurrent (value : DataValue V)

namespace TimedDataWorld

section

variable [DecidableEq V] (I : IntervalUtil) (core : SampleCore V)

/-- `UpdateCurrent`, up to where observers run. -/
def beginUpdate (w : TimedDataWorld V) (value : DataValue V) : TimedDataWorld V :=
  if value = w.data.current then w
  else { w with
    data := w.data.addPoint value
    updates := (value, w.data.isChange value) :: w.updates }

def queryEnabled (w : TimedDataWorld V) : QueryAction V → Prop
  | .owner a => w.enabled a
  | .updateCurrent _ => w.updatedRanges = none

instance (w : TimedDataWorld V) (a : QueryAction V) : Decidable (w.queryEnabled a) := by
  unfold queryEnabled
  split <;> infer_instance

def queryStep (w : TimedDataWorld V) : QueryAction V → Option (TimedDataWorld V)
  | .owner a => w.step I core a
  | .updateCurrent value => some (w.beginUpdate value)

end

end TimedDataWorld

def queryMachine [DecidableEq V] (I : IntervalUtil) (core : SampleCore V) :
    Machine (TimedDataWorld V) (QueryAction V) :=
  ⟨{ data := { current := core.default } }, TimedDataWorld.queryEnabled,
    TimedDataWorld.queryStep I core⟩

instance [DecidableEq V] (I : IntervalUtil) (core : SampleCore V) (w : TimedDataWorld V)
    (a : QueryAction V) : Decidable ((queryMachine I core).enabled w a) :=
  inferInstanceAs (Decidable (w.queryEnabled a))

/-! ## §5  The current value stays the newest -/

/-- The samples a call brings. -/
def BufferAction.samples : BufferAction V → List (DataValue V)
  | .insertOrUpdate value => [value]
  | .replaceRange values => values
  | _ => []

theorem sanitize_subset (values : List (DataValue V)) : sanitize values ⊆ values := by
  unfold sanitize
  dsimp only
  split
  · intro v hv
    have hsorted := (uniqueByTime_sublist _).subset hv
    exact List.mem_of_mem_filter (List.mem_mergeSort.mp hsorted)
  · exact List.Subset.refl _

section

variable {I : IntervalUtil} {buffer buffer' : TimedDataBuffer V} {v : DataValue V}

theorem mem_insertOrUpdate (h : TimeSorted buffer.values) {value : DataValue V}
    (hv : v ∈ (buffer.insertOrUpdate value).1.values) : v ∈ buffer.values ∨ v = value := by
  rcases insertOrUpdate_spec h value with ⟨heq, -⟩ | ⟨-, heq⟩
  · rw [heq] at hv
    exact Or.inl hv
  · rw [heq] at hv
    have hplaced : v ∈ placed buffer.values [value] := hv
    exact (mem_placed hplaced).imp_right List.mem_singleton.mp

/-- **Every sample was there or is brought by the call.** -/
theorem mem_of_bufferStep {a : BufferAction V} (h : TimeSorted buffer.values)
    (hstep : buffer.step I a = some buffer') (hv : v ∈ buffer'.values) :
    v ∈ buffer.values ∨ v ∈ a.samples := by
  cases a with
  | insertOrUpdate value =>
      cases hstep
      exact (mem_insertOrUpdate h hv).imp_right List.mem_singleton.mpr
  | replaceRange values =>
      have hstep : buffer.replaceRange values = some buffer' := hstep
      by_cases hempty : sanitize values = []
      · rw [replaceRange_nil hempty] at hstep
        cases hstep
        exact Or.inl hv
      · rw [replaceRange_placed h hempty] at hstep
        have hplaced := (trimmed_trimToObservedRanges _ hstep).sublist.subset hv
        exact (mem_placed hplaced).imp_right fun hmem => sanitize_subset values hmem
  | clearRange range => exact Or.inl ((trimmed_clearRange h hstep).sublist.subset hv)
  | addReadyRange range =>
      cases hstep
      exact Or.inl hv
  | addObserver observer range =>
      obtain ⟨-, hupdate⟩ := addObserver_checks hstep
      have hsublist := sublist_updateObservedRanges { buffer with
        observerRanges := insertOrAssign observer range buffer.observerRanges } hupdate
      exact Or.inl (hsublist.subset hv)
  | removeObserver observer =>
      have hsublist := sublist_updateObservedRanges { buffer with
        observerRanges := buffer.observerRanges.filter (·.1 ≠ observer) } hstep
      exact Or.inl (hsublist.subset hv)
  | setRetention retention =>
      have htrimmed := trimmed_trimToObservedRanges { buffer with retention } hstep
      exact Or.inl (htrimmed.sublist.subset hv)

end

namespace TimedDataWorld

variable [DecidableEq V] {I : IntervalUtil} {core : SampleCore V} {w w' : TimedDataWorld V}

theorem timeSorted_addPoint {data : BaseTimedData V} (h : TimeSorted data.buffer.values)
    (value : DataValue V) : TimeSorted (data.addPoint value).buffer.values := by
  unfold BaseTimedData.addPoint
  split
  · exact timeSorted_insertOrUpdate h value
  · exact h

theorem timeSorted_queryStep {a : QueryAction V} (h : TimeSorted w.data.buffer.values)
    (hs : w.queryStep I core a = some w') : TimeSorted w'.data.buffer.values := by
  cases a with
  | owner a =>
      cases a with
      | buffer a =>
          obtain ⟨buffer, hstep, hs⟩ := Option.bind_eq_some_iff.mp hs
          cases hs
          exact timeSorted_step h hstep
      | updateObservedRanges =>
          cases hs
          dsimp only
          unfold BaseTimedData.updateObservedRanges
          dsimp only
          split
          · exact timeSorted_insertOrUpdate h _
          · exact h
      | channelData value =>
          cases hs
          unfold TimedDataWorld.onChannelData
          split
          · exact h
          · split
            · split
              · exact h
              · exact timeSorted_addPoint h value
            · exact timeSorted_insertOrUpdate h value
      | setCurrent =>
          unfold TimedDataWorld.queryStep TimedDataWorld.step at hs
          dsimp only at hs
          split at hs
          · cases hs
          · cases hs
            exact h
  | updateCurrent value =>
      cases hs
      unfold TimedDataWorld.beginUpdate
      split
      · exact h
      · exact timeSorted_addPoint h value

/-- The step leaves no sample newer than the current value behind, unless a call of
`UpdateCurrent` goes on. -/
def KeepsNewest (core : SampleCore V) (w : TimedDataWorld V) : QueryAction V → Prop
  | .owner (.buffer a) => w.updates ≠ [] ∨ w.data.NoneNewer a.samples
  | .owner (.channelData value) => w.updates ≠ [] ∨ core.isFailed value.qualifier = true ∨
      core.isUpdate w.data.current value = true ∨ w.data.NoneNewer [value]
  | .owner .setCurrent =>
      match w.updates with
      | [(value, _)] => value.timestamp = .null ∨
          ∀ v ∈ w.data.buffer.values, v.timestamp ≤ value.timestamp
      | _ => True
  | _ => True

omit [DecidableEq V] in
instance (core : SampleCore V) (w : TimedDataWorld V) (a : QueryAction V) :
    Decidable (w.KeepsNewest core a) := by
  unfold KeepsNewest
  split
  · infer_instance
  · infer_instance
  · split <;> infer_instance
  · infer_instance

structure QueryInv (w : TimedDataWorld V) : Prop where
  sorted : TimeSorted w.data.buffer.values
  newest : w.updates = [] → w.data.NoneNewer w.data.buffer.values

omit [DecidableEq V] in
theorem QueryInv.init (core : SampleCore V) :
    QueryInv ({ data := { current := core.default } } : TimedDataWorld V) where
  sorted := List.Pairwise.nil
  newest := by
    intro _
    right
    rintro v ⟨⟩

omit [DecidableEq V] in
/-- Samples that are not newer than the current value may come. -/
theorem QueryInv.noneNewer_of_mem (h : QueryInv w) (hupdates : w.updates = [])
    {samples values : List (DataValue V)} (hsamples : w.data.NoneNewer samples)
    (hmem : ∀ v ∈ values, v ∈ w.data.buffer.values ∨ v ∈ samples) :
    w.data.NoneNewer values := by
  rcases h.newest hupdates with hnull | hbuffer
  · exact Or.inl hnull
  · rcases hsamples with hnull | hsamples
    · exact Or.inl hnull
    · right
      intro v hv
      exact (hmem v hv).elim (hbuffer v) (hsamples v)

theorem QueryInv.step {a : QueryAction V} (h : QueryInv w) (hkeeps : w.KeepsNewest core a)
    (hs : w.queryStep I core a = some w') : QueryInv w' := by
  refine ⟨timeSorted_queryStep h.sorted hs, ?_⟩
  intro hupdates
  cases a with
  | owner a =>
      cases a with
      | buffer a =>
          obtain ⟨buffer, hstep, hs⟩ := Option.bind_eq_some_iff.mp hs
          cases hs
          have hbrought := hkeeps.resolve_left (not_not.mpr hupdates)
          exact h.noneNewer_of_mem hupdates hbrought
            fun v hv => mem_of_bufferStep h.sorted hstep hv
      | updateObservedRanges =>
          cases hs
          have hnewest : (w.data.updateObservedRanges core (w.updatedRanges.getD false)).NoneNewer
              (w.data.updateObservedRanges core (w.updatedRanges.getD false)).buffer.values := by
            unfold BaseTimedData.updateObservedRanges
            dsimp only
            split
            · have hcurrent : w.data.NoneNewer [w.data.current] := by
                right
                intro v hv
                rw [List.mem_singleton.mp hv]
              exact h.noneNewer_of_mem hupdates hcurrent fun v hv =>
                (mem_insertOrUpdate h.sorted hv).imp_right List.mem_singleton.mpr
            · exact h.newest hupdates
          exact hnewest
      | channelData value =>
          cases hs
          unfold TimedDataWorld.onChannelData at hupdates ⊢
          split
          · rename_i hfailed
            rw [if_pos hfailed] at hupdates
            exact h.newest hupdates
          · rename_i hfailed
            rw [if_neg hfailed] at hupdates
            split
            · rename_i hupdate
              rw [if_pos hupdate] at hupdates
              split
              · rename_i hsame
                rw [if_pos hsame] at hupdates
                exact h.newest hupdates
              · rename_i hsame
                rw [if_neg hsame] at hupdates
                cases hupdates
            · rename_i hupdate
              rw [if_neg hupdate] at hupdates
              -- A value that is not an update goes into the buffer only.
              have hbrought := ((hkeeps.resolve_left (not_not.mpr hupdates)).resolve_left
                hfailed).resolve_left hupdate
              exact h.noneNewer_of_mem hupdates hbrought fun v hv =>
                (mem_insertOrUpdate h.sorted hv).imp_right List.mem_singleton.mpr
      | setCurrent =>
          unfold TimedDataWorld.queryStep TimedDataWorld.step at hs
          dsimp only at hs
          unfold KeepsNewest at hkeeps
          split at hs
          · cases hs
          · rename_i value isChange updates heq
            cases hs
            dsimp only at hupdates hkeeps
            rw [heq, hupdates] at hkeeps
            exact hkeeps
  | updateCurrent value =>
      cases hs
      unfold TimedDataWorld.beginUpdate at hupdates ⊢
      split
      · rename_i hsame
        rw [if_pos hsame] at hupdates
        exact h.newest hupdates
      · rename_i hsame
        rw [if_neg hsame] at hupdates
        cases hupdates

end TimedDataWorld

/-! ## §6  Runs -/

section

variable [DecidableEq V] {I : IntervalUtil} {core : SampleCore V} {w : TimedDataWorld V}

/-- **The point query in every reachable state.** It is right at all times just when
the buffer has nothing newer than the current value. In a run in which no sample
comes that is newer than the current value, and no current value that is older
than the buffer, it is right whenever no call of `UpdateCurrent` is under way. -/
theorem point_query_iff :
    ((queryMachine I core).Reachable w →
      ((∀ time, LatestAt w.data.HasSample time (w.data.getValueAt time)) ↔
        w.data.NoneNewer w.data.buffer.values)) ∧
      ((queryMachine I core).Reaches (TimedDataWorld.KeepsNewest core) w → w.updates = [] →
        ∀ time, LatestAt w.data.HasSample time (w.data.getValueAt time)) := by
  constructor
  · intro h
    refine BaseTimedData.latestAt_getValueAt_iff ?_
    refine h.invariant (I := fun w => TimeSorted w.data.buffer.values) List.Pairwise.nil ?_
    intro t a t' ht _ _ hs
    exact TimedDataWorld.timeSorted_queryStep ht hs
  · intro h hupdates
    have hinv : w.QueryInv := by
      refine h.invariant (TimedDataWorld.QueryInv.init core) ?_
      intro t a t' ht _ hkeeps hs
      exact ht.step hkeeps hs
    exact (BaseTimedData.latestAt_getValueAt_iff hinv.sorted).mpr (hinv.newest hupdates)

end

/-- The value `n` at a time. -/
def stampedAt (n : ℕ) (time : DateTime) : DataValue ℕ := ⟨n, 0, time, time⟩

/-- The current value is of time 20, and older history comes. -/
theorem point_query_iff_older_history : ∃ w : TimedDataWorld ℕ,
    (w.data.current = stampedAt 2 20 ∧ w.data.buffer.values = [stampedAt 1 10, stampedAt 2 20]) ∧
      ((∀ time, LatestAt w.data.HasSample time (w.data.getValueAt time)) ↔
        w.data.NoneNewer w.data.buffer.values) ∧
      ∀ time, LatestAt w.data.HasSample time (w.data.getValueAt time) := by
  obtain ⟨w, hw, hp⟩ := Machine.exists_reaches_of_exec
    (M := queryMachine mergingIntervals numberSamples)
    (TimedDataWorld.KeepsNewest numberSamples)
    (p := fun w => decide (w.updates.isEmpty = true ∧ w.data.current = stampedAt 2 20 ∧
      w.data.buffer.values = [stampedAt 1 10, stampedAt 2 20]))
    [.updateCurrent (stampedAt 2 20), .owner .setCurrent, .owner (.buffer (.addObserver 1 ⟨1, 100⟩)),
      .owner .updateObservedRanges, .owner (.buffer (.replaceRange [stampedAt 1 10]))] (by decide)
  obtain ⟨hupdates, hcurrent, hvalues⟩ := of_decide_eq_true hp
  refine ⟨w, ⟨hcurrent, hvalues⟩, point_query_iff.1 (hw.mono fun _ _ _ => trivial), ?_⟩
  exact point_query_iff.2 hw (List.isEmpty_iff.mp hupdates)

/-- History comes that is newer than the current value, and is not seen. The same is
so when an older value becomes the current one. -/
theorem newer_history_is_hidden :
    (∃ w : TimedDataWorld ℕ, (queryMachine mergingIntervals numberSamples).Reachable w ∧
      w.updates = [] ∧ stampedAt 7 20 ∈ w.data.buffer.values ∧
        w.data.getValueAt 30 = some (stampedAt 2 10) ∧
        ¬ LatestAt w.data.HasSample 30 (w.data.getValueAt 30)) ∧
      ∃ w : TimedDataWorld ℕ, (queryMachine mergingIntervals numberSamples).Reachable w ∧
        w.updates = [] ∧ stampedAt 7 20 ∈ w.data.buffer.values ∧
          w.data.getValueAt 30 = some (stampedAt 3 5) ∧
          ¬ LatestAt w.data.HasSample 30 (w.data.getValueAt 30) := by
  have hhidden : ∀ w : TimedDataWorld ℕ, stampedAt 7 20 ∈ w.data.buffer.values → ∀ v,
      w.data.getValueAt 30 = some v → v.timestamp < 20 →
        ¬ LatestAt w.data.HasSample 30 (w.data.getValueAt 30) := by
    intro w hmem v hanswer hlt hlatest
    rw [hanswer] at hlatest
    exact (hlatest.2.2 (stampedAt 7 20) (Or.inl hmem) (by decide)).not_gt hlt
  constructor
  · obtain ⟨w, hw, hp⟩ := Machine.exists_reachable_of_exec
      (M := queryMachine mergingIntervals numberSamples)
      (p := fun w => decide (w.updates.isEmpty = true ∧ stampedAt 7 20 ∈ w.data.buffer.values ∧
        w.data.getValueAt 30 = some (stampedAt 2 10)))
      [.updateCurrent (stampedAt 2 10), .owner .setCurrent,
        .owner (.buffer (.addObserver 1 ⟨1, 100⟩)), .owner .updateObservedRanges,
        .owner (.buffer (.replaceRange [stampedAt 7 20]))] (by decide)
    obtain ⟨hupdates, hmem, hanswer⟩ := of_decide_eq_true hp
    exact ⟨w, hw, List.isEmpty_iff.mp hupdates, hmem, hanswer, hhidden w hmem _ hanswer (by decide)⟩
  · obtain ⟨w, hw, hp⟩ := Machine.exists_reachable_of_exec
      (M := queryMachine mergingIntervals numberSamples)
      (p := fun w => decide (w.updates.isEmpty = true ∧ stampedAt 7 20 ∈ w.data.buffer.values ∧
        w.data.getValueAt 30 = some (stampedAt 3 5)))
      [.owner (.buffer (.addObserver 1 ⟨1, 100⟩)), .owner .updateObservedRanges,
        .updateCurrent (stampedAt 7 20), .owner .setCurrent, .updateCurrent (stampedAt 3 5),
        .owner .setCurrent] (by decide)
    obtain ⟨hupdates, hmem, hanswer⟩ := of_decide_eq_true hp
    exact ⟨w, hw, List.isEmpty_iff.mp hupdates, hmem, hanswer, hhidden w hmem _ hanswer (by decide)⟩

end ScadaCommon
