import ScadaCommon.TimedData.BatchWrites
import ScadaCommon.TimedData.PointQuery
import ScadaCommon.TimedData.Retention
import ScadaCommon.TimedData.UpdateBatch

/-!
# The timeline of a buffer

What a buffer is for, without positions, bounds and copies: the sample of each
time, and which of them are kept. Each call of a buffer does to its timeline what
the call is for, and what a view is asked is answered from the timeline.

§1 the reads of a view · §2 the timeline with its retention · §3 eviction · §4 the
calls · §5 runs · §6 the reads.
-/

namespace ScadaCommon

open Foundation TimedDataBuffer

variable {V : Type} {I : IntervalUtil} {buffer : TimedDataBuffer V}
  {values view : List (DataValue V)}

/-! ## §1  The reads of a view -/

/-- `BasicTimedDataView::value_at`. -/
def valueAt (values : List (DataValue V)) (time : DateTime) : Option (DataValue V) :=
  let i := lowerBound values time
  if isAt values i time then values[i]? else none

/-- `BasicTimedDataView::time_span`; the range is empty when the view is. -/
def timeSpan (values : List (DataValue V)) : DateTimeRange :=
  match values.head?, values.getLast? with
  | some front, some back => ⟨front.timestamp, back.timestamp⟩
  | _, _ => ⟨.null, .null⟩

/-- The time is in a slice; a null end means no bound. -/
def DateTimeRange.Shows (range : DateTimeRange) (time : DateTime) : Prop :=
  (range.first = .null ∨ range.first ≤ time) ∧ (range.second = .null ∨ time ≤ range.second)

theorem mem_viewFrom (h : TimeSorted values) {start : DateTime} {v : DataValue V} :
    v ∈ viewFrom values start ↔ v ∈ values ∧ (start = .null ∨ start ≤ v.timestamp) := by
  unfold viewFrom
  split
  · rename_i hnull
    simp [hnull]
  · rename_i hnull
    rw [drop_lowerBound h]
    simp [hnull]

theorem mem_viewUntil (h : TimeSorted values) {finish : DateTime} {v : DataValue V} :
    v ∈ viewUntil values finish ↔ v ∈ values ∧ (finish = .null ∨ v.timestamp ≤ finish) := by
  unfold viewUntil
  split
  · rename_i hnull
    simp [hnull]
  · rename_i hnull
    rw [take_upperBound h]
    simp [hnull]

theorem timeSorted_viewFrom (h : TimeSorted values) (start : DateTime) :
    TimeSorted (viewFrom values start) := by
  unfold viewFrom
  split
  · exact h
  · exact h.sublist (List.drop_sublist _ _)

theorem timeSorted_viewSlice (h : TimeSorted values) (range : DateTimeRange) :
    TimeSorted (viewSlice values range) :=
  h.sublist (viewSlice_isInfix values range).sublist

theorem mem_viewSlice_iff (h : TimeSorted values) {range : DateTimeRange} {v : DataValue V} :
    v ∈ viewSlice values range ↔ v ∈ values ∧ range.Shows v.timestamp := by
  unfold viewSlice DateTimeRange.Shows
  rw [mem_viewUntil (timeSorted_viewFrom h range.first), mem_viewFrom h, and_assoc]

/-! ## §2  The timeline with its retention -/

structure TimelineBuffer (V : Type) where
  observerRanges : List (ObserverId × DateTimeRange) := []
  observedRanges : List DateTimeRange := []
  retention : RetentionPolicy := {}
  samples : Timeline DateTime (DataValue V) := .blank

/-- What the buffer stands for. -/
def TimedDataBuffer.toTimeline (buffer : TimedDataBuffer V) : TimelineBuffer V where
  observerRanges := buffer.observerRanges
  observedRanges := buffer.observedRanges
  retention := buffer.retention
  samples := timeline DataValue.timestamp buffer.values

namespace TimelineBuffer

open Classical in
/-- The newest samples, as many as there may be; no buffer can keep none. -/
noncomputable def backstop (b : TimelineBuffer V) : Option (TimelineBuffer V) :=
  match b.retention.maxSamples with
  | none => some b
  | some maxSamples =>
      if maxSamples = 0 ∧ b.samples ≠ .blank then none
      else some { b with samples := b.samples.newest maxSamples }

/-- The samples in the hull of what is observed, and the newest of them. -/
noncomputable def evict (b : TimelineBuffer V) : Option (TimelineBuffer V) :=
  if b.retention.observedWindow then
    { b with samples := b.samples.restrict (InHull b.observedRanges) }.backstop
  else b.backstop

open Classical in
noncomputable def insertOrUpdate (b : TimelineBuffer V) (value : DataValue V) :
    TimelineBuffer V :=
  if value.timestamp = .null ∨
      ∃ v, b.samples value.timestamp = some v ∧ value.isLesser v = true then b
  else { b with samples := b.samples.overlay (· = value.timestamp) fun _ => some value }

open Classical in
/-- A batch takes the place of all from its first time to its last. -/
noncomputable def replaceRange (b : TimelineBuffer V) (batch : Timeline DateTime (DataValue V)) :
    Option (TimelineBuffer V) :=
  if batch = .blank then some b
  else { b with samples := b.samples.overlay batch.Spans batch }.evict

noncomputable def clearRange (b : TimelineBuffer V) (range : DateTimeRange) :
    Option (TimelineBuffer V) := do
  check (range.first ≠ .null)
  check (range.second = .null ∨ range.first ≤ range.second)
  return { b with samples := b.samples.restrict fun time => ¬ range.Spans time }

noncomputable def observe (I : IntervalUtil) (b : TimelineBuffer V)
    (observerRanges : List (ObserverId × DateTimeRange)) : Option (TimelineBuffer V) := do
  let observedRanges ← unionObserved I [] observerRanges
  { b with observerRanges, observedRanges }.evict

noncomputable def step (I : IntervalUtil) (b : TimelineBuffer V) :
    BufferAction V → Option (TimelineBuffer V)
  | .insertOrUpdate value => some (b.insertOrUpdate value)
  | .replaceRange batch => b.replaceRange (timeline DataValue.timestamp (sanitize batch))
  | .clearRange range => b.clearRange range
  | .addReadyRange _ => some b
  | .addObserver observer range => do
      check (range.second ≠ .null)
      check (I.isValidInterval range = true)
      check (range.first = .max ∨ I.isEmptyInterval range = false)
      b.observe I (insertOrAssign observer range b.observerRanges)
  | .removeObserver observer => b.observe I (b.observerRanges.filter (·.1 ≠ observer))
  | .setRetention retention => { b with retention }.evict

end TimelineBuffer

/-! ## §3  Eviction -/

theorem TimelineBuffer.backstop_blank {b : TimelineBuffer V} (h : b.samples = .blank) :
    b.backstop = some b := by
  have hnewest : ∀ n, b.samples.newest n = b.samples := by
    intro n
    rw [h]
    exact Timeline.restrict_blank _
  unfold backstop
  split
  · rfl
  · rw [if_neg fun hboth => hboth.2 h, hnewest]

namespace TimedDataBuffer

theorem toTimeline_trimToHull (I : IntervalUtil) {front back : DateTimeRange}
    (h : TimeSorted buffer.values) (hfront : buffer.observedRanges.head? = some front)
    (hback : buffer.observedRanges.getLast? = some back) :
    (buffer.trimToHull front.first back.second).toTimeline =
      { buffer.toTimeline with
        samples := buffer.toTimeline.samples.restrict (InHull buffer.observedRanges) } := by
  have hevicted := evicted_trimToHull I h hfront hback
  have hsamples : timeline DataValue.timestamp (buffer.trimToHull front.first back.second).values =
      (timeline DataValue.timestamp buffer.values).restrict (InHull buffer.observedRanges) := by
    apply Ascending.timeline_restrict h (h.sublist hevicted.sublist)
    intro v
    constructor
    · intro hv
      exact ⟨hevicted.sublist.mem hv, inHull_trimToHull h hfront hback v hv⟩
    · rintro ⟨hv, hhull⟩
      exact hevicted.mem v hv hhull
  unfold toTimeline
  rw [hsamples]
  rfl

theorem toTimeline_dropOldest (h : TimeSorted buffer.values) :
    buffer.dropOldest.map toTimeline = buffer.toTimeline.backstop := by
  have hdrop : ∀ n, timeline DataValue.timestamp (buffer.values.drop (buffer.values.length - n)) =
      buffer.toTimeline.samples.newest n := fun n => Ascending.timeline_drop h n
  have hretention : buffer.toTimeline.retention = buffer.retention := rfl
  unfold dropOldest TimelineBuffer.backstop
  rw [hretention]
  cases hmax : buffer.retention.maxSamples with
  | none => rfl
  | some maxSamples =>
      have hblank : buffer.toTimeline.samples = .blank ↔ buffer.values = [] := timeline_eq_blank
      dsimp only
      rw [← hdrop]
      split
      · rename_i hlt
        cases hnew : buffer.values[buffer.values.length - maxSamples]? with
        | none =>
            -- The source reads past the end just when it is to keep no sample.
            have hle := List.getElem?_eq_none_iff.mp hnew
            have hzero : maxSamples = 0 := by omega
            have hne : buffer.values ≠ [] := List.ne_nil_of_length_pos (by omega)
            rw [if_pos ⟨hzero, mt hblank.mp hne⟩]
            rfl
        | some newFirst =>
            obtain ⟨hpos, -⟩ := List.getElem?_eq_some_iff.mp hnew
            have hnonzero : maxSamples ≠ 0 := by omega
            rw [if_neg fun hboth => hnonzero hboth.1]
            rfl
      · rename_i hle
        have hall : buffer.values.length - maxSamples = 0 := by omega
        rw [hall, List.drop_zero, if_neg]
        · rfl
        · rintro ⟨rfl, hne⟩
          exact hle (List.length_pos_iff.mpr (mt hblank.mpr hne))

/-- **Eviction is eviction of the timeline.** -/
theorem toTimeline_trimToObservedRanges (I : IntervalUtil) (h : TimeSorted buffer.values) :
    buffer.trimToObservedRanges.map toTimeline = buffer.toTimeline.evict := by
  have hwindow : buffer.retention.observedWindow = true → buffer.toTimeline.evict =
      ({ buffer.toTimeline with
        samples := buffer.toTimeline.samples.restrict (InHull buffer.observedRanges) } :
          TimelineBuffer V).backstop := fun hwindow => if_pos hwindow
  have hall : ¬ buffer.retention.observedWindow = true →
      buffer.toTimeline.evict = buffer.toTimeline.backstop := fun hwindow => if_neg hwindow
  unfold trimToObservedRanges
  split
  · rename_i hempty
    have hblank : buffer.toTimeline.samples = .blank :=
      timeline_eq_blank.mpr (List.isEmpty_iff.mp hempty)
    have hbackstop := TimelineBuffer.backstop_blank hblank
    have hkept : buffer.toTimeline.samples.restrict (InHull buffer.observedRanges) =
        buffer.toTimeline.samples := by
      rw [hblank]
      exact Timeline.restrict_blank _
    by_cases hon : buffer.retention.observedWindow = true
    · rw [hwindow hon, hkept]
      exact hbackstop.symm
    · rw [hall hon]
      exact hbackstop.symm
  · split
    · rename_i hon
      rw [hwindow hon]
      split
      · rename_i front back hfront hback
        rw [← toTimeline_trimToHull I h hfront hback]
        apply toTimeline_dropOldest
        exact h.sublist (evicted_trimToHull I h hfront hback).sublist
      · rename_i hnone
        have hkept : buffer.toTimeline.samples.restrict (InHull buffer.observedRanges) = .blank := by
          apply Timeline.restrict_eq_blank
          rintro time ⟨front, hfront, back, hback, -⟩
          exact hnone front back hfront hback
        rw [hkept, TimelineBuffer.backstop_blank rfl]
        rfl
    · rename_i hoff
      rw [hall hoff]
      exact toTimeline_dropOldest h

/-! ## §4  The calls -/

theorem toTimeline_withBatch {updates : List (DataValue V)} {front back : DataValue V}
    (h : TimeSorted values) (hupdates : TimeSorted updates) (hfront : updates.head? = some front)
    (hback : updates.getLast? = some back) :
    timeline DataValue.timestamp (withBatch values updates front.timestamp back.timestamp) =
      (timeline DataValue.timestamp values).overlay
        (timeline DataValue.timestamp updates).Spans (timeline DataValue.timestamp updates) := by
  have hfrontMem := List.mem_of_mem_head? hfront
  have hbackMem := List.mem_of_getLast? hback
  have hspans : ∀ time, (timeline DataValue.timestamp updates).Spans time ↔
      front.timestamp ≤ time ∧ time ≤ back.timestamp := by
    intro time
    constructor
    · rintro ⟨first, hfirst, last, hlast, hle, hle'⟩
      obtain ⟨v, hv, rfl⟩ := mem_times.mp hfirst
      obtain ⟨w, hw, rfl⟩ := mem_times.mp hlast
      exact ⟨(hupdates.mem_range hfront hback hv).1.trans hle,
        hle'.trans (hupdates.mem_range hfront hback hw).2⟩
    · rintro ⟨hle, hle'⟩
      exact ⟨_, mem_times.mpr ⟨front, hfrontMem, rfl⟩, _, mem_times.mpr ⟨back, hbackMem, rfl⟩,
        hle, hle'⟩
  apply Ascending.timeline_overlay h hupdates (h.withBatch hupdates hfront hback)
  · intro v hv
    exact (hspans _).mpr (hupdates.mem_range hfront hback hv)
  · intro v
    rw [hspans]
    unfold withBatch
    simp only [List.mem_append, List.mem_filter, decide_eq_true_eq, not_and_or, not_le]
    tauto

theorem toTimeline_insertOrUpdate (h : TimeSorted buffer.values) (value : DataValue V) :
    (buffer.insertOrUpdate value).1.toTimeline = buffer.toTimeline.insertOrUpdate value := by
  unfold TimelineBuffer.insertOrUpdate
  split
  · rename_i hskipped
    have hsame : (buffer.insertOrUpdate value).1 = buffer := by
      rcases hskipped with hnull | ⟨v, hsome, hlesser⟩
      · unfold insertOrUpdate
        rw [if_pos hnull]
      · obtain ⟨hv, htime⟩ := Ascending.timeline_eq_some h |>.mp hsome
        exact insertOrUpdate_of_isLesser h hv htime hlesser
    rw [hsame]
  · rename_i happlied
    rw [not_or] at happlied
    obtain ⟨hnull, hlatest⟩ := happlied
    have hlesser : ∀ v ∈ buffer.values, v.timestamp = value.timestamp →
        value.isLesser v = false := by
      intro v hv htime
      by_contra htrue
      exact hlatest ⟨v, (Ascending.timeline_eq_some h).mpr ⟨hv, htime⟩, by simpa using htrue⟩
    have hsamples : timeline DataValue.timestamp (buffer.insertOrUpdate value).1.values =
        buffer.toTimeline.samples.overlay (· = value.timestamp) fun _ => some value := by
      funext time
      refine (sampleAt_insertOrUpdate h hnull hlesser).trans ?_
      unfold Timeline.overlay
      split <;> rfl
    rcases insertOrUpdate_spec h value with ⟨-, hnull' | ⟨v, hv, htime, htrue⟩⟩ | ⟨-, heq⟩
    · exact absurd hnull' hnull
    · rw [hlesser v hv htime] at htrue
      cases htrue
    · rw [heq] at hsamples ⊢
      unfold toTimeline
      rw [hsamples]
      rfl

theorem toTimeline_replaceRange (I : IntervalUtil) (h : TimeSorted buffer.values)
    (batch : List (DataValue V)) :
    (buffer.replaceRange batch).map toTimeline =
      buffer.toTimeline.replaceRange (timeline DataValue.timestamp (sanitize batch)) := by
  unfold TimelineBuffer.replaceRange
  split
  · rename_i hblank
    rw [replaceRange_nil (timeline_eq_blank.mp hblank)]
    rfl
  · rename_i hblank
    have hne : sanitize batch ≠ [] := mt timeline_eq_blank.mpr hblank
    obtain ⟨front, hfront⟩ := Option.isSome_iff_exists.mp (List.isSome_head?.mpr hne)
    obtain ⟨back, hback⟩ := Option.isSome_iff_exists.mp (List.getLast?_isSome.mpr hne)
    have hsorted := timeSorted_sanitize batch
    rw [replaceRange_eq h hsorted hfront hback,
      toTimeline_trimToObservedRanges I (h.withBatch hsorted hfront hback)]
    unfold toTimeline
    rw [toTimeline_withBatch h hsorted hfront hback]

theorem mem_cleared (h : TimeSorted buffer.values) {range : DateTimeRange} {v : DataValue V} :
    v ∈ buffer.values.take (buffer.clearBounds range).1 ++
        buffer.values.drop (buffer.clearBounds range).2 ↔
      v ∈ buffer.values ∧ ¬ range.Spans v.timestamp := by
  have hdrop : v ∈ buffer.values.drop (buffer.clearBounds range).2 ↔
      v ∈ buffer.values ∧ ¬ (range.second = .null ∨ v.timestamp ≤ range.second) := by
    unfold clearBounds
    dsimp only
    split
    · rename_i hnull
      simp [hnull]
    · rename_i hnull
      rw [drop_upperBound h]
      simp [hnull]
  rw [List.mem_append, hdrop]
  unfold clearBounds DateTimeRange.Spans
  rw [take_lowerBound h, List.mem_filter, decide_eq_true_eq, ← not_le]
  tauto

theorem toTimeline_clearRange (h : TimeSorted buffer.values) (range : DateTimeRange) :
    (buffer.clearRange range).map toTimeline = buffer.toTimeline.clearRange range := by
  show Option.map toTimeline ((check _).bind fun _ => (check _).bind _) =
    (check _).bind fun _ => (check _).bind _
  rw [Option.map_bind]
  refine Option.bind_congr fun _ _ => ?_
  show Option.map toTimeline ((check _).bind _) = _
  rw [Option.map_bind]
  refine Option.bind_congr fun _ hvalid => ?_
  rw [check_eq_some] at hvalid
  have hcut : (buffer.values.take (buffer.clearBounds range).1 ++
      buffer.values.drop (buffer.clearBounds range).2).Sublist buffer.values := by
    have hle := List.drop_sublist_drop_left buffer.values (clearBounds_le h hvalid)
    have happend := (List.Sublist.refl (buffer.values.take (buffer.clearBounds range).1)).append hle
    rwa [List.take_append_drop] at happend
  have hsamples : timeline DataValue.timestamp (buffer.values.take (buffer.clearBounds range).1 ++
      buffer.values.drop (buffer.clearBounds range).2) =
      buffer.toTimeline.samples.restrict fun time => ¬ range.Spans time :=
    Ascending.timeline_restrict h (h.sublist hcut) fun v => mem_cleared h
  have hcleared : ({ buffer with
      values := buffer.values.take (buffer.clearBounds range).1 ++
        buffer.values.drop (buffer.clearBounds range).2 } : TimedDataBuffer V).toTimeline =
      { buffer.toTimeline with
        samples := buffer.toTimeline.samples.restrict fun time => ¬ range.Spans time } := by
    rw [← hsamples]
    rfl
  show Option.map toTimeline (if (buffer.clearBounds range).1 = (buffer.clearBounds range).2
    then some buffer else some _) = some _
  by_cases heq : (buffer.clearBounds range).1 = (buffer.clearBounds range).2
  · rw [heq, List.take_append_drop] at hcleared
    rw [if_pos heq]
    exact congrArg some hcleared
  · rw [if_neg heq]
    exact congrArg some hcleared

theorem toTimeline_updateObservedRanges (h : TimeSorted buffer.values) :
    (buffer.updateObservedRanges I).map toTimeline =
      buffer.toTimeline.observe I buffer.observerRanges := by
  unfold updateObservedRanges TimelineBuffer.observe
  cases hunion : unionObserved I [] buffer.observerRanges with
  | none => rfl
  | some observedRanges => exact toTimeline_trimToObservedRanges I h

/-- **Each call does to the timeline what it is for**, and stops where that
does. -/
theorem toTimeline_step (h : TimeSorted buffer.values) (a : BufferAction V) :
    (buffer.step I a).map toTimeline = buffer.toTimeline.step I a := by
  cases a with
  | insertOrUpdate value => exact congrArg some (toTimeline_insertOrUpdate h value)
  | replaceRange batch => exact toTimeline_replaceRange I h batch
  | clearRange range => exact toTimeline_clearRange h range
  | addReadyRange range => rfl
  | addObserver observer range =>
      show Option.map toTimeline ((check _).bind fun _ => (check _).bind fun _ => (check _).bind _) =
        (check _).bind fun _ => (check _).bind fun _ => (check _).bind _
      rw [Option.map_bind]
      refine Option.bind_congr fun _ _ => ?_
      show Option.map toTimeline ((check _).bind fun _ => (check _).bind _) = _
      rw [Option.map_bind]
      refine Option.bind_congr fun _ _ => ?_
      show Option.map toTimeline ((check _).bind _) = _
      rw [Option.map_bind]
      refine Option.bind_congr fun _ _ => ?_
      exact toTimeline_updateObservedRanges h
  | removeObserver observer => exact toTimeline_updateObservedRanges h
  | setRetention retention => exact toTimeline_trimToObservedRanges I h

/-! ## §5  Runs -/

theorem toTimeline_run (h : TimeSorted buffer.values) (calls : List (BufferAction V)) :
    (calls.foldlM (TimedDataBuffer.step I) buffer).map toTimeline =
      calls.foldlM (TimelineBuffer.step I) buffer.toTimeline := by
  induction calls generalizing buffer with
  | nil => rfl
  | cons a calls ih =>
      show Option.map toTimeline ((buffer.step I a).bind _) = (buffer.toTimeline.step I a).bind _
      rw [← toTimeline_step h]
      cases hstep : buffer.step I a with
      | none => rfl
      | some next => exact ih (timeSorted_step h hstep)

theorem timeSorted_run (h : TimeSorted buffer.values) {calls : List (BufferAction V)}
    {buffer' : TimedDataBuffer V}
    (hrun : calls.foldlM (TimedDataBuffer.step I) buffer = some buffer') :
    TimeSorted buffer'.values := by
  induction calls generalizing buffer with
  | nil =>
      cases hrun
      exact h
  | cons a calls ih =>
      obtain ⟨next, hstep, hrest⟩ := Option.bind_eq_some_iff.mp hrun
      exact ih (timeSorted_step h hstep) hrest

/-- **A buffer is a timeline**: any calls go through on a new buffer just when they
do on the timeline without samples, and leave the timeline that those leave. -/
theorem run_is_run_of_timeline (I : IntervalUtil) (calls : List (BufferAction V)) :
    (calls.foldlM (TimedDataBuffer.step I) {}).map toTimeline =
      calls.foldlM (TimelineBuffer.step I) {} :=
  toTimeline_run List.Pairwise.nil calls

end TimedDataBuffer

/-! ## §6  The reads -/

/-- What a view is asked is answered from the timeline. -/
structure Reads (view : List (DataValue V)) (line : Timeline DateTime (DataValue V)) : Prop where
  timeSorted : TimeSorted view
  mem : ∀ v, v ∈ view ↔ line v.timestamp = some v
  size : line.times.encard = view.length
  value : ∀ time, valueAt view time = line time
  latest : ∀ time, line.LastUpTo time (sampleAtOrBefore view time)
  span : view ≠ [] →
    IsLeast line.times (timeSpan view).first ∧ IsGreatest line.times (timeSpan view).second
  /-- Also where an end of the time span is null, which is no bound then. -/
  whole : viewSlice view (timeSpan view) = view

theorem valueAt_eq_timeline (h : TimeSorted view) (time : DateTime) :
    valueAt view time = timeline DataValue.timestamp view time := by
  unfold valueAt
  dsimp only
  split
  · rename_i hat
    unfold isAt at hat
    obtain ⟨v, hget, hv⟩ := (Option.any_eq_true _ _).mp hat
    rw [hget]
    exact ((Ascending.timeline_eq_some h).mpr ⟨List.mem_of_getElem? hget, eq_of_beq hv⟩).symm
  · rename_i hat
    cases hsome : timeline DataValue.timestamp view time with
    | none => rfl
    | some v =>
        obtain ⟨hv, htime⟩ := (Ascending.timeline_eq_some h).mp hsome
        exact absurd ((isAt_lowerBound h).mpr ⟨v, hv, htime⟩) hat

theorem lastUpTo_sampleAtOrBefore (h : TimeSorted view) (time : DateTime) :
    (timeline DataValue.timestamp view).LastUpTo time (sampleAtOrBefore view time) := by
  have hlatest := latestAt_sampleAtOrBefore h time
  cases hfound : sampleAtOrBefore view time with
  | none =>
      rw [hfound] at hlatest
      intro earlier hle
      apply Option.eq_none_iff_forall_not_mem.mpr
      intro v hv
      obtain ⟨hmem, rfl⟩ := (Ascending.timeline_eq_some h).mp hv
      exact absurd hle (not_le.mpr (hlatest v hmem))
  | some v =>
      rw [hfound] at hlatest
      obtain ⟨hv, hle, hlast⟩ := hlatest
      refine ⟨v.timestamp, hle, (Ascending.timeline_eq_some h).mpr ⟨hv, rfl⟩, ?_⟩
      intro between hlt hbetween
      apply Option.eq_none_iff_forall_not_mem.mpr
      intro u hu
      obtain ⟨hmem, rfl⟩ := (Ascending.timeline_eq_some h).mp hu
      exact absurd hlt (not_lt.mpr (hlast u hmem hbetween))

theorem timeSpan_eq {front back : DataValue V} (hfront : view.head? = some front)
    (hback : view.getLast? = some back) : timeSpan view = ⟨front.timestamp, back.timestamp⟩ := by
  unfold timeSpan
  rw [hfront, hback]

/-- **A run is read as its timeline.** -/
theorem reads_timeline (h : TimeSorted view) : Reads view (timeline DataValue.timestamp view) := by
  have hends : view ≠ [] → ∃ front back, view.head? = some front ∧ view.getLast? = some back := by
    intro hne
    obtain ⟨front, hfront⟩ := Option.isSome_iff_exists.mp (List.isSome_head?.mpr hne)
    obtain ⟨back, hback⟩ := Option.isSome_iff_exists.mp (List.getLast?_isSome.mpr hne)
    exact ⟨front, back, hfront, hback⟩
  refine ⟨h, ?_, ?_, valueAt_eq_timeline h, lastUpTo_sampleAtOrBefore h, ?_, ?_⟩
  · intro v
    rw [Ascending.timeline_eq_some h, and_iff_left rfl]
  · have hcount := Ascending.encard_times h fun _ => True
    simpa using hcount
  · intro hne
    obtain ⟨front, back, hfront, hback⟩ := hends hne
    rw [timeSpan_eq hfront hback]
    refine ⟨⟨mem_times.mpr ⟨front, List.mem_of_mem_head? hfront, rfl⟩, ?_⟩,
      mem_times.mpr ⟨back, List.mem_of_getLast? hback, rfl⟩, ?_⟩
    · intro time htime
      obtain ⟨v, hv, rfl⟩ := mem_times.mp htime
      exact (h.mem_range hfront hback hv).1
    · intro time htime
      obtain ⟨v, hv, rfl⟩ := mem_times.mp htime
      exact (h.mem_range hfront hback hv).2
  · have hshows : ∀ v ∈ view, (timeSpan view).Shows v.timestamp := by
      intro v hv
      obtain ⟨front, back, hfront, hback⟩ := hends (List.ne_nil_of_mem hv)
      rw [timeSpan_eq hfront hback]
      obtain ⟨hfirst, hlast⟩ := h.mem_range hfront hback hv
      exact ⟨Or.inr hfirst, Or.inr hlast⟩
    apply Ascending.ext h (timeSorted_viewSlice h _)
    apply Timeline.ext_some
    intro time v
    rw [Ascending.timeline_eq_some h, Ascending.timeline_eq_some (timeSorted_viewSlice h _),
      mem_viewSlice_iff h]
    constructor
    · rintro ⟨⟨hv, -⟩, htime⟩
      exact ⟨hv, htime⟩
    · rintro ⟨hv, htime⟩
      exact ⟨⟨hv, hshows v hv⟩, htime⟩

theorem timeline_viewSlice (h : TimeSorted values) (range : DateTimeRange) :
    timeline DataValue.timestamp (viewSlice values range) =
      (timeline DataValue.timestamp values).restrict range.Shows :=
  Ascending.timeline_restrict h (timeSorted_viewSlice h range) fun _ => mem_viewSlice_iff h

/-- Slices of slices show what all the ranges show. -/
theorem timeline_viewSlices (h : TimeSorted values) (ranges : List DateTimeRange) :
    TimeSorted (ranges.foldl viewSlice values) ∧
      timeline DataValue.timestamp (ranges.foldl viewSlice values) =
        (timeline DataValue.timestamp values).restrict fun time =>
          ∀ range ∈ ranges, range.Shows time := by
  induction ranges generalizing values with
  | nil =>
      refine ⟨h, ?_⟩
      apply Timeline.ext_some
      simp
  | cons range ranges ih =>
      obtain ⟨hsorted, heq⟩ := ih (timeSorted_viewSlice h range)
      refine ⟨hsorted, ?_⟩
      rw [List.foldl_cons, heq, timeline_viewSlice h, Timeline.restrict_restrict]
      simp only [List.forall_mem_cons]

/-- **Every view of a buffer is read as the timeline of its calls**, in the times
that all slices taken of it show. -/
theorem views_read_the_timeline (I : IntervalUtil) (calls : List (BufferAction V))
    (buffer : TimedDataBuffer V) (hrun : calls.foldlM (TimedDataBuffer.step I) {} = some buffer)
    (ranges : List DateTimeRange) :
    ∃ b, calls.foldlM (TimelineBuffer.step I) {} = some b ∧
      Reads (ranges.foldl viewSlice buffer.values)
        (b.samples.restrict fun time => ∀ range ∈ ranges, range.Shows time) := by
  have hempty : TimeSorted ({} : TimedDataBuffer V).values := List.Pairwise.nil
  obtain ⟨hsorted, hslices⟩ := timeline_viewSlices (timeSorted_run hempty hrun) ranges
  have hline := toTimeline_run (I := I) hempty calls
  rw [hrun] at hline
  refine ⟨buffer.toTimeline, hline.symm, ?_⟩
  show Reads _ ((timeline DataValue.timestamp buffer.values).restrict _)
  rw [← hslices]
  exact reads_timeline hsorted

def correctedCalls : List (BufferAction ℕ) :=
  [.setRetention .off, .insertOrUpdate (pointAt 5 1),
    .replaceRange [pointAt 3 1, pointAt 8 1], .insertOrUpdate (pointAt 12 1)]

theorem views_read_the_timeline_corrected :
    ∃ b, correctedCalls.foldlM (TimelineBuffer.step apartIntervals) {} = some b ∧
      Reads [pointAt 8 1] (b.samples.restrict fun time =>
        ∀ range ∈ [⟨4, .null⟩, ⟨.null, 10⟩], DateTimeRange.Shows range time) :=
  views_read_the_timeline apartIntervals correctedCalls
    { retention := .off, values := [pointAt 3 1, pointAt 8 1, pointAt 12 1] } (by rfl)
    [⟨4, .null⟩, ⟨.null, 10⟩]

end ScadaCommon
