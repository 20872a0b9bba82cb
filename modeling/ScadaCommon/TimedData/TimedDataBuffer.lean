import ScadaCommon.Common.TimedDataUtil
import ScadaCommon.TimedData.ReadyRanges

/-!
# The buffer of a time series

`BasicTimedDataBuffer` holds a sorted run of samples, the ranges that observers
care about and the ranges that have been filled, and drops samples that no
observer is looking at.

§1 the buffer · §2 observation and readiness · §3 samples · §4 what eviction
keeps · §5 what the mutators do.
-/

namespace ScadaCommon

variable {V : Type}

/-! ## §1  The buffer -/

/-- `none` for `max_samples` is `numeric_limits<size_t>::max()`, which disables
the cap. -/
structure RetentionPolicy where
  observedWindow : Bool := true
  maxSamples : Option ℕ := none

structure TimedDataBuffer (V : Type) where
  /-- A `std::map` by the address of the observer. -/
  observerRanges : List (ObserverId × DateTimeRange) := []
  observedRanges : List DateTimeRange := []
  readyRanges : List DateTimeRange := []
  retention : RetentionPolicy := {}
  values : List (DataValue V) := []

/-- `std::map::insert_or_assign`. -/
def insertOrAssign (observer : ObserverId) (range : DateTimeRange) :
    List (ObserverId × DateTimeRange) → List (ObserverId × DateTimeRange)
  | [] => [(observer, range)]
  | (o, r) :: rest =>
      if observer < o then (observer, range) :: (o, r) :: rest
      else if o < observer then (o, r) :: insertOrAssign observer range rest
      else (observer, range) :: rest

theorem mem_insertOrAssign {observer : ObserverId} {range : DateTimeRange}
    {entries : List (ObserverId × DateTimeRange)} {entry : ObserverId × DateTimeRange}
    (h : entry ∈ insertOrAssign observer range entries) :
    entry = (observer, range) ∨ entry ∈ entries := by
  induction entries with
  | nil => exact Or.inl (List.mem_singleton.mp h)
  | cons head rest ih =>
      obtain ⟨o, r⟩ := head
      rw [insertOrAssign] at h
      split at h
      · exact List.mem_cons.mp h
      · split at h
        · rcases List.mem_cons.mp h with rfl | h
          · exact Or.inr (List.mem_cons_self ..)
          · exact (ih h).imp_right (List.mem_cons_of_mem _)
        · exact (List.mem_cons.mp h).imp_right (List.mem_cons_of_mem _)

namespace TimedDataBuffer

/-- Drops the samples outside `[hullFirst, hullLast]`. -/
def trimToHull (buffer : TimedDataBuffer V) (hullFirst hullLast : DateTime) : TimedDataBuffer V :=
  let keepBegin := lowerBound buffer.values hullFirst
  let keepEnd := if hullLast = .null then buffer.values.length else upperBound buffer.values hullLast
  { buffer with
    values := (buffer.values.take keepEnd).drop keepBegin
    -- Keep ready bookkeeping consistent with retained data.
    readyRanges := clampRanges buffer.readyRanges hullFirst hullLast }

/-- The backstop drops the oldest samples; `none` where it reads past the end. -/
def dropOldest (buffer : TimedDataBuffer V) : Option (TimedDataBuffer V) :=
  match buffer.retention.maxSamples with
  | none => some buffer
  | some maxSamples =>
      if maxSamples < buffer.values.length then
        let drop := buffer.values.length - maxSamples
        match buffer.values[drop]? with
        | none => none
        | some newFirst =>
            some { buffer with
              values := buffer.values.drop drop
              readyRanges := clampRanges buffer.readyRanges newFirst.timestamp .null }
      else some buffer

def trimToObservedRanges (buffer : TimedDataBuffer V) : Option (TimedDataBuffer V) :=
  if buffer.values.isEmpty then some buffer
  else if buffer.retention.observedWindow then
    match buffer.observedRanges.head?, buffer.observedRanges.getLast? with
    | some front, some back => (buffer.trimToHull front.first back.second).dropOldest
    -- No observer wants history.
    | _, _ => some { buffer with values := [], readyRanges := [] }
  else buffer.dropOldest

def setRetention (buffer : TimedDataBuffer V) (retention : RetentionPolicy) :
    Option (TimedDataBuffer V) :=
  trimToObservedRanges { buffer with retention }

/-! ## §2  Observation and readiness -/

section

variable (I : IntervalUtil)

/-- The union of the ranges of the observers that want history. -/
def unionObserved (ranges : List DateTimeRange) :
    List (ObserverId × DateTimeRange) → Option (List DateTimeRange)
  | [] => some ranges
  | (_, range) :: rest =>
      if range.first ≠ .max then do
        check (I.isEmptyInterval range = false)
        unionObserved (I.unionIntervals ranges range) rest
      else unionObserved ranges rest

/-- The handler of the owner is called by the caller. -/
def updateObservedRanges (buffer : TimedDataBuffer V) : Option (TimedDataBuffer V) := do
  let observedRanges ← unionObserved I [] buffer.observerRanges
  trimToObservedRanges { buffer with observedRanges }

def addObserver (buffer : TimedDataBuffer V) (observer : ObserverId) (range : DateTimeRange) :
    Option (TimedDataBuffer V) := do
  check (range.second ≠ .null)
  check (I.isValidInterval range = true)
  check (range.first = .max ∨ I.isEmptyInterval range = false)
  updateObservedRanges I
    { buffer with observerRanges := insertOrAssign observer range buffer.observerRanges }

def removeObserver (buffer : TimedDataBuffer V) (observer : ObserverId) :
    Option (TimedDataBuffer V) :=
  updateObservedRanges I
    { buffer with observerRanges := buffer.observerRanges.filter (·.1 ≠ observer) }

def addReadyRange (buffer : TimedDataBuffer V) (range : DateTimeRange) : TimedDataBuffer V :=
  { buffer with readyRanges := I.unionIntervals buffer.readyRanges range }

def findNextGap (buffer : TimedDataBuffer V) : Option (Option DateTimeRange) :=
  findFirstGap I buffer.observedRanges buffer.readyRanges

end

/-! ## §3  Samples -/

/-- The result tells whether the value was applied. -/
def insertOrUpdate (buffer : TimedDataBuffer V) (value : DataValue V) :
    TimedDataBuffer V × Bool :=
  if value.timestamp = .null then (buffer, false)
  else if buffer.values.getLast?.all (·.timestamp < value.timestamp) then
    ({ buffer with values := buffer.values ++ [value] }, true)
  else
    let i := lowerBound buffer.values value.timestamp
    match buffer.values[i]? with
    | some v =>
        if v.timestamp = value.timestamp then
          if value.isLesser v then (buffer, false)
          else ({ buffer with values := buffer.values.set i value }, true)
        else
          ({ buffer with values := buffer.values.take i ++ value :: buffer.values.drop i }, true)
    | none =>
        ({ buffer with values := buffer.values.take i ++ value :: buffer.values.drop i }, true)

/-- The positions `ClearRange` erases. -/
def clearBounds (buffer : TimedDataBuffer V) (range : DateTimeRange) : ℕ × ℕ :=
  (lowerBound buffer.values range.first,
    if range.second = .null then buffer.values.length else upperBound buffer.values range.second)

def clearRange (buffer : TimedDataBuffer V) (range : DateTimeRange) :
    Option (TimedDataBuffer V) := do
  check (range.first ≠ .null)
  check (range.second = .null ∨ range.first ≤ range.second)
  let (i, j) := buffer.clearBounds range
  if i = j then return buffer
  else return { buffer with values := buffer.values.take i ++ buffer.values.drop j }

end TimedDataBuffer

/-- The loop of `std::ranges::unique` by timestamp, behind the value kept
last. -/
def uniqueAfter (kept : DataValue V) : List (DataValue V) → List (DataValue V)
  | [] => []
  | v :: values =>
      if kept.timestamp = v.timestamp then uniqueAfter kept values
      else v :: uniqueAfter v values

def uniqueByTime : List (DataValue V) → List (DataValue V)
  | [] => []
  | v :: values => v :: uniqueAfter v values

/-- `std::ranges::stable_sort` by timestamp. -/
def sortByTime (values : List (DataValue V)) : List (DataValue V) :=
  values.mergeSort fun v w => v.timestamp ≤ w.timestamp

/-- A batch without nulls and duplicates, and sorted. -/
def sanitize (values : List (DataValue V)) : List (DataValue V) :=
  let hasLeadingNull := values.head?.any (·.timestamp = .null)
  if hasLeadingNull || !isTimeSorted values then
    uniqueByTime (sortByTime (values.filter (·.timestamp ≠ .null)))
  else values

theorem uniqueByTime_of_sorted {values : List (DataValue V)} (h : TimeSorted values) :
    uniqueByTime values = values := by
  have hafter : ∀ (kept : DataValue V) (values : List (DataValue V)), TimeSorted (kept :: values) →
      uniqueAfter kept values = values := by
    intro kept values hkept
    induction values generalizing kept with
    | nil => rfl
    | cons v values ih =>
        obtain ⟨hlt, hrest⟩ := List.pairwise_cons.mp hkept
        rw [uniqueAfter, if_neg (hlt v (List.mem_cons_self ..)).ne, ih v hrest]
  cases values with
  | nil => rfl
  | cons v values => rw [uniqueByTime, hafter v values h]

theorem uniqueAfter_sublist (kept : DataValue V) (values : List (DataValue V)) :
    (uniqueAfter kept values).Sublist values := by
  induction values generalizing kept with
  | nil => exact List.Sublist.refl _
  | cons v values ih =>
      rw [uniqueAfter]
      split
      · exact (ih kept).cons v
      · exact (ih v).cons_cons v

theorem uniqueByTime_sublist (values : List (DataValue V)) :
    (uniqueByTime values).Sublist values := by
  cases values with
  | nil => exact List.Sublist.refl _
  | cons v values => exact (uniqueAfter_sublist v values).cons_cons v

theorem pairwise_sortByTime (values : List (DataValue V)) :
    (sortByTime values).Pairwise fun v w => v.timestamp ≤ w.timestamp := by
  have hpairwise : (sortByTime values).Pairwise fun v w => decide (v.timestamp ≤ w.timestamp) :=
    List.pairwise_mergeSort
      (fun a b c hab hbc => decide_eq_true
        ((of_decide_eq_true hab).trans (of_decide_eq_true hbc)))
      (fun a b => by simpa using le_total a.timestamp b.timestamp) values
  exact hpairwise.imp of_decide_eq_true

theorem timeSorted_uniqueAfter {kept : DataValue V} {values : List (DataValue V)}
    (h : (kept :: values).Pairwise fun v w => v.timestamp ≤ w.timestamp) :
    TimeSorted (kept :: uniqueAfter kept values) := by
  induction values generalizing kept with
  | nil => exact List.pairwise_singleton _ _
  | cons v values ih =>
      obtain ⟨hkept, hrest⟩ := List.pairwise_cons.mp h
      rw [uniqueAfter]
      split
      · refine ih (List.pairwise_cons.mpr ⟨?_, hrest.tail⟩)
        exact fun w hw => hkept w (List.mem_cons_of_mem _ hw)
      · rename_i hne
        have hlt := lt_of_le_of_ne (hkept v (List.mem_cons_self ..)) hne
        have hv := ih hrest
        refine List.pairwise_cons.mpr ⟨?_, hv⟩
        intro w hw
        rcases List.mem_cons.mp hw with rfl | hw
        · exact hlt
        · exact hlt.trans ((List.pairwise_cons.mp hv).1 w hw)

/-- **A sanitized batch is sorted.** -/
theorem timeSorted_sanitize (values : List (DataValue V)) : TimeSorted (sanitize values) := by
  unfold sanitize
  dsimp only
  split
  · have hpairwise := pairwise_sortByTime (values.filter (·.timestamp ≠ .null))
    cases hsort : sortByTime (values.filter (·.timestamp ≠ .null)) with
    | nil => exact List.Pairwise.nil
    | cons v rest =>
        rw [hsort] at hpairwise
        exact timeSorted_uniqueAfter hpairwise
  · rename_i hsorted
    rw [Bool.or_eq_true, not_or] at hsorted
    exact isTimeSorted_iff.mp (by simpa using hsorted.2)

/-- What is sorted already is left as it is. -/
theorem sanitize_of_sorted {values : List (DataValue V)} (h : TimeSorted values)
    (hnull : ∀ v ∈ values, v.timestamp ≠ .null) : sanitize values = values := by
  have hleading : values.head?.any (·.timestamp = .null) = false := by
    cases values with
    | nil => rfl
    | cons v values => simpa using hnull v (List.mem_cons_self ..)
  unfold sanitize
  dsimp only
  rw [hleading, isTimeSorted_iff.mpr h]
  rfl

namespace TimedDataBuffer

/-- When all new values relate to the same position in history they are inserted
as a whole. -/
def insertOrReplace (values updates : List (DataValue V)) (first last : DateTime) :
    Option (List (DataValue V)) :=
  match findInsertPosition values first last with
  | some i => some (values.take i ++ updates ++ values.drop i)
  | none => replaceSubrange values updates

def replaceRange (buffer : TimedDataBuffer V) (values : List (DataValue V)) :
    Option (TimedDataBuffer V) :=
  let values := sanitize values
  match values.head?, values.getLast? with
  | some front, some back => do
      let replaced ← insertOrReplace buffer.values values front.timestamp back.timestamp
      check (isTimeSorted replaced = true)
      trimToObservedRanges { buffer with values := replaced }
  | _, _ => some buffer

/-! ## §4  What eviction keeps -/

/-- The covering hull of the ranges, from the start of the first to the end of
the last. -/
def InHull (ranges : List DateTimeRange) (time : DateTime) : Prop :=
  ∃ front ∈ ranges.head?, ∃ back ∈ ranges.getLast?, front.first ≤ time ∧
    (back.second = .null ∨ time ≤ back.second)

instance (ranges : List DateTimeRange) (time : DateTime) : Decidable (InHull ranges time) := by
  unfold InHull
  infer_instance

variable {buffer buffer' : TimedDataBuffer V}

/-- A buffer after eviction. -/
structure Evicted (I : IntervalUtil) (buffer buffer' : TimedDataBuffer V) : Prop where
  observerRanges : buffer'.observerRanges = buffer.observerRanges
  observedRanges : buffer'.observedRanges = buffer.observedRanges
  retention : buffer'.retention = buffer.retention
  sublist : buffer'.values.Sublist buffer.values
  mem : ∀ v ∈ buffer.values, InHull buffer.observedRanges v.timestamp → v ∈ buffer'.values
  /-- Ready ranges only shrink, and with samples in the buffer to the hull. -/
  covers : ∀ time, Covers buffer'.readyRanges time →
    Covers buffer.readyRanges time ∧ (buffer.values ≠ [] → InHull buffer.observedRanges time)
  areValid : I.areValidIntervals buffer.readyRanges = true →
    I.areValidIntervals buffer'.readyRanges = true

theorem evicted_trimToHull (I : IntervalUtil) {front back : DateTimeRange}
    (h : TimeSorted buffer.values) (hfront : buffer.observedRanges.head? = some front)
    (hback : buffer.observedRanges.getLast? = some back) :
    Evicted I buffer (buffer.trimToHull front.first back.second) where
  observerRanges := rfl
  observedRanges := rfl
  retention := rfl
  sublist := (List.drop_sublist _ _).trans (List.take_sublist _ _)
  mem := by
    rintro v hv ⟨front', hfront', back', hback', hfirst, hsecond⟩
    rw [Option.mem_def] at hfront' hback'
    rw [hfront] at hfront'
    rw [hback] at hback'
    cases hfront'
    cases hback'
    refine mem_drop_lowerBound h ?_ hfirst
    rcases hsecond with hnull | hle
    · rw [if_pos hnull, List.take_length]
      exact hv
    · by_cases hnull : back.second = .null
      · rw [if_pos hnull, List.take_length]
        exact hv
      · rw [if_neg hnull, take_upperBound h]
        exact List.mem_filter.mpr ⟨hv, decide_eq_true hle⟩
  covers := by
    intro time hcovers
    obtain ⟨hready, hlo, hhi⟩ := covers_clampRanges hcovers
    refine ⟨hready, fun _ => ⟨front, hfront, back, hback, hlo, ?_⟩⟩
    by_cases hnull : back.second = .null
    · exact Or.inl hnull
    · exact Or.inr (hhi hnull)
  areValid := I.areValid_clamp _ _ _

theorem evicted_clear (I : IntervalUtil) (h : ∀ time, ¬ InHull buffer.observedRanges time) :
    Evicted I buffer { buffer with values := [], readyRanges := [] } where
  observerRanges := rfl
  observedRanges := rfl
  retention := rfl
  sublist := List.nil_sublist _
  mem := fun v _ hhull => absurd hhull (h v.timestamp)
  covers := fun time hcovers => absurd hcovers (covers_nil time)
  areValid := fun _ => I.areValid_nil

theorem evicted_refl (I : IntervalUtil) (h : buffer.values = []) : Evicted I buffer buffer where
  observerRanges := rfl
  observedRanges := rfl
  retention := rfl
  sublist := List.Sublist.refl _
  mem := fun _ hv _ => hv
  covers := fun _ hcovers => ⟨hcovers, fun hne => absurd h hne⟩
  areValid := id

/-- **Eviction under the default policy.** -/
theorem trimToObservedRanges_spec (I : IntervalUtil) (buffer : TimedDataBuffer V)
    (h : TimeSorted buffer.values) (hretention : buffer.retention = {}) :
    ∃ buffer', buffer.trimToObservedRanges = some buffer' ∧ Evicted I buffer buffer' := by
  have hwindow : buffer.retention.observedWindow = true := by rw [hretention]
  have hcap : buffer.retention.maxSamples = none := by rw [hretention]
  unfold trimToObservedRanges
  by_cases hempty : buffer.values.isEmpty = true
  · rw [if_pos hempty]
    exact ⟨buffer, rfl, evicted_refl I (List.isEmpty_iff.mp hempty)⟩
  · rw [if_neg hempty, if_pos hwindow]
    cases hfront : buffer.observedRanges.head? with
    | none =>
        refine ⟨_, rfl, evicted_clear I ?_⟩
        rintro time ⟨front, hfront', -⟩
        rw [hfront] at hfront'
        cases hfront'
    | some front =>
        cases hback : buffer.observedRanges.getLast? with
        | none =>
            refine ⟨_, rfl, evicted_clear I ?_⟩
            rintro time ⟨front, -, back, hback', -⟩
            rw [hback] at hback'
            cases hback'
        | some back =>
            refine ⟨_, ?_, evicted_trimToHull I h hfront hback⟩
            show (buffer.trimToHull front.first back.second).dropOldest = _
            unfold dropOldest
            rw [show (buffer.trimToHull front.first back.second).retention.maxSamples = none
              from hcap]

/-! ## §5  What the mutators do -/

theorem lt_of_getLast? {values : List (DataValue V)} {time : DateTime} (h : TimeSorted values)
    (hlast : values.getLast?.all (·.timestamp < time) = true) :
    ∀ v ∈ values, v.timestamp < time := by
  intro v hv
  cases hback : values.getLast? with
  | none =>
      rw [List.getLast?_eq_none_iff.mp hback] at hv
      cases hv
  | some back =>
      obtain ⟨rest, rfl⟩ := List.getLast?_eq_some_iff.mp hback
      have hlt : back.timestamp < time := by simpa using hlast
      rcases List.mem_append.mp hv with hv | hv
      · exact ((List.pairwise_append.mp h).2.2 v hv back (List.mem_singleton_self _)).trans hlt
      · rw [List.mem_singleton.mp hv]
        exact hlt

/-- A value is put into its place, over another one of its time, unless that one
sorts later. -/
theorem insertOrUpdate_spec (h : TimeSorted buffer.values) (value : DataValue V) :
    (buffer.insertOrUpdate value).1 = buffer ∧ (value.timestamp = .null ∨
        ∃ v ∈ buffer.values, v.timestamp = value.timestamp ∧ value.isLesser v = true) ∨
      value.timestamp ≠ .null ∧ (buffer.insertOrUpdate value).1 =
        { buffer with values := withBatch buffer.values [value] value.timestamp value.timestamp } := by
  unfold insertOrUpdate
  split
  · rename_i hnull
    exact Or.inl ⟨rfl, Or.inl hnull⟩
  · rename_i hnull
    split
    · rename_i htail
      have hall := lt_of_getLast? h htail
      have hbehind : buffer.values.filter (value.timestamp < ·.timestamp) = [] := by
        refine List.filter_eq_nil_iff.mpr ?_
        intro v hv
        simpa using (hall v hv).le
      have hbefore : buffer.values.filter (·.timestamp < value.timestamp) = buffer.values :=
        List.filter_eq_self.mpr fun v hv => decide_eq_true (hall v hv)
      refine Or.inr ⟨hnull, ?_⟩
      rw [withBatch, hbehind, hbefore, List.append_nil]
    · dsimp only
      rw [← List.head?_drop]
      have hbatch : withBatch buffer.values [value] value.timestamp value.timestamp =
          buffer.values.take (lowerBound buffer.values value.timestamp) ++ value ::
            (buffer.values.drop (lowerBound buffer.values value.timestamp)).filter
              (value.timestamp < ·.timestamp) := by
        rw [withBatch, take_lowerBound h, filter_lt_eq h, List.append_assoc]
        rfl
      have hsorted := h.sublist (List.drop_sublist (lowerBound buffer.values value.timestamp) _)
      have hnotbefore : ∀ v ∈ buffer.values.drop (lowerBound buffer.values value.timestamp),
          value.timestamp ≤ v.timestamp := by
        intro v hv
        rw [drop_lowerBound h] at hv
        exact of_decide_eq_true (List.mem_filter.mp hv).2
      rw [hbatch]
      cases hdrop : buffer.values.drop (lowerBound buffer.values value.timestamp) with
      | nil => exact Or.inr ⟨hnull, by rfl⟩
      | cons v rest =>
          rw [hdrop] at hsorted hnotbefore
          have hrest : rest.filter (value.timestamp < ·.timestamp) = rest := by
            refine List.filter_eq_self.mpr fun w hw => decide_eq_true ?_
            exact (hnotbefore v (List.mem_cons_self ..)).trans_lt
              ((List.pairwise_cons.mp hsorted).1 w hw)
          rw [List.head?_cons]
          dsimp only
          split
          · rename_i hsame
            split
            · rename_i hlesser
              have hv : v ∈ buffer.values :=
                (List.drop_sublist _ _).mem (hdrop ▸ List.mem_cons_self ..)
              exact Or.inl ⟨rfl, Or.inr ⟨v, hv, hsame, hlesser⟩⟩
            · -- The value overwrites the one of its time.
              refine Or.inr ⟨hnull, ?_⟩
              have hlen : lowerBound buffer.values value.timestamp < buffer.values.length := by
                have := congrArg List.length hdrop
                rw [List.length_drop, List.length_cons] at this
                omega
              have hnext : buffer.values.drop (lowerBound buffer.values value.timestamp + 1) =
                  rest := by
                rw [← List.drop_drop, hdrop, List.drop_one, List.tail_cons]
              rw [List.filter_cons_of_neg (by simp [hsame]), hrest,
                List.set_eq_take_append_cons_drop, if_pos hlen, hnext]
          · rename_i hother
            refine Or.inr ⟨hnull, ?_⟩
            have hlt : value.timestamp < v.timestamp :=
              lt_of_le_of_ne (hnotbefore v (List.mem_cons_self ..)) (Ne.symm hother)
            have hkeep : (v :: rest).filter (value.timestamp < ·.timestamp) = v :: rest := by
              rw [List.filter_cons_of_pos (by simpa using hlt), hrest]
            rw [hkeep]

theorem timeSorted_insertOrUpdate (h : TimeSorted buffer.values) (value : DataValue V) :
    TimeSorted (buffer.insertOrUpdate value).1.values := by
  rcases insertOrUpdate_spec h value with ⟨heq, -⟩ | ⟨-, heq⟩
  · rw [heq]
    exact h
  · rw [heq]
    exact h.withBatch (List.pairwise_singleton _ _) rfl rfl

/-- A batch is put into its place, over what was in its range, and the buffer
trimmed. -/
theorem replaceRange_eq {batch : List (DataValue V)} {front back : DataValue V}
    (h : TimeSorted buffer.values) (hsorted : TimeSorted (sanitize batch))
    (hfront : (sanitize batch).head? = some front) (hback : (sanitize batch).getLast? = some back) :
    buffer.replaceRange batch =
      trimToObservedRanges
        { buffer with
          values := withBatch buffer.values (sanitize batch) front.timestamp back.timestamp } := by
  have hbatch := h.withBatch hsorted hfront hback
  have hreplaced : insertOrReplace buffer.values (sanitize batch) front.timestamp
      back.timestamp =
      some (withBatch buffer.values (sanitize batch) front.timestamp back.timestamp) := by
    unfold insertOrReplace
    cases hi : findInsertPosition buffer.values front.timestamp back.timestamp with
    | none => exact replaceSubrange_eq h hsorted hfront hback
    | some i =>
        -- Nothing lies in the range of the batch.
        obtain ⟨rfl, houtside⟩ := findInsertPosition_eq_some h hi
        dsimp only
        rw [withBatch, take_lowerBound h, drop_lowerBound h]
        congr 2
        refine List.filter_congr ?_
        intro v hv
        rw [decide_eq_decide]
        have hle := (hsorted.mem_range hfront hback (List.mem_of_mem_head? hfront)).2
        constructor
        · intro hfirst
          by_contra hlast
          exact houtside v hv ⟨hfirst, not_lt.mp hlast⟩
        · intro hlast
          exact hle.trans hlast.le
  unfold replaceRange
  simp only [hfront, hback, hreplaced]
  show (check (isTimeSorted _ = true)).bind _ = _
  rw [check_of (isTimeSorted_iff.mpr hbatch)]
  rfl

theorem replaceRange_of_sorted {batch : List (DataValue V)} {front back : DataValue V}
    (h : TimeSorted buffer.values) (hsorted : TimeSorted batch)
    (hnull : ∀ v ∈ batch, v.timestamp ≠ .null) (hfront : batch.head? = some front)
    (hback : batch.getLast? = some back) :
    buffer.replaceRange batch =
      trimToObservedRanges
        { buffer with
          values := withBatch buffer.values batch front.timestamp back.timestamp } := by
  have hsanitize := sanitize_of_sorted hsorted hnull
  rw [← hsanitize] at hsorted hfront hback
  rw [replaceRange_eq h hsorted hfront hback, hsanitize]

theorem replaceRange_nil {batch : List (DataValue V)} (h : sanitize batch = []) :
    buffer.replaceRange batch = some buffer := by
  unfold replaceRange
  simp only [h, List.head?_nil]

/-! ### Observed ranges -/

/-- The ranges of the observers that want history are not empty. -/
def ValidObservers (buffer : TimedDataBuffer V) : Prop :=
  ∀ entry ∈ buffer.observerRanges, entry.2.first ≠ .max → entry.2.first < entry.2.second

/-- The observed ranges are valid and hold what the observers ask for. -/
def ObservesAll (I : IntervalUtil) (buffer : TimedDataBuffer V) : Prop :=
  I.areValidIntervals buffer.observedRanges = true ∧
    ∀ entry ∈ buffer.observerRanges, entry.2.first ≠ .max →
      ∀ time, entry.2.Holds time → Covers buffer.observedRanges time

theorem unionObserved_spec {I : IntervalUtil} {ranges result : List DateTimeRange}
    {entries : List (ObserverId × DateTimeRange)}
    (hvalid : I.areValidIntervals ranges = true)
    (hentries : ∀ entry ∈ entries, entry.2.first ≠ .max → entry.2.first < entry.2.second)
    (h : unionObserved I ranges entries = some result) :
    I.areValidIntervals result = true ∧
      (∀ time, Covers ranges time → Covers result time) ∧
      ∀ entry ∈ entries, entry.2.first ≠ .max →
        ∀ time, entry.2.Holds time → Covers result time := by
  induction entries generalizing ranges with
  | nil =>
      cases h
      refine ⟨hvalid, fun _ => id, ?_⟩
      rintro entry ⟨⟩
  | cons head entries ih =>
      obtain ⟨observer, range⟩ := head
      have hrest := fun entry hentry => hentries entry (List.mem_cons_of_mem (observer, range) hentry)
      rw [unionObserved] at h
      split at h
      · rename_i hmax
        obtain ⟨-, h⟩ := check_bind_eq_some.mp h
        have hlt := hentries (observer, range) (List.mem_cons_self ..) hmax
        obtain ⟨hresult, hkept, hheld⟩ := ih (I.areValid_union ranges range hvalid hlt) hrest h
        have hunion := I.covers_union ranges range hvalid hlt
        refine ⟨hresult, fun time hc => hkept time ((hunion time).mpr (Or.inl hc)), ?_⟩
        intro entry hentry hne time hholds
        rcases List.mem_cons.mp hentry with rfl | hentry
        · exact hkept time ((hunion time).mpr (Or.inr hholds))
        · exact hheld entry hentry hne time hholds
      · rename_i hmax
        obtain ⟨hresult, hkept, hheld⟩ := ih hvalid hrest h
        refine ⟨hresult, hkept, ?_⟩
        intro entry hentry hne time hholds
        rcases List.mem_cons.mp hentry with rfl | hentry
        · exact absurd hne hmax
        · exact hheld entry hentry hne time hholds

/-- The change of the observers: the observed ranges follow, and samples outside
their hull go. -/
theorem updateObservedRanges_spec {I : IntervalUtil} (buffer : TimedDataBuffer V)
    (h : TimeSorted buffer.values) (hretention : buffer.retention = {}) (hobservers : buffer.ValidObservers)
    (hupdate : buffer.updateObservedRanges I = some buffer') :
    ∃ observedRanges, unionObserved I [] buffer.observerRanges = some observedRanges ∧
      Evicted I { buffer with observedRanges } buffer' ∧ buffer'.ObservesAll I := by
  obtain ⟨observedRanges, hunion, htrim⟩ := Option.bind_eq_some_iff.mp hupdate
  obtain ⟨trimmed, htrim', hevicted⟩ :=
    trimToObservedRanges_spec I { buffer with observedRanges } h hretention
  rw [htrim] at htrim'
  cases htrim'
  obtain ⟨hvalid, -, hheld⟩ := unionObserved_spec I.areValid_nil hobservers hunion
  refine ⟨observedRanges, hunion, hevicted, ?_⟩
  rw [ObservesAll, hevicted.observedRanges, hevicted.observerRanges]
  exact ⟨hvalid, hheld⟩

theorem ValidObservers.insertOrAssign {observer : ObserverId} {range : DateTimeRange}
    (h : buffer.ValidObservers) (hlt : range.first ≠ .max → range.first < range.second) :
    ValidObservers { buffer with
      observerRanges := insertOrAssign observer range buffer.observerRanges } := by
  intro entry hentry hne
  rcases mem_insertOrAssign hentry with rfl | hentry
  · exact hlt hne
  · exact h entry hentry hne

/-- The checks of `AddObserver`. -/
theorem addObserver_checks {I : IntervalUtil} {observer : ObserverId} {range : DateTimeRange}
    (h : buffer.addObserver I observer range = some buffer') :
    (range.first ≠ .max → range.first < range.second) ∧
      updateObservedRanges I { buffer with
        observerRanges := ScadaCommon.insertOrAssign observer range buffer.observerRanges } =
        some buffer' := by
  obtain ⟨hnull, h⟩ := check_bind_eq_some.mp h
  obtain ⟨hvalid, h⟩ := check_bind_eq_some.mp h
  obtain ⟨hempty, h⟩ := check_bind_eq_some.mp h
  refine ⟨?_, h⟩
  intro hmax
  have hne : range.first ≠ range.second := by
    intro heq
    rw [(I.isEmpty_iff range).mpr heq] at hempty
    exact hmax (hempty.resolve_right (by simp))
  exact lt_of_le_of_ne (I.le_of_isValid range hnull hvalid) hne

end TimedDataBuffer

end ScadaCommon
