import ScadaCommon.Foundation.PartitionPoint
import ScadaCommon.Foundation.Timelines
import ScadaCommon.Scada.Basic

/-!
# Runs of samples

What the components do with a run of samples that is sorted by timestamp:
searching it, finding a place for a batch and replacing a part of it.

§1 the functions · §2 sorted runs · §3 what searching and replacing do to a
sorted run.
-/

namespace ScadaCommon

open Foundation

variable {V : Type}

/-! ## §1  Functions -/

/-- `TimedDataTraits<DataValue>::timestamp`. -/
abbrev DataValue.timestamp (v : DataValue V) : DateTime := v.sourceTimestamp

/-- `TimedDataTraits<DataValue>::IsLesser`. -/
def DataValue.isLesser (a b : DataValue V) : Bool :=
  a.sourceTimestamp < b.sourceTimestamp ||
    (a.sourceTimestamp == b.sourceTimestamp && decide (a.serverTimestamp < b.serverTimestamp))

/-- Sorted with no duplicates. -/
def isTimeSorted : List (DataValue V) → Bool
  | v :: w :: values => decide (v.timestamp < w.timestamp) && isTimeSorted (w :: values)
  | _ => true

/-- `std::is_sorted` by timestamp. -/
def isSortedByTime : List (DataValue V) → Bool
  | v :: w :: values => decide (v.timestamp ≤ w.timestamp) && isSortedByTime (w :: values)
  | _ => true

/-- The number of values before `time`, in ascending values. -/
def lowerBound (values : List (DataValue V)) (time : DateTime) : ℕ :=
  partitionPoint (fun v => v.timestamp < time) values

/-- The number of values not after `time`, in ascending values. -/
def upperBound (values : List (DataValue V)) (time : DateTime) : ℕ :=
  partitionPoint (fun v => v.timestamp ≤ time) values

/-- The number of values not before `time`, in descending values. -/
def reverseUpperBound (values : List (DataValue V)) (time : DateTime) : ℕ :=
  partitionPoint (fun v => time ≤ v.timestamp) values

/-- There is a value at the position, and at the time. -/
def isAt (values : List (DataValue V)) (i : ℕ) (time : DateTime) : Bool :=
  values[i]?.any (·.timestamp == time)

def findInsertPosition (values : List (DataValue V)) (first last : DateTime) : Option ℕ :=
  let i := lowerBound values first
  if isAt values i first then none
  else
    let j := lowerBound values last
    if isAt values j last then none
    else if i ≠ j then none
    else some i

/-- The elements that `updates` covers in `values` are overwritten first; then
the rest of `updates` is inserted, or the rest of the elements erased. -/
def replaceSubrange (values updates : List (DataValue V)) : Option (List (DataValue V)) :=
  match updates.head?, updates.getLast? with
  | some front, some back => do
      check (isSortedByTime values = true)
      check (isSortedByTime updates = true)
      let first := lowerBound values front.timestamp
      let last := upperBound values back.timestamp
      let count := last - first
      let copyCount := min count updates.length
      let copied := values.take first ++ updates.take copyCount ++ values.drop (first + copyCount)
      let replaced :=
        if count < updates.length then
          copied.take last ++ updates.drop copyCount ++ copied.drop last
        else copied.take (first + copyCount) ++ copied.drop last
      check (isSortedByTime replaced = true)
      return replaced
  | _, _ => do
      check (isSortedByTime values = true)
      return values

/-! ## §2  Sorted runs -/

/-- Strictly ascending timestamps. -/
abbrev TimeSorted (values : List (DataValue V)) : Prop :=
  values.Pairwise fun v w => v.timestamp < w.timestamp

variable {values updates : List (DataValue V)} {v : DataValue V} {time : DateTime}

theorem isTimeSorted_iff : isTimeSorted values = true ↔ TimeSorted values := by
  induction values with
  | nil => simp [isTimeSorted]
  | cons v values ih =>
      cases values with
      | nil => simp [isTimeSorted]
      | cons w values =>
          rw [isTimeSorted, Bool.and_eq_true, decide_eq_true_eq, ih]
          constructor
          · rintro ⟨hvw, hrest⟩
            refine List.pairwise_cons.mpr ⟨?_, hrest⟩
            intro u hu
            rcases List.mem_cons.mp hu with rfl | hu
            · exact hvw
            · exact hvw.trans ((List.pairwise_cons.mp hrest).1 u hu)
          · intro h
            obtain ⟨hv, hrest⟩ := List.pairwise_cons.mp h
            exact ⟨hv w (List.mem_cons_self ..), hrest⟩

theorem TimeSorted.isSortedByTime (h : TimeSorted values) : isSortedByTime values = true := by
  induction values with
  | nil => rfl
  | cons v values ih =>
      obtain ⟨hv, hrest⟩ := List.pairwise_cons.mp h
      cases values with
      | nil => rfl
      | cons w values =>
          rw [ScadaCommon.isSortedByTime, Bool.and_eq_true, decide_eq_true_eq]
          exact ⟨(hv w (List.mem_cons_self ..)).le, ih hrest⟩

theorem TimeSorted.sublist {part : List (DataValue V)} (h : TimeSorted values)
    (hpart : part.Sublist values) : TimeSorted part :=
  List.Pairwise.sublist hpart h

/-- Two samples of a run at one time are one. -/
theorem TimeSorted.eq_of_timestamp {w : DataValue V} (h : TimeSorted values) (hv : v ∈ values)
    (hw : w ∈ values) (heq : v.timestamp = w.timestamp) : v = w :=
  Ascending.eq_of_key h hv hw heq

theorem TimeSorted.partitioned_lt (h : TimeSorted values) (time : DateTime) :
    Partitioned (fun v => decide (v.timestamp < time)) values := by
  refine h.imp ?_
  intro v w hvw hw
  exact decide_eq_true (hvw.trans (of_decide_eq_true hw))

theorem TimeSorted.partitioned_le (h : TimeSorted values) (time : DateTime) :
    Partitioned (fun v => decide (v.timestamp ≤ time)) values := by
  refine h.imp ?_
  intro v w hvw hw
  exact decide_eq_true (hvw.le.trans (of_decide_eq_true hw))

/-! ## §3  Searching and replacing -/

theorem take_lowerBound (h : TimeSorted values) (time : DateTime) :
    values.take (lowerBound values time) = values.filter (·.timestamp < time) :=
  take_partitionPoint (h.partitioned_lt time)

theorem drop_lowerBound (h : TimeSorted values) (time : DateTime) :
    values.drop (lowerBound values time) = values.filter (time ≤ ·.timestamp) := by
  rw [lowerBound, drop_partitionPoint (h.partitioned_lt time)]
  refine List.filter_congr ?_
  intro v _
  rw [← decide_not, decide_eq_decide, not_lt]

theorem take_upperBound (h : TimeSorted values) (time : DateTime) :
    values.take (upperBound values time) = values.filter (·.timestamp ≤ time) :=
  take_partitionPoint (h.partitioned_le time)

theorem drop_upperBound (h : TimeSorted values) (time : DateTime) :
    values.drop (upperBound values time) = values.filter (time < ·.timestamp) := by
  rw [upperBound, drop_partitionPoint (h.partitioned_le time)]
  refine List.filter_congr ?_
  intro v _
  rw [← decide_not, decide_eq_decide, not_le]

/-- What lies behind a time, seen from the lower bound. -/
theorem filter_lt_eq (h : TimeSorted values) (time : DateTime) :
    values.filter (time < ·.timestamp) =
      (values.drop (lowerBound values time)).filter (time < ·.timestamp) := by
  rw [drop_lowerBound h, List.filter_filter]
  refine List.filter_congr ?_
  intro v _
  rw [← Bool.decide_and, decide_eq_decide]
  exact ⟨fun hlt => ⟨hlt, hlt.le⟩, fun hlt => hlt.1⟩

/-- The lower bound finds a value of the time if there is one. -/
theorem isAt_lowerBound (h : TimeSorted values) :
    isAt values (lowerBound values time) time = true ↔ ∃ v ∈ values, v.timestamp = time := by
  have hhead : values[lowerBound values time]? =
      (values.filter (time ≤ ·.timestamp)).head? := by
    rw [← drop_lowerBound h, List.head?_drop]
  rw [isAt, hhead]
  cases hfilter : values.filter (time ≤ ·.timestamp) with
  | nil =>
      refine iff_of_false (by simp) ?_
      rintro ⟨v, hv, rfl⟩
      have := List.filter_eq_nil_iff.mp hfilter v hv
      simp at this
  | cons w rest =>
      have hw : w ∈ values.filter (time ≤ ·.timestamp) := hfilter ▸ List.mem_cons_self ..
      obtain ⟨hwmem, hwle⟩ := List.mem_filter.mp hw
      rw [List.head?_cons, Option.any_some, beq_iff_eq]
      constructor
      · intro heq
        exact ⟨w, hwmem, heq⟩
      · rintro ⟨v, hv, rfl⟩
        have hv' : v ∈ values.filter (v.timestamp ≤ ·.timestamp) := by simp [hv]
        have hsorted : TimeSorted (w :: rest) := hfilter ▸ h.sublist List.filter_sublist
        rw [hfilter] at hv'
        rcases List.mem_cons.mp hv' with rfl | hv'
        · rfl
        · have hlt := (List.pairwise_cons.mp hsorted).1 v hv'
          exact absurd hlt (not_lt.mpr (of_decide_eq_true hwle))

/-- A batch has an insert position when nothing in the run lies in its
range. -/
theorem findInsertPosition_eq_some {first last : DateTime} {i : ℕ} (h : TimeSorted values)
    (hi : findInsertPosition values first last = some i) :
    i = lowerBound values first ∧ ∀ v ∈ values, ¬ (first ≤ v.timestamp ∧ v.timestamp ≤ last) := by
  unfold findInsertPosition at hi
  dsimp only at hi
  split at hi
  · cases hi
  · split at hi
    · cases hi
    · rename_i hlast
      split at hi
      · cases hi
      · rename_i heq
        cases hi
        refine ⟨rfl, ?_⟩
        rintro v hv ⟨hfirst, hle⟩
        have hne : v.timestamp ≠ last := by
          intro hlast'
          exact hlast ((isAt_lowerBound h).mpr ⟨v, hv, hlast'⟩)
        have hsame : values.filter (·.timestamp < first) = values.filter (·.timestamp < last) := by
          rw [← take_lowerBound h, ← take_lowerBound h, not_not.mp heq]
        have hmem : v ∈ values.filter (·.timestamp < last) :=
          List.mem_filter.mpr ⟨hv, decide_eq_true (lt_of_le_of_ne hle hne)⟩
        rw [← hsame] at hmem
        exact absurd (of_decide_eq_true (List.mem_filter.mp hmem).2) (not_lt.mpr hfirst)

/-- Overwriting and then inserting or erasing replaces the middle of a list. -/
theorem overwrite_eq {α : Type*} (front middle back new : List α) :
    (let count := middle.length
      let copyCount := min count new.length
      let copied := (front ++ middle ++ back).take front.length ++ new.take copyCount ++
        (front ++ middle ++ back).drop (front.length + copyCount)
      if count < new.length then
        copied.take (front.length + count) ++ new.drop copyCount ++
          copied.drop (front.length + count)
      else copied.take (front.length + copyCount) ++ copied.drop (front.length + count)) =
      front ++ new ++ back := by
  have hfront : (front ++ middle ++ back).take front.length = front := by simp
  have hdrop : ∀ n, (front ++ middle ++ back).drop (front.length + n) = (middle ++ back).drop n := by
    intro n
    rw [List.append_assoc, List.drop_append, List.drop_of_length_le (Nat.le_add_right _ _),
      Nat.add_sub_cancel_left, List.nil_append]
  dsimp only
  rw [hfront, hdrop]
  split
  · rename_i hlt
    have hlen : (front ++ new.take middle.length).length = front.length + middle.length := by
      rw [List.length_append, List.length_take, min_eq_left hlt.le]
    rw [min_eq_left hlt.le, List.drop_left, ← hlen, List.take_left, List.drop_left,
      List.append_assoc front, List.take_append_drop]
  · rename_i hge
    rw [not_lt] at hge
    have hlen : (front ++ new).length = front.length + new.length := List.length_append
    rw [min_eq_right hge, List.take_length, ← hlen, List.take_left, List.drop_append,
      List.drop_of_length_le (by rw [hlen]; omega), List.nil_append, List.drop_drop]
    have hcount : new.length + (front.length + middle.length - (front ++ new).length) =
        middle.length := by
      rw [hlen]
      omega
    rw [hcount, List.drop_left]

theorem lowerBound_le_upperBound (h : TimeSorted values) {first last : DateTime}
    (hle : first ≤ last) : lowerBound values first ≤ upperBound values last := by
  rw [lowerBound, upperBound, partitionPoint_eq (h.partitioned_lt first),
    partitionPoint_eq (h.partitioned_le last), (h.partitioned_lt first).takeWhile_eq_filter,
    (h.partitioned_le last).takeWhile_eq_filter]
  refine (List.monotone_filter_right values ?_).length_le
  intro v hv
  exact decide_eq_true ((of_decide_eq_true hv).le.trans hle)

theorem upperBound_le_length (h : TimeSorted values) (time : DateTime) :
    upperBound values time ≤ values.length := by
  rw [upperBound, partitionPoint_eq (h.partitioned_le time)]
  exact (List.takeWhile_sublist _).length_le

/-- Cutting a run at both bounds keeps what lies between them. -/
theorem mem_drop_lowerBound {n : ℕ} (h : TimeSorted values) (hv : v ∈ values.take n)
    (hle : time ≤ v.timestamp) : v ∈ (values.take n).drop (lowerBound values time) := by
  rw [← List.take_append_drop (lowerBound values time) (values.take n)] at hv
  rcases List.mem_append.mp hv with hv | hv
  · have hbefore : v ∈ values.take (lowerBound values time) := by
      rw [List.take_take] at hv
      exact List.take_subset_take_left values (min_le_left _ _) hv
    rw [take_lowerBound h] at hbefore
    have hlt := of_decide_eq_true (List.mem_filter.mp hbefore).2
    exact absurd hlt (not_lt.mpr hle)
  · exact hv

/-- The ends of a sorted batch. -/
theorem TimeSorted.mem_range {front back : DataValue V} (h : TimeSorted updates)
    (hfront : updates.head? = some front) (hback : updates.getLast? = some back)
    (hv : v ∈ updates) : front.timestamp ≤ v.timestamp ∧ v.timestamp ≤ back.timestamp := by
  constructor
  · obtain ⟨rest, rfl⟩ := List.head?_eq_some_iff.mp hfront
    rcases List.mem_cons.mp hv with rfl | hv
    · exact le_rfl
    · exact ((List.pairwise_cons.mp h).1 v hv).le
  · obtain ⟨rest, rfl⟩ := List.getLast?_eq_some_iff.mp hback
    rcases List.mem_append.mp hv with hv | hv
    · exact ((List.pairwise_append.mp h).2.2 v hv back (List.mem_singleton_self _)).le
    · rw [List.mem_singleton.mp hv]

/-- The run with a batch in place of what it has in the range of the batch. -/
def withBatch (values updates : List (DataValue V)) (first last : DateTime) :
    List (DataValue V) :=
  values.filter (·.timestamp < first) ++ updates ++ values.filter (last < ·.timestamp)

theorem TimeSorted.withBatch {front back : DataValue V} (h : TimeSorted values)
    (hupdates : TimeSorted updates) (hfront : updates.head? = some front)
    (hback : updates.getLast? = some back) :
    TimeSorted (withBatch values updates front.timestamp back.timestamp) := by
  have hle : front.timestamp ≤ back.timestamp :=
    (hupdates.mem_range hfront hback (List.mem_of_mem_head? hfront)).2
  refine List.pairwise_append.mpr ⟨List.pairwise_append.mpr ⟨h.sublist List.filter_sublist,
    hupdates, ?_⟩, h.sublist List.filter_sublist, ?_⟩
  · intro v hv u hu
    have hlt : v.timestamp < front.timestamp := of_decide_eq_true (List.mem_filter.mp hv).2
    exact hlt.trans_le (hupdates.mem_range hfront hback hu).1
  · intro u hu v hv
    have hlt : back.timestamp < v.timestamp := of_decide_eq_true (List.mem_filter.mp hv).2
    rcases List.mem_append.mp hu with hu | hu
    · have hu' : u.timestamp < front.timestamp := of_decide_eq_true (List.mem_filter.mp hu).2
      exact (hu'.trans_le hle).trans hlt
    · exact (hupdates.mem_range hfront hback hu).2.trans_lt hlt

/-- **A batch replaces what the run has in its range.** -/
theorem replaceSubrange_eq {front back : DataValue V} (h : TimeSorted values)
    (hupdates : TimeSorted updates) (hfront : updates.head? = some front)
    (hback : updates.getLast? = some back) :
    replaceSubrange values updates =
      some (withBatch values updates front.timestamp back.timestamp) := by
  have hle : front.timestamp ≤ back.timestamp :=
    (hupdates.mem_range hfront hback (List.mem_of_mem_head? hfront)).2
  have hbounds := lowerBound_le_upperBound h hle
  have hlen := upperBound_le_length h back.timestamp
  generalize hfirst : lowerBound values front.timestamp = first at hbounds
  generalize hlast : upperBound values back.timestamp = last at hbounds hlen
  -- What the batch replaces lies between the two bounds.
  have hsplit : values.take first ++ (values.take last).drop first ++ values.drop last = values := by
    have htake : values.take first = (values.take last).take first := by
      rw [List.take_take, min_eq_left hbounds]
    rw [htake, List.take_append_drop, List.take_append_drop]
  have hfrontlen : (values.take first).length = first := by
    rw [List.length_take]
    omega
  have hcount : ((values.take last).drop first).length = last - first := by
    rw [List.length_drop, List.length_take]
    omega
  have hend : first + (last - first) = last := by omega
  have heq := overwrite_eq (values.take first) ((values.take last).drop first) (values.drop last)
    updates
  rw [hsplit, hfrontlen, hcount] at heq
  have hbatch : values.take first ++ updates ++ values.drop last =
      withBatch values updates front.timestamp back.timestamp := by
    rw [← hfirst, ← hlast, take_lowerBound h, drop_upperBound h, withBatch]
  rw [hbatch] at heq
  dsimp only at heq
  rw [hend] at heq
  unfold replaceSubrange
  simp only [hfront, hback, hfirst, hlast, heq]
  rw [check_of h.isSortedByTime, check_of hupdates.isSortedByTime,
    check_of (h.withBatch hupdates hfront hback).isSortedByTime]
  rfl

end ScadaCommon
