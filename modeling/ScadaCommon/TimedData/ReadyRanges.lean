import ScadaCommon.Scada.Basic

/-!
# Ready and observed ranges

Lists of time intervals: what the component takes from the interval functions
of the base library, and the search for the first gap between the observed and
the ready ranges.
-/

namespace ScadaCommon

/-- A range holds its ends. -/
def DateTimeRange.Holds (range : DateTimeRange) (time : DateTime) : Prop :=
  range.first ≤ time ∧ time ≤ range.second

/-- Some range holds the time. -/
def Covers (ranges : List DateTimeRange) (time : DateTime) : Prop :=
  ∃ range ∈ ranges, range.Holds time

theorem covers_nil (time : DateTime) : ¬ Covers [] time := by
  rintro ⟨range, hrange, -⟩
  cases hrange

theorem covers_cons {range : DateTimeRange} {ranges : List DateTimeRange} {time : DateTime} :
    Covers (range :: ranges) time ↔ range.Holds time ∨ Covers ranges time := by
  simp [Covers]

/-- Clamps each interval to `[lo, hi]` (a null `hi` means no upper bound) and
drops those that become empty. -/
def clampRanges (ranges : List DateTimeRange) (lo hi : DateTime) : List DateTimeRange :=
  ranges.filterMap fun r =>
    let a := max r.first lo
    let b := if hi = .null then r.second else min r.second hi
    if a < b then some ⟨a, b⟩ else none

/-- A time that is covered after clamping was covered and is within the
bounds. -/
theorem covers_clampRanges {ranges : List DateTimeRange} {lo hi time : DateTime}
    (h : Covers (clampRanges ranges lo hi) time) :
    Covers ranges time ∧ lo ≤ time ∧ (hi ≠ .null → time ≤ hi) := by
  obtain ⟨range, hrange, hfirst, hsecond⟩ := h
  obtain ⟨r, hr, hclamp⟩ := List.mem_filterMap.mp hrange
  dsimp only at hclamp
  rw [Option.ite_none_right_eq_some, Option.some_inj] at hclamp
  obtain ⟨-, rfl⟩ := hclamp
  dsimp only at hfirst hsecond
  have hbound : time ≤ r.second ∧ (hi ≠ .null → time ≤ hi) := by
    by_cases hnull : hi = .null
    · rw [if_pos hnull] at hsecond
      exact ⟨hsecond, fun h => absurd hnull h⟩
    · rw [if_neg hnull] at hsecond
      exact ⟨hsecond.trans (min_le_left _ _), fun _ => hsecond.trans (min_le_right _ _)⟩
  exact ⟨⟨r, hr, (le_max_left _ _).trans hfirst, hbound.1⟩, (le_max_right _ _).trans hfirst,
    hbound.2⟩

/-- What is used of the interval functions of the base library. -/
structure IntervalUtil where
  isValidInterval : DateTimeRange → Bool
  isEmptyInterval : DateTimeRange → Bool
  areValidIntervals : List DateTimeRange → Bool
  unionIntervals : List DateTimeRange → DateTimeRange → List DateTimeRange
  intervalContains : DateTimeRange → DateTimeRange → Bool
  /-- A valid interval with ends does not end before it starts. -/
  le_of_isValid : ∀ range, range.second ≠ .null → isValidInterval range = true →
    range.first ≤ range.second
  isEmpty_iff : ∀ range, isEmptyInterval range = true ↔ range.first = range.second
  /-- Valid intervals stand in order and are not empty. -/
  lt_of_areValid : ∀ ranges, areValidIntervals ranges = true → ∀ range ∈ ranges,
    range.first < range.second
  sorted_of_areValid : ∀ ranges, areValidIntervals ranges = true →
    ranges.Pairwise fun a b => a.second ≤ b.first
  areValid_nil : areValidIntervals [] = true
  areValid_clamp : ∀ ranges lo hi, areValidIntervals ranges = true →
    areValidIntervals (clampRanges ranges lo hi) = true
  /-- The union of valid intervals with one more. -/
  areValid_union : ∀ ranges range, areValidIntervals ranges = true → range.first < range.second →
    areValidIntervals (unionIntervals ranges range) = true
  covers_union : ∀ ranges range, areValidIntervals ranges = true → range.first < range.second →
    ∀ time, Covers (unionIntervals ranges range) time ↔ Covers ranges time ∨ range.Holds time

/-- The loops of `FindFirstGap`: ready ranges that end before a range starts are
skipped, for the later ranges too. -/
def firstGap : List DateTimeRange → List DateTimeRange → Option DateTimeRange
  | [], _ => none
  | i :: ranges, readyRanges =>
      match readyRanges.dropWhile (fun j => j.second ≤ i.first) with
      | [] => some i
      | j :: rest =>
          if i.first < j.first then some ⟨i.first, min i.second j.first⟩
          else if j.second < i.second then
            match rest with
            | [] => some ⟨j.second, i.second⟩
            | k :: _ => some ⟨j.second, if k.first < i.second then k.first else i.second⟩
          else firstGap ranges (j :: rest)

def findFirstGap (I : IntervalUtil) (ranges readyRanges : List DateTimeRange) :
    Option (Option DateTimeRange) := do
  check (I.areValidIntervals ranges = true)
  check (I.areValidIntervals readyRanges = true)
  return firstGap ranges readyRanges

/-- **Without a gap every range lies in one ready range.** -/
theorem firstGap_eq_none {ranges readyRanges : List DateTimeRange}
    (h : firstGap ranges readyRanges = none) :
    ∀ i ∈ ranges, ∃ j ∈ readyRanges, j.first ≤ i.first ∧ i.second ≤ j.second := by
  induction ranges generalizing readyRanges with
  | nil =>
      rintro i ⟨⟩
  | cons i ranges ih =>
      rw [firstGap] at h
      have hsub := (List.dropWhile_sublist (l := readyRanges) (fun j => j.second ≤ i.first)).subset
      cases hdrop : readyRanges.dropWhile (fun j => j.second ≤ i.first) with
      | nil =>
          rw [hdrop] at h
          cases h
      | cons j rest =>
          rw [hdrop] at h hsub
          dsimp only at h
          by_cases hfirst : i.first < j.first
          · rw [if_pos hfirst] at h
            cases h
          · rw [if_neg hfirst] at h
            by_cases hsecond : j.second < i.second
            · rw [if_pos hsecond] at h
              cases rest <;> cases h
            · rw [if_neg hsecond] at h
              -- The range lies in the first ready range that is left.
              intro i' hi'
              rcases List.mem_cons.mp hi' with rfl | hi'
              · exact ⟨j, hsub (List.mem_cons_self ..), not_lt.mp hfirst, not_lt.mp hsecond⟩
              · obtain ⟨j', hj', hle⟩ := ih h i' hi'
                exact ⟨j', hsub hj', hle⟩

/-- The ends of a gap are in order in whatever sense the ends of ready ranges and the starts of
the next ones are. -/
theorem rel_of_firstGap {R : DateTime → DateTime → Prop} (hlt : ∀ a b, a < b → R a b)
    {ranges readyRanges : List DateTimeRange} {gap : DateTimeRange}
    (hranges : ∀ i ∈ ranges, i.first < i.second)
    (hready : readyRanges.Pairwise fun a b => R a.second b.first)
    (h : firstGap ranges readyRanges = some gap) : R gap.first gap.second := by
  induction ranges generalizing readyRanges with
  | nil => cases h
  | cons i ranges ih =>
      have hi := hranges i (List.mem_cons_self ..)
      rw [firstGap] at h
      have hsorted := hready.sublist (List.dropWhile_sublist (fun j => j.second ≤ i.first))
      cases hdrop : readyRanges.dropWhile (fun j => j.second ≤ i.first) with
      | nil =>
          rw [hdrop] at h
          cases h
          exact hlt _ _ hi
      | cons j rest =>
          rw [hdrop] at h hsorted
          dsimp only at h
          by_cases hfirst : i.first < j.first
          · rw [if_pos hfirst] at h
            cases h
            exact hlt _ _ (lt_min hi hfirst)
          · rw [if_neg hfirst] at h
            by_cases hsecond : j.second < i.second
            · rw [if_pos hsecond] at h
              cases rest with
              | nil =>
                  cases h
                  exact hlt _ _ hsecond
              | cons k rest =>
                  cases h
                  have hjk := (List.pairwise_cons.mp hsorted).1 k (List.mem_cons_self ..)
                  show R j.second (if k.first < i.second then k.first else i.second)
                  split
                  · exact hjk
                  · exact hlt _ _ hsecond
            · rw [if_neg hsecond] at h
              exact ih (fun i' hi' => hranges i' (List.mem_cons_of_mem _ hi')) hsorted h

/-- Ready ranges that end before a range starts hold nothing of it or of later
ranges. -/
theorem mem_dropWhile_of_second {readyRanges : List DateTimeRange} {j : DateTimeRange}
    {time : DateTime} (hj : j ∈ readyRanges) (hlt : time < j.second) :
    j ∈ readyRanges.dropWhile fun j => j.second ≤ time := by
  rw [← List.takeWhile_append_dropWhile (p := fun j => decide (j.second ≤ time))
    (l := readyRanges), List.mem_append] at hj
  rcases hj with hj | hj
  · have hle := List.all_eq_true.mp List.all_takeWhile j hj
    exact absurd hlt (of_decide_eq_true hle).not_gt
  · exact hj

/-- **There is no gap just when every range lies in one ready range.** -/
theorem firstGap_eq_none_iff {ranges readyRanges : List DateTimeRange}
    (hranges : ∀ i ∈ ranges, i.first < i.second)
    (hsorted : ranges.Pairwise fun a b => a.second ≤ b.first)
    (hready : readyRanges.Pairwise fun a b => a.second < b.first) :
    firstGap ranges readyRanges = none ↔
      ∀ i ∈ ranges, ∃ j ∈ readyRanges, j.first ≤ i.first ∧ i.second ≤ j.second := by
  constructor
  · exact firstGap_eq_none
  · intro h
    induction ranges generalizing readyRanges with
    | nil => rfl
    | cons i ranges ih =>
        have hi := hranges i (List.mem_cons_self ..)
        obtain ⟨hbehind, hsorted⟩ := List.pairwise_cons.mp hsorted
        obtain ⟨j, hj, hfirst, hsecond⟩ := h i (List.mem_cons_self ..)
        have hapart := hready.sublist (List.dropWhile_sublist (fun j => j.second ≤ i.first))
        have hmem := mem_dropWhile_of_second hj (hi.trans_le hsecond)
        -- What covers a later range ends behind the start of this one.
        have hrest : ∀ i' ∈ ranges, ∃ j ∈ readyRanges.dropWhile fun j => j.second ≤ i.first,
            j.first ≤ i'.first ∧ i'.second ≤ j.second := by
          intro i' hi'
          obtain ⟨j', hj', hfirst', hsecond'⟩ := h i' (List.mem_cons_of_mem i hi')
          have hi'lt := hranges i' (List.mem_cons_of_mem i hi')
          have hlt := (hi.trans_le (hbehind i' hi')).trans (hi'lt.trans_le hsecond')
          exact ⟨j', mem_dropWhile_of_second hj' hlt, hfirst', hsecond'⟩
        have hhead : ∀ k ∈ (readyRanges.dropWhile fun j => j.second ≤ i.first).head?,
            i.first < k.second := by
          intro k hk
          have hnot := List.head?_dropWhile_not (fun j : DateTimeRange => j.second ≤ i.first)
            readyRanges
          rw [Option.mem_def.mp hk] at hnot
          simpa using hnot
        rw [firstGap]
        cases hdrop : readyRanges.dropWhile (fun j => j.second ≤ i.first) with
        | nil =>
            rw [hdrop] at hmem
            cases hmem
        | cons k rest =>
            rw [hdrop] at hmem hapart hrest hhead
            have hk : j = k := by
              rcases List.mem_cons.mp hmem with heq | hmem
              · exact heq
              · have hlt := (List.pairwise_cons.mp hapart).1 j hmem
                exact absurd ((hlt.trans_le hfirst).trans (hhead k rfl)) (lt_irrefl _)
            subst hk
            dsimp only
            rw [if_neg hfirst.not_gt, if_neg hsecond.not_gt]
            exact ih (fun i' hi' => hranges i' (List.mem_cons_of_mem _ hi')) hsorted hapart hrest

/-! ### An interval library -/

/-- Merges an interval into a list of intervals in order. -/
def mergeInterval : List DateTimeRange → DateTimeRange → List DateTimeRange
  | [], range => [range]
  | i :: ranges, range =>
      if i.second < range.first then i :: mergeInterval ranges range
      else if range.second < i.first then range :: i :: ranges
      else mergeInterval ranges ⟨min i.first range.first, max i.second range.second⟩

/-- Intervals in order that do not touch. -/
abbrev ApartIntervals (ranges : List DateTimeRange) : Prop :=
  (∀ range ∈ ranges, range.first < range.second) ∧
    ranges.Pairwise fun a b => a.second < b.first

theorem lt_first_of_mem_mergeInterval {ranges : List DateTimeRange} {range r : DateTimeRange}
    {time : DateTime} (hranges : ∀ i ∈ ranges, time < i.first) (hrange : time < range.first)
    (hr : r ∈ mergeInterval ranges range) : time < r.first := by
  induction ranges generalizing range with
  | nil =>
      rw [List.mem_singleton.mp hr]
      exact hrange
  | cons i ranges ih =>
      have hi := hranges i (List.mem_cons_self ..)
      have hrest := fun j hj => hranges j (List.mem_cons_of_mem i hj)
      rw [mergeInterval] at hr
      split at hr
      · rcases List.mem_cons.mp hr with rfl | hr
        · exact hi
        · exact ih hrest hrange hr
      · split at hr
        · rcases List.mem_cons.mp hr with rfl | hr
          · exact hrange
          · exact hranges r hr
        · exact ih hrest (lt_min hi hrange) hr

theorem apart_mergeInterval {ranges : List DateTimeRange} {range : DateTimeRange}
    (h : ApartIntervals ranges) (hrange : range.first < range.second) :
    ApartIntervals (mergeInterval ranges range) := by
  induction ranges generalizing range with
  | nil => exact ⟨by simpa [mergeInterval] using hrange, List.pairwise_singleton _ _⟩
  | cons i ranges ih =>
      obtain ⟨hvalid, hsorted⟩ := h
      obtain ⟨hbehind, hsorted⟩ := List.pairwise_cons.mp hsorted
      have hi := hvalid i (List.mem_cons_self ..)
      have hrest : ApartIntervals ranges :=
        ⟨fun j hj => hvalid j (List.mem_cons_of_mem i hj), hsorted⟩
      rw [mergeInterval]
      split
      · rename_i hbefore
        obtain ⟨hvalid', hsorted'⟩ := ih hrest hrange
        constructor
        · intro j hj
          rcases List.mem_cons.mp hj with rfl | hj
          · exact hi
          · exact hvalid' j hj
        · refine List.pairwise_cons.mpr ⟨fun j hj => ?_, hsorted'⟩
          exact lt_first_of_mem_mergeInterval hbehind hbefore hj
      · split
        · rename_i hbehind'
          constructor
          · intro j hj
            rcases List.mem_cons.mp hj with rfl | hj
            · exact hrange
            · exact hvalid j hj
          · refine List.pairwise_cons.mpr ⟨?_, List.pairwise_cons.mpr ⟨hbehind, hsorted⟩⟩
            intro j hj
            rcases List.mem_cons.mp hj with rfl | hj
            · exact hbehind'
            · exact (hbehind'.trans hi).trans (hbehind j hj)
        · refine ih hrest ?_
          exact (min_le_left _ _).trans_lt (hi.trans_le (le_max_left _ _))

theorem covers_mergeInterval {ranges : List DateTimeRange} {range : DateTimeRange}
    (h : ∀ i ∈ ranges, i.first < i.second) (hrange : range.first < range.second)
    (time : DateTime) :
    Covers (mergeInterval ranges range) time ↔ Covers ranges time ∨ range.Holds time := by
  induction ranges generalizing range with
  | nil => rw [mergeInterval, covers_cons, or_comm]
  | cons i ranges ih =>
      have hi := h i (List.mem_cons_self ..)
      have hrest := fun j hj => h j (List.mem_cons_of_mem i hj)
      rw [mergeInterval]
      split
      · rw [covers_cons, ih hrest hrange, covers_cons, or_assoc]
      · rename_i hbefore
        split
        · rw [covers_cons, or_comm]
        · rename_i hbehind
          have hmerged : (⟨min i.first range.first, max i.second range.second⟩ :
              DateTimeRange).Holds time ↔ i.Holds time ∨ range.Holds time := by
            unfold DateTimeRange.Holds
            rw [min_le_iff, le_max_iff]
            rw [not_lt] at hbefore hbehind
            constructor
            · rintro ⟨hfirst | hfirst, hsecond | hsecond⟩
              · exact Or.inl ⟨hfirst, hsecond⟩
              · rcases le_total time i.second with hle | hle
                · exact Or.inl ⟨hfirst, hle⟩
                · exact Or.inr ⟨hbefore.trans hle, hsecond⟩
              · rcases le_total time range.second with hle | hle
                · exact Or.inr ⟨hfirst, hle⟩
                · exact Or.inl ⟨hbehind.trans hle, hsecond⟩
              · exact Or.inr ⟨hfirst, hsecond⟩
            · rintro (⟨hfirst, hsecond⟩ | ⟨hfirst, hsecond⟩)
              · exact ⟨Or.inl hfirst, Or.inl hsecond⟩
              · exact ⟨Or.inr hfirst, Or.inr hsecond⟩
          have hlt : min i.first range.first < max i.second range.second :=
            (min_le_left _ _).trans_lt (hi.trans_le (le_max_left _ _))
          rw [ih hrest hlt, hmerged, covers_cons, or_assoc, or_left_comm]

theorem apart_clampRanges {ranges : List DateTimeRange} (h : ApartIntervals ranges)
    (lo hi : DateTime) : ApartIntervals (clampRanges ranges lo hi) := by
  constructor
  · intro range hrange
    obtain ⟨r, -, hclamp⟩ := List.mem_filterMap.mp hrange
    dsimp only at hclamp
    rw [Option.ite_none_right_eq_some, Option.some_inj] at hclamp
    obtain ⟨hlt, rfl⟩ := hclamp
    exact hlt
  · refine List.pairwise_filterMap.mpr (h.2.imp ?_)
    intro a b hab a' ha' b' hb'
    dsimp only at ha' hb'
    rw [Option.ite_none_right_eq_some, Option.some_inj] at ha' hb'
    obtain ⟨-, rfl⟩ := ha'
    obtain ⟨-, rfl⟩ := hb'
    have hend : (if hi = .null then a.second else min a.second hi) ≤ a.second := by
      split
      · exact le_rfl
      · exact min_le_left _ _
    exact (hend.trans_lt hab).trans_le (le_max_left _ _)

/-- Intervals in order that do not touch, merged where they do. -/
def apartIntervals : IntervalUtil where
  isValidInterval range := range.first ≤ range.second
  isEmptyInterval range := range.first == range.second
  areValidIntervals ranges := decide (ApartIntervals ranges)
  unionIntervals := mergeInterval
  intervalContains outer inner := outer.first ≤ inner.first && inner.second ≤ outer.second
  le_of_isValid _ _ h := of_decide_eq_true h
  isEmpty_iff _ := beq_iff_eq
  lt_of_areValid _ h := (of_decide_eq_true h).1
  sorted_of_areValid _ h := (of_decide_eq_true h).2.imp le_of_lt
  areValid_nil := rfl
  areValid_clamp _ lo hi h := decide_eq_true (apart_clampRanges (of_decide_eq_true h) lo hi)
  areValid_union _ _ h hrange := decide_eq_true (apart_mergeInterval (of_decide_eq_true h) hrange)
  covers_union _ _ h hrange := covers_mergeInterval (of_decide_eq_true h).1 hrange

/-! ### Intervals that are merged -/

/-- What the fetcher relies on besides: the intervals of a valid list do not
touch, and an empty interval adds no more than its instant. -/
structure IntervalUtil.Merges (I : IntervalUtil) : Prop where
  apart_of_areValid : ∀ ranges, I.areValidIntervals ranges = true →
    ranges.Pairwise fun a b => a.second < b.first
  areValid_union_empty : ∀ ranges range, I.areValidIntervals ranges = true →
    range.first = range.second → I.areValidIntervals (I.unionIntervals ranges range) = true
  covers_union_empty : ∀ ranges range, I.areValidIntervals ranges = true →
    range.first = range.second → ∀ time, Covers (I.unionIntervals ranges range) time →
      Covers ranges time ∨ range.Holds time

theorem IntervalUtil.Merges.areValid_union {I : IntervalUtil} (hI : I.Merges)
    {ranges : List DateTimeRange} {range : DateTimeRange}
    (h : I.areValidIntervals ranges = true) (hle : range.first ≤ range.second) :
    I.areValidIntervals (I.unionIntervals ranges range) = true := by
  rcases lt_or_eq_of_le hle with hlt | heq
  · exact I.areValid_union _ _ h hlt
  · exact hI.areValid_union_empty _ _ h heq

theorem IntervalUtil.Merges.covers_union {I : IntervalUtil} (hI : I.Merges)
    {ranges : List DateTimeRange} {range : DateTimeRange} {time : DateTime}
    (h : I.areValidIntervals ranges = true) (hle : range.first ≤ range.second)
    (hcovers : Covers (I.unionIntervals ranges range) time) :
    Covers ranges time ∨ range.Holds time := by
  rcases lt_or_eq_of_le hle with hlt | heq
  · exact (I.covers_union _ _ h hlt time).mp hcovers
  · exact hI.covers_union_empty _ _ h heq time hcovers

/-- Merges an interval that is not empty. -/
def unionApart (ranges : List DateTimeRange) (range : DateTimeRange) : List DateTimeRange :=
  if range.first < range.second then mergeInterval ranges range else ranges

/-- Intervals in order that do not touch; empty ones are left out. -/
def mergingIntervals : IntervalUtil where
  __ := apartIntervals
  unionIntervals := unionApart
  areValid_union ranges range h hrange := by
    unfold unionApart
    rw [if_pos hrange]
    exact apartIntervals.areValid_union ranges range h hrange
  covers_union ranges range h hrange := by
    unfold unionApart
    rw [if_pos hrange]
    exact apartIntervals.covers_union ranges range h hrange

theorem merges_mergingIntervals : mergingIntervals.Merges where
  apart_of_areValid _ h := (of_decide_eq_true h).2
  areValid_union_empty ranges range h hempty := by
    show mergingIntervals.areValidIntervals (unionApart ranges range) = true
    unfold unionApart
    rw [if_neg hempty.not_lt]
    exact h
  covers_union_empty ranges range _ hempty time hcovers := by
    have hranges : unionApart ranges range = ranges := if_neg hempty.not_lt
    rw [show mergingIntervals.unionIntervals ranges range = ranges from hranges] at hcovers
    exact Or.inl hcovers

end ScadaCommon
