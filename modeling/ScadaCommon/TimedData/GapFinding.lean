import Mathlib
import ScadaCommon.TimedData.ReadyRanges

/-!
# Gaps

What the searches for a gap find. An interval stands for the times from its start
up to its end, so that intervals side by side leave nothing out.

§1 times · §2 the first gap · §3 the last gap.
-/

namespace ScadaCommon

/-! ## §1  Times -/

/-- The times of an interval, without its end. -/
def DateTimeRange.times (range : DateTimeRange) : Set DateTime :=
  Set.Ico range.first range.second

def timesOf (ranges : List DateTimeRange) : Set DateTime :=
  {time | ∃ range ∈ ranges, time ∈ range.times}

variable {ranges readyRanges ended : List DateTimeRange} {i gap : DateTimeRange}

/-- The gap is not empty, starts at the earliest time that is missing, reaches up to
the next ready interval or the end of its range, and meets no ready interval. -/
structure IsFirstGap (ranges readyRanges : List DateTimeRange) (gap : DateTimeRange) : Prop where
  nonempty : gap.first < gap.second
  starts : IsLeast (timesOf ranges \ timesOf readyRanges) gap.first
  ends : ∃ i ∈ ranges, gap.first ∈ i.times ∧
    IsLeast (insert i.second {time | gap.first < time ∧ ∃ j ∈ readyRanges, j.first = time})
      gap.second
  apart : ∀ j ∈ readyRanges, Disjoint gap.times j.times

/-- Ready intervals that ended before the ranges start make no difference. -/
theorem IsFirstGap.append (h : IsFirstGap ranges readyRanges gap)
    (hended : ∀ j ∈ ended, j.first < j.second ∧ ∀ i ∈ ranges, j.second ≤ i.first) :
    IsFirstGap ranges (ended ++ readyRanges) gap := by
  have hbefore : ∀ time ∈ timesOf ranges, ∀ j ∈ ended, j.second ≤ time := by
    rintro time ⟨i, hi, hfirst, -⟩ j hj
    exact ((hended j hj).2 i hi).trans hfirst
  have hstart := hbefore gap.first h.starts.1.1
  constructor
  case nonempty => exact h.nonempty
  case starts =>
    refine ⟨⟨h.starts.1.1, ?_⟩, fun time htime => h.starts.2 ⟨htime.1, ?_⟩⟩
    · rintro ⟨j, hj, hholds⟩
      rcases List.mem_append.mp hj with hj | hj
      · exact absurd hholds.2 (hstart j hj).not_gt
      · exact h.starts.1.2 ⟨j, hj, hholds⟩
    · rintro ⟨j, hj, hholds⟩
      exact htime.2 ⟨j, List.mem_append_right _ hj, hholds⟩
  case ends =>
    obtain ⟨i, hi, hin, hmem, hleast⟩ := h.ends
    refine ⟨i, hi, hin, ?_, ?_⟩
    · rcases hmem with heq | ⟨hlt, j, hj, heq⟩
      · exact .inl heq
      · exact .inr ⟨hlt, j, List.mem_append_right _ hj, heq⟩
    · rintro time (rfl | ⟨hlt, j, hj, rfl⟩)
      · exact hleast (.inl rfl)
      · rcases List.mem_append.mp hj with hj | hj
        · exact absurd (hlt.trans (hended j hj).1) (hstart j hj).not_gt
        · exact hleast (.inr ⟨hlt, j, hj, rfl⟩)
  case apart =>
    intro j hj
    rcases List.mem_append.mp hj with hj | hj
    · refine Set.disjoint_left.mpr fun time hgap hready => ?_
      exact absurd hready.2 ((hstart j hj).trans hgap.1).not_gt
    · exact h.apart j hj

/-- A range that is ready as a whole makes no difference. -/
theorem IsFirstGap.cons {j : DateTimeRange} (h : IsFirstGap ranges readyRanges gap)
    (hj : j ∈ readyRanges) (hfirst : j.first ≤ i.first) (hsecond : i.second ≤ j.second) :
    IsFirstGap (i :: ranges) readyRanges gap := by
  constructor
  case nonempty => exact h.nonempty
  case starts =>
    obtain ⟨⟨⟨i', hi', hin⟩, hmissing⟩, hleast⟩ := h.starts
    refine ⟨⟨⟨i', List.mem_cons_of_mem i hi', hin⟩, hmissing⟩, ?_⟩
    rintro time ⟨⟨i', hi', hin⟩, hmissing⟩
    rcases List.mem_cons.mp hi' with rfl | hi'
    · exact absurd ⟨j, hj, hfirst.trans hin.1, hin.2.trans_le hsecond⟩ hmissing
    · exact hleast ⟨⟨i', hi', hin⟩, hmissing⟩
  case ends =>
    obtain ⟨i', hi', hends⟩ := h.ends
    exact ⟨i', List.mem_cons_of_mem i hi', hends⟩
  case apart => exact h.apart

/-- Ranges that are ready as a whole have no gap. -/
theorem timesOf_subset (h : ∀ i ∈ ranges, ∃ j ∈ readyRanges, j.first ≤ i.first ∧ i.second ≤ j.second) :
    timesOf ranges ⊆ timesOf readyRanges := by
  rintro time ⟨i, hi, hfirst, hsecond⟩
  obtain ⟨j, hj, hjfirst, hjsecond⟩ := h i hi
  exact ⟨j, hj, hjfirst.trans hfirst, hsecond.trans_le hjsecond⟩

/-! ## §2  The first gap -/

/-- The gap before everything that is ready. -/
theorem isFirstGap_before {time : DateTime} (hi : i.first < time) (hend : time ≤ i.second)
    (hsorted : ∀ i' ∈ ranges, i.second ≤ i'.first)
    (hready : ∀ j ∈ readyRanges, time ≤ j.first)
    (hstops : time = i.second ∨ ∃ j ∈ readyRanges, j.first = time) :
    IsFirstGap (i :: ranges) readyRanges ⟨i.first, time⟩ := by
  have hmissing : i.first ∉ timesOf readyRanges := by
    rintro ⟨j, hj, hfirst, -⟩
    exact absurd hi (hfirst.trans' (hready j hj)).not_gt
  constructor
  case nonempty => exact hi
  case starts =>
    refine ⟨⟨⟨i, List.mem_cons_self, le_rfl, hi.trans_le hend⟩, hmissing⟩, ?_⟩
    rintro other ⟨⟨i', hi', hfirst, -⟩, -⟩
    rcases List.mem_cons.mp hi' with rfl | hi'
    · exact hfirst
    · exact ((hi.trans_le hend).le.trans (hsorted i' hi')).trans hfirst
  case ends =>
    refine ⟨i, List.mem_cons_self, ⟨le_rfl, hi.trans_le hend⟩, ?_, ?_⟩
    · exact hstops.imp_right fun ⟨j, hj, hfirst⟩ => ⟨hi, j, hj, hfirst⟩
    · rintro other (rfl | ⟨-, j, hj, rfl⟩)
      · exact hend
      · exact hready j hj
  case apart =>
    intro j hj
    refine Set.disjoint_left.mpr fun other hgap hother => ?_
    exact absurd hgap.2 ((hready j hj).trans hother.1).not_gt

/-- The gap behind a ready interval that covers the start of the range. -/
theorem isFirstGap_behind {j : DateTimeRange} {time : DateTime} (hfirst : j.first ≤ i.first)
    (hreach : i.first < j.second) (hj : j.second < time) (hend : time ≤ i.second)
    (hsorted : ∀ i' ∈ ranges, i.second ≤ i'.first)
    (hready : ∀ k ∈ readyRanges, time ≤ k.first)
    (hstops : time = i.second ∨ ∃ k ∈ readyRanges, k.first = time) :
    IsFirstGap (i :: ranges) (j :: readyRanges) ⟨j.second, time⟩ := by
  have hmissing : j.second ∉ timesOf (j :: readyRanges) := by
    rintro ⟨k, hk, hkfirst, hksecond⟩
    rcases List.mem_cons.mp hk with rfl | hk
    · exact lt_irrefl _ hksecond
    · exact absurd hj (hkfirst.trans' (hready k hk)).not_gt
  have hin : j.second ∈ i.times := ⟨hreach.le, hj.trans_le hend⟩
  constructor
  case nonempty => exact hj
  case starts =>
    refine ⟨⟨⟨i, List.mem_cons_self, hin⟩, hmissing⟩, ?_⟩
    rintro other ⟨⟨i', hi', hother⟩, hnot⟩
    rcases List.mem_cons.mp hi' with rfl | hi'
    · by_contra hlt
      exact hnot ⟨j, List.mem_cons_self, hfirst.trans hother.1, not_le.mp hlt⟩
    · exact ((hj.trans_le hend).le.trans (hsorted i' hi')).trans hother.1
  case ends =>
    refine ⟨i, List.mem_cons_self, hin, ?_, ?_⟩
    · exact hstops.imp_right fun ⟨k, hk, hkfirst⟩ => ⟨hj, k, List.mem_cons_of_mem j hk, hkfirst⟩
    · rintro other (rfl | ⟨hlt, k, hk, rfl⟩)
      · exact hend
      · rcases List.mem_cons.mp hk with rfl | hk
        · exact absurd (hlt.trans_le hfirst) hreach.not_gt
        · exact hready k hk
  case apart =>
    intro k hk
    refine Set.disjoint_left.mpr fun other hgap hother => ?_
    rcases List.mem_cons.mp hk with rfl | hk
    · exact absurd hother.2 hgap.1.not_gt
    · exact absurd hgap.2 ((hready k hk).trans hother.1).not_gt

theorem lt_second_of_dropWhile (hready : ApartIntervals readyRanges) :
    ∀ j ∈ readyRanges.dropWhile (fun j => j.second ≤ i.first), i.first < j.second := by
  have hapart := hready.2.sublist (List.dropWhile_sublist (fun j => j.second ≤ i.first))
  have hhead := List.head?_dropWhile_not (fun j : DateTimeRange => j.second ≤ i.first) readyRanges
  have hsub := (List.dropWhile_sublist (l := readyRanges) fun j => j.second ≤ i.first).subset
  cases hdrop : readyRanges.dropWhile (fun j => j.second ≤ i.first) with
  | nil => nofun
  | cons j rest =>
      rw [hdrop] at hapart hhead hsub
      have hj : i.first < j.second := by simpa using hhead
      refine List.forall_mem_cons.mpr ⟨hj, fun k hk => ?_⟩
      have hlt := (List.pairwise_cons.mp hapart).1 k hk
      exact (hj.trans hlt).trans (hready.1 k (hsub (List.mem_cons_of_mem j hk)))

theorem ApartIntervals.tail {j : DateTimeRange} (h : ApartIntervals (j :: readyRanges)) :
    ApartIntervals readyRanges :=
  ⟨(List.forall_mem_cons.mp h.1).2, (List.pairwise_cons.mp h.2).2⟩

theorem min_le_first {j : DateTimeRange} (h : ApartIntervals (j :: readyRanges))
    (time : DateTime) : ∀ k ∈ j :: readyRanges, min time j.first ≤ k.first := by
  obtain ⟨hj, -⟩ := List.pairwise_cons.mp h.2
  have hlt := h.1 j List.mem_cons_self
  refine List.forall_mem_cons.mpr ⟨min_le_right _ _, fun k hk => ?_⟩
  exact (min_le_right _ _).trans (hlt.trans (hj k hk)).le

theorem min_stops {j : DateTimeRange} (time : DateTime) :
    min time j.first = time ∨ ∃ k ∈ j :: readyRanges, k.first = min time j.first :=
  (min_choice time j.first).imp_right fun hmin => ⟨j, List.mem_cons_self, hmin.symm⟩

/-- **The first gap.** Without one the ranges are ready. -/
theorem firstGap_spec (hranges : ApartIntervals ranges) (hready : ApartIntervals readyRanges) :
    match firstGap ranges readyRanges with
    | none => timesOf ranges ⊆ timesOf readyRanges
    | some gap => IsFirstGap ranges readyRanges gap := by
  cases hgap : firstGap ranges readyRanges with
  | none => exact timesOf_subset (firstGap_eq_none hgap)
  | some gap =>
      dsimp only
      induction ranges generalizing readyRanges with
      | nil => cases hgap
      | cons i ranges ih =>
          obtain ⟨hi, hrest⟩ := List.forall_mem_cons.mp hranges.1
          obtain ⟨hbehind, hsorted⟩ := List.pairwise_cons.mp hranges.2
          have hafter := lt_second_of_dropWhile (i := i) hready
          have hended : ∀ j ∈ readyRanges.takeWhile (fun j => j.second ≤ i.first),
              j.first < j.second ∧ ∀ i' ∈ i :: ranges, j.second ≤ i'.first := by
            intro j hj
            have hdecide := List.mem_takeWhile_imp hj
            have hle : j.second ≤ i.first := of_decide_eq_true hdecide
            refine ⟨hready.1 j ((List.takeWhile_sublist _).subset hj), ?_⟩
            exact List.forall_mem_cons.mpr
              ⟨hle, fun i' hi' => hle.trans (hi.trans (hbehind i' hi')).le⟩
          have hapart : ApartIntervals (readyRanges.dropWhile fun j => j.second ≤ i.first) :=
            ⟨fun j hj => hready.1 j ((List.dropWhile_sublist _).subset hj),
              hready.2.sublist (List.dropWhile_sublist _)⟩
          rw [← List.takeWhile_append_dropWhile (p := fun j => decide (j.second ≤ i.first))
            (l := readyRanges)]
          refine IsFirstGap.append ?_ hended
          have hle := fun i' hi' => (hbehind i' hi').le
          rw [firstGap] at hgap
          cases hdrop : readyRanges.dropWhile (fun j => j.second ≤ i.first) with
          | nil =>
              rw [hdrop] at hgap
              cases hgap
              exact isFirstGap_before hi le_rfl hle (fun _ hk => absurd hk List.not_mem_nil) (.inl rfl)
          | cons j rest =>
              rw [hdrop] at hgap hapart hafter
              dsimp only at hgap
              obtain ⟨hj, -⟩ := List.pairwise_cons.mp hapart.2
              have hafterj := hapart.tail
              by_cases hfirst : i.first < j.first
              · rw [if_pos hfirst] at hgap
                cases hgap
                exact isFirstGap_before (lt_min hi hfirst) (min_le_left _ _) hle
                  (min_le_first hapart i.second) (min_stops i.second)
              · rw [if_neg hfirst] at hgap
                rw [not_lt] at hfirst
                have hreach := hafter j List.mem_cons_self
                by_cases hsecond : j.second < i.second
                · rw [if_pos hsecond] at hgap
                  cases rest with
                  | nil =>
                      cases hgap
                      exact isFirstGap_behind hfirst hreach hsecond le_rfl hle
                        (fun _ hk => absurd hk List.not_mem_nil) (.inl rfl)
                  | cons k rest =>
                      cases hgap
                      have hjk := hj k List.mem_cons_self
                      have hmin : (if k.first < i.second then k.first else i.second) =
                          min i.second k.first := by
                        rw [min_comm, min_def_lt]
                      rw [hmin]
                      exact isFirstGap_behind hfirst hreach (lt_min hsecond hjk)
                        (min_le_left _ _) hle (min_le_first hafterj i.second) (min_stops i.second)
                · rw [if_neg hsecond] at hgap
                  exact (ih ⟨hrest, hsorted⟩ hapart hgap).cons List.mem_cons_self hfirst
                    (not_lt.mp hsecond)

/-! ## §3  The last gap -/

/-- The loops of `FindLastGap`, which goes through both lists from behind. -/
def lastGapLoop : List DateTimeRange → List DateTimeRange → Option DateTimeRange
  | [], _ => none
  | i :: ranges, readyRanges =>
      match readyRanges.dropWhile (fun j => i.second ≤ j.first) with
      | [] => some i
      | j :: rest =>
          if j.second < i.second then some ⟨max j.second i.first, i.second⟩
          else if i.first < j.first then
            match rest with
            | [] => some ⟨i.first, j.first⟩
            | k :: _ => some ⟨if i.first < k.second then k.second else i.first, j.first⟩
          else lastGapLoop ranges (j :: rest)

def lastGap (ranges readyRanges : List DateTimeRange) : Option DateTimeRange :=
  lastGapLoop ranges.reverse readyRanges.reverse

def findLastGap (I : IntervalUtil) (ranges readyRanges : List DateTimeRange) :
    Option (Option DateTimeRange) := do
  check (I.areValidIntervals ranges = true)
  check (I.areValidIntervals readyRanges = true)
  return lastGap ranges readyRanges

/-- Time runs backwards. -/
def DateTimeRange.mirror (range : DateTimeRange) : DateTimeRange :=
  ⟨-range.second, -range.first⟩

def mirrorAll (ranges : List DateTimeRange) : List DateTimeRange :=
  (ranges.map DateTimeRange.mirror).reverse

theorem lastGapLoop_mirror (ranges readyRanges : List DateTimeRange) :
    lastGapLoop ranges readyRanges =
      (firstGap (ranges.map DateTimeRange.mirror) (readyRanges.map DateTimeRange.mirror)).map
        DateTimeRange.mirror := by
  induction ranges generalizing readyRanges with
  | nil => rfl
  | cons i ranges ih =>
      have hdrop : (readyRanges.map DateTimeRange.mirror).dropWhile
          (fun j => j.second ≤ i.mirror.first) =
            (readyRanges.dropWhile fun j => i.second ≤ j.first).map DateTimeRange.mirror := by
        rw [List.dropWhile_map]
        congr 2
        funext j
        simp [DateTimeRange.mirror]
      rw [lastGapLoop, List.map_cons, firstGap, hdrop]
      cases readyRanges.dropWhile fun j => i.second ≤ j.first with
      | nil => simp [DateTimeRange.mirror]
      | cons j rest =>
          have hrest := ih (j :: rest)
          simp only [List.map_cons] at hrest ⊢
          have hfirst : i.mirror.first < j.mirror.first ↔ j.second < i.second := neg_lt_neg_iff
          have hsecond : j.mirror.second < i.mirror.second ↔ i.first < j.first := neg_lt_neg_iff
          by_cases hafter : j.second < i.second
          · rw [if_pos hafter, if_pos (hfirst.mpr hafter), Option.map_some]
            simp [DateTimeRange.mirror, min_neg_neg, max_comm]
          · rw [if_neg hafter, if_neg (mt hfirst.mp hafter)]
            by_cases hbefore : i.first < j.first
            · rw [if_pos hbefore, if_pos (hsecond.mpr hbefore)]
              cases rest with
              | nil => simp [DateTimeRange.mirror]
              | cons k rest =>
                  have hk : k.mirror.first < i.mirror.second ↔ i.first < k.second := neg_lt_neg_iff
                  simp only [List.map_cons]
                  by_cases hreach : i.first < k.second
                  · rw [if_pos hreach, if_pos (hk.mpr hreach)]
                    simp [DateTimeRange.mirror]
                  · rw [if_neg hreach, if_neg (mt hk.mp hreach)]
                    simp [DateTimeRange.mirror]
            · rw [if_neg hbefore, if_neg (mt hsecond.mp hbefore)]
              exact hrest

/-- **The last gap is the first one backwards.** -/
theorem lastGap_mirror (ranges readyRanges : List DateTimeRange) :
    lastGap ranges readyRanges =
      (firstGap (mirrorAll ranges) (mirrorAll readyRanges)).map DateTimeRange.mirror := by
  rw [lastGap, lastGapLoop_mirror, mirrorAll, mirrorAll, List.map_reverse, List.map_reverse]

theorem apartIntervals_mirrorAll (h : ApartIntervals ranges) :
    ApartIntervals (mirrorAll ranges) := by
  constructor
  · intro range hrange
    obtain ⟨i, hi, rfl⟩ := List.mem_map.mp (List.mem_reverse.mp hrange)
    exact neg_lt_neg (h.1 i hi)
  · refine List.pairwise_reverse.mpr (List.pairwise_map.mpr (h.2.imp fun {a b} hab => ?_))
    exact neg_lt_neg hab

/-- **Both searches are exact.** The interval library accepts intervals in order that
do not touch. -/
theorem gaps_exact (I : IntervalUtil) (ranges readyRanges : List DateTimeRange)
    (haccepts : ∀ ranges, ApartIntervals ranges → I.areValidIntervals ranges = true)
    (hranges : ApartIntervals ranges) (hready : ApartIntervals readyRanges) :
    (∃ found, findFirstGap I ranges readyRanges = some found ∧
      (found = none ↔ timesOf ranges ⊆ timesOf readyRanges) ∧
        ∀ gap, found = some gap → IsFirstGap ranges readyRanges gap) ∧
      findLastGap I ranges readyRanges =
        (findFirstGap I (mirrorAll ranges) (mirrorAll readyRanges)).map
          (Option.map DateTimeRange.mirror) := by
  have hspec := firstGap_spec hranges hready
  refine ⟨⟨firstGap ranges readyRanges, ?_, ⟨fun hnone => ?_, fun hsubset => ?_⟩, fun gap hgap => ?_⟩, ?_⟩
  · rw [findFirstGap, check_of (haccepts ranges hranges), check_of (haccepts readyRanges hready)]
    rfl
  · rw [hnone] at hspec
    exact hspec
  · rw [Option.eq_none_iff_forall_ne_some]
    intro gap hgap
    rw [hgap] at hspec
    exact hspec.starts.1.2 (hsubset hspec.starts.1.1)
  · rw [hgap] at hspec
    exact hspec
  · rw [findFirstGap, findLastGap, check_of (haccepts ranges hranges),
      check_of (haccepts readyRanges hready),
      check_of (haccepts _ (apartIntervals_mirrorAll hranges)),
      check_of (haccepts _ (apartIntervals_mirrorAll hready)), lastGap_mirror]
    rfl

/-- Two ranges, and a ready interval that touches the first and covers the start of
the second. -/
theorem gaps_exact_two_ranges :
    (∃ found, findFirstGap apartIntervals [⟨10, 20⟩, ⟨30, 50⟩] [⟨10, 20⟩, ⟨25, 40⟩] = some found ∧
      (found = none ↔ timesOf [⟨10, 20⟩, ⟨30, 50⟩] ⊆ timesOf [⟨10, 20⟩, ⟨25, 40⟩]) ∧
        ∀ gap, found = some gap → IsFirstGap [⟨10, 20⟩, ⟨30, 50⟩] [⟨10, 20⟩, ⟨25, 40⟩] gap) ∧
      findLastGap apartIntervals [⟨10, 20⟩, ⟨30, 50⟩] [⟨10, 20⟩, ⟨25, 40⟩] =
        (findFirstGap apartIntervals (mirrorAll [⟨10, 20⟩, ⟨30, 50⟩])
          (mirrorAll [⟨10, 20⟩, ⟨25, 40⟩])).map (Option.map DateTimeRange.mirror) :=
  gaps_exact apartIntervals [⟨10, 20⟩, ⟨30, 50⟩] [⟨10, 20⟩, ⟨25, 40⟩]
    (fun _ h => decide_eq_true h) (by decide) (by decide)

end ScadaCommon
