import Mathlib.Algebra.Order.Ring.Int
import Mathlib.Tactic.Linarith
import ScadaCommon.Common.Aggregation

/-!
# The rounds of `Process`

`Process` on a sorted span is a sequence of rounds: each gives the samples of
one bucket to its aggregator. Its results are read off the rounds here, so that
what follows never unfolds the loop.

§1 buckets · §2 one round · §3 rounds do not fail · §4 the collected values.
-/

namespace ScadaCommon

open Foundation

variable {V D : Type} {core : AggregationCore V D}

/-! ## §1  Buckets -/

theorem getAggregateInterval_second {time originTime : DateTime} {interval : Duration}
    (hpos : 0 < interval) :
    (getAggregateInterval time originTime interval).second =
      (getAggregateInterval time originTime interval).first + interval := by
  unfold getAggregateInterval
  rw [if_neg hpos.ne']
  split <;> rfl

/-- A time at or after the origin lies in its bucket. -/
theorem getAggregateInterval_mem {time originTime : DateTime} {interval : Duration}
    (hpos : 0 < interval) (horigin : originTime ≤ time) :
    (getAggregateInterval time originTime interval).first ≤ time ∧
      time < (getAggregateInterval time originTime interval).second := by
  have hdelta : 0 ≤ time - originTime := sub_nonneg.mpr horigin
  have hmod : Int.tmod (time - originTime) interval = (time - originTime) % interval :=
    Int.tmod_eq_emod_of_nonneg hdelta
  have hnonneg := Int.emod_nonneg (time - originTime) hpos.ne'
  have hlt := Int.emod_lt_of_pos (time - originTime) hpos
  unfold getAggregateInterval
  rw [if_neg hpos.ne', if_neg (not_lt.mpr horigin)]
  dsimp only
  rw [hmod]
  constructor <;> linarith

/-- Buckets do not overlap. -/
theorem getAggregateInterval_unique {time time' originTime : DateTime} {interval : Duration}
    (hpos : 0 < interval) (horigin : originTime ≤ time) (horigin' : originTime ≤ time')
    (hfirst : (getAggregateInterval time originTime interval).first ≤ time')
    (hsecond : time' < (getAggregateInterval time originTime interval).second) :
    getAggregateInterval time' originTime interval =
      getAggregateInterval time originTime interval := by
  have hdelta : 0 ≤ time - originTime := sub_nonneg.mpr horigin
  have hdelta' : 0 ≤ time' - originTime := sub_nonneg.mpr horigin'
  have hdiv := Int.mul_ediv_add_emod (time - originTime) interval
  unfold getAggregateInterval at hfirst hsecond ⊢
  rw [if_neg hpos.ne', if_neg (not_lt.mpr horigin)] at hfirst hsecond
  rw [if_neg hpos.ne', if_neg hpos.ne', if_neg (not_lt.mpr horigin), if_neg (not_lt.mpr horigin')]
  dsimp only at hfirst hsecond ⊢
  rw [Int.tmod_eq_emod_of_nonneg hdelta] at hfirst hsecond
  rw [Int.tmod_eq_emod_of_nonneg hdelta, Int.tmod_eq_emod_of_nonneg hdelta']
  have hquot : (time' - originTime) / interval = (time - originTime) / interval ∧
      (time' - originTime) % interval =
        time' - originTime - interval * ((time - originTime) / interval) := by
    rw [Int.ediv_emod_unique hpos]
    refine ⟨by linarith, by linarith, by linarith⟩
  have hsame : time' - originTime - (time' - originTime) % interval =
      time - originTime - (time - originTime) % interval := by
    rw [hquot.2]
    linarith
  rw [hsame]

/-- No bucket starts before the origin. -/
theorem origin_le_first {time originTime : DateTime} {interval : Duration} (hpos : 0 < interval) :
    originTime ≤ (getAggregateInterval time originTime interval).first := by
  unfold getAggregateInterval
  rw [if_neg hpos.ne']
  rcases lt_or_ge time originTime with hbefore | hafter
  · rw [if_pos hbefore]
  · rw [if_neg (not_lt.mpr hafter)]
    have hdelta : 0 ≤ time - originTime := sub_nonneg.mpr hafter
    have hdiv := Int.mul_ediv_add_emod (time - originTime) interval
    have hmul : 0 ≤ interval * ((time - originTime) / interval) :=
      mul_nonneg hpos.le (Int.ediv_nonneg hdelta hpos.le)
    dsimp only
    rw [Int.tmod_eq_emod_of_nonneg hdelta]
    linarith

namespace AggregateState

/-! ## §2  One round -/

/-- The samples that a bucket of this direction takes. -/
def within (st : AggregateState V D) (interval : DateTimeRange) (v : DataValue V) : Bool :=
  if st.forward then v.sourceTimestamp ≤ interval.second
  else interval.first ≤ v.sourceTimestamp

/-- Ascending or descending, by the direction. -/
def Sorted (st : AggregateState V D) (values : List (DataValue V)) : Prop :=
  values.Pairwise fun v w =>
    if st.forward then v.sourceTimestamp ≤ w.sourceTimestamp
    else w.sourceTimestamp ≤ v.sourceTimestamp

variable {st st' : AggregateState V D} {values : List (DataValue V)} {v : DataValue V}
  {interval : DateTimeRange}

theorem Sorted.partitioned (h : st.Sorted values) (interval : DateTimeRange) :
    Partitioned (st.within interval) values := by
  refine h.imp ?_
  intro v w hvw hw
  unfold within at hw ⊢
  cases hdir : st.forward
  · simp only [hdir, Bool.false_eq_true, if_false, decide_eq_true_eq] at hvw hw ⊢
    exact hw.trans hvw
  · simp only [hdir, if_true, decide_eq_true_eq] at hvw hw ⊢
    exact hvw.trans hw

theorem bucketCount_eq (h : st.Sorted values) (interval : DateTimeRange) :
    st.bucketCount interval values = (values.takeWhile (st.within interval)).length := by
  have hpart := h.partitioned interval
  unfold bucketCount
  cases hdir : st.forward
  · have hwithin : st.within interval = fun v => decide (interval.first ≤ v.sourceTimestamp) := by
      funext v
      simp [within, hdir]
    rw [hwithin] at hpart ⊢
    exact partitionPoint_eq hpart
  · have hwithin : st.within interval = fun v => decide (v.sourceTimestamp ≤ interval.second) := by
      funext v
      simp [within, hdir]
    rw [hwithin] at hpart ⊢
    exact partitionPoint_eq hpart

/-- A sample at or after the start time is within its bucket. -/
theorem within_bucketOf (hpos : 0 < st.aggregation.interval)
    (hstart : st.aggregation.startTime ≤ v.sourceTimestamp) :
    st.within (st.bucketOf v) v = true := by
  obtain ⟨hfirst, hsecond⟩ := getAggregateInterval_mem hpos hstart
  unfold within bucketOf
  split
  · exact decide_eq_true hsecond.le
  · exact decide_eq_true hfirst

/-- The direction and the parameters are never written. -/
structure SameKind (st st' : AggregateState V D) : Prop where
  forward : st'.forward = st.forward
  aggregation : st'.aggregation = st.aggregation

namespace SameKind

theorem refl : SameKind st st := ⟨rfl, rfl⟩

theorem trans {st'' : AggregateState V D} (h : SameKind st st') (h' : SameKind st' st'') :
    SameKind st st'' :=
  ⟨h'.forward.trans h.forward, h'.aggregation.trans h.aggregation⟩

theorem within (h : SameKind st st') : st'.within interval = st.within interval := by
  funext v
  unfold AggregateState.within
  rw [h.forward]

theorem bucketOf (h : SameKind st st') : st'.bucketOf v = st.bucketOf v := by
  unfold AggregateState.bucketOf
  rw [h.aggregation]

theorem sorted (h : SameKind st st') : st'.Sorted values ↔ st.Sorted values := by
  unfold AggregateState.Sorted
  rw [h.forward]

theorem enter : SameKind st (st.enter core interval) := by
  unfold AggregateState.enter
  split
  · exact refl
  · exact ⟨rfl, rfl⟩

theorem aggregate {aggregator : Aggregator V D}
    (h : st.aggregate core aggregator values = some st') : SameKind st st' := by
  obtain ⟨r, -, hst'⟩ := Option.bind_eq_some_iff.mp h
  cases hst'
  exact ⟨rfl, rfl⟩

end SameKind

/-- One round: the bucket of the first sample takes what it can. -/
def round (core : AggregationCore V D) (st : AggregateState V D) (interval : DateTimeRange)
    (values : List (DataValue V)) : Option (AggregateState V D) :=
  (st.enter core interval).aggregator.bind fun aggregator =>
    (st.enter core interval).aggregate core aggregator values

theorem SameKind.round (h : st.round core interval values = some st') : SameKind st st' := by
  obtain ⟨aggregator, -, hagg⟩ := Option.bind_eq_some_iff.mp h
  exact SameKind.enter.trans (SameKind.aggregate hagg)

/-- The bucket that samples are being collected for has an aggregator. -/
def Served (st : AggregateState V D) : Prop :=
  st.aggregation.aggregateType.isSome = true ∧
    (st.aggregator = none → st.aggregatorInterval = ⟨.null, .null⟩)

/-- Entering a real bucket provides an aggregator. -/
theorem Served.enter (core : AggregationCore V D) (h : st.Served) (hreal : interval.first < interval.second) :
    ∃ aggregator, (st.enter core interval).aggregator = some aggregator := by
  unfold AggregateState.enter
  split
  · rename_i heq
    cases hagg : st.aggregator with
    | some aggregator => exact ⟨aggregator, rfl⟩
    | none =>
        rw [← heq, h.2 hagg] at hreal
        exact absurd hreal (lt_irrefl _)
  · obtain ⟨function, hfunction⟩ := Option.isSome_iff_exists.mp h.1
    simp [hfunction]

theorem bucketOf_real (hpos : 0 < st.aggregation.interval) (v : DataValue V) :
    (st.bucketOf v).first < (st.bucketOf v).second := by
  unfold bucketOf
  rw [getAggregateInterval_second hpos]
  exact lt_add_of_pos_right _ hpos

theorem processLoop_succ (core : AggregationCore V D) (fuel : ℕ) (h : st.Served) (hpos : 0 < st.aggregation.interval)
    (hsorted : st.Sorted (v :: values)) :
    processLoop core (fuel + 1) st (v :: values) =
      if st.within (st.bucketOf v) v then
        (st.round core (st.bucketOf v)
          ((v :: values).takeWhile (st.within (st.bucketOf v)))).bind
            (processLoop core fuel · ((v :: values).dropWhile (st.within (st.bucketOf v))))
      else none := by
  obtain ⟨aggregator, haggregator⟩ := h.enter core (bucketOf_real hpos v)
  rw [processLoop]
  dsimp only
  rw [bucketCount_eq hsorted, haggregator, take_length_takeWhile, drop_length_takeWhile]
  by_cases hin : st.within (st.bucketOf v) v = true
  · rw [if_pos hin, round, haggregator, check_of]
    · rfl
    · rw [List.takeWhile_cons_of_pos hin]
      simp
  · rw [if_neg hin]
    simp [check, List.takeWhile_cons_of_neg hin]

theorem Served.round (h : st.Served) (hround : st.round core interval values = some st') :
    st'.Served := by
  have hkind := SameKind.round hround
  obtain ⟨aggregator, -, hagg⟩ := Option.bind_eq_some_iff.mp hround
  obtain ⟨r, -, hst'⟩ := Option.bind_eq_some_iff.mp hagg
  cases hst'
  refine ⟨?_, ?_⟩
  · rw [hkind.aggregation]
    exact h.1
  · intro hnone
    cases hnone

theorem Sorted.dropWhile (h : st.Sorted values) (p : DataValue V → Bool) :
    st.Sorted (values.dropWhile p) :=
  List.Pairwise.sublist (List.dropWhile_sublist p) h

theorem length_dropWhile_le (p : DataValue V → Bool) (values : List (DataValue V)) :
    (values.dropWhile p).length ≤ values.length :=
  (List.dropWhile_sublist p).length_le

/-- More fuel than samples changes nothing. -/
theorem processLoop_eq {fuel : ℕ} (h : st.Served) (hpos : 0 < st.aggregation.interval)
    (hsorted : st.Sorted values) (hfuel : values.length ≤ fuel) :
    processLoop core fuel st values = process core st values := by
  unfold process
  induction hn : values.length using Nat.strong_induction_on generalizing st values fuel with
  | _ n ih =>
      cases values with
      | nil =>
          cases fuel <;> simp [processLoop]
      | cons v values =>
          obtain ⟨fuel, rfl⟩ : ∃ k, fuel = k + 1 := Nat.exists_eq_succ_of_ne_zero (by
            rw [List.length_cons] at hfuel
            omega)
          rw [List.length_cons] at hfuel hn
          subst hn
          rw [processLoop_succ core _ h hpos hsorted, processLoop_succ core _ h hpos hsorted]
          by_cases hin : st.within (st.bucketOf v) v = true
          · rw [if_pos hin, if_pos hin]
            cases hround : st.round core (st.bucketOf v)
                ((v :: values).takeWhile (st.within (st.bucketOf v))) with
            | none => rfl
            | some st₁ =>
                have hkind := SameKind.round hround
                have hserved := h.round hround
                have hpos₁ : 0 < st₁.aggregation.interval := hkind.aggregation ▸ hpos
                have hsorted₁ := hkind.sorted.mpr
                  (hsorted.dropWhile (st.within (st.bucketOf v)))
                have hlen : ((v :: values).dropWhile (st.within (st.bucketOf v))).length ≤
                    values.length := by
                  rw [List.dropWhile_cons_of_pos hin]
                  exact length_dropWhile_le _ _
                rw [Option.bind_some, Option.bind_some]
                rw [ih _ (Nat.lt_succ_of_le hlen) hserved hpos₁ hsorted₁ (by omega) rfl]
                rw [ih _ (Nat.lt_succ_of_le hlen) hserved hpos₁ hsorted₁ hlen rfl]
          · rw [if_neg hin, if_neg hin]

@[simp] theorem process_nil : process core st [] = some st := rfl

/-- **`Process` is a sequence of rounds.** -/
theorem process_cons (h : st.Served) (hpos : 0 < st.aggregation.interval)
    (hsorted : st.Sorted (v :: values)) :
    process core st (v :: values) =
      if st.within (st.bucketOf v) v then
        (st.round core (st.bucketOf v)
          ((v :: values).takeWhile (st.within (st.bucketOf v)))).bind
            (process core · ((v :: values).dropWhile (st.within (st.bucketOf v))))
      else none := by
  have hloop := processLoop_succ core values.length h hpos hsorted
  rw [process, List.length_cons, hloop]
  by_cases hin : st.within (st.bucketOf v) v = true
  · rw [if_pos hin, if_pos hin]
    cases hround : st.round core (st.bucketOf v)
        ((v :: values).takeWhile (st.within (st.bucketOf v))) with
    | none => rfl
    | some st₁ =>
        have hkind := SameKind.round hround
        rw [Option.bind_some, Option.bind_some]
        refine processLoop_eq (h.round hround) (hkind.aggregation ▸ hpos)
          (hkind.sorted.mpr (hsorted.dropWhile _)) ?_
        rw [List.dropWhile_cons_of_pos hin]
        exact length_dropWhile_le _ _
  · rw [if_neg hin, if_neg hin]

/-! ## §3  Rounds do not fail -/

/-- An aggregator takes any non-empty span. -/
theorem call_isSome (core : AggregationCore V D) (aggregator : Aggregator V D) (hne : values ≠ []) :
    ∃ r, aggregator.call core values = some r := by
  obtain ⟨v, rest, rfl⟩ := List.exists_cons_of_ne_nil hne
  obtain ⟨interval, state⟩ := aggregator
  cases state with
  | average total count =>
      apply Option.isSome_iff_exists.mp
      have hcount : count + (v :: rest).length ≠ 0 := Nat.succ_ne_zero _
      simp only [Aggregator.call, check_of hcount]
      rfl
  | back =>
      apply Option.isSome_iff_exists.mp
      simp only [Aggregator.call, List.getLast?_cons]
      rfl
  | total total => exact ⟨_, rfl⟩
  | count count => exact ⟨_, rfl⟩
  | minimum minValue => exact ⟨_, rfl⟩
  | maximum maxValue => exact ⟨_, rfl⟩
  | front startDataValue => exact ⟨_, rfl⟩

theorem round_isSome (core : AggregationCore V D) (h : st.Served) (hreal : interval.first < interval.second)
    (hne : values ≠ []) : ∃ st', st.round core interval values = some st' := by
  obtain ⟨aggregator, haggregator⟩ := h.enter core hreal
  obtain ⟨r, hr⟩ := call_isSome core aggregator hne
  apply Option.isSome_iff_exists.mp
  rw [round, haggregator, Option.bind_some, aggregate, hr]
  rfl

/-- **Induction over the rounds** of a sorted span. -/
theorem rounds_induction (core : AggregationCore V D)
    {P : AggregateState V D → List (DataValue V) → Prop}
    (hnil : ∀ st, P st [])
    (hcons : ∀ st v values, st.Served → 0 < st.aggregation.interval → st.Sorted (v :: values) →
      (∀ st₁, st.within (st.bucketOf v) v = true →
        st.round core (st.bucketOf v)
          ((v :: values).takeWhile (st.within (st.bucketOf v))) = some st₁ →
        SameKind st st₁ → P st₁ ((v :: values).dropWhile (st.within (st.bucketOf v)))) →
      P st (v :: values))
    (h : st.Served) (hpos : 0 < st.aggregation.interval) (hsorted : st.Sorted values) :
    P st values := by
  induction hn : values.length using Nat.strong_induction_on generalizing st values with
  | _ n ih =>
      cases values with
      | nil => exact hnil st
      | cons v values =>
          refine hcons st v values h hpos hsorted ?_
          intro st₁ hin hround hkind
          refine ih _ ?_ (h.round hround) (hkind.aggregation ▸ hpos)
            (hkind.sorted.mpr (hsorted.dropWhile _)) rfl
          rw [List.dropWhile_cons_of_pos hin, ← hn, List.length_cons]
          exact Nat.lt_succ_of_le (length_dropWhile_le _ _)

/-- What every later state shares with the first one. -/
theorem process_preserves (h : st.Served) (hpos : 0 < st.aggregation.interval)
    (hsorted : st.Sorted values) (hst' : process core st values = some st') :
    SameKind st st' ∧ st'.Served := by
  refine rounds_induction core
    (P := fun st values => st.Served → process core st values = some st' →
      SameKind st st' ∧ st'.Served) ?_ ?_ h hpos hsorted h hst'
  · rintro st h ⟨⟩
    exact ⟨SameKind.refl, h⟩
  · intro st v values h hpos hsorted ih _ hst'
    rw [process_cons h hpos hsorted] at hst'
    split at hst'
    · rename_i hin
      obtain ⟨st₁, hround, hrest⟩ := Option.bind_eq_some_iff.mp hst'
      have hkind := SameKind.round hround
      obtain ⟨hkind', hserved'⟩ := ih st₁ hin hround hkind (h.round hround) hrest
      exact ⟨hkind.trans hkind', hserved'⟩
    · cases hst'

/-- With no sample before the start time `Process` does not fail. -/
theorem process_isSome (core : AggregationCore V D) (h : st.Served) (hpos : 0 < st.aggregation.interval)
    (hsorted : st.Sorted values)
    (hstart : ∀ v ∈ values, st.aggregation.startTime ≤ v.sourceTimestamp) :
    ∃ st', process core st values = some st' := by
  refine rounds_induction core
    (P := fun st values => (∀ v ∈ values, st.aggregation.startTime ≤ v.sourceTimestamp) →
      ∃ st', process core st values = some st') ?_ ?_ h hpos hsorted hstart
  · exact fun st _ => ⟨st, rfl⟩
  · intro st v values h hpos hsorted ih hstart
    have hin := within_bucketOf hpos (hstart v (List.mem_cons_self ..))
    have hne : (v :: values).takeWhile (st.within (st.bucketOf v)) ≠ [] := by
      rw [List.takeWhile_cons_of_pos hin]
      exact List.cons_ne_nil _ _
    obtain ⟨st₁, hround⟩ := round_isSome core h (bucketOf_real hpos v) hne
    have hkind := SameKind.round hround
    rw [process_cons h hpos hsorted, if_pos hin, hround, Option.bind_some]
    refine ih st₁ hin hround hkind ?_
    intro w hw
    rw [hkind.aggregation]
    exact hstart w ((List.dropWhile_sublist _).mem hw)

/-- Backwards, a sample before the start time belongs to a bucket that does not
hold it: the check on `count` fails. -/
theorem start_le_of_process (h : st.Served) (hpos : 0 < st.aggregation.interval)
    (hsorted : st.Sorted values) (hback : st.forward = false)
    (hst' : process core st values = some st') :
    ∀ v ∈ values, st.aggregation.startTime ≤ v.sourceTimestamp := by
  refine rounds_induction core
    (P := fun st values => st.forward = false → process core st values = some st' →
      ∀ v ∈ values, st.aggregation.startTime ≤ v.sourceTimestamp) ?_ ?_ h hpos hsorted hback hst'
  · rintro st - - v ⟨⟩
  · intro st v values h hpos hsorted ih hback hst'
    rw [process_cons h hpos hsorted] at hst'
    split at hst'
    · rename_i hin
      obtain ⟨st₁, hround, hrest⟩ := Option.bind_eq_some_iff.mp hst'
      have hkind := SameKind.round hround
      have hlater := ih st₁ hin hround hkind (hkind.forward.trans hback) hrest
      intro w hw
      rw [← List.takeWhile_append_dropWhile (p := st.within (st.bucketOf v))
        (l := v :: values)] at hw
      rcases List.mem_append.mp hw with htake | hdrop
      · have hwithin := List.mem_takeWhile_imp htake
        rw [within, hback] at hwithin
        have hfirst : (st.bucketOf v).first ≤ w.sourceTimestamp := by simpa using hwithin
        exact (origin_le_first hpos).trans hfirst
      · rw [← hkind.aggregation]
        exact hlater w hdrop
    · cases hst'

/-! ## §4  The collected values -/

/-- The state with more values collected. -/
def collected (data : List (DataValue V)) (st : AggregateState V D) : AggregateState V D :=
  { st with dataValues := data ++ st.dataValues }

theorem round_collected (data : List (DataValue V)) :
    (collected data st).round core interval values =
      (st.round core interval values).map (collected data) := by
  have henter : (collected data st).enter core interval =
      collected data (st.enter core interval) := by
    unfold enter
    by_cases heq : st.aggregatorInterval = interval
    · rw [if_pos heq]
      exact if_pos heq
    · rw [if_neg heq]
      refine (if_neg heq).trans ?_
      simp only [collected, List.append_assoc]
      rfl
  rw [round, henter, round]
  change (st.enter core interval).aggregator.bind _ = _
  cases (st.enter core interval).aggregator with
  | none => rfl
  | some aggregator =>
      rw [Option.bind_some, Option.bind_some, aggregate, aggregate]
      cases aggregator.call core values with
      | none => rfl
      | some r => rfl

/-- `Process` only appends to the collected values, and reads none. -/
theorem process_collected (h : st.Served) (hpos : 0 < st.aggregation.interval)
    (hsorted : st.Sorted values) (data : List (DataValue V)) :
    process core (collected data st) values = (process core st values).map (collected data) := by
  refine rounds_induction core
    (P := fun st values => process core (collected data st) values =
      (process core st values).map (collected data)) ?_ ?_ h hpos hsorted
  · exact fun st => rfl
  · intro st v values h hpos hsorted ih
    have h' : (collected data st).Served := h
    rw [process_cons h hpos hsorted, process_cons h' hpos hsorted]
    change (if st.within (st.bucketOf v) v = true then
      ((collected data st).round core (st.bucketOf v)
        ((v :: values).takeWhile (st.within (st.bucketOf v)))).bind _ else none) = _
    by_cases hin : st.within (st.bucketOf v) v = true
    · rw [if_pos hin, if_pos hin, round_collected]
      cases hround : st.round core (st.bucketOf v)
          ((v :: values).takeWhile (st.within (st.bucketOf v))) with
      | none => rfl
      | some st₁ => exact ih st₁ hin hround (SameKind.round hround)
    · rw [if_neg hin, if_neg hin]
      rfl

/-- The values after `Process` and `Finish`. -/
def output (core : AggregationCore V D) (st : AggregateState V D) (values : List (DataValue V)) :
    Option (List (DataValue V)) :=
  (process core st values).map fun st => (st.finish core).dataValues

/-- Leaving a bucket emits its value; what comes after does not depend on
it. -/
theorem output_of_leave (h : st.Served) (hpos : 0 < st.aggregation.interval)
    (hsorted : st.Sorted values)
    (hleave : ∀ v ∈ values.head?, st.aggregatorInterval ≠ st.bucketOf v) :
    st.output core values = ((init core st.forward st.aggregation).output core values).map
      fun later => st.dataValues ++ emitted core st.aggregatedValue ++ later := by
  have hnone : emitted core core.null = [] := by
    unfold emitted
    rw [AggregationCore.null, core.isNull_default]
    rfl
  cases values with
  | nil => simp [output, finish, init, hnone]
  | cons v values =>
      have hleave := hleave v rfl
      have hinit : (init core st.forward st.aggregation).Served := ⟨h.1, fun _ => rfl⟩
      have hnull : (⟨.null, .null⟩ : DateTimeRange) ≠ st.bucketOf v := by
        have hreal := bucketOf_real hpos v
        intro heq
        rw [← heq] at hreal
        exact lt_irrefl _ hreal
      -- Both states make the same aggregator for the bucket they enter.
      have hround : ∀ group, st.round core (st.bucketOf v) group =
          ((init core st.forward st.aggregation).round core (st.bucketOf v) group).map
            (collected (st.dataValues ++ emitted core st.aggregatedValue)) := by
        intro group
        unfold round enter
        rw [if_neg hleave, if_neg (show (init core st.forward st.aggregation).aggregatorInterval ≠
          st.bucketOf v from hnull)]
        dsimp only [init]
        cases st.aggregation.aggregateType with
        | none => rfl
        | some function =>
            simp only [Option.map_some, Option.bind_some]
            unfold aggregate
            cases (getAggregator core function (st.bucketOf v) st.forward).call core group with
            | none => rfl
            | some r => simp [collected, hnone]
      unfold output
      rw [process_cons h hpos hsorted, process_cons hinit hpos hsorted]
      change ((if st.within (st.bucketOf v) v = true then _ else none).map _) =
        ((if st.within (st.bucketOf v) v = true then
          ((init core st.forward st.aggregation).round core (st.bucketOf v)
            ((v :: values).takeWhile (st.within (st.bucketOf v)))).bind
              (process core · ((v :: values).dropWhile (st.within (st.bucketOf v))))
          else none).map _).map _
      by_cases hin : st.within (st.bucketOf v) v = true
      · rw [if_pos hin, if_pos hin, hround]
        cases hgroup : (init core st.forward st.aggregation).round core (st.bucketOf v)
            ((v :: values).takeWhile (st.within (st.bucketOf v))) with
        | none => rfl
        | some st₁ =>
            have hkind := SameKind.round hgroup
            rw [Option.map_some, Option.bind_some, Option.bind_some, process_collected
              (hinit.round hgroup) (hkind.aggregation ▸ hpos)
              (hkind.sorted.mpr (hsorted.dropWhile _)), Option.map_map, Option.map_map]
            congr 1
            funext st₂
            simp [finish, collected]
      · rw [if_neg hin, if_neg hin]
        rfl

end AggregateState

end ScadaCommon
