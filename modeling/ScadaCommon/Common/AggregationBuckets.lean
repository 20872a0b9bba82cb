import Mathlib.Data.List.Sort
import ScadaCommon.Common.AggregationChunks
import ScadaCommon.Common.AggregationExtremes

/-!
# Samples and their buckets

`Process` decides twice which bucket a sample belongs to: by the interval of the
first sample of a round, and by a search for the end (backwards, the start) of that
interval. What it collects is compared with the value of each bucket on its own,
and the values of a list with those of the reversed list.

§1 the buckets of a list · §2 one bucket after another · §3 samples at the end of a
bucket · §4 ties · §5 both directions.
-/

namespace ScadaCommon

open Foundation

/-! ## §1  The buckets of a list -/

section

variable {α : Type*} [BEq α] [LawfulBEq α] {r : α → α → Prop}

theorem eraseDups_pairwise {l : List α} (h : l.Pairwise r) :
    l.eraseDups.Pairwise fun a b => r a b ∧ a ≠ b := by
  induction hn : l.length using Nat.strong_induction_on generalizing l with
  | _ n ih =>
      cases l with
      | nil => exact List.Pairwise.nil
      | cons a l =>
          obtain ⟨hhead, htail⟩ := List.pairwise_cons.mp h
          rw [List.eraseDups_cons, List.pairwise_cons]
          constructor
          · intro b hb
            obtain ⟨hmem, hne⟩ := List.mem_filter.mp (List.mem_eraseDups.mp hb)
            refine ⟨hhead b hmem, ?_⟩
            rintro rfl
            simp at hne
          · have hlength := List.length_filter_le (fun b => !b == a) l
            rw [List.length_cons] at hn
            exact ih _ (by omega) (htail.filter _) rfl

end

variable {V D : Type} {core : AggregationCore V D} {startTime : DateTime} {interval : Duration}
  {values : List (DataValue V)} {v w : DataValue V} {forward : Bool}
  {function : AggregateFunction}

def bucketAt (startTime : DateTime) (interval : Duration) (v : DataValue V) : DateTimeRange :=
  getAggregateInterval v.sourceTimestamp startTime interval

/-- The buckets that are not empty in the order of their samples, each with its
samples. -/
def samplesByBucket (startTime : DateTime) (interval : Duration) (values : List (DataValue V)) :
    List (DateTimeRange × List (DataValue V)) :=
  (values.map (bucketAt startTime interval)).eraseDups.map fun bucket =>
    (bucket, values.filter fun v => bucketAt startTime interval v = bucket)

theorem samplesByBucket_cons (startTime : DateTime) (interval : Duration) (v : DataValue V)
    (values : List (DataValue V)) :
    samplesByBucket startTime interval (v :: values) =
      (bucketAt startTime interval v, (v :: values).filter fun w =>
        bucketAt startTime interval w = bucketAt startTime interval v) ::
      samplesByBucket startTime interval ((v :: values).filter fun w =>
        !decide (bucketAt startTime interval w = bucketAt startTime interval v)) := by
  have hrest : (v :: values).filter (fun w =>
      !decide (bucketAt startTime interval w = bucketAt startTime interval v)) =
      values.filter fun w =>
        !decide (bucketAt startTime interval w = bucketAt startTime interval v) :=
    List.filter_cons_of_neg (by simp)
  have hbuckets : (values.map (bucketAt startTime interval)).filter
      (fun b => !b == bucketAt startTime interval v) =
      (values.filter fun w =>
        !decide (bucketAt startTime interval w = bucketAt startTime interval v)).map
          (bucketAt startTime interval) := by
    rw [List.filter_map]
    rfl
  unfold samplesByBucket
  rw [List.map_cons, List.eraseDups_cons, List.map_cons, hbuckets, hrest]
  congr 1
  refine List.map_congr_left ?_
  intro bucket hbucket
  obtain ⟨u, hu, rfl⟩ := List.mem_map.mp (List.mem_eraseDups.mp hbucket)
  have hne : bucketAt startTime interval u ≠ bucketAt startTime interval v := by
    simpa using (List.mem_filter.mp hu).2
  rw [List.filter_filter, List.filter_cons_of_neg (by simpa using hne.symm)]
  congr 1
  refine List.filter_congr ?_
  intro w _
  by_cases hw : bucketAt startTime interval w = bucketAt startTime interval u
  · simp [hw, hne]
  · simp [hw]

theorem bucketAt_mem (hpos : 0 < interval) (hstart : startTime ≤ v.sourceTimestamp) :
    (bucketAt startTime interval v).first ≤ v.sourceTimestamp ∧
      v.sourceTimestamp < (bucketAt startTime interval v).second :=
  getAggregateInterval_mem hpos hstart

theorem bucketAt_eq (hpos : 0 < interval) (hv : startTime ≤ v.sourceTimestamp)
    (hw : startTime ≤ w.sourceTimestamp)
    (hfirst : (bucketAt startTime interval v).first ≤ w.sourceTimestamp)
    (hsecond : w.sourceTimestamp < (bucketAt startTime interval v).second) :
    bucketAt startTime interval w = bucketAt startTime interval v :=
  getAggregateInterval_unique hpos hv hw hfirst hsecond

/-- A later sample of another bucket lies behind this one. -/
theorem second_le_of_bucketAt_ne (hpos : 0 < interval) (hv : startTime ≤ v.sourceTimestamp)
    (hw : startTime ≤ w.sourceTimestamp) (hle : v.sourceTimestamp ≤ w.sourceTimestamp)
    (hne : bucketAt startTime interval w ≠ bucketAt startTime interval v) :
    (bucketAt startTime interval v).second ≤ w.sourceTimestamp := by
  by_contra hlt
  exact hne (bucketAt_eq hpos hv hw ((bucketAt_mem hpos hv).1.trans hle) (not_le.mp hlt))

theorem bucketAt_first_le (hpos : 0 < interval) (hv : startTime ≤ v.sourceTimestamp)
    (hw : startTime ≤ w.sourceTimestamp) (hle : v.sourceTimestamp ≤ w.sourceTimestamp) :
    (bucketAt startTime interval v).first ≤ (bucketAt startTime interval w).first := by
  by_contra hlt
  have hlt := not_le.mp hlt
  have hsame := bucketAt_eq hpos hw hv (hlt.le.trans (bucketAt_mem hpos hv).1)
    (lt_of_le_of_lt hle (bucketAt_mem hpos hw).2)
  rw [hsame] at hlt
  exact lt_irrefl _ hlt

theorem bucketAt_ext (hpos : 0 < interval)
    (hfirst : (bucketAt startTime interval v).first = (bucketAt startTime interval w).first) :
    bucketAt startTime interval v = bucketAt startTime interval w := by
  have hsecond : ∀ u : DataValue V, (bucketAt startTime interval u).second =
      (bucketAt startTime interval u).first + interval :=
    fun u => getAggregateInterval_second hpos
  calc bucketAt startTime interval v
      = ⟨(bucketAt startTime interval v).first, (bucketAt startTime interval v).second⟩ := rfl
    _ = ⟨(bucketAt startTime interval w).first, (bucketAt startTime interval w).second⟩ := by
        rw [hsecond, hsecond, hfirst]
    _ = bucketAt startTime interval w := rfl

/-- The list reversed: the same buckets in reverse order, each with its samples
reversed. -/
theorem samplesByBucket_reverse (hpos : 0 < interval)
    (hsorted : values.Pairwise fun v w => v.sourceTimestamp ≤ w.sourceTimestamp)
    (hstart : ∀ v ∈ values, startTime ≤ v.sourceTimestamp) :
    samplesByBucket startTime interval values.reverse =
      ((samplesByBucket startTime interval values).map fun group =>
        (group.1, group.2.reverse)).reverse := by
  have hascending : (values.map (bucketAt startTime interval)).Pairwise fun a b =>
      a.first ≤ b.first ∧ (a.first = b.first → a = b) := by
    rw [List.pairwise_map]
    refine hsorted.imp_of_mem ?_
    intro v w hv hw hle
    exact ⟨bucketAt_first_le hpos (hstart v hv) (hstart w hw) hle, bucketAt_ext hpos⟩
  have hlt : ∀ a b : DateTimeRange, (a.first ≤ b.first ∧ (a.first = b.first → a = b)) ∧ a ≠ b →
      a.first < b.first := by
    rintro a b ⟨⟨hle, hext⟩, hne⟩
    exact lt_of_le_of_ne hle fun heq => hne (hext heq)
  -- Both lists of buckets descend, and they have the same buckets.
  have hbuckets : (values.reverse.map (bucketAt startTime interval)).eraseDups =
      (values.map (bucketAt startTime interval)).eraseDups.reverse := by
    refine List.Pairwise.eq_of_mem_iff (r := fun a b : DateTimeRange => b.first < a.first) ?_ ?_ ?_
    · rw [List.map_reverse]
      refine (eraseDups_pairwise (List.pairwise_reverse.mpr hascending)).imp ?_
      rintro a b ⟨hab, hne⟩
      exact hlt b a ⟨hab, hne.symm⟩
    · refine List.pairwise_reverse.mpr ((eraseDups_pairwise hascending).imp ?_)
      intro a b hab
      exact hlt a b hab
    · intro bucket
      simp [List.mem_eraseDups]
  unfold samplesByBucket
  rw [hbuckets, List.map_map, ← List.map_reverse]
  refine List.map_congr_left ?_
  intro bucket _
  simp [List.filter_reverse]

/-! ## §2  One bucket after another -/

/-- What is collected from one list, from the first state on. -/
def aggregated (core : AggregationCore V D) (forward : Bool) (startTime : DateTime)
    (interval : Duration) (function : AggregateFunction) (values : List (DataValue V)) :
    Option (List (DataValue V)) :=
  AggregateState.output core
    (AggregateState.init core forward ⟨startTime, interval, some function⟩) values

/-- What a new aggregator makes of a bucket. -/
def bucketDatum (core : AggregationCore V D) (function : AggregateFunction) (forward : Bool)
    (group : DateTimeRange × List (DataValue V)) : Option (DataValue V) :=
  ((getAggregator core function group.1 forward).call core group.2).map Prod.snd

/-- One value for each bucket that is not empty, in order, made of the samples of the
bucket. -/
def BucketExact (core : AggregationCore V D) (forward : Bool) (startTime : DateTime)
    (interval : Duration) (function : AggregateFunction) (values : List (DataValue V)) : Prop :=
  ∃ data, aggregated core forward startTime interval function values = some data ∧
    data.map some =
      (samplesByBucket startTime interval values).map (bucketDatum core function forward)

/-- `is_null` does not hold of a value with a number. -/
def NumbersNotNull (core : AggregationCore V D) : Prop :=
  ∀ v : DataValue V, (core.get v.value).isSome = true → core.isNull v = false

/-- What a bucket takes of the span. -/
def taken (forward : Bool) (bucket : DateTimeRange) (v : DataValue V) : Bool :=
  if forward then v.sourceTimestamp ≤ bucket.second else bucket.first ≤ v.sourceTimestamp

/-- The list in the order of the direction. -/
def Directed (forward : Bool) (values : List (DataValue V)) : Prop :=
  values.Pairwise fun v w =>
    if forward then v.sourceTimestamp ≤ w.sourceTimestamp
    else w.sourceTimestamp ≤ v.sourceTimestamp

theorem Directed.partitioned (h : Directed forward values) (bucket : DateTimeRange) :
    Partitioned (taken forward bucket) values := by
  refine h.imp ?_
  intro v w hvw hw
  unfold taken at hw ⊢
  cases forward
  · simp only [Bool.false_eq_true, if_false, decide_eq_true_eq] at hvw hw ⊢
    exact hw.trans hvw
  · simp only [if_true, decide_eq_true_eq] at hvw hw ⊢
    exact hvw.trans hw

theorem emitted_of_number (hnull : NumbersNotNull core) (hv : (core.get v.value).isSome = true)
    (bucket : DateTimeRange) :
    AggregateState.emitted core (.atInterval v.value v.qualifier bucket) =
      [.atInterval v.value v.qualifier bucket] := by
  have hdatum := hnull (.atInterval v.value v.qualifier bucket) hv
  unfold AggregateState.emitted
  rw [hdatum]
  rfl

/-- The value of a bucket with numbers is collected. -/
theorem exists_call_of_numbers (hnull : NumbersNotNull core) (function : AggregateFunction)
    (forward : Bool) (bucket : DateTimeRange) (hne : values ≠ [])
    (hnumeric : ∀ v ∈ values, (core.get v.value).isSome = true) :
    ∃ r, (getAggregator core function bucket forward).call core values = some r ∧
      AggregateState.emitted core r.2 = [r.2] := by
  obtain ⟨first, rest, rfl⟩ := List.exists_cons_of_ne_nil hne
  have hfirst := hnumeric first List.mem_cons_self
  have hfront : ∃ r, Aggregator.call core ⟨bucket, .front core.null⟩ (first :: rest) = some r ∧
      AggregateState.emitted core r.2 = [r.2] := by
    have hstart : core.isNull core.null = true := core.isNull_default
    refine ⟨_, rfl, ?_⟩
    simp only [hstart, if_true]
    exact emitted_of_number hnull hfirst bucket
  have hback : ∃ r, Aggregator.call core ⟨bucket, .back⟩ (first :: rest) = some r ∧
      AggregateState.emitted core r.2 = [r.2] := by
    have hlast := hnumeric _ (List.getLast_mem hne)
    refine ⟨_, AggregateState.call_back bucket (List.getLast?_eq_some_getLast hne), ?_⟩
    exact emitted_of_number hnull hlast bucket
  cases function with
  | functionTotal => exact ⟨_, rfl, AggregateState.emitted_ofDouble _ _ _⟩
  | functionAverage =>
      exact ⟨_, AggregateState.call_average bucket core.zero 0 first rest,
        AggregateState.emitted_ofDouble _ _ _⟩
  | functionCount => exact ⟨_, rfl, AggregateState.emitted_ofUInt64 _ _ _⟩
  | functionMinimum => exact ⟨_, rfl, AggregateState.emitted_ofDouble _ _ _⟩
  | functionMaximum => exact ⟨_, rfl, AggregateState.emitted_ofDouble _ _ _⟩
  | functionStart => cases forward <;> assumption
  | functionEnd => cases forward <;> assumption

variable (function) in
/-- **One bucket is collected after another.** -/
theorem aggregated_cons (hnull : NumbersNotNull core) (hpos : 0 < interval)
    (hsorted : Directed forward (v :: values))
    (hstart : ∀ w ∈ v :: values, startTime ≤ w.sourceTimestamp)
    (hnumeric : ∀ w ∈ v :: values, (core.get w.value).isSome = true) :
    ∃ value, bucketDatum core function forward (bucketAt startTime interval v,
        (v :: values).takeWhile (taken forward (bucketAt startTime interval v))) = some value ∧
      aggregated core forward startTime interval function (v :: values) =
        (aggregated core forward startTime interval function
          ((v :: values).dropWhile (taken forward (bucketAt startTime interval v)))).map
            (value :: ·) := by
  generalize hst : AggregateState.init core forward ⟨startTime, interval, some function⟩ = st
  have hserved : st.Served := by
    rw [← hst]
    exact ⟨rfl, fun _ => rfl⟩
  have hpos' : 0 < st.aggregation.interval := by rw [← hst]; exact hpos
  have hsorted' : st.Sorted (v :: values) := by rw [← hst]; exact hsorted
  have hstart' : st.StartsAfter (v :: values) := by rw [← hst]; exact hstart
  have hin := AggregateState.within_bucketOf hpos' (hstart' v List.mem_cons_self)
  have hbucket : st.bucketOf v = bucketAt startTime interval v := by rw [← hst]; rfl
  have hwithin : st.within (st.bucketOf v) = taken forward (bucketAt startTime interval v) := by
    rw [hbucket, ← hst]
    rfl
  have hne : (v :: values).takeWhile (st.within (st.bucketOf v)) ≠ [] := by
    rw [List.takeWhile_cons_of_pos hin]
    exact List.cons_ne_nil _ _
  obtain ⟨r, hr, hemitted⟩ := exists_call_of_numbers hnull function forward (st.bucketOf v) hne
    fun w hw => hnumeric w ((List.takeWhile_sublist _).mem hw)
  have hnew : (⟨.null, .null⟩ : DateTimeRange) ≠ st.bucketOf v := by
    have hreal := AggregateState.bucketOf_real hpos' v
    intro heq
    rw [← heq] at hreal
    exact lt_irrefl _ hreal
  have hinit : st.aggregatorInterval = ⟨.null, .null⟩ := by rw [← hst]; rfl
  have haggregator : (st.enter core (st.bucketOf v)).aggregator =
      some (getAggregator core function (st.bucketOf v) forward) := by
    rw [AggregateState.enter_of_ne (hinit ▸ hnew), ← hst]
    rfl
  have hnone : (st.enter core (st.bucketOf v)).dataValues = [] := by
    unfold AggregateState.enter
    rw [if_neg (hinit ▸ hnew), ← hst]
    unfold AggregateState.emitted AggregateState.init
    rw [AggregationCore.null, core.isNull_default]
    rfl
  have hround := AggregateState.output_of_round hserved hpos'
    (hsorted'.dropWhile (st.within (st.bucketOf v)))
    (AggregateState.bucketOf_ne_of_dropWhile hpos' hstart') haggregator hr
  refine ⟨r.2, ?_, ?_⟩
  · rw [bucketDatum, ← hwithin, ← hbucket, hr]
    rfl
  · unfold aggregated
    rw [hst, ← hwithin, AggregateState.output, AggregateState.process_cons hserved hpos' hsorted',
      if_pos hin, Option.map_bind]
    refine hround.trans ?_
    rw [hnone, hemitted, ← hst]
    rfl

/-! ## §3  Samples at the end of a bucket -/

/-- No sample lies at the very end of the bucket of another one. -/
def NoneAtEnd (startTime : DateTime) (interval : Duration) (values : List (DataValue V)) : Prop :=
  ∀ v ∈ values, ∀ w ∈ values, w.sourceTimestamp ≠ (bucketAt startTime interval v).second

/-- Apart from a sample at its end a bucket takes its own samples. -/
theorem taken_eq (hpos : 0 < interval) (hsorted : Directed forward (v :: values))
    (hstart : ∀ w ∈ v :: values, startTime ≤ w.sourceTimestamp)
    (hend : forward = true → ∀ w ∈ v :: values,
      w.sourceTimestamp ≠ (bucketAt startTime interval v).second) :
    ∀ w ∈ v :: values, taken forward (bucketAt startTime interval v) w =
      decide (bucketAt startTime interval w = bucketAt startTime interval v) := by
  intro w hw
  have hv₀ := hstart v List.mem_cons_self
  have hw₀ := hstart w hw
  obtain ⟨hfirst, hsecond⟩ := bucketAt_mem hpos hv₀
  obtain ⟨hfirst', hsecond'⟩ := bucketAt_mem hpos hw₀
  rw [Bool.eq_iff_iff, decide_eq_true_eq]
  unfold taken
  have horder : w = v ∨ if forward then v.sourceTimestamp ≤ w.sourceTimestamp
      else w.sourceTimestamp ≤ v.sourceTimestamp :=
    (List.mem_cons.mp hw).imp id ((List.pairwise_cons.mp hsorted).1 w)
  cases forward
  · simp only [Bool.false_eq_true, if_false, decide_eq_true_eq] at horder ⊢
    constructor
    · intro hle
      rcases horder with rfl | horder
      · rfl
      · exact bucketAt_eq hpos hv₀ hw₀ hle (lt_of_le_of_lt horder hsecond)
    · intro heq
      rwa [heq] at hfirst'
  · simp only [if_true, decide_eq_true_eq] at horder ⊢
    constructor
    · intro hle
      have hlt := lt_of_le_of_ne hle (hend rfl w hw)
      rcases horder with rfl | horder
      · rfl
      · exact bucketAt_eq hpos hv₀ hw₀ (hfirst.trans horder) hlt
    · intro heq
      rw [heq] at hsecond'
      exact hsecond'.le

theorem length_filter_not_lt (p : DataValue V → Bool) (hv : p v = true) :
    ((v :: values).filter (!p ·)).length < (v :: values).length := by
  rw [List.filter_cons_of_neg (by simp [hv]), List.length_cons]
  exact Nat.lt_succ_of_le (List.length_filter_le _ _)

/-- The rest after the first round, when its bucket takes its own samples. -/
theorem dropWhile_taken (hsorted : Directed forward (v :: values))
    (htaken : ∀ w ∈ v :: values, taken forward (bucketAt startTime interval v) w =
      decide (bucketAt startTime interval w = bucketAt startTime interval v)) :
    (v :: values).dropWhile (taken forward (bucketAt startTime interval v)) =
      (v :: values).filter fun w =>
        !decide (bucketAt startTime interval w = bucketAt startTime interval v) := by
  rw [(hsorted.partitioned (bucketAt startTime interval v)).dropWhile_eq_filter]
  refine List.filter_congr ?_
  intro w hw
  rw [htaken w hw]

variable (function) in
/-- Backwards every bucket is exact, and forwards when there is no sample at the end
of one. -/
theorem bucketExact_of_noneAtEnd (hnull : NumbersNotNull core) (hpos : 0 < interval)
    (hsorted : Directed forward values) (hstart : ∀ v ∈ values, startTime ≤ v.sourceTimestamp)
    (hnumeric : ∀ v ∈ values, (core.get v.value).isSome = true)
    (hend : forward = true → NoneAtEnd startTime interval values) :
    BucketExact core forward startTime interval function values := by
  induction hn : values.length using Nat.strong_induction_on generalizing values with
  | _ n ih =>
      cases values with
      | nil =>
          refine ⟨[], ?_, rfl⟩
          simp [aggregated, AggregateState.output, AggregateState.finish, AggregateState.init,
            AggregateState.emitted, AggregationCore.null, core.isNull_default]
      | cons v values =>
          have htaken := taken_eq hpos hsorted hstart fun hforward w hw =>
            hend hforward v List.mem_cons_self w hw
          have hpart := hsorted.partitioned (bucketAt startTime interval v)
          have htake : (v :: values).takeWhile (taken forward (bucketAt startTime interval v)) =
              (v :: values).filter fun w =>
                bucketAt startTime interval w = bucketAt startTime interval v := by
            rw [hpart.takeWhile_eq_filter]
            exact List.filter_congr htaken
          have hdrop := dropWhile_taken hsorted htaken
          obtain ⟨value, hvalue, hrun⟩ := aggregated_cons function hnull hpos hsorted hstart
            hnumeric
          have hsub : ((v :: values).filter fun w => !decide (bucketAt startTime interval w =
              bucketAt startTime interval v)) ⊆ v :: values := List.filter_sublist.subset
          obtain ⟨data, hdata, hexact⟩ := ih _
            (hn ▸ length_filter_not_lt
              (fun w => decide (bucketAt startTime interval w = bucketAt startTime interval v))
              (by simp))
            (hsorted.filter _) (fun w hw => hstart w (hsub hw)) (fun w hw => hnumeric w (hsub hw))
            (fun hforward u hu w hw => hend hforward u (hsub hu) w (hsub hw)) rfl
          refine ⟨value :: data, ?_, ?_⟩
          · rw [hrun, hdrop, hdata]
            rfl
          · rw [samplesByBucket_cons, List.map_cons, List.map_cons, hexact, ← htake, hvalue]

/-- A bucket that takes as many samples as it has takes no sample at its end. -/
theorem none_at_end_of_length (hpos : 0 < interval)
    (hstart : ∀ w ∈ v :: values, startTime ≤ w.sourceTimestamp)
    (hlength : ((v :: values).filter (taken true (bucketAt startTime interval v))).length =
      ((v :: values).filter fun w =>
        bucketAt startTime interval w = bucketAt startTime interval v).length) :
    ∀ w ∈ v :: values, w.sourceTimestamp ≠ (bucketAt startTime interval v).second := by
  have hown : (v :: values).filter (fun w =>
      bucketAt startTime interval w = bucketAt startTime interval v) =
      ((v :: values).filter (taken true (bucketAt startTime interval v))).filter fun w =>
        bucketAt startTime interval w = bucketAt startTime interval v := by
    rw [List.filter_filter]
    refine List.filter_congr ?_
    intro w hw
    by_cases heq : bucketAt startTime interval w = bucketAt startTime interval v
    · have hsecond := (bucketAt_mem hpos (hstart w hw)).2
      rw [heq] at hsecond
      simp [heq, taken, hsecond.le]
    · simp [heq]
  have hsame := List.filter_sublist.eq_of_length (hown ▸ hlength.symm)
  intro w hw hat
  have hin : w ∈ (v :: values).filter (taken true (bucketAt startTime interval v)) :=
    List.mem_filter.mpr ⟨hw, decide_eq_true hat.le⟩
  rw [← hsame] at hin
  have hbucket := of_decide_eq_true (List.mem_filter.mp hin).2
  have hsecond := (bucketAt_mem hpos (hstart w hw)).2
  rw [hbucket, hat] at hsecond
  exact lt_irrefl _ hsecond

/-- No sample at the end of the first bucket, and none among the samples of later
ones. -/
theorem noneAtEnd_cons (hpos : 0 < interval) (hsorted : Directed true (v :: values))
    (hstart : ∀ w ∈ v :: values, startTime ≤ w.sourceTimestamp)
    (hnone : ∀ w ∈ v :: values, w.sourceTimestamp ≠ (bucketAt startTime interval v).second)
    (hlater : NoneAtEnd startTime interval ((v :: values).filter fun w =>
      !decide (bucketAt startTime interval w = bucketAt startTime interval v))) :
    NoneAtEnd startTime interval (v :: values) := by
  have hbehind : ∀ w ∈ v :: values,
      (bucketAt startTime interval v).second ≤ w.sourceTimestamp →
      w ∈ (v :: values).filter fun w =>
        !decide (bucketAt startTime interval w = bucketAt startTime interval v) := by
    intro w hw hle
    have hne : bucketAt startTime interval w ≠ bucketAt startTime interval v := by
      intro heq
      have hsecond := (bucketAt_mem hpos (hstart w hw)).2
      rw [heq] at hsecond
      exact absurd hle (not_le.mpr hsecond)
    exact List.mem_filter.mpr ⟨hw, by simpa using hne⟩
  intro u hu w hw hat
  by_cases hbucket : bucketAt startTime interval u = bucketAt startTime interval v
  · rw [hbucket] at hat
    exact hnone w hw hat
  · have hvu : v.sourceTimestamp ≤ u.sourceTimestamp := by
      rcases List.mem_cons.mp hu with rfl | hu
      · exact le_rfl
      · simpa using (List.pairwise_cons.mp hsorted).1 u hu
    have hsecond := second_le_of_bucketAt_ne hpos (hstart v List.mem_cons_self) (hstart u hu)
      hvu hbucket
    have hlt := (bucketAt_mem hpos (hstart u hu)).2
    rw [← hat] at hlt
    exact hlater u (hbehind u hu hsecond) w (hbehind w hw (hsecond.trans hlt.le)) hat

/-- A count is exact only when no sample lies at the end of a bucket. -/
theorem noneAtEnd_of_count (hnull : NumbersNotNull core) (hpos : 0 < interval)
    (hsorted : Directed true values) (hstart : ∀ v ∈ values, startTime ≤ v.sourceTimestamp)
    (hnumeric : ∀ v ∈ values, (core.get v.value).isSome = true)
    (hexact : BucketExact core true startTime interval .functionCount values) :
    NoneAtEnd startTime interval values := by
  induction hn : values.length using Nat.strong_induction_on generalizing values with
  | _ n ih =>
      cases values with
      | nil => nofun
      | cons v values =>
          obtain ⟨value, hvalue, hrun⟩ := aggregated_cons .functionCount hnull hpos hsorted
            hstart hnumeric
          obtain ⟨data, hdata, hbuckets⟩ := hexact
          rw [hrun] at hdata
          obtain ⟨later, hlater, rfl⟩ := Option.map_eq_some_iff.mp hdata
          rw [samplesByBucket_cons, List.map_cons, List.map_cons, List.cons.injEq] at hbuckets
          obtain ⟨hfirst, hrest⟩ := hbuckets
          have hcount : some (DataValue.atInterval (core.ofUInt64 (0 + ((v :: values).takeWhile
              (taken true (bucketAt startTime interval v))).length)) 0
                (bucketAt startTime interval v)) =
              some (DataValue.atInterval (core.ofUInt64 (0 + ((v :: values).filter fun w =>
                bucketAt startTime interval w = bucketAt startTime interval v).length)) 0
                (bucketAt startTime interval v)) := hvalue.trans hfirst
          have hlength := core.ofUInt64_injective
            (congrArg DataValue.value (Option.some_inj.mp hcount))
          rw [(hsorted.partitioned (bucketAt startTime interval v)).takeWhile_eq_filter, zero_add,
            zero_add] at hlength
          have hnone := none_at_end_of_length hpos hstart hlength
          rw [dropWhile_taken hsorted (taken_eq hpos hsorted hstart fun _ => hnone)] at hlater
          have hsub : ((v :: values).filter fun w => !decide (bucketAt startTime interval w =
              bucketAt startTime interval v)) ⊆ v :: values := List.filter_sublist.subset
          refine noneAtEnd_cons hpos hsorted hstart hnone (ih _ ?_ (hsorted.filter _)
            (fun w hw => hstart w (hsub hw)) (fun w hw => hnumeric w (hsub hw))
            ⟨later, hlater, hrest⟩ rfl)
          rw [← hn]
          exact length_filter_not_lt
            (fun w => decide (bucketAt startTime interval w = bucketAt startTime interval v))
            (by simp)

/-! ## §4  Ties -/

section

variable {α β : Type*} [LinearOrder β]

/-- Keeping the candidate at ties finds the first one of the least. -/
theorem exists_first_least (f : α → β) (candidate : α) (rest : List α) :
    ∃ before least after, candidate :: rest = before ++ least :: after ∧
      rest.foldl (fun c a => if f a < f c then a else c) candidate = least ∧
      (∀ a ∈ before, f least < f a) ∧ ∀ a ∈ after, f least ≤ f a := by
  induction rest generalizing candidate with
  | nil => exact ⟨[], candidate, [], rfl, rfl, nofun, nofun⟩
  | cons a rest ih =>
      rw [List.foldl_cons]
      by_cases hlt : f a < f candidate
      · rw [if_pos hlt]
        obtain ⟨before, least, after, hsplit, hfold, hbefore, hafter⟩ := ih a
        refine ⟨candidate :: before, least, after, by rw [hsplit]; rfl, hfold, ?_, hafter⟩
        have hle : f least ≤ f a := by
          rcases before with _ | ⟨b, before⟩
          · rw [(List.cons.inj hsplit).1]
          · rw [(List.cons.inj hsplit).1]
            exact (hbefore b List.mem_cons_self).le
        intro b hb
        rcases List.mem_cons.mp hb with rfl | hb
        · exact lt_of_le_of_lt hle hlt
        · exact hbefore b hb
      · rw [if_neg hlt]
        obtain ⟨before, least, after, hsplit, hfold, hbefore, hafter⟩ := ih candidate
        rcases before with _ | ⟨b, before⟩
        · obtain ⟨rfl, rfl⟩ := List.cons.inj hsplit
          refine ⟨[], candidate, a :: rest, rfl, hfold, nofun, ?_⟩
          intro b hb
          rcases List.mem_cons.mp hb with rfl | hb
          · exact not_lt.mp hlt
          · exact hafter b hb
        · obtain ⟨rfl, rfl⟩ := List.cons.inj hsplit
          refine ⟨candidate :: a :: before, least, after, rfl, hfold, ?_, hafter⟩
          have hleast := hbefore candidate List.mem_cons_self
          intro b hb
          rcases List.mem_cons.mp hb with rfl | hb
          · exact hleast
          · rcases List.mem_cons.mp hb with rfl | hb
            · exact lt_of_lt_of_le hleast (not_lt.mp hlt)
            · exact hbefore b (List.mem_cons_of_mem _ hb)

/-- The least elements, in order. -/
def leastOnes (f : α → β) (l : List α) : List α := l.filter fun a => ∀ b ∈ l, f a ≤ f b

theorem leastOnes_reverse (f : α → β) (l : List α) :
    leastOnes f l.reverse = (leastOnes f l).reverse := by
  simp [leastOnes, List.filter_reverse]

theorem le_of_mem_leastOnes {f : α → β} {l : List α} {a b : α} (ha : a ∈ leastOnes f l)
    (hb : b ∈ l) : f a ≤ f b :=
  of_decide_eq_true (List.mem_filter.mp ha).2 b hb

theorem head?_leastOnes (f : α → β) (candidate : α) (rest : List α) :
    (leastOnes f (candidate :: rest)).head? =
      some (rest.foldl (fun c a => if f a < f c then a else c) candidate) := by
  obtain ⟨before, least, after, hsplit, hfold, hbefore, hafter⟩ :=
    exists_first_least f candidate rest
  have hnone : before.filter (fun a => decide (∀ b ∈ before ++ least :: after, f a ≤ f b)) = [] := by
    refine List.filter_eq_nil_iff.mpr ?_
    intro a ha hall
    have hle := of_decide_eq_true hall least (List.mem_append_right _ List.mem_cons_self)
    exact absurd (hbefore a ha) (not_lt.mpr hle)
  have hleast : decide (∀ b ∈ before ++ least :: after, f least ≤ f b) = true := by
    refine decide_eq_true ?_
    intro b hb
    rcases List.mem_append.mp hb with hb | hb
    · exact (hbefore b hb).le
    · rcases List.mem_cons.mp hb with rfl | hb
      · exact le_rfl
      · exact hafter b hb
  rw [hfold, leastOnes, hsplit, List.filter_append, hnone, List.nil_append, List.filter_cons,
    if_pos hleast, List.head?_cons]

end

section

variable {core : AggregationCore V ℚ} {bucket : DateTimeRange}

/-- The number a sample holds. -/
def number (core : AggregationCore V ℚ) (v : DataValue V) : ℚ := (core.get v.value).getD 0

/-- The samples of the least number, and those of the greatest. -/
def leastSamples (core : AggregationCore V ℚ) (values : List (DataValue V)) : List (DataValue V) :=
  leastOnes (number core) values

def greatestSamples (core : AggregationCore V ℚ) (values : List (DataValue V)) :
    List (DataValue V) :=
  leastOnes (fun v => OrderDual.toDual (number core v)) values

theorem get_number (hv : (core.get v.value).isSome = true) :
    core.get v.value = some (number core v) := by
  obtain ⟨d, hd⟩ := Option.isSome_iff_exists.mp hv
  rw [number, hd, Option.getD_some]

theorem minElement_eq (hexact : core.Exact) (smallest : DataValue V)
    (hnumeric : ∀ v ∈ smallest :: values, (core.get v.value).isSome = true) :
    core.minElement smallest values =
      values.foldl (fun c a => if number core a < number core c then a else c) smallest := by
  induction values generalizing smallest with
  | nil => rfl
  | cons v values ih =>
      obtain ⟨hsmallest, hv, hvalues⟩ := by
        simpa only [List.forall_mem_cons] using hnumeric
      have hcompare : core.compareVariants v.value smallest.value false =
          decide (number core v < number core smallest) := by
        simp only [AggregationCore.compareVariants, get_number hv, get_number hsmallest,
          hexact.less]
      rw [AggregationCore.minElement, List.foldl_cons, hcompare]
      by_cases hlt : number core v < number core smallest
      · rw [decide_eq_true hlt, if_pos rfl, if_pos hlt]
        exact ih v (List.forall_mem_cons.mpr ⟨hv, hvalues⟩)
      · rw [decide_eq_false hlt, if_neg Bool.false_ne_true, if_neg hlt]
        exact ih smallest (List.forall_mem_cons.mpr ⟨hsmallest, hvalues⟩)

theorem maxElement_eq (hexact : core.Exact) (largest : DataValue V)
    (hnumeric : ∀ v ∈ largest :: values, (core.get v.value).isSome = true) :
    core.maxElement largest values =
      values.foldl (fun c a => if OrderDual.toDual (number core a) <
        OrderDual.toDual (number core c) then a else c) largest := by
  induction values generalizing largest with
  | nil => rfl
  | cons v values ih =>
      obtain ⟨hlargest, hv, hvalues⟩ := by
        simpa only [List.forall_mem_cons] using hnumeric
      have hcompare : core.compareVariants largest.value v.value true =
          decide (OrderDual.toDual (number core v) < OrderDual.toDual (number core largest)) := by
        simp only [AggregationCore.compareVariants, get_number hv, get_number hlargest,
          hexact.less, OrderDual.toDual_lt_toDual]
      rw [AggregationCore.maxElement, List.foldl_cons, hcompare]
      by_cases hlt : OrderDual.toDual (number core v) < OrderDual.toDual (number core largest)
      · rw [decide_eq_true hlt, if_pos rfl, if_pos hlt]
        exact ih v (List.forall_mem_cons.mpr ⟨hv, hvalues⟩)
      · rw [decide_eq_false hlt, if_neg Bool.false_ne_true, if_neg hlt]
        exact ih largest (List.forall_mem_cons.mpr ⟨hlargest, hvalues⟩)

/-- The smallest value of a bucket comes with the qualifier of its first sample. -/
theorem bucketDatum_minimum (hexact : core.Exact) (forward : Bool) (bucket : DateTimeRange)
    (hnumeric : ∀ v ∈ values, (core.get v.value).isSome = true) :
    bucketDatum core .functionMinimum forward (bucket, values) =
      (leastSamples core values).head?.map fun least =>
        .atInterval (core.ofDouble (core.min core.doubleMax (number core least))) least.qualifier
          bucket := by
  cases values with
  | nil => rfl
  | cons first rest =>
      have hfirst := head?_leastOnes (number core) first rest
      rw [← minElement_eq hexact first hnumeric] at hfirst
      have hmem := List.mem_of_mem_head? hfirst
      have hnumber := get_number (hnumeric _ (List.mem_of_mem_filter hmem))
      rw [leastSamples, hfirst, Option.map_some]
      simp only [bucketDatum, getAggregator, Aggregator.call, Option.map_some,
        AggregationCore.lowered, hnumber]

theorem bucketDatum_maximum (hexact : core.Exact) (forward : Bool) (bucket : DateTimeRange)
    (hnumeric : ∀ v ∈ values, (core.get v.value).isSome = true) :
    bucketDatum core .functionMaximum forward (bucket, values) =
      (greatestSamples core values).head?.map fun greatest =>
        .atInterval (core.ofDouble (core.max core.doubleMin (number core greatest)))
          greatest.qualifier bucket := by
  cases values with
  | nil => rfl
  | cons first rest =>
      have hfirst := head?_leastOnes (fun v => OrderDual.toDual (number core v)) first rest
      rw [← maxElement_eq hexact first hnumeric] at hfirst
      have hmem := List.mem_of_mem_head? hfirst
      have hnumber := get_number (hnumeric _ (List.mem_of_mem_filter hmem))
      rw [greatestSamples, hfirst, Option.map_some]
      simp only [bucketDatum, getAggregator, Aggregator.call, Option.map_some,
        AggregationCore.raised, hnumber]

/-! ## §5  Both directions -/

def withoutQualifier (v : DataValue V) : DataValue V := { v with qualifier := 0 }

/-- The first and the last sample have one qualifier. -/
def SameEnds (values : List (DataValue V)) : Prop :=
  values.head?.map DataValue.qualifier = values.getLast?.map DataValue.qualifier

/-- Samples of a bucket between which the order decides have one qualifier. -/
def TiesAgree (core : AggregationCore V ℚ) (function : AggregateFunction)
    (values : List (DataValue V)) : Prop :=
  match function with
  | .functionMinimum => SameEnds (leastSamples core values)
  | .functionMaximum => SameEnds (greatestSamples core values)
  | _ => True

/-- `Start` and `End` depend on the order by what they are. -/
def Symmetric (function : AggregateFunction) : Prop :=
  function ≠ .functionStart ∧ function ≠ .functionEnd

/-- The reversed list gives, backwards, the same values in reverse order. -/
def DirectionsAgree (core : AggregationCore V ℚ) (view : DataValue V → DataValue V)
    (startTime : DateTime) (interval : Duration) (function : AggregateFunction)
    (values : List (DataValue V)) : Prop :=
  (aggregated core false startTime interval function values.reverse).map (List.map view) =
    (aggregated core true startTime interval function values).map fun data =>
      (data.map view).reverse

theorem calculateTotal_reverse (hexact : core.Exact) (values : List (DataValue V)) :
    core.calculateTotal values.reverse = core.calculateTotal values := by
  have hnumbers : numbers core values.reverse = (numbers core values).reverse :=
    List.filterMap_reverse
  rw [calculateTotal_eq_sum hexact, calculateTotal_eq_sum hexact, hnumbers, List.sum_reverse]

variable (bucket) in
/-- A datum of the first of some samples and the same of the last one, when both have
one number. -/
theorem ends_datum (f : DataValue V → ℚ) (g : ℚ → V)
    (hsame : ∀ v ∈ values, ∀ w ∈ values, f v = f w) :
    (values.head?.map fun v => DataValue.atInterval (g (f v)) v.qualifier bucket).map
        withoutQualifier =
      (values.getLast?.map fun v => DataValue.atInterval (g (f v)) v.qualifier bucket).map
        withoutQualifier ∧
    ((values.getLast?.map fun v => DataValue.atInterval (g (f v)) v.qualifier bucket) =
        (values.head?.map fun v => DataValue.atInterval (g (f v)) v.qualifier bucket) ↔
      SameEnds values) := by
  cases values with
  | nil => exact ⟨rfl, iff_of_true rfl rfl⟩
  | cons first rest =>
      have hlast := List.getLast?_eq_some_getLast (List.cons_ne_nil first rest)
      have heq := hsame _ (List.getLast_mem (List.cons_ne_nil first rest)) first List.mem_cons_self
      unfold SameEnds
      rw [hlast, List.head?_cons]
      simp only [Option.map_some, heq]
      constructor
      · rfl
      · simp [DataValue.atInterval, eq_comm]

variable (bucket) in
/-- The samples of a bucket in reverse order. -/
theorem bucketDatum_reverse (hexact : core.Exact) (hsymmetric : Symmetric function)
    (hnumeric : ∀ v ∈ values, (core.get v.value).isSome = true) :
    (bucketDatum core function true (bucket, values)).map withoutQualifier =
      (bucketDatum core function false (bucket, values.reverse)).map withoutQualifier ∧
    (bucketDatum core function false (bucket, values.reverse) =
        bucketDatum core function true (bucket, values) ↔
      TiesAgree core function values) := by
  have hnumeric' : ∀ v ∈ values.reverse, (core.get v.value).isSome = true := by
    intro v hv
    exact hnumeric v (List.mem_reverse.mp hv)
  have hequal (heq : bucketDatum core function false (bucket, values.reverse) =
      bucketDatum core function true (bucket, values)) (hties : TiesAgree core function values) :=
    And.intro (congrArg (Option.map withoutQualifier) heq.symm) (iff_of_true heq hties)
  cases function with
  | functionTotal =>
      refine hequal ?_ trivial
      simp only [bucketDatum, getAggregator, Aggregator.call, calculateTotal_reverse hexact]
  | functionAverage =>
      refine hequal ?_ trivial
      simp only [bucketDatum, getAggregator, Aggregator.call, calculateTotal_reverse hexact,
        List.length_reverse]
  | functionCount =>
      refine hequal ?_ trivial
      simp only [bucketDatum, getAggregator, Aggregator.call, List.length_reverse]
  | functionMinimum =>
      have hreverse : leastSamples core values.reverse = (leastSamples core values).reverse :=
        leastOnes_reverse _ _
      rw [bucketDatum_minimum hexact true bucket hnumeric,
        bucketDatum_minimum hexact false bucket hnumeric', hreverse, List.head?_reverse]
      refine ends_datum bucket (number core) (fun d => core.ofDouble (core.min core.doubleMax d)) ?_
      intro v hv w hw
      exact le_antisymm (le_of_mem_leastOnes hv (List.mem_of_mem_filter hw))
        (le_of_mem_leastOnes hw (List.mem_of_mem_filter hv))
  | functionMaximum =>
      have hreverse : greatestSamples core values.reverse =
          (greatestSamples core values).reverse := leastOnes_reverse _ _
      rw [bucketDatum_maximum hexact true bucket hnumeric,
        bucketDatum_maximum hexact false bucket hnumeric', hreverse, List.head?_reverse]
      refine ends_datum bucket (number core) (fun d => core.ofDouble (core.max core.doubleMin d)) ?_
      intro v hv w hw
      have hvw := le_of_mem_leastOnes hv (List.mem_of_mem_filter hw)
      have hwv := le_of_mem_leastOnes hw (List.mem_of_mem_filter hv)
      exact le_antisymm (OrderDual.toDual_le_toDual.mp hwv) (OrderDual.toDual_le_toDual.mp hvw)
  | functionStart => exact absurd rfl hsymmetric.1
  | functionEnd => exact absurd rfl hsymmetric.2

/-- What a view of exact data shows is what it shows of each bucket. -/
theorem map_view {data : List (DataValue V)}
    {groups : List (DateTimeRange × List (DataValue V))}
    {datum : DateTimeRange × List (DataValue V) → Option (DataValue V)}
    (hexact : data.map some = groups.map datum) (view : DataValue V → DataValue V) :
    (data.map view).map some = groups.map fun group => (datum group).map view := by
  calc (data.map view).map some
      = (data.map some).map (Option.map view) := by
        rw [List.map_map, List.map_map]
        rfl
    _ = groups.map fun group => (datum group).map view := by
        rw [hexact, List.map_map]
        rfl

/-- The directions agree when they agree on each bucket. -/
theorem directionsAgree_iff (hnull : NumbersNotNull core) (hpos : 0 < interval)
    (hsorted : Directed true values) (hstart : ∀ v ∈ values, startTime ≤ v.sourceTimestamp)
    (hnumeric : ∀ v ∈ values, (core.get v.value).isSome = true)
    (hend : NoneAtEnd startTime interval values) (view : DataValue V → DataValue V) :
    DirectionsAgree core view startTime interval function values ↔
      ∀ group ∈ samplesByBucket startTime interval values,
        (bucketDatum core function false (group.1, group.2.reverse)).map view =
          (bucketDatum core function true group).map view := by
  have hascending : values.Pairwise fun v w => v.sourceTimestamp ≤ w.sourceTimestamp := by
    simpa [Directed] using hsorted
  have hback : Directed false values.reverse := by
    simpa [Directed, List.pairwise_reverse] using hascending
  obtain ⟨data, hdata, hforward⟩ := bucketExact_of_noneAtEnd function hnull hpos hsorted
    hstart hnumeric fun _ => hend
  obtain ⟨data', hdata', hbackward⟩ := bucketExact_of_noneAtEnd function hnull hpos hback
    (fun v hv => hstart v (List.mem_reverse.mp hv))
    (fun v hv => hnumeric v (List.mem_reverse.mp hv)) nofun
  rw [samplesByBucket_reverse hpos hascending hstart] at hbackward
  have hbackward' : data'.reverse.map some = (samplesByBucket startTime interval values).map
      fun group => bucketDatum core function false (group.1, group.2.reverse) := by
    rw [List.map_reverse, hbackward, ← List.map_reverse, List.reverse_reverse, List.map_map]
    rfl
  have hinj : Function.Injective (List.map (some (α := DataValue V))) :=
    List.map_injective_iff.mpr (Option.some_injective _)
  unfold DirectionsAgree
  rw [hdata, hdata', Option.map_some, Option.map_some, Option.some_inj, ← List.reverse_inj,
    List.reverse_reverse, ← List.map_reverse, ← hinj.eq_iff, map_view hbackward', map_view hforward]
  exact List.map_inj_left

theorem numeric_of_mem_samplesByBucket {group : DateTimeRange × List (DataValue V)}
    (hnumeric : ∀ v ∈ values, (core.get v.value).isSome = true)
    (hgroup : group ∈ samplesByBucket startTime interval values) :
    ∀ v ∈ group.2, (core.get v.value).isSome = true := by
  obtain ⟨bucket, -, rfl⟩ := List.mem_map.mp hgroup
  intro v hv
  exact hnumeric v (List.mem_of_mem_filter hv)

/-- **When each sample is in its bucket and both directions agree.** Apart from the
qualifiers it is enough that no sample lies at the end of the bucket of another one;
with them, samples with the same least or greatest number must not differ there. -/
theorem buckets_exact_iff (core : AggregationCore V ℚ) (startTime : DateTime)
    (interval : Duration) (values : List (DataValue V)) (hexact : core.Exact)
    (hnull : NumbersNotNull core) (hpos : 0 < interval) (hsorted : Directed true values)
    (hstart : ∀ v ∈ values, startTime ≤ v.sourceTimestamp)
    (hnumeric : ∀ v ∈ values, (core.get v.value).isSome = true) :
    ((∀ function, BucketExact core true startTime interval function values) ∧
        (∀ function, Symmetric function →
          DirectionsAgree core withoutQualifier startTime interval function values) ↔
      NoneAtEnd startTime interval values) ∧
    ((∀ function, BucketExact core true startTime interval function values) ∧
        (∀ function, Symmetric function →
          DirectionsAgree core id startTime interval function values) ↔
      NoneAtEnd startTime interval values ∧
        ∀ function, ∀ group ∈ samplesByBucket startTime interval values,
          TiesAgree core function group.2) := by
  have hcount : (∀ function, BucketExact core true startTime interval function values) →
      NoneAtEnd startTime interval values := by
    intro hall
    exact noneAtEnd_of_count hnull hpos hsorted hstart hnumeric (hall .functionCount)
  have hforward : NoneAtEnd startTime interval values →
      ∀ function, BucketExact core true startTime interval function values := by
    intro hend function
    exact bucketExact_of_noneAtEnd function hnull hpos hsorted hstart hnumeric fun _ => hend
  constructor
  · constructor
    · rintro ⟨hall, -⟩
      exact hcount hall
    · intro hend
      refine ⟨hforward hend, ?_⟩
      intro function hsymmetric
      rw [directionsAgree_iff hnull hpos hsorted hstart hnumeric hend]
      intro group hgroup
      exact (bucketDatum_reverse group.1 hexact hsymmetric
        (numeric_of_mem_samplesByBucket hnumeric hgroup)).1.symm
  · constructor
    · rintro ⟨hall, hagree⟩
      have hend := hcount hall
      refine ⟨hend, ?_⟩
      intro function group hgroup
      by_cases hsymmetric : Symmetric function
      · have hdata := hagree function hsymmetric
        rw [directionsAgree_iff hnull hpos hsorted hstart hnumeric hend] at hdata
        refine (bucketDatum_reverse group.1 hexact hsymmetric
          (numeric_of_mem_samplesByBucket hnumeric hgroup)).2.mp ?_
        simpa using hdata group hgroup
      · cases function <;> first | trivial | exact absurd ⟨by decide, by decide⟩ hsymmetric
    · rintro ⟨hend, hties⟩
      refine ⟨hforward hend, ?_⟩
      intro function hsymmetric
      rw [directionsAgree_iff hnull hpos hsorted hstart hnumeric hend]
      intro group hgroup
      rw [Option.map_id, id, id]
      exact (bucketDatum_reverse group.1 hexact hsymmetric
        (numeric_of_mem_samplesByBucket hnumeric hgroup)).2.mpr (hties function group hgroup)

/-- A sample with a number at a time. -/
def numberAt (d : ℚ) (time : DateTime) : DataValue (Option (ℚ ⊕ ℕ)) :=
  ⟨some (.inl d), 0, time, time⟩

theorem numbersNotNull_rationals : NumbersNotNull rationals := by
  rintro ⟨value, qualifier, source, server⟩ hv
  cases value with
  | none => cases hv
  | some value => rfl

theorem buckets_exact_iff_two_buckets :
    ((∀ function, BucketExact rationals true 100 10 function [numberAt 3 105, numberAt 4 115]) ∧
        (∀ function, Symmetric function → DirectionsAgree rationals withoutQualifier 100 10
          function [numberAt 3 105, numberAt 4 115]) ↔
      NoneAtEnd 100 10 [numberAt 3 105, numberAt 4 115]) ∧
    ((∀ function, BucketExact rationals true 100 10 function [numberAt 3 105, numberAt 4 115]) ∧
        (∀ function, Symmetric function → DirectionsAgree rationals id 100 10
          function [numberAt 3 105, numberAt 4 115]) ↔
      NoneAtEnd 100 10 [numberAt 3 105, numberAt 4 115] ∧
        ∀ function, ∀ group ∈ samplesByBucket 100 10 [numberAt 3 105, numberAt 4 115],
          TiesAgree rationals function group.2) :=
  buckets_exact_iff rationals 100 10 [numberAt 3 105, numberAt 4 115] exact_rationals
    numbersNotNull_rationals (by decide) (by unfold Directed; decide) (by decide) (by decide)

/-- Forwards the sample at 110 is the second one of the bucket that starts at 100,
backwards it is the first one of the bucket that starts at 110. -/
theorem boundary_sample_in_two_buckets :
    Directed true [numberAt 3 105, numberAt 4 110] ∧
      aggregated rationals true 100 10 .functionCount [numberAt 3 105, numberAt 4 110] =
        some [⟨some (.inr 2), 0, 100, 110⟩] ∧
      aggregated rationals false 100 10 .functionCount [numberAt 4 110, numberAt 3 105] =
        some [⟨some (.inr 1), 0, 110, 120⟩, ⟨some (.inr 1), 0, 100, 110⟩] ∧
      ¬ BucketExact rationals true 100 10 .functionCount [numberAt 3 105, numberAt 4 110] ∧
      ¬ DirectionsAgree rationals withoutQualifier 100 10 .functionCount
        [numberAt 3 105, numberAt 4 110] := by
  have hsorted : Directed true [numberAt 3 105, numberAt 4 110] := by
    unfold Directed
    decide
  have hforward : aggregated rationals true 100 10 .functionCount
      [numberAt 3 105, numberAt 4 110] = some [⟨some (.inr 2), 0, 100, 110⟩] := rfl
  have hbackward : aggregated rationals false 100 10 .functionCount
      [numberAt 4 110, numberAt 3 105] =
      some [⟨some (.inr 1), 0, 110, 120⟩, ⟨some (.inr 1), 0, 100, 110⟩] := rfl
  refine ⟨hsorted, hforward, hbackward, ?_, ?_⟩
  · intro hexact
    have hend := noneAtEnd_of_count numbersNotNull_rationals (by decide) hsorted (by decide)
      (by decide) hexact
    exact hend (numberAt 3 105) (by simp) (numberAt 4 110) (by simp) (by decide)
  · intro hagree
    have hreverse : [numberAt 3 105, numberAt 4 110].reverse =
        [numberAt 4 110, numberAt 3 105] := rfl
    unfold DirectionsAgree at hagree
    rw [hreverse, hforward, hbackward] at hagree
    cases hagree

end

end ScadaCommon
