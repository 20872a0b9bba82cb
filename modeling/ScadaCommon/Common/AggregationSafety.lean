import ScadaCommon.Common.AggregationChunks

/-!
# Does aggregation ever abort?

The interval, the start time and the samples come from outside. `Process` checks
that the first sample of a round is one of those it takes, and calls the aggregator
it has made last.

§1 searching for the end of a bucket · §2 samples that their bucket holds ·
§3 rounds · §4 calls.
-/

namespace ScadaCommon

open Foundation

namespace Foundation

/-! ## §1  The end of a bucket -/

variable {α : Type*} {p : α → Bool}

/-- The search looks at the first element at last. -/
theorem partitionLoop_pos {fuel : ℕ} {a : α} {values : List α} (ha : p a = true)
    (hfuel : (a :: values).length ≤ fuel) : 0 < partitionLoop p fuel (a :: values) := by
  induction fuel generalizing values with
  | zero => cases hfuel
  | succ fuel ih =>
      have hhalf : (a :: values).length / 2 < (a :: values).length :=
        Nat.div_lt_self (Nat.succ_pos _) (by decide)
      obtain ⟨middle, hmiddle⟩ : ∃ middle, (a :: values)[(a :: values).length / 2]? = some middle :=
        ⟨_, List.getElem?_eq_getElem hhalf⟩
      rw [partitionLoop, hmiddle]
      dsimp only
      split
      · omega
      · rename_i hp
        cases hlen : (a :: values).length / 2 with
        | zero =>
            rw [hlen] at hmiddle
            cases hmiddle
            exact absurd ha hp
        | succ half =>
            rw [List.take_succ_cons]
            refine ih ?_
            rw [hlen, List.length_cons] at hhalf
            simp only [List.length_cons, List.length_take] at hfuel ⊢
            omega

theorem partitionPoint_pos {a : α} (values : List α) (ha : p a = true) :
    0 < partitionPoint p (a :: values) :=
  partitionLoop_pos ha le_rfl

end Foundation

variable {V D : Type} {core : AggregationCore V D}

namespace AggregateState

variable {st st' : AggregateState V D} {values : List (DataValue V)} {v w : DataValue V}
  {interval : DateTimeRange}

/-! ## §2  Samples that their bucket holds -/

/-- The bucket of the sample reaches to the sample, on the side that the direction
looks at. -/
def Held (st : AggregateState V D) (v : DataValue V) : Prop :=
  if st.forward then 0 ≤ st.aggregation.interval ∨
    v.sourceTimestamp ≤ st.aggregation.startTime + st.aggregation.interval
  else st.aggregation.interval = 0 ∨ st.aggregation.startTime ≤ v.sourceTimestamp

instance (st : AggregateState V D) (v : DataValue V) : Decidable (st.Held v) := by
  unfold Held
  infer_instance

/-- The start of the bucket of a sample that is not before the start time. -/
theorem bucketOf_first (hzero : st.aggregation.interval ≠ 0)
    (hstart : st.aggregation.startTime ≤ v.sourceTimestamp) :
    st.aggregation.startTime ≤ (st.bucketOf v).first ∧ (st.bucketOf v).first ≤ v.sourceTimestamp ∧
      (st.bucketOf v).second = (st.bucketOf v).first + st.aggregation.interval := by
  have hdelta : 0 ≤ v.sourceTimestamp - st.aggregation.startTime := sub_nonneg.mpr hstart
  have hnonneg := Int.tmod_nonneg st.aggregation.interval hdelta
  have hle : Int.tmod (v.sourceTimestamp - st.aggregation.startTime) st.aggregation.interval ≤
      v.sourceTimestamp - st.aggregation.startTime := by
    rw [Int.tmod_eq_emod_of_nonneg hdelta, ← Int.emod_abs]
    have hdiv := Int.mul_ediv_add_emod (v.sourceTimestamp - st.aggregation.startTime)
      |st.aggregation.interval|
    have hmul : 0 ≤ |st.aggregation.interval| *
        ((v.sourceTimestamp - st.aggregation.startTime) / |st.aggregation.interval|) :=
      mul_nonneg (abs_nonneg _) (Int.ediv_nonneg hdelta (abs_nonneg _))
    linarith
  unfold bucketOf getAggregateInterval
  rw [if_neg hzero, if_neg hstart.not_gt]
  dsimp only
  exact ⟨by linarith, by linarith, rfl⟩

theorem within_iff_held : st.within (st.bucketOf v) v = true ↔ st.Held v := by
  unfold within Held
  by_cases hzero : st.aggregation.interval = 0
  · have hbucket : st.bucketOf v = ⟨v.sourceTimestamp, v.sourceTimestamp⟩ := if_pos hzero
    rw [hbucket]
    split <;> simp [hzero]
  · rcases lt_or_ge v.sourceTimestamp st.aggregation.startTime with hbefore | hafter
    · have hbucket : st.bucketOf v = ⟨st.aggregation.startTime,
          st.aggregation.startTime + st.aggregation.interval⟩ := by
        unfold bucketOf getAggregateInterval
        rw [if_neg hzero, if_pos hbefore]
      rw [hbucket]
      split
      · rw [decide_eq_true_eq, or_iff_right_of_imp]
        intro hnonneg
        linarith
      · simp [hzero]
    · obtain ⟨-, hfirst, hsecond⟩ := bucketOf_first hzero hafter
      split
      · rw [decide_eq_true_eq, hsecond]
        rcases lt_or_gt_of_ne hzero with hneg | hpos
        · refine iff_of_false ?_ ?_
          · intro hle
            linarith
          · rintro (hnonneg | hle)
            · exact hneg.not_ge hnonneg
            · linarith
        · have hmem := (getAggregateInterval_mem hpos hafter).2
          refine iff_of_true ?_ (.inl hpos.le)
          rw [← hsecond]
          exact hmem.le
      · simp [hfirst, hafter]

/-! ## §3  Rounds -/

/-- A round takes a sample that its bucket holds, in whatever order the samples
stand. -/
theorem bucketCount_ne_zero (values : List (DataValue V)) (h : st.Held v) :
    st.bucketCount (st.bucketOf v) (v :: values) ≠ 0 := by
  have hwithin := within_iff_held.mpr h
  unfold within at hwithin
  unfold bucketCount
  cases hdir : st.forward
  · rw [hdir] at hwithin
    exact (partitionPoint_pos values hwithin).ne'
  · rw [hdir] at hwithin
    exact (partitionPoint_pos values hwithin).ne'

/-- In order, it takes no other. -/
theorem held_of_bucketCount (hsorted : st.Sorted (v :: values))
    (h : st.bucketCount (st.bucketOf v) (v :: values) ≠ 0) : st.Held v := by
  rw [bucketCount_eq hsorted] at h
  rw [← within_iff_held]
  by_contra hout
  rw [List.takeWhile_cons_of_neg hout] at h
  exact h rfl

/-- The aggregator that serves a round. -/
theorem enter_aggregator (hready : st.aggregator = none → interval ≠ st.aggregatorInterval) :
    (st.enter core interval).aggregator = none →
      st.aggregatorInterval ≠ interval ∧ st.aggregation.aggregateType = none := by
  intro hnone
  unfold enter at hnone
  split at hnone
  · rename_i heq
    exact absurd heq.symm (hready hnone)
  · rename_i hne
    exact ⟨hne, Option.map_eq_none_iff.mp hnone⟩

theorem SameKind.held (h : SameKind st st') : st'.Held v ↔ st.Held v := by
  unfold Held
  rw [h.forward, h.aggregation]

/-- The samples that a call looks at: without an aggregator it stops at the first. -/
def looked (st : AggregateState V D) (values : List (DataValue V)) : List (DataValue V) :=
  if st.aggregation.aggregateType = none ∧ st.aggregator = none then values.take 1 else values

/-- Their buckets hold the samples, and if there is no aggregator the first sample is
of another bucket than the last one. -/
def Safe (st : AggregateState V D) (values : List (DataValue V)) : Prop :=
  (∀ v ∈ st.looked values, st.Held v) ∧
    (st.aggregator = none → ∀ v ∈ values.head?, st.bucketOf v ≠ st.aggregatorInterval)

/-- Rounds go on until the samples are used up. -/
theorem processLoop_safe (core : AggregationCore V D) {fuel : ℕ}
    (hfuel : values.length ≤ fuel) (h : st.Safe values) :
    ∃ st', processLoop core fuel st values = some st' := by
  induction fuel generalizing st values with
  | zero =>
      obtain rfl := List.length_eq_zero_iff.mp (Nat.le_zero.mp hfuel)
      exact ⟨st, rfl⟩
  | succ fuel ih =>
      cases values with
      | nil => exact ⟨st, rfl⟩
      | cons v values =>
          obtain ⟨hheld, hready⟩ := h
          have hready := fun hnone => hready hnone v rfl
          have hfirst : st.Held v := by
            refine hheld v ?_
            unfold looked
            split <;> exact List.mem_cons_self
          have hcount := bucketCount_ne_zero values hfirst
          rw [processLoop]
          dsimp only
          rw [check_of hcount]
          cases haggregator : (st.enter core (st.bucketOf v)).aggregator with
          | none =>
              obtain ⟨hne, -⟩ := enter_aggregator hready haggregator
              exact ⟨_, if_neg hne⟩
          | some aggregator =>
              have htake : (v :: values).take (st.bucketCount (st.bucketOf v) (v :: values)) ≠ [] :=
                by simp [hcount]
              obtain ⟨r, hr⟩ := call_isSome core aggregator htake
              have hst₁ : ∃ st₁, (st.enter core (st.bucketOf v)).aggregate core aggregator
                  ((v :: values).take (st.bucketCount (st.bucketOf v) (v :: values))) = some st₁ ∧
                    st₁.aggregator = some r.1 := by
                rw [aggregate, hr]
                exact ⟨_, rfl, rfl⟩
              obtain ⟨st₁, hst₁, hserved⟩ := hst₁
              have hkind := SameKind.enter.trans (SameKind.aggregate hst₁)
              have hlooked : st.looked (v :: values) = v :: values := by
                refine if_neg ?_
                rintro ⟨htype, hnone⟩
                have hother : (st.enter core (st.bucketOf v)).aggregator = none := by
                  unfold enter
                  rw [if_neg (hready hnone).symm, htype, Option.map_none]
                rw [hother] at haggregator
                cases haggregator
              rw [hlooked] at hheld
              dsimp only [Option.bind_eq_bind, Option.bind_some]
              rw [hst₁, Option.bind_some]
              refine ih ?_ ⟨fun w hw => ?_, fun hnone => ?_⟩
              · rw [List.length_drop]
                omega
              · rw [hkind.held]
                unfold looked at hw
                rw [if_neg (fun hboth => by rw [hserved] at hboth; cases hboth.2)] at hw
                exact hheld w (List.drop_subset _ _ hw)
              · rw [hserved] at hnone
                cases hnone

/-- More fuel changes nothing. -/
theorem processLoop_fuel {fuel : ℕ} (hfuel : values.length ≤ fuel) :
    processLoop core fuel st values = process core st values := by
  unfold process
  induction hn : values.length using Nat.strong_induction_on generalizing st values fuel with
  | _ n ih =>
      cases values with
      | nil => cases fuel <;> simp [processLoop, ← hn]
      | cons v values =>
          obtain ⟨fuel, rfl⟩ : ∃ k, fuel = k + 1 := Nat.exists_eq_succ_of_ne_zero (by
            rw [List.length_cons] at hfuel
            omega)
          rw [List.length_cons] at hfuel hn
          subst hn
          rw [processLoop, processLoop]
          dsimp only
          by_cases hcount : st.bucketCount (st.bucketOf v) (v :: values) = 0
          · simp [check, hcount]
          · rw [check_of hcount]
            dsimp only [Option.bind_eq_bind, Option.bind_some]
            cases (st.enter core (st.bucketOf v)).aggregator with
            | none => rfl
            | some aggregator =>
                dsimp only
                congr 1
                funext st₁
                have hlen : ((v :: values).drop
                    (st.bucketCount (st.bucketOf v) (v :: values))).length ≤ values.length := by
                  rw [List.length_drop, List.length_cons]
                  omega
                rw [ih _ (Nat.lt_succ_of_le hlen) (by omega) rfl,
                  ih _ (Nat.lt_succ_of_le hlen) hlen rfl]

/-- A bucket that holds its first sample holds no sample of another bucket that does
not hold it. -/
theorem held_of_within (hv : st.Held v) (hw : st.within (st.bucketOf v) w = true) :
    st.Held w := by
  unfold Held at hv ⊢
  unfold within at hw
  split
  · rename_i hdir
    rw [if_pos hdir] at hv hw
    rcases lt_or_ge st.aggregation.interval 0 with hneg | hnonneg
    · have hle := hv.resolve_left hneg.not_ge
      have hbefore : v.sourceTimestamp < st.aggregation.startTime := by linarith
      have hbucket : st.bucketOf v = ⟨st.aggregation.startTime,
          st.aggregation.startTime + st.aggregation.interval⟩ := by
        unfold bucketOf getAggregateInterval
        rw [if_neg hneg.ne, if_pos hbefore]
      rw [hbucket] at hw
      exact .inr (of_decide_eq_true hw)
    · exact .inl hnonneg
  · rename_i hdir
    rw [if_neg hdir] at hv hw
    by_cases hzero : st.aggregation.interval = 0
    · exact .inl hzero
    · obtain ⟨hfirst, -, -⟩ := bucketOf_first hzero (hv.resolve_left hzero)
      exact .inr (hfirst.trans (of_decide_eq_true hw))

/-- The first round of a call that returns. -/
theorem process_cons_eq_some (h : process core st (v :: values) = some st') :
    st.bucketCount (st.bucketOf v) (v :: values) ≠ 0 ∧
      match (st.enter core (st.bucketOf v)).aggregator with
      | none => st.aggregatorInterval ≠ st.bucketOf v
      | some aggregator => ∃ st₁, SameKind st st₁ ∧ st₁.aggregator ≠ none ∧
          (st.enter core (st.bucketOf v)).aggregate core aggregator
            ((v :: values).take (st.bucketCount (st.bucketOf v) (v :: values))) = some st₁ ∧
          process core st₁
            ((v :: values).drop (st.bucketCount (st.bucketOf v) (v :: values))) = some st' := by
  rw [process, List.length_cons, processLoop] at h
  dsimp only at h
  obtain ⟨hcount, h⟩ := check_bind_eq_some.mp h
  refine ⟨hcount, ?_⟩
  cases haggregator : (st.enter core (st.bucketOf v)).aggregator with
  | none =>
      rw [haggregator] at h
      dsimp only at h
      split at h
      · cases h
      · assumption
  | some aggregator =>
      rw [haggregator] at h
      obtain ⟨st₁, hst₁, hrest⟩ := Option.bind_eq_some_iff.mp h
      refine ⟨st₁, SameKind.enter.trans (SameKind.aggregate hst₁), ?_, hst₁, ?_⟩
      · obtain ⟨r, -, hr⟩ := Option.bind_eq_some_iff.mp hst₁
        cases hr
        exact Option.some_ne_none _
      · have hlen : ((v :: values).drop
            (st.bucketCount (st.bucketOf v) (v :: values))).length ≤ values.length := by
          rw [List.length_drop, List.length_cons]
          omega
        rw [← processLoop_fuel hlen, hrest]

/-- In order, what has been aggregated is held. -/
theorem held_of_process (hsorted : st.Sorted values)
    (htype : st.aggregation.aggregateType ≠ none) (h : process core st values = some st') :
    ∀ v ∈ values, st.Held v := by
  induction hn : values.length using Nat.strong_induction_on generalizing st values with
  | _ n ih =>
      cases values with
      | nil => nofun
      | cons v values =>
          obtain ⟨hcount, h⟩ := process_cons_eq_some h
          have hheld := held_of_bucketCount hsorted hcount
          have hwithin := within_iff_held.mpr hheld
          rw [bucketCount_eq hsorted, drop_length_takeWhile] at h
          intro w hw
          rw [← List.takeWhile_append_dropWhile (p := st.within (st.bucketOf v))
            (l := v :: values)] at hw
          rcases List.mem_append.mp hw with htake | hdrop
          · exact held_of_within hheld (List.mem_takeWhile_imp htake)
          · cases haggregator : (st.enter core (st.bucketOf v)).aggregator with
            | none =>
                rw [haggregator] at h
                rw [enter_of_ne h, Option.map_eq_none_iff] at haggregator
                exact absurd haggregator htype
            | some aggregator =>
                rw [haggregator] at h
                obtain ⟨st₁, hkind, -, -, hrest⟩ := h
                rw [← hkind.held]
                refine ih _ ?_ (hkind.sorted.mpr (hsorted.dropWhile _))
                  (hkind.aggregation ▸ htype) hrest rfl w hdrop
                rw [List.dropWhile_cons_of_pos hwithin, ← hn, List.length_cons]
                exact Nat.lt_succ_of_le (length_dropWhile_le _ _)

/-- In order, a call that returns is safe. -/
theorem safe_of_process (hsorted : st.Sorted values)
    (htype : st.aggregation.aggregateType = none → st.aggregator = none)
    (h : process core st values = some st') : st.Safe values := by
  cases values with
  | nil =>
      refine ⟨fun v hv => ?_, fun _ => nofun⟩
      unfold looked at hv
      split at hv <;> cases hv
  | cons v values =>
      obtain ⟨hcount, hserved⟩ := process_cons_eq_some h
      constructor
      · intro w hw
        by_cases hnone : st.aggregation.aggregateType = none
        · rw [looked, if_pos ⟨hnone, htype hnone⟩] at hw
          rw [List.mem_singleton.mp hw]
          exact held_of_bucketCount hsorted hcount
        · rw [looked, if_neg (fun hboth => hnone hboth.1)] at hw
          exact held_of_process hsorted hnone h w hw
      · intro hnone w hw heq
        cases hw
        rw [enter_of_eq heq.symm, hnone] at hserved
        exact hserved heq.symm

/-! ## §4  Calls -/

/-- Each call of the run is safe where it is made. -/
def SafeRun (core : AggregationCore V D) : AggregateState V D → List (List (DataValue V)) → Prop
  | _, [] => True
  | st, values :: chunks => st.Safe values ∧
      ∀ st', process core st values = some st' → SafeRun core st' chunks

/-- **Safe calls never abort.** No call goes on for ever, and of the calls with samples
in order those that abort are not safe. -/
theorem aggregation_never_aborts (core : AggregationCore V D) (st : AggregateState V D) :
    (∀ fuel values, values.length ≤ fuel →
        processLoop core fuel st values = process core st values) ∧
      (∀ chunks, SafeRun core st chunks → ∃ st', processChunks core st chunks = some st') ∧
        ∀ values, st.Sorted values →
          (st.aggregation.aggregateType = none → st.aggregator = none) →
            ((∃ st', process core st values = some st') ↔ st.Safe values) := by
  refine ⟨fun fuel values hfuel => processLoop_fuel hfuel, fun chunks h => ?_,
    fun values hsorted htype => ⟨?_, fun h => processLoop_safe core le_rfl h⟩⟩
  · induction chunks generalizing st with
    | nil => exact ⟨st, rfl⟩
    | cons values chunks ih =>
        obtain ⟨st₁, hst₁⟩ := processLoop_safe core (le_refl values.length) h.1
        obtain ⟨st', hst'⟩ := ih st₁ (h.2 st₁ hst₁)
        refine ⟨st', ?_⟩
        rw [processChunks, List.foldlM_cons, process, hst₁]
        exact hst'
  · rintro ⟨st', hst'⟩
    exact safe_of_process hsorted htype hst'

/-- A sample before the start time stops the process backwards, and so do a negative
interval and a second sample of a bucket of an unknown aggregate; so does a null time
in an empty interval. -/
theorem aggregation_aborts :
    process wholeNumbers (init wholeNumbers false ⟨100, 10, some .functionCount⟩)
        [sampleAt 95] = none ∧
      process wholeNumbers (init wholeNumbers true ⟨100, -10, some .functionCount⟩)
        [sampleAt 105] = none ∧
      processChunks wholeNumbers (init wholeNumbers true ⟨100, 10, none⟩)
        [[sampleAt 105], [sampleAt 107]] = none ∧
      process wholeNumbers (init wholeNumbers true ⟨100, 0, some .functionCount⟩)
        [sampleAt 0] = none :=
  ⟨rfl, rfl, rfl, rfl⟩

end AggregateState

end ScadaCommon
