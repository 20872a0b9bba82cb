import ScadaCommon.Common.AggregationRounds

/-!
# Aggregation of a stream in chunks

When the values an `AggregateState` collects do not depend on where the stream
of samples is cut. `Process` forms its buckets anew at the start of each chunk,
so a cut matters in two ways: a sample at the very end of a bucket belongs to
that bucket when the bucket is still open and to the next one otherwise; and a
bucket that is cut is given to its aggregator in two calls.

§1 two calls of an aggregator · §2 cuts · §3 the last round of a chunk · §4 what
a cut changes · §5 streams in chunks.
-/

namespace ScadaCommon

open Foundation

variable {V D : Type} {core : AggregationCore V D}

namespace AggregateState

variable {st st' : AggregateState V D} {values : List (DataValue V)} {v : DataValue V}
  {interval : DateTimeRange}

/-! ## §1  Two calls of an aggregator -/

/-- What an aggregator adds to the values when it takes one span. -/
def emittedOnce (core : AggregationCore V D) (aggregator : Aggregator V D)
    (values : List (DataValue V)) : Option (List (DataValue V)) :=
  (aggregator.call core values).map fun r => emitted core r.2

/-- The same when it takes two. -/
def emittedTwice (core : AggregationCore V D) (aggregator : Aggregator V D)
    (values later : List (DataValue V)) : Option (List (DataValue V)) :=
  (aggregator.call core values).bind fun r => emittedOnce core r.1 later

/-- An aggregator may take its samples in two spans: sums and the smallest and
largest value are those of the whole, the extreme sample of the second span has
the qualifier of the extreme sample of both, and the first sample of all is not
null. -/
def Splits (core : AggregationCore V D) (aggregator : Aggregator V D) :
    List (DataValue V) → List (DataValue V) → Prop
  | first :: rest, first' :: rest' =>
      match aggregator.state with
      | .total total =>
          core.add (core.add total (core.calculateTotal (first :: rest)))
              (core.calculateTotal (first' :: rest')) =
            core.add total (core.calculateTotal ((first :: rest) ++ (first' :: rest')))
      | .average total count =>
          core.divCount
              (core.add (core.add total (core.calculateTotal (first :: rest)))
                (core.calculateTotal (first' :: rest')))
              (count + (first :: rest).length + (first' :: rest').length) =
            core.divCount
              (core.add total (core.calculateTotal ((first :: rest) ++ (first' :: rest'))))
              (count + (first :: rest).length + (first' :: rest').length)
      | .count _ => True
      | .minimum minValue =>
          let smallest := core.minElement first (rest ++ first' :: rest')
          core.lowered (core.lowered minValue (core.minElement first rest))
              (core.minElement first' rest') = core.lowered minValue smallest ∧
            (core.minElement first' rest').qualifier = smallest.qualifier
      | .maximum maxValue =>
          let largest := core.maxElement first (rest ++ first' :: rest')
          core.raised (core.raised maxValue (core.maxElement first rest))
              (core.maxElement first' rest') = core.raised maxValue largest ∧
            (core.maxElement first' rest').qualifier = largest.qualifier
      | .front startDataValue =>
          core.isNull startDataValue = true → core.isNull first = true →
            emitted core (.atInterval first'.value first'.qualifier aggregator.interval) =
              emitted core (.atInterval first.value first.qualifier aggregator.interval)
      | .back => True
  | _, _ => True

theorem emitted_ofDouble (x : D) (qualifier : ℕ) (interval : DateTimeRange) :
    emitted core (.atInterval (core.ofDouble x) qualifier interval) =
      [.atInterval (core.ofDouble x) qualifier interval] := by
  unfold emitted DataValue.atInterval
  rw [core.isNull_ofDouble]
  rfl

theorem emitted_ofDouble_inj {x y : D} {qualifier qualifier' : ℕ} :
    emitted core (.atInterval (core.ofDouble x) qualifier interval) =
        emitted core (.atInterval (core.ofDouble y) qualifier' interval) ↔
      x = y ∧ qualifier = qualifier' := by
  rw [emitted_ofDouble, emitted_ofDouble]
  constructor
  · intro heq
    simp only [DataValue.atInterval, List.cons.injEq, DataValue.mk.injEq] at heq
    exact ⟨core.ofDouble_injective heq.1.1, heq.1.2.1⟩
  · rintro ⟨rfl, rfl⟩
    rfl

theorem emitted_ofUInt64 (n qualifier : ℕ) (interval : DateTimeRange) :
    emitted core (.atInterval (core.ofUInt64 n) qualifier interval) =
      [.atInterval (core.ofUInt64 n) qualifier interval] := by
  unfold emitted DataValue.atInterval
  rw [core.isNull_ofUInt64]
  rfl

theorem call_average (interval : DateTimeRange) (total : D) (count : ℕ) (v : DataValue V)
    (values : List (DataValue V)) :
    Aggregator.call core ⟨interval, .average total count⟩ (v :: values) =
      some (⟨interval, .average (core.add total (core.calculateTotal (v :: values)))
          (count + (v :: values).length)⟩,
        .atInterval (core.ofDouble (core.divCount
          (core.add total (core.calculateTotal (v :: values)))
          (count + (v :: values).length))) 0 interval) := by
  have hcount : count + (v :: values).length ≠ 0 := Nat.succ_ne_zero _
  simp only [Aggregator.call, check_of hcount]
  rfl

theorem call_back (interval : DateTimeRange) {values : List (DataValue V)} {v : DataValue V}
    (hlast : values.getLast? = some v) :
    Aggregator.call core ⟨interval, .back⟩ values =
      some (⟨interval, .back⟩, .atInterval v.value v.qualifier interval) := by
  simp only [Aggregator.call, hlast]

/-- **What two calls emit is what one call emits** exactly when the samples may
be split there. -/
theorem emittedTwice_iff {aggregator : Aggregator V D} {values later : List (DataValue V)}
    (hne : values ≠ []) (hne' : later ≠ []) :
    emittedTwice core aggregator values later = emittedOnce core aggregator (values ++ later) ↔
      Splits core aggregator values later := by
  obtain ⟨first, rest, rfl⟩ := List.exists_cons_of_ne_nil hne
  obtain ⟨first', rest', rfl⟩ := List.exists_cons_of_ne_nil hne'
  obtain ⟨interval, state⟩ := aggregator
  cases state with
  | total total =>
      exact Option.some_inj.trans (emitted_ofDouble_inj.trans (and_iff_left rfl))
  | average total count =>
      have hlen : count + ((first :: rest) ++ (first' :: rest')).length =
          count + (first :: rest).length + (first' :: rest').length := by
        rw [List.length_append, Nat.add_assoc]
      rw [emittedTwice, call_average, Option.bind_some, emittedOnce, call_average, emittedOnce,
        List.cons_append, call_average, ← List.cons_append, hlen]
      exact Option.some_inj.trans (emitted_ofDouble_inj.trans (and_iff_left rfl))
  | count count =>
      refine iff_of_true ?_ trivial
      simp only [emittedTwice, emittedOnce, Aggregator.call, Option.bind_some, Option.map_some,
        List.length_append, Nat.add_assoc]
  | minimum minValue => exact Option.some_inj.trans emitted_ofDouble_inj
  | maximum maxValue => exact Option.some_inj.trans emitted_ofDouble_inj
  | front startDataValue =>
      -- The second span only matters when the first one leaves the start null.
      by_cases hstart : core.isNull startDataValue = true
      · by_cases hfirst : core.isNull first = true
        · simp [emittedTwice, emittedOnce, Aggregator.call, Splits, hstart, hfirst]
        · simp [emittedTwice, emittedOnce, Aggregator.call, Splits, hstart, hfirst]
      · simp [emittedTwice, emittedOnce, Aggregator.call, Splits, hstart]
  | back =>
      refine iff_of_true ?_ trivial
      have hlast' := List.getLast?_eq_some_getLast hne'
      have hboth : ((first :: rest) ++ (first' :: rest')).getLast? =
          some ((first' :: rest').getLast hne') := by
        rw [List.getLast?_append, hlast']
        rfl
      rw [emittedTwice, call_back interval (List.getLast?_eq_some_getLast hne), Option.bind_some,
        emittedOnce, call_back interval hlast', emittedOnce, call_back interval hboth]

/-! ## §2  Cuts -/

/-- The bucket a pass over samples is in, with the samples it took there. -/
def intoBucket (st : AggregateState V D) (running : Option (DateTimeRange × List (DataValue V)))
    (v : DataValue V) : Option (DateTimeRange × List (DataValue V)) :=
  match running with
  | some (interval, group) =>
      if st.within interval v then some (interval, group ++ [v]) else some (st.bucketOf v, [v])
  | none => some (st.bucketOf v, [v])

/-- The bucket that is open after a chunk, with the samples of the chunk in
it. -/
def runningBucket (st : AggregateState V D) (values : List (DataValue V)) :
    Option (DateTimeRange × List (DataValue V)) :=
  values.foldl st.intoBucket none

/-- The next chunk starts with a sample at the very end of the open bucket. -/
def BoundaryCut (st : AggregateState V D) (a b : List (DataValue V)) : Prop :=
  st.forward = true ∧ ∃ interval group v, st.runningBucket a = some (interval, group) ∧
    b.head? = some v ∧ v.sourceTimestamp = interval.second

/-- The aggregator that gets the samples of the open bucket: the one of the
state when the whole chunk is in that bucket, a new one otherwise. -/
def servingAggregator (core : AggregationCore V D) (st : AggregateState V D)
    (a group : List (DataValue V)) (interval : DateTimeRange) : Option (Aggregator V D) :=
  if group.length = a.length then (st.enter core interval).aggregator
  else st.aggregation.aggregateType.map (getAggregator core · interval st.forward)

/-- The samples of the open bucket that are in both chunks may be split. -/
def SplitStable (core : AggregationCore V D) (st : AggregateState V D)
    (a b : List (DataValue V)) : Prop :=
  ∀ interval group aggregator, st.runningBucket a = some (interval, group) →
    servingAggregator core st a group interval = some aggregator →
    Splits core aggregator group (b.takeWhile (st.within interval))

/-- Both ways of processing end, and with the same values. -/
def SameOutput (core : AggregationCore V D) (st : AggregateState V D)
    (a b : List (DataValue V)) : Prop :=
  ∃ data, (process core st a).bind (fun st => output core st b) = some data ∧
    output core st (a ++ b) = some data

theorem SameKind.runningBucket (h : SameKind st st') :
    st'.runningBucket values = st.runningBucket values := by
  have hstep : st'.intoBucket = st.intoBucket := by
    funext running v
    unfold intoBucket
    cases running with
    | none => rw [h.bucketOf]
    | some r =>
        obtain ⟨interval, group⟩ := r
        dsimp only
        rw [h.bucketOf, h.within]
  unfold AggregateState.runningBucket
  rw [hstep]

theorem foldl_intoBucket_within {group : List (DataValue V)}
    (hall : ∀ v ∈ values, st.within interval v = true) :
    values.foldl st.intoBucket (some (interval, group)) = some (interval, group ++ values) := by
  induction values generalizing group with
  | nil => simp
  | cons v values ih =>
      have hv : st.intoBucket (some (interval, group)) v = some (interval, group ++ [v]) :=
        if_pos (hall v (List.mem_cons_self ..))
      rw [List.foldl_cons, hv, ih fun w hw => hall w (List.mem_cons_of_mem _ hw)]
      simp

theorem not_within_of_dropWhile {w : DataValue V} {rest : List (DataValue V)}
    (h : values.dropWhile (st.within interval) = w :: rest) : st.within interval w = false := by
  have hhead := List.head?_dropWhile_not (st.within interval) values
  rw [h] at hhead
  simpa using hhead

/-- The pass closes its first bucket at the first sample that is not within. -/
theorem runningBucket_cons (values : List (DataValue V)) (hin : st.within (st.bucketOf v) v = true) :
    st.runningBucket (v :: values) =
      if (v :: values).dropWhile (st.within (st.bucketOf v)) = [] then
        some (st.bucketOf v, v :: values)
      else st.runningBucket ((v :: values).dropWhile (st.within (st.bucketOf v))) := by
  have hsplit : v :: values = (v :: values).takeWhile (st.within (st.bucketOf v)) ++
      (v :: values).dropWhile (st.within (st.bucketOf v)) :=
    List.takeWhile_append_dropWhile.symm
  have htake : ((v :: values).takeWhile (st.within (st.bucketOf v))).foldl st.intoBucket none =
      some (st.bucketOf v, (v :: values).takeWhile (st.within (st.bucketOf v))) := by
    rw [List.takeWhile_cons_of_pos hin, List.foldl_cons]
    exact foldl_intoBucket_within fun w hw => List.mem_takeWhile_imp hw
  cases hdrop : (v :: values).dropWhile (st.within (st.bucketOf v)) with
  | nil =>
      rw [hdrop, List.append_nil] at hsplit
      rw [← hsplit] at htake
      rw [if_pos rfl]
      exact htake
  | cons w rest =>
      have hw : st.within (st.bucketOf v) w = false := not_within_of_dropWhile hdrop
      rw [if_neg (List.cons_ne_nil _ _)]
      have hleave : st.intoBucket
          (some (st.bucketOf v, (v :: values).takeWhile (st.within (st.bucketOf v)))) w =
          st.intoBucket none w := if_neg (by simp [hw])
      calc st.runningBucket (v :: values)
          = st.runningBucket ((v :: values).takeWhile (st.within (st.bucketOf v)) ++
              w :: rest) := by rw [← hdrop, ← hsplit]
        _ = (w :: rest).foldl st.intoBucket
              (some (st.bucketOf v, (v :: values).takeWhile (st.within (st.bucketOf v)))) := by
            rw [runningBucket, List.foldl_append, htake]
        _ = st.runningBucket (w :: rest) := by
            rw [List.foldl_cons, hleave, runningBucket, List.foldl_cons]

theorem length_le_of_foldl_intoBucket {running : Option (DateTimeRange × List (DataValue V))}
    {group : List (DataValue V)}
    (h : values.foldl st.intoBucket running = some (interval, group)) :
    group.length ≤ (running.elim 0 fun r => r.2.length) + values.length := by
  induction values generalizing running with
  | nil =>
      rw [List.foldl_nil] at h
      simp [h]
  | cons v values ih =>
      rw [List.foldl_cons] at h
      have hlen := ih h
      refine hlen.trans ?_
      unfold intoBucket
      cases running with
      | none =>
          simp
          omega
      | some r =>
          obtain ⟨current, taken⟩ := r
          dsimp only
          split <;> simp <;> omega

theorem length_le_of_runningBucket {group : List (DataValue V)}
    (h : st.runningBucket values = some (interval, group)) : group.length ≤ values.length := by
  simpa using length_le_of_foldl_intoBucket h

/-! ## §3  The last round of a chunk -/

/-- No sample lies before the start time. -/
def StartsAfter (st : AggregateState V D) (values : List (DataValue V)) : Prop :=
  ∀ v ∈ values, st.aggregation.startTime ≤ v.sourceTimestamp

theorem enter_aggregatorInterval :
    (st.enter core interval).aggregatorInterval = interval := by
  unfold enter
  by_cases heq : st.aggregatorInterval = interval
  · rw [if_pos heq]
    exact heq
  · rw [if_neg heq]

theorem enter_of_eq (heq : st.aggregatorInterval = interval) : st.enter core interval = st :=
  if_pos heq

theorem enter_of_ne (hne : st.aggregatorInterval ≠ interval) :
    (st.enter core interval).aggregator =
      st.aggregation.aggregateType.map (getAggregator core · interval st.forward) := by
  unfold enter
  rw [if_neg hne]

/-- What a round does. -/
theorem round_eq_some (h : st.round core interval values = some st') :
    ∃ aggregator r, (st.enter core interval).aggregator = some aggregator ∧
      aggregator.call core values = some r ∧
      st' = { st.enter core interval with aggregator := some r.1, aggregatedValue := r.2 } := by
  obtain ⟨aggregator, haggregator, hagg⟩ := Option.bind_eq_some_iff.mp h
  obtain ⟨r, hr, hst'⟩ := Option.bind_eq_some_iff.mp hagg
  cases hst'
  exact ⟨aggregator, r, haggregator, hr, rfl⟩

theorem round_aggregatorInterval (h : st.round core interval values = some st') :
    st'.aggregatorInterval = interval := by
  obtain ⟨aggregator, r, -, -, rfl⟩ := round_eq_some h
  exact enter_aggregatorInterval

/-- What follows the samples of a bucket goes on to another bucket. -/
theorem bucketOf_ne_of_not_within {interval : DateTimeRange} (hin : st.within (st.bucketOf v) v = true)
    (hout : st.within interval v = false) : interval ≠ st.bucketOf v := by
  rintro rfl
  rw [hin] at hout
  cases hout

/-- When the open bucket holds the whole chunk it is the one of the first
sample. -/
theorem runningBucket_all {group : List (DataValue V)}
    (hin : st.within (st.bucketOf v) v = true)
    (hrun : st.runningBucket (v :: values) = some (interval, group))
    (hlen : group.length = (v :: values).length) :
    interval = st.bucketOf v := by
  rw [runningBucket_cons values hin] at hrun
  split at hrun
  · cases hrun
    rfl
  · have hle := length_le_of_runningBucket hrun
    rw [List.dropWhile_cons_of_pos hin] at hle
    have hdrop := length_dropWhile_le (st.within (st.bucketOf v)) values
    rw [List.length_cons] at hlen
    omega

/-- Every aggregator of the state is a count. -/
def Counts (st : AggregateState V D) : Prop :=
  st.aggregation.aggregateType = some .functionCount ∧
    ∀ aggregator, st.aggregator = some aggregator → ∃ count, aggregator.state = .count count

theorem Counts.enter (core : AggregationCore V D) (h : st.Counts) (interval : DateTimeRange) :
    (st.enter core interval).Counts := by
  unfold AggregateState.enter
  split
  · exact h
  · refine ⟨h.1, ?_⟩
    intro aggregator haggregator
    simp only [h.1, Option.map_some, Option.some.injEq] at haggregator
    subst haggregator
    exact ⟨0, rfl⟩

theorem Counts.round (h : st.Counts) (hround : st.round core interval values = some st') :
    st'.Counts := by
  obtain ⟨aggregator, r, haggregator, hr, rfl⟩ := round_eq_some hround
  obtain ⟨htype, hall⟩ := h.enter core interval
  obtain ⟨count, hcount⟩ := hall aggregator haggregator
  refine ⟨htype, ?_⟩
  rintro aggregator' ⟨⟩
  simp only [Aggregator.call, hcount] at hr
  cases hr
  exact ⟨_, rfl⟩

/-- A state before the last round of a chunk `a`, in which the open bucket takes
its samples. -/
structure LastRound (core : AggregationCore V D) (st : AggregateState V D)
    (a : List (DataValue V)) (interval : DateTimeRange) (group : List (DataValue V))
    (last : AggregateState V D) : Prop where
  kind : SameKind st last
  served : last.Served
  group_ne : group ≠ []
  bucket : ∃ v ∈ a, interval = st.bucketOf v
  counts : st.Counts → last.Counts
  aggregator : (last.enter core interval).aggregator = servingAggregator core st a group interval
  /-- Samples that follow join the round as far as the bucket takes them. -/
  process_append : ∀ b, st.Sorted (a ++ b) → process core st (a ++ b) =
    (last.round core interval (group ++ b.takeWhile (st.within interval))).bind
      (process core · (b.dropWhile (st.within interval)))

/-- **Every chunk ends with the round of its open bucket.** -/
theorem exists_lastRound (core : AggregationCore V D) {a group : List (DataValue V)} (h : st.Served)
    (hpos : 0 < st.aggregation.interval) (hsorted : st.Sorted a) (hstart : st.StartsAfter a)
    (hrun : st.runningBucket a = some (interval, group)) :
    ∃ last, LastRound core st a interval group last := by
  refine rounds_induction core
    (P := fun st a => st.StartsAfter a → st.runningBucket a = some (interval, group) →
      ∃ last, LastRound core st a interval group last) ?_ ?_ h hpos hsorted hstart hrun
  · rintro st - ⟨⟩
  · intro st v a h hpos hsorted ih hstart hrun
    have hin := within_bucketOf hpos (hstart v (List.mem_cons_self ..))
    have hrun' := runningBucket_cons a hin
    rw [hrun] at hrun'
    by_cases hdrop : (v :: a).dropWhile (st.within (st.bucketOf v)) = []
    · -- The whole chunk goes to the bucket of its first sample.
      rw [if_pos hdrop] at hrun'
      cases hrun'
      have hall : ∀ w ∈ v :: a, st.within (st.bucketOf v) w = true :=
        List.dropWhile_eq_nil_iff.mp hdrop
      refine ⟨st, SameKind.refl, h, List.cons_ne_nil _ _, ⟨v, List.mem_cons_self .., rfl⟩, id,
        ?_, ?_⟩
      · exact (if_pos rfl).symm
      · intro b hsorted'
        have hcons : st.Sorted (v :: (a ++ b)) := hsorted'
        rw [List.cons_append, process_cons h hpos hcons, if_pos hin, ← List.cons_append,
          List.takeWhile_append_of_pos hall, List.dropWhile_append_of_pos hall]
    · -- The first bucket closes inside the chunk, whatever follows.
      rw [if_neg hdrop] at hrun'
      have hne : (v :: a).takeWhile (st.within (st.bucketOf v)) ≠ [] := by
        rw [List.takeWhile_cons_of_pos hin]
        exact List.cons_ne_nil _ _
      obtain ⟨st₁, hround⟩ := round_isSome core h (bucketOf_real hpos v) hne
      have hkind := SameKind.round hround
      have hsub := List.dropWhile_sublist (l := v :: a) (st.within (st.bucketOf v))
      have hstart₁ : st₁.StartsAfter ((v :: a).dropWhile (st.within (st.bucketOf v))) := by
        intro w hw
        rw [hkind.aggregation]
        exact hstart w (hsub.mem hw)
      obtain ⟨last, hlast⟩ := ih st₁ hin hround hkind hstart₁
        (hkind.runningBucket.trans hrun'.symm)
      refine ⟨last, hkind.trans hlast.kind, hlast.served, hlast.group_ne, ?_, ?_, ?_, ?_⟩
      · obtain ⟨w, hw, hbucket⟩ := hlast.bucket
        exact ⟨w, hsub.mem hw, hbucket.trans hkind.bucketOf⟩
      · exact fun hcounts => hlast.counts (hcounts.round hround)
      · rw [hlast.aggregator, servingAggregator, servingAggregator]
        obtain ⟨w, rest, hw⟩ := List.exists_cons_of_ne_nil hdrop
        have hlen := length_le_of_runningBucket hrun'.symm
        have hshort := length_dropWhile_le (st.within (st.bucketOf v)) a
        rw [← List.dropWhile_cons_of_pos hin] at hshort
        have hpart : group.length ≠ (v :: a).length := by
          rw [List.length_cons]
          omega
        rw [if_neg hpart]
        split
        · rename_i hall
          have hwin : st₁.within (st₁.bucketOf w) w = true := by
            refine within_bucketOf (hkind.aggregation ▸ hpos) (hstart₁ w ?_)
            rw [hw]
            exact List.mem_cons_self ..
          have hinterval : interval = st₁.bucketOf w := by
            rw [hw] at hrun' hall
            exact runningBucket_all hwin (hkind.runningBucket.trans hrun'.symm) hall
          have hout : st₁.within (st.bucketOf v) w = false := by
            rw [hkind.within]
            exact not_within_of_dropWhile hw
          rw [hinterval, enter_of_ne, hkind.aggregation, hkind.forward]
          rw [round_aggregatorInterval hround]
          exact bucketOf_ne_of_not_within hwin hout
        · rw [hkind.aggregation, hkind.forward]
      · intro b hsorted'
        have hcons : st.Sorted (v :: (a ++ b)) := hsorted'
        have hsplit := List.takeWhile_append_dropWhile (p := st.within (st.bucketOf v)) (l := v :: a)
        have hrest : st₁.Sorted ((v :: a).dropWhile (st.within (st.bucketOf v)) ++ b) :=
          hkind.sorted.mpr (List.Pairwise.sublist (hsub.append_right b) hsorted')
        rw [List.cons_append, process_cons h hpos hcons, if_pos hin, ← List.cons_append,
          List.takeWhile_append, if_neg, List.dropWhile_append, if_neg, hround, Option.bind_some,
          hlast.process_append b hrest, hkind.within]
        · simpa using hdrop
        · intro hlen
          have hsum := congrArg List.length hsplit
          rw [List.length_append] at hsum
          have := List.length_pos_of_ne_nil hdrop
          omega

/-! ## §4  What a cut changes -/

/-- Chunk after chunk. -/
def processChunks (core : AggregationCore V D) (st : AggregateState V D)
    (chunks : List (List (DataValue V))) : Option (AggregateState V D) :=
  chunks.foldlM (process core) st

theorem processChunks_preserves {chunks : List (List (DataValue V))} (h : st.Served)
    (hpos : 0 < st.aggregation.interval) (hsorted : st.Sorted chunks.flatten)
    (hst' : processChunks core st chunks = some st') : SameKind st st' ∧ st'.Served := by
  induction chunks generalizing st with
  | nil =>
      cases hst'
      exact ⟨SameKind.refl, h⟩
  | cons chunk chunks ih =>
      obtain ⟨st₁, hchunk, hrest⟩ := Option.bind_eq_some_iff.mp hst'
      have hparts := List.pairwise_append.mp hsorted
      obtain ⟨hkind, hserved⟩ := process_preserves h hpos hparts.1 hchunk
      obtain ⟨hkind', hserved'⟩ := ih hserved (hkind.aggregation ▸ hpos)
        (hkind.sorted.mpr hparts.2.1) hrest
      exact ⟨hkind.trans hkind', hserved'⟩

theorem runningBucket_eq_none (hrun : st.runningBucket values = none) : values = [] := by
  rcases List.eq_nil_or_concat values with rfl | ⟨rest, v, rfl⟩
  · rfl
  · rw [List.concat_eq_append, runningBucket, List.foldl_append, List.foldl_cons,
      List.foldl_nil] at hrun
    unfold intoBucket at hrun
    split at hrun
    · split at hrun <;> cases hrun
    · cases hrun

/-- The first sample of the next chunk, when the open bucket takes it without
being at its very end, belongs to it. -/
theorem LastRound.bucketOf_eq {a b group : List (DataValue V)} {last : AggregateState V D}
    {u : DataValue V} (h : LastRound core st a interval group last)
    (hpos : 0 < st.aggregation.interval) (hsorted : st.Sorted (a ++ b))
    (hstart : st.StartsAfter (a ++ b)) (hu : u ∈ b) (hin : st.within interval u = true)
    (hend : st.forward = true → u.sourceTimestamp ≠ interval.second) :
    st.bucketOf u = interval := by
  obtain ⟨v, hv, rfl⟩ := h.bucket
  have hv₀ := hstart v (List.mem_append_left _ hv)
  have hu₀ := hstart u (List.mem_append_right _ hu)
  have hvu := (List.pairwise_append.mp hsorted).2.2 v hv u hu
  obtain ⟨hfirst, hsecond⟩ := getAggregateInterval_mem hpos hv₀
  unfold within at hin
  refine getAggregateInterval_unique hpos hv₀ hu₀ ?_ ?_
  · cases hdir : st.forward
    · have hle : (st.bucketOf v).first ≤ u.sourceTimestamp := by simpa [hdir] using hin
      exact hle
    · simp only [hdir, if_true] at hvu
      exact hfirst.trans hvu
  · cases hdir : st.forward
    · simp only [hdir, Bool.false_eq_true, if_false] at hvu
      exact lt_of_le_of_lt hvu hsecond
    · have hle : u.sourceTimestamp ≤ (st.bucketOf v).second := by simpa [hdir] using hin
      exact lt_of_le_of_ne hle (hend hdir)

theorem splitStable_iff {a b group : List (DataValue V)} {aggregator : Aggregator V D}
    (hrun : st.runningBucket a = some (interval, group))
    (haggregator : servingAggregator core st a group interval = some aggregator) :
    SplitStable core st a b ↔ Splits core aggregator group (b.takeWhile (st.within interval)) := by
  constructor
  · intro h
    exact h interval group aggregator hrun haggregator
  · intro h interval' group' aggregator' hrun' haggregator'
    rw [hrun] at hrun'
    cases hrun'
    rw [haggregator] at haggregator'
    cases haggregator'
    exact h

/-- The values after a round and a rest that goes on to other buckets. -/
theorem output_of_round {rest : List (DataValue V)} {aggregator : Aggregator V D}
    {r : Aggregator V D × DataValue V} (h : st.Served) (hpos : 0 < st.aggregation.interval)
    (hsorted : st.Sorted rest) (hleave : ∀ v ∈ rest.head?, interval ≠ st.bucketOf v)
    (haggregator : (st.enter core interval).aggregator = some aggregator)
    (hr : aggregator.call core values = some r) :
    (st.round core interval values).bind (fun st => output core st rest) =
      ((init core st.forward st.aggregation).output core rest).map
        fun later => (st.enter core interval).dataValues ++ emitted core r.2 ++ later := by
  cases hround : st.round core interval values with
  | none =>
      rw [round, haggregator, Option.bind_some, aggregate, hr] at hround
      cases hround
  | some st' =>
      have hkind := SameKind.round hround
      have hinterval := round_aggregatorInterval hround
      obtain ⟨aggregator', r', haggregator', hr', hst'⟩ := round_eq_some hround
      rw [haggregator] at haggregator'
      cases haggregator'
      rw [hr] at hr'
      cases hr'
      rw [Option.bind_some, output_of_leave (h.round hround) (hkind.aggregation ▸ hpos)
        (hkind.sorted.mpr hsorted), hkind.forward, hkind.aggregation, hst']
      intro v hv
      rw [hinterval, hkind.bucketOf]
      exact hleave v hv

/-- Where the samples of a chunk that the open bucket leaves go. -/
theorem bucketOf_ne_of_dropWhile {b : List (DataValue V)} (hpos : 0 < st.aggregation.interval)
    (hstart : st.StartsAfter b) :
    ∀ v ∈ (b.dropWhile (st.within interval)).head?, interval ≠ st.bucketOf v := by
  intro v hv
  obtain ⟨rest, hdrop⟩ := List.head?_eq_some_iff.mp hv
  have hmem : v ∈ b := (List.dropWhile_sublist (st.within interval)).mem (List.mem_of_mem_head? hv)
  exact bucketOf_ne_of_not_within (within_bucketOf hpos (hstart v hmem))
    (not_within_of_dropWhile hdrop)

namespace LastRound

variable {a b group : List (DataValue V)} {last : AggregateState V D}

theorem real (h : LastRound core st a interval group last) (hpos : 0 < st.aggregation.interval) :
    interval.first < interval.second := by
  obtain ⟨v, -, rfl⟩ := h.bucket
  exact bucketOf_real hpos v

theorem process_eq (h : LastRound core st a interval group last) (hsorted : st.Sorted a) :
    process core st a = last.round core interval group := by
  have happend := h.process_append [] (by rwa [List.append_nil])
  rw [List.append_nil, List.takeWhile_nil, List.dropWhile_nil, List.append_nil] at happend
  rw [happend]
  cases last.round core interval group <;> rfl

theorem output_append (h : LastRound core st a interval group last)
    (hsorted : st.Sorted (a ++ b)) :
    output core st (a ++ b) =
      (last.round core interval (group ++ b.takeWhile (st.within interval))).bind
        fun st' => output core st' (b.dropWhile (st.within interval)) := by
  unfold output
  rw [h.process_append b hsorted, Option.map_bind]
  rfl

/-- One chunk: the open bucket takes what it can of the second part. -/
theorem output_append_eq (h : LastRound core st a interval group last)
    (hpos : 0 < st.aggregation.interval) (hsorted : st.Sorted (a ++ b)) (hstart : st.StartsAfter b)
    {aggregator : Aggregator V D} {r : Aggregator V D × DataValue V}
    (haggregator : (last.enter core interval).aggregator = some aggregator)
    (hr : aggregator.call core (group ++ b.takeWhile (st.within interval)) = some r) :
    output core st (a ++ b) =
      ((init core st.forward st.aggregation).output core (b.dropWhile (st.within interval))).map
        fun later => (last.enter core interval).dataValues ++ emitted core r.2 ++ later := by
  have hsortedb : st.Sorted b := (List.pairwise_append.mp hsorted).2.1
  have hrest := hsortedb.dropWhile (st.within interval)
  rw [h.output_append hsorted, ← h.kind.forward, ← h.kind.aggregation]
  refine output_of_round h.served (h.kind.aggregation ▸ hpos) (h.kind.sorted.mpr hrest) ?_
    haggregator hr
  intro v hv
  rw [h.kind.bucketOf]
  exact bucketOf_ne_of_dropWhile hpos hstart v hv

/-- Two chunks, when the second one goes on with the open bucket. -/
theorem output_continued (h : LastRound core st a interval group last)
    (hpos : 0 < st.aggregation.interval) (hsorted : st.Sorted (a ++ b)) (hstart : st.StartsAfter b)
    {u : DataValue V} {rest : List (DataValue V)} (hb : b = u :: rest)
    (hin : st.within interval u = true) (hbucket : st.bucketOf u = interval)
    {aggregator : Aggregator V D} {r r' : Aggregator V D × DataValue V}
    (haggregator : (last.enter core interval).aggregator = some aggregator)
    (hr : aggregator.call core group = some r)
    (hr' : r.1.call core (b.takeWhile (st.within interval)) = some r') :
    (process core st a).bind (fun st => output core st b) =
      ((init core st.forward st.aggregation).output core (b.dropWhile (st.within interval))).map
        fun later => (last.enter core interval).dataValues ++ emitted core r'.2 ++ later := by
  have hsorteda : st.Sorted a := (List.pairwise_append.mp hsorted).1
  have hsortedb : st.Sorted b := (List.pairwise_append.mp hsorted).2.1
  have hround : last.round core interval group =
      some { last.enter core interval with aggregator := some r.1, aggregatedValue := r.2 } := by
    rw [round, haggregator, Option.bind_some, aggregate, hr]
    rfl
  rw [h.process_eq hsorteda, hround, Option.bind_some]
  -- From here on the state is the one after the round of the open bucket.
  have hserved := h.served.round hround
  have hinterval := round_aggregatorInterval hround
  have hkind := h.kind.trans (SameKind.round hround)
  generalize hst₁ : ({ last.enter core interval with
    aggregator := some r.1, aggregatedValue := r.2 } : AggregateState V D) = st₁ at *
  have hpos₁ : 0 < st₁.aggregation.interval := hkind.aggregation ▸ hpos
  have henter : st₁.enter core interval = st₁ := enter_of_eq hinterval
  have hone : output core st₁ b = (st₁.round core interval (b.takeWhile (st.within interval))).bind
      fun st' => output core st' (b.dropWhile (st.within interval)) := by
    have hsorted₁ := hkind.sorted.mpr hsortedb
    rw [hb] at hsorted₁ ⊢
    unfold output
    rw [process_cons hserved hpos₁ hsorted₁, hkind.bucketOf, hbucket, hkind.within, if_pos hin,
      Option.map_bind]
    rfl
  have hrest := hsortedb.dropWhile (st.within interval)
  have haggregator₁ : (st₁.enter core interval).aggregator = some r.1 := by
    rw [henter, ← hst₁]
  rw [hone, output_of_round hserved hpos₁ (hkind.sorted.mpr hrest) ?_ haggregator₁ hr', hkind.forward, hkind.aggregation, henter]
  · rw [← hst₁]
  · intro v hv
    rw [hkind.bucketOf]
    exact bucketOf_ne_of_dropWhile hpos hstart v hv

end LastRound

/-- What the buckets after the open one give. -/
theorem exists_later (core : AggregationCore V D) {b : List (DataValue V)} (h : st.Served)
    (hpos : 0 < st.aggregation.interval)
    (hsorted : st.Sorted b) (hstart : st.StartsAfter b) (interval : DateTimeRange) :
    ∃ later, (init core st.forward st.aggregation).output core
      (b.dropWhile (st.within interval)) = some later := by
  have hserved : (init core st.forward st.aggregation).Served := ⟨h.1, fun _ => rfl⟩
  obtain ⟨st', hst'⟩ := process_isSome core hserved hpos
    (hsorted.dropWhile (st.within interval))
    (fun v hv => hstart v ((List.dropWhile_sublist _).mem hv))
  exact ⟨_, by rw [output, hst', Option.map_some]⟩

/-- Without a sample before the start time, and unless a sample at the very end
of the open bucket follows, a cut changes the values exactly when it splits the
samples of the open bucket in a way its aggregator sees. -/
theorem sameOutput_iff_splitStable {a b : List (DataValue V)} (h : st.Served)
    (hpos : 0 < st.aggregation.interval) (hsorted : st.Sorted (a ++ b))
    (hstart : st.StartsAfter (a ++ b)) (hcut : ¬ BoundaryCut st a b) :
    SameOutput core st a b ↔ SplitStable core st a b := by
  have hsortedb : st.Sorted b := (List.pairwise_append.mp hsorted).2.1
  have hstartb : st.StartsAfter b := fun v hv => hstart v (List.mem_append_right _ hv)
  cases hrun : st.runningBucket a with
  | none =>
      obtain rfl := runningBucket_eq_none hrun
      obtain ⟨st', hst'⟩ := process_isSome core h hpos hsortedb hstartb
      refine iff_of_true ⟨(st'.finish core).dataValues, ?_, ?_⟩ ?_
      · rw [process_nil, Option.bind_some, output, hst']
        rfl
      · rw [List.nil_append, output, hst']
        rfl
      · intro interval group aggregator hrun'
        cases hrun'
  | some running =>
      obtain ⟨interval, group⟩ := running
      have hsorteda : st.Sorted a := (List.pairwise_append.mp hsorted).1
      obtain ⟨last, hlast⟩ := exists_lastRound core h hpos hsorteda
        (fun v hv => hstart v (List.mem_append_left _ hv)) hrun
      obtain ⟨aggregator, haggregator⟩ := hlast.served.enter core (hlast.real hpos)
      rw [splitStable_iff hrun (hlast.aggregator.symm.trans haggregator)]
      obtain ⟨r, hr⟩ := call_isSome core aggregator hlast.group_ne
      have hboth : group ++ b.takeWhile (st.within interval) ≠ [] :=
        List.append_ne_nil_of_left_ne_nil hlast.group_ne _
      obtain ⟨rone, hrone⟩ := call_isSome core aggregator hboth
      obtain ⟨later, hlater⟩ := exists_later core h hpos hsortedb hstartb interval
      have hone := hlast.output_append_eq hpos hsorted hstartb haggregator hrone
      rw [hlater, Option.map_some] at hone
      by_cases htake : b.takeWhile (st.within interval) = []
      · -- The second chunk starts with another bucket.
        have hsplits : Splits core aggregator group (b.takeWhile (st.within interval)) := by
          rw [htake]
          cases group <;> trivial
        have hdrop : b.dropWhile (st.within interval) = b := by
          have hb := List.takeWhile_append_dropWhile (p := st.within interval) (l := b)
          rwa [htake, List.nil_append] at hb
        refine iff_of_true ⟨_, ?_, hone⟩ hsplits
        rw [← hone, hlast.output_append hsorted, htake, List.append_nil, hdrop,
          hlast.process_eq hsorteda]
      · -- The second chunk starts in the open bucket.
        obtain ⟨u, rest, hb⟩ : ∃ u rest, b = u :: rest := by
          cases b with
          | nil => exact absurd rfl htake
          | cons u rest => exact ⟨u, rest, rfl⟩
        have hin : st.within interval u = true := by
          by_contra hout
          rw [hb, List.takeWhile_cons_of_neg hout] at htake
          exact htake rfl
        have hu : u ∈ b := hb ▸ List.mem_cons_self ..
        have hbucket := hlast.bucketOf_eq hpos hsorted hstart hu hin (by
          intro hforward hend
          exact hcut ⟨hforward, interval, group, u, hrun, by rw [hb]; rfl, hend⟩)
        obtain ⟨rtwo, hrtwo⟩ := call_isSome core r.1 htake
        have htwo := hlast.output_continued hpos hsorted hstartb hb hin hbucket haggregator hr
          hrtwo
        rw [hlater, Option.map_some] at htwo
        rw [← emittedTwice_iff hlast.group_ne htake, emittedTwice, hr, Option.bind_some,
          emittedOnce, emittedOnce, hrtwo, hrone, Option.map_some, Option.map_some, SameOutput,
          hone, htwo]
        constructor
        · rintro ⟨data, hdata, hdata'⟩
          rw [← hdata'] at hdata
          simpa using hdata
        · intro hemitted
          rw [Option.some_inj] at hemitted
          rw [hemitted]
          exact ⟨_, rfl, rfl⟩

/-! ### Counts -/

theorem Counts.process (h : st.Counts) (hserved : st.Served) (hpos : 0 < st.aggregation.interval)
    (hsorted : st.Sorted values) (hst' : process core st values = some st') : st'.Counts := by
  refine rounds_induction core
    (P := fun st values => st.Counts → AggregateState.process core st values = some st' →
      st'.Counts) ?_ ?_ hserved hpos hsorted h hst'
  · rintro st h ⟨⟩
    exact h
  · intro st v values hserved hpos hsorted ih h hst'
    rw [process_cons hserved hpos hsorted] at hst'
    split at hst'
    · rename_i hin
      obtain ⟨st₁, hround, hrest⟩ := Option.bind_eq_some_iff.mp hst'
      exact ih st₁ hin hround (SameKind.round hround) (h.round hround) hrest
    · cases hst'

theorem Counts.processChunks {chunks : List (List (DataValue V))} (h : st.Counts)
    (hserved : st.Served) (hpos : 0 < st.aggregation.interval) (hsorted : st.Sorted chunks.flatten)
    (hst' : processChunks core st chunks = some st') : st'.Counts := by
  induction chunks generalizing st with
  | nil =>
      cases hst'
      exact h
  | cons chunk chunks ih =>
      obtain ⟨st₁, hchunk, hrest⟩ := Option.bind_eq_some_iff.mp hst'
      have hparts := List.pairwise_append.mp hsorted
      obtain ⟨hkind, hserved₁⟩ := process_preserves hserved hpos hparts.1 hchunk
      exact ih (h.process hserved hpos hparts.1 hchunk) hserved₁ (hkind.aggregation ▸ hpos)
        (hkind.sorted.mpr hparts.2.1) hrest

/-- A count tells whether the sample at the end of the open bucket was taken:
such a cut always changes the values. -/
theorem not_sameOutput_of_boundaryCut {a b : List (DataValue V)} (h : st.Served)
    (hpos : 0 < st.aggregation.interval) (hsorted : st.Sorted (a ++ b))
    (hstart : st.StartsAfter (a ++ b)) (hcut : BoundaryCut st a b)
    (hcounts : st.Counts) :
    ¬ SameOutput core st a b := by
  obtain ⟨hforward, interval, group, u, hrun, hhead, hend⟩ := hcut
  have hsorteda : st.Sorted a := (List.pairwise_append.mp hsorted).1
  have hsortedb : st.Sorted b := (List.pairwise_append.mp hsorted).2.1
  have hstartb : st.StartsAfter b := fun v hv => hstart v (List.mem_append_right _ hv)
  obtain ⟨last, hlast⟩ := exists_lastRound core h hpos hsorteda
    (fun v hv => hstart v (List.mem_append_left _ hv)) hrun
  obtain ⟨aggregator, haggregator⟩ := hlast.served.enter core (hlast.real hpos)
  obtain ⟨count, hcount⟩ := ((hlast.counts hcounts).enter core interval).2 aggregator
    haggregator
  have hcall : ∀ values : List (DataValue V), aggregator.call core values =
      some (⟨aggregator.interval, .count (count + values.length)⟩,
        .atInterval (core.ofUInt64 (count + values.length)) 0 aggregator.interval) := by
    intro values
    simp only [Aggregator.call, hcount]
  obtain ⟨rest, rfl⟩ := List.head?_eq_some_iff.mp hhead
  have hu : st.aggregation.startTime ≤ u.sourceTimestamp := hstartb u (List.mem_cons_self ..)
  -- One chunk: `u` is counted in the open bucket.
  have hin : st.within interval u = true := by
    unfold within
    rw [if_pos hforward, hend]
    exact decide_eq_true le_rfl
  have hone := hlast.output_append_eq hpos hsorted hstartb haggregator (hcall _)
  -- Two chunks: `u` opens the next bucket.
  have hleave : interval ≠ st.bucketOf u := by
    intro heq
    have hlt : u.sourceTimestamp < (st.bucketOf u).second := (getAggregateInterval_mem hpos hu).2
    rw [← heq, hend] at hlt
    exact lt_irrefl _ hlt
  have hleave' : ∀ v ∈ (u :: rest).head?, interval ≠ last.bucketOf v := by
    rintro v ⟨⟩
    rw [hlast.kind.bucketOf]
    exact hleave
  have htwo := output_of_round hlast.served (hlast.kind.aggregation ▸ hpos)
    (hlast.kind.sorted.mpr hsortedb) hleave' haggregator (hcall group)
  rw [← hlast.process_eq hsorteda] at htwo
  rintro ⟨data, hdata, hdata'⟩
  rw [htwo] at hdata
  rw [hone] at hdata'
  obtain ⟨later, -, rfl⟩ := Option.map_eq_some_iff.mp hdata
  obtain ⟨later', -, heq⟩ := Option.map_eq_some_iff.mp hdata'
  rw [emitted_ofUInt64, emitted_ofUInt64, List.append_assoc, List.append_assoc,
    List.append_cancel_left_eq, List.takeWhile_cons_of_pos hin] at heq
  have hvalue := congrArg DataValue.value (List.cons.inj heq).1
  have hlength := core.ofUInt64_injective hvalue
  rw [List.length_append, List.length_cons] at hlength
  omega

/-! ## §5  Streams in chunks -/

/-- A count may be split anywhere. -/
theorem Counts.splitStable {a b : List (DataValue V)} (h : st.Counts) :
    SplitStable core st a b := by
  intro interval group aggregator hrun haggregator
  have hcount : ∃ count, aggregator.state = .count count := by
    unfold servingAggregator at haggregator
    split at haggregator
    · exact (h.enter core interval).2 aggregator haggregator
    · rw [h.1, Option.map_some] at haggregator
      cases haggregator
      exact ⟨0, rfl⟩
  obtain ⟨count, hcount⟩ := hcount
  unfold Splits
  split
  · simp only [hcount]
  · trivial

/-- Both ways end only when no sample lies before the start time. -/
theorem SameOutput.startsAfter {a b : List (DataValue V)} (h : st.Served)
    (hpos : 0 < st.aggregation.interval) (hsorted : st.Sorted (a ++ b))
    (hforward : st.forward = true → st.StartsAfter (a ++ b)) (hsame : SameOutput core st a b) :
    st.StartsAfter (a ++ b) := by
  cases hdir : st.forward
  · obtain ⟨data, -, hdata⟩ := hsame
    obtain ⟨st', hst', -⟩ := Option.map_eq_some_iff.mp hdata
    exact start_le_of_process h hpos hsorted hdir hst'
  · exact hforward hdir

/-- **What a cut changes.** In a sorted stream that is processed in chunks, the
next two chunks `a` and `b` give the same values as one, unless `b` starts with
a sample at the very end of the open bucket, exactly when no sample lies before
the start time and the open bucket may be split there. A count is the same if
and only if there is no such sample. -/
theorem sameOutput_iff (core : AggregationCore V D) (forward : Bool)
    (aggregation : AggregateFilter) (function : AggregateFunction)
    (chunks : List (List (DataValue V))) (a b : List (DataValue V)) (st : AggregateState V D)
    (htype : aggregation.aggregateType = some function) (hpos : 0 < aggregation.interval)
    (hsorted : (init core forward aggregation).Sorted (chunks.flatten ++ (a ++ b)))
    (hforward : forward = true →
      (init core forward aggregation).StartsAfter (a ++ b))
    (hst : processChunks core (init core forward aggregation) chunks = some st) :
    (¬ BoundaryCut st a b →
        (SameOutput core st a b ↔ st.StartsAfter (a ++ b) ∧ SplitStable core st a b)) ∧
      (function = .functionCount →
        (SameOutput core st a b ↔ st.StartsAfter (a ++ b) ∧ ¬ BoundaryCut st a b)) := by
  have hinit : (init core forward aggregation).Served :=
    ⟨by rw [init, htype, Option.isSome_some], fun _ => rfl⟩
  have hparts := List.pairwise_append.mp hsorted
  obtain ⟨hkind, hserved⟩ := processChunks_preserves hinit hpos hparts.1 hst
  have hpos' : 0 < st.aggregation.interval := hkind.aggregation ▸ hpos
  have hsorted' : st.Sorted (a ++ b) := hkind.sorted.mpr hparts.2.1
  have hforward' : st.forward = true → st.StartsAfter (a ++ b) := by
    intro hdir v hv
    rw [hkind.aggregation]
    exact hforward (hkind.forward.symm.trans hdir) v hv
  have hstarts := fun hsame : SameOutput core st a b =>
    hsame.startsAfter hserved hpos' hsorted' hforward'
  constructor
  · intro hcut
    constructor
    · intro hsame
      have hstart := hstarts hsame
      exact ⟨hstart, (sameOutput_iff_splitStable hserved hpos' hsorted' hstart hcut).mp hsame⟩
    · rintro ⟨hstart, hsplit⟩
      exact (sameOutput_iff_splitStable hserved hpos' hsorted' hstart hcut).mpr hsplit
  · rintro rfl
    have hcounts : st.Counts :=
      Counts.processChunks ⟨htype, by rintro _ ⟨⟩⟩ hinit hpos hparts.1 hst
    constructor
    · intro hsame
      have hstart := hstarts hsame
      refine ⟨hstart, ?_⟩
      intro hcut
      exact not_sameOutput_of_boundaryCut hserved hpos' hsorted' hstart hcut hcounts hsame
    · rintro ⟨hstart, hcut⟩
      exact (sameOutput_iff_splitStable hserved hpos' hsorted' hstart hcut).mpr hcounts.splitStable

/-- Whole numbers in place of doubles. -/
def wholeNumbers : AggregationCore (Option (ℤ ⊕ ℕ)) ℤ where
  zero := 0
  add := (· + ·)
  divCount total count := total / count
  less a b := a < b
  doubleMax := 2 ^ 62
  doubleMin := 0
  nullVariant := none
  get
    | some (.inl d) => some d
    | some (.inr n) => some n
    | none => none
  ofDouble d := some (.inl d)
  ofUInt64 n := some (.inr n)
  isNull v := v.value.isNone
  isNull_default := rfl
  isNull_ofDouble _ _ _ _ := rfl
  isNull_ofUInt64 _ _ _ _ := rfl
  ofDouble_injective _ _ h := Sum.inl.inj (Option.some.inj h)
  ofUInt64_injective _ _ h := Sum.inr.inj (Option.some.inj h)

/-- The value 1 at a time. -/
def sampleAt (time : DateTime) : DataValue (Option (ℤ ⊕ ℕ)) := ⟨some (.inl 1), 0, time, time⟩

/-- A count of samples in steps of 10 from 100 on. -/
def countsOfTen : AggregateState (Option (ℤ ⊕ ℕ)) ℤ :=
  init wholeNumbers true ⟨100, 10, some .functionCount⟩

theorem sameOutput_inside_bucket :
    SameOutput wholeNumbers countsOfTen [sampleAt 105] [sampleAt 107] := by
  have hstart : countsOfTen.StartsAfter ([sampleAt 105] ++ [sampleAt 107]) := by
    unfold StartsAfter
    decide
  have hiff := (sameOutput_iff wholeNumbers true ⟨100, 10, some .functionCount⟩ .functionCount []
    [sampleAt 105] [sampleAt 107] countsOfTen rfl (by decide) (by unfold AggregateState.Sorted; decide)
    (fun _ => hstart) rfl).2 rfl
  refine hiff.mpr ⟨hstart, ?_⟩
  rintro ⟨-, interval, group, v, hrun, hhead, hend⟩
  cases hrun
  cases hhead
  exact absurd hend (by decide)

/-- A sample at 110 is the second one of the bucket that starts at 100 when it
comes with a sample at 105, and the first one of the bucket that starts at 110
when it comes after it. -/
theorem boundary_sample_changes_bucket :
    countsOfTen.Sorted ([sampleAt 105] ++ [sampleAt 110]) ∧
      countsOfTen.StartsAfter ([sampleAt 105] ++ [sampleAt 110]) ∧
      output wholeNumbers countsOfTen ([sampleAt 105] ++ [sampleAt 110]) =
        some [⟨some (.inr 2), 0, 100, 110⟩] ∧
      (process wholeNumbers countsOfTen [sampleAt 105]).bind
          (fun st => output wholeNumbers st [sampleAt 110]) =
        some [⟨some (.inr 1), 0, 100, 110⟩, ⟨some (.inr 1), 0, 110, 120⟩] ∧
      ¬ SameOutput wholeNumbers countsOfTen [sampleAt 105] [sampleAt 110] := by
  have hone : output wholeNumbers countsOfTen ([sampleAt 105] ++ [sampleAt 110]) =
      some [⟨some (.inr 2), 0, 100, 110⟩] := rfl
  have htwo : (process wholeNumbers countsOfTen [sampleAt 105]).bind
      (fun st => output wholeNumbers st [sampleAt 110]) =
      some [⟨some (.inr 1), 0, 100, 110⟩, ⟨some (.inr 1), 0, 110, 120⟩] := rfl
  refine ⟨by unfold AggregateState.Sorted; decide, by unfold StartsAfter; decide, hone, htwo, ?_⟩
  rintro ⟨data, hdata, hdata'⟩
  rw [htwo] at hdata
  rw [hone] at hdata'
  cases hdata
  cases hdata'

end AggregateState

end ScadaCommon
