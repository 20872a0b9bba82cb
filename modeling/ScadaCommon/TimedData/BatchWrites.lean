import ScadaCommon.TimedData.BufferActions

/-!
# Writing batches

What a batch leaves in the buffer: which sample of each time, and that the samples
stay in order and have a time. A batch and its samples one by one need not leave
the same.

§1 the sample of a time · §2 batches without nulls and duplicates · §3 `ReplaceRange`
· §4 runs · §5 one by one.
-/

namespace ScadaCommon

open Foundation TimedDataBuffer

variable {V : Type} {I : IntervalUtil} {values updates batch : List (DataValue V)}
  {v w : DataValue V} {time : DateTime}

/-! ## §1  The sample of a time -/

/-- The first sample of a time. -/
def sampleAt (values : List (DataValue V)) (time : DateTime) : Option (DataValue V) :=
  values.find? (·.timestamp = time)

theorem timestamp_of_sampleAt (h : sampleAt values time = some v) : v.timestamp = time :=
  key_of_timeline h

theorem mem_of_sampleAt (h : sampleAt values time = some v) : v ∈ values :=
  List.mem_of_find?_eq_some h

theorem TimeSorted.sampleAt_eq_some (h : TimeSorted values) :
    sampleAt values time = some v ↔ v ∈ values ∧ v.timestamp = time :=
  Ascending.timeline_eq_some h

/-- A run is known by its samples. -/
theorem TimeSorted.ext (h : TimeSorted values) (h' : TimeSorted updates)
    (hsample : ∀ time, sampleAt values time = sampleAt updates time) : values = updates :=
  Ascending.ext h' h (funext hsample)

/-! ## §2  Batches without nulls and duplicates -/

/-- What `ReplaceRange` makes of a batch that it does not take as it is. -/
def cleaned (batch : List (DataValue V)) : List (DataValue V) :=
  uniqueByTime (sortByTime (batch.filter (·.timestamp ≠ .null)))

theorem timeSorted_cleaned (batch : List (DataValue V)) : TimeSorted (cleaned batch) := by
  have hpairwise := pairwise_sortByTime (batch.filter (·.timestamp ≠ .null))
  unfold cleaned
  cases hsort : sortByTime (batch.filter (·.timestamp ≠ .null)) with
  | nil => exact List.Pairwise.nil
  | cons v rest =>
      rw [hsort] at hpairwise
      exact timeSorted_uniqueAfter hpairwise

/-- Sorting keeps the order of the samples of a time. -/
theorem filter_sortByTime (values : List (DataValue V)) (time : DateTime) :
    (sortByTime values).filter (·.timestamp = time) = values.filter (·.timestamp = time) := by
  have htime : ∀ v ∈ values.filter (·.timestamp = time), v.timestamp = time :=
    fun v hv => of_decide_eq_true (List.mem_filter.mp hv).2
  have hpairwise : (values.filter (·.timestamp = time)).Pairwise
      fun v w => decide (v.timestamp ≤ w.timestamp) := by
    refine List.pairwise_of_forall_mem_list fun v hv w hw => ?_
    rw [htime v hv, htime w hw]
    exact decide_eq_true le_rfl
  have hsub : (values.filter (·.timestamp = time)).Sublist (sortByTime values) :=
    List.sublist_mergeSort
      (fun a b c hab hbc => decide_eq_true
        ((of_decide_eq_true hab).trans (of_decide_eq_true hbc)))
      (fun a b => by simpa using le_total a.timestamp b.timestamp) hpairwise List.filter_sublist
  have hfilter := hsub.filter (·.timestamp = time)
  rw [List.filter_filter] at hfilter
  simp only [Bool.and_self] at hfilter
  refine (hfilter.eq_of_length ?_).symm
  exact ((List.mergeSort_perm values _).filter _).length_eq.symm

theorem sampleAt_sortByTime (values : List (DataValue V)) (time : DateTime) :
    sampleAt (sortByTime values) time = sampleAt values time := by
  rw [sampleAt, sampleAt, ← List.head?_filter, filter_sortByTime, List.head?_filter]

theorem sampleAt_uniqueAfter (kept : DataValue V) (values : List (DataValue V)) (time : DateTime) :
    sampleAt (kept :: uniqueAfter kept values) time = sampleAt (kept :: values) time := by
  induction values generalizing kept with
  | nil => rfl
  | cons v values ih =>
      rw [uniqueAfter]
      by_cases hkept : kept.timestamp = time
      · simp [sampleAt, hkept]
      · have hskip : ∀ values, sampleAt (kept :: values) time = sampleAt values time :=
          fun values => List.find?_cons_of_neg (by simpa using hkept)
        split
        · rename_i hsame
          have hv : ¬ v.timestamp = time := hsame ▸ hkept
          rw [ih kept, hskip, hskip]
          exact (List.find?_cons_of_neg (by simpa using hv)).symm
        · rw [hskip, hskip, ih v]

/-- **The first sample of each time stays**, and none without a time. -/
theorem sampleAt_cleaned (batch : List (DataValue V)) (time : DateTime) :
    sampleAt (cleaned batch) time = if time = .null then none else sampleAt batch time := by
  have hunique : ∀ values : List (DataValue V),
      sampleAt (uniqueByTime values) time = sampleAt values time := by
    intro values
    cases values with
    | nil => rfl
    | cons v values => exact sampleAt_uniqueAfter v values time
  rw [cleaned, hunique, sampleAt_sortByTime, sampleAt, List.find?_filter]
  split
  · rename_i hnull
    refine List.find?_eq_none.mpr fun v _ => ?_
    simp [hnull]
  · rename_i hnull
    rw [sampleAt]
    congr 1
    funext v
    by_cases hv : v.timestamp = time
    · simp [hv, hnull]
    · simp [hv]

/-- Each sample has a time. -/
abbrev Timed (values : List (DataValue V)) : Prop :=
  ∀ v ∈ values, v.timestamp ≠ .null

theorem timed_cleaned (batch : List (DataValue V)) : Timed (cleaned batch) := by
  intro v hv hnull
  have hsample : sampleAt (cleaned batch) .null = some v :=
    (timeSorted_cleaned batch).sampleAt_eq_some.mpr ⟨hv, hnull⟩
  rw [sampleAt_cleaned, if_pos rfl] at hsample
  cases hsample

/-- What is clean stays as it is. -/
theorem cleaned_of_sorted (h : TimeSorted batch) (htimed : Timed batch) : cleaned batch = batch := by
  refine (timeSorted_cleaned batch).ext h fun time => ?_
  rw [sampleAt_cleaned]
  split
  · rename_i hnull
    exact (List.find?_eq_none.mpr fun v hv => by simpa [hnull] using htimed v hv).symm
  · rfl

/-- A batch that is in order has no sample before one without a time. -/
def CleansUp (batch : List (DataValue V)) : Prop :=
  TimeSorted batch → ∀ v ∈ batch, ∀ w ∈ batch, w.timestamp = .null → w.timestamp ≤ v.timestamp

instance (batch : List (DataValue V)) : Decidable (CleansUp batch) :=
  inferInstanceAs (Decidable (_ → _))

/-- The sanitized batch is the cleaned one, unless it is in order and has a null
behind its first sample. -/
theorem sanitize_eq_cleaned (h : CleansUp batch) : sanitize batch = cleaned batch := by
  unfold sanitize
  dsimp only
  split
  · rfl
  · rename_i hasIs
    rw [Bool.or_eq_true, not_or] at hasIs
    obtain ⟨hhead, hsorted⟩ := hasIs
    have hsorted : TimeSorted batch := isTimeSorted_iff.mp (by simpa using hsorted)
    refine (cleaned_of_sorted hsorted fun w hw hnull => ?_).symm
    cases batch with
    | nil => cases hw
    | cons v rest =>
        have hle := h hsorted v List.mem_cons_self w hw hnull
        rcases List.mem_cons.mp hw with rfl | hw
        · exact hhead (by simpa using hnull)
        · exact absurd ((List.pairwise_cons.mp hsorted).1 w hw) hle.not_gt

/-- Otherwise the null comes along. -/
theorem not_timed_sanitize (h : ¬ CleansUp batch) : ¬ Timed (sanitize batch) := by
  rw [CleansUp] at h
  push Not at h
  obtain ⟨hsorted, v, hv, w, hw, hnull, hlt⟩ := h
  have hhead : batch.head?.any (·.timestamp = .null) = false := by
    cases batch with
    | nil => rfl
    | cons u rest =>
        have hle : u.timestamp ≤ v.timestamp := by
          rcases List.mem_cons.mp hv with rfl | hv
          · exact le_rfl
          · exact ((List.pairwise_cons.mp hsorted).1 v hv).le
        rw [hnull] at hlt
        simpa using (hle.trans_lt hlt).ne
  have hasIs : sanitize batch = batch := by
    unfold sanitize
    dsimp only
    rw [hhead, isTimeSorted_iff.mpr hsorted]
    rfl
  rw [hasIs]
  exact fun htimed => htimed w hw hnull

/-! ## §3  `ReplaceRange` -/

/-- No eviction. -/
def RetentionPolicy.off : RetentionPolicy := { observedWindow := false }

/-- The samples outside the range of a batch, and the batch. -/
def placed (values updates : List (DataValue V)) : List (DataValue V) :=
  match updates.head?, updates.getLast? with
  | some front, some back => withBatch values updates front.timestamp back.timestamp
  | _, _ => values

theorem placed_nil (values : List (DataValue V)) : placed values [] = values := rfl

theorem mem_placed (h : v ∈ placed values updates) : v ∈ values ∨ v ∈ updates := by
  unfold placed at h
  split at h
  · rcases List.mem_append.mp h with h | h
    · exact (List.mem_append.mp h).imp_left List.mem_of_mem_filter
    · exact .inl (List.mem_of_mem_filter h)
  · exact .inl h

theorem subset_placed (values updates : List (DataValue V)) : updates ⊆ placed values updates := by
  intro v hv
  unfold placed
  split
  · exact List.mem_append_left _ (List.mem_append_right _ hv)
  · rename_i hnone
    have hne : updates ≠ [] := List.ne_nil_of_mem hv
    obtain ⟨front, hfront⟩ := Option.isSome_iff_exists.mp (List.isSome_head?.mpr hne)
    obtain ⟨back, hback⟩ := Option.isSome_iff_exists.mp (List.getLast?_isSome.mpr hne)
    exact absurd hback (hnone front back hfront)

theorem timeSorted_placed (h : TimeSorted values) (hupdates : TimeSorted updates) :
    TimeSorted (placed values updates) := by
  unfold placed
  split
  · rename_i front back hfront hback
    exact h.withBatch hupdates hfront hback
  · exact h

variable {buffer buffer' : TimedDataBuffer V}

/-- On either path the batch is put into its place; then the buffer is trimmed. -/
theorem replaceRange_placed (h : TimeSorted buffer.values) (hne : sanitize batch ≠ []) :
    buffer.replaceRange batch =
      trimToObservedRanges { buffer with values := placed buffer.values (sanitize batch) } := by
  obtain ⟨front, hfront⟩ := Option.isSome_iff_exists.mp (List.isSome_head?.mpr hne)
  obtain ⟨back, hback⟩ := Option.isSome_iff_exists.mp (List.getLast?_isSome.mpr hne)
  rw [replaceRange_eq h (timeSorted_sanitize batch) hfront hback]
  simp only [placed, hfront, hback]

theorem trimToObservedRanges_off (h : buffer.retention = .off) :
    buffer.trimToObservedRanges = some buffer := by
  unfold trimToObservedRanges dropOldest
  rw [h]
  split <;> rfl

theorem replaceRange_off (h : TimeSorted buffer.values) (hoff : buffer.retention = .off) :
    buffer.replaceRange batch =
      some { buffer with values := placed buffer.values (sanitize batch) } := by
  by_cases hempty : sanitize batch = []
  · rw [replaceRange_nil hempty, hempty, placed_nil]
  · rw [replaceRange_placed h hempty]
    exact trimToObservedRanges_off hoff

/-- The batch without nulls and duplicates takes the place of what was in its
range. -/
def Replaces (buffer : TimedDataBuffer V) (batch : List (DataValue V)) : Prop :=
  ∃ buffer', buffer.replaceRange batch = some buffer' ∧
    buffer'.values = placed buffer.values (cleaned batch) ∧
      TimeSorted buffer'.values ∧ Timed buffer'.values

theorem replaces_iff (h : TimeSorted buffer.values) (htimed : Timed buffer.values)
    (hoff : buffer.retention = .off) : Replaces buffer batch ↔ CleansUp batch := by
  unfold Replaces
  rw [replaceRange_off h hoff]
  constructor
  · rintro ⟨buffer', hreplaced, -, -, hnull⟩
    cases hreplaced
    by_contra hcleans
    exact not_timed_sanitize hcleans fun v hv => hnull v (subset_placed _ _ hv)
  · intro hcleans
    refine ⟨_, rfl, ?_, timeSorted_placed h (timeSorted_sanitize batch), fun v hv => ?_⟩
    · rw [sanitize_eq_cleaned hcleans]
    · rw [sanitize_eq_cleaned hcleans] at hv
      exact (mem_placed hv).elim (htimed v) (timed_cleaned batch v)

/-! ## §4  Runs -/

/-- The calls that write samples, with arguments that they accept and batches that
are cleaned up. -/
def Writes (_ : TimedDataBuffer V) : BufferAction V → Prop
  | .insertOrUpdate _ => True
  | .replaceRange batch => CleansUp batch
  | .clearRange range => range.first ≠ .null ∧ (range.second = .null ∨ range.first ≤ range.second)
  | _ => False

instance (buffer : TimedDataBuffer V) (a : BufferAction V) : Decidable (Writes buffer a) := by
  unfold Writes
  split <;> infer_instance

theorem timed_insertOrUpdate (h : TimeSorted buffer.values) (htimed : Timed buffer.values)
    (value : DataValue V) : Timed (buffer.insertOrUpdate value).1.values := by
  rcases insertOrUpdate_spec h value with ⟨heq, -⟩ | ⟨hnull, heq⟩
  · rw [heq]
    exact htimed
  · rw [heq]
    intro v hv
    have hplaced : v ∈ placed buffer.values [value] := hv
    rcases mem_placed hplaced with hv | hv
    · exact htimed v hv
    · rw [List.mem_singleton.mp hv]
      exact hnull

theorem timed_step {a : BufferAction V} (h : TimeSorted buffer.values)
    (htimed : Timed buffer.values) (ha : Writes buffer a) (hstep : buffer.step I a = some buffer') :
    Timed buffer'.values := by
  cases a with
  | insertOrUpdate value =>
      cases hstep
      exact timed_insertOrUpdate h htimed value
  | replaceRange batch =>
      have hcleans : CleansUp batch := ha
      have hstep : buffer.replaceRange batch = some buffer' := hstep
      by_cases hempty : sanitize batch = []
      · rw [replaceRange_nil hempty] at hstep
        cases hstep
        exact htimed
      · rw [replaceRange_placed h hempty, sanitize_eq_cleaned hcleans] at hstep
        intro v hv
        have hplaced := (trimmed_trimToObservedRanges _ hstep).sublist.subset hv
        exact (mem_placed hplaced).elim (htimed v) (timed_cleaned batch v)
  | clearRange range =>
      exact fun v hv => htimed v ((trimmed_clearRange h hstep).sublist.subset hv)
  | addReadyRange range => exact ha.elim
  | addObserver observer range => exact ha.elim
  | removeObserver observer => exact ha.elim
  | setRetention retention => exact ha.elim

/-- Only the backstop reads past the end, if it has to drop all samples. -/
theorem maxSamples_of_trimToObservedRanges (h : buffer.trimToObservedRanges = none) :
    buffer.retention.maxSamples = some 0 := by
  have hdrop : ∀ buffer : TimedDataBuffer V, buffer.dropOldest = none →
      buffer.retention.maxSamples = some 0 := by
    intro buffer h
    unfold dropOldest at h
    split at h
    · cases h
    · rename_i maxSamples hmax
      split at h
      · rename_i hlt
        dsimp only at h
        split at h
        · rename_i hnone
          have hlength := List.getElem?_eq_none_iff.mp hnone
          have hzero : maxSamples = 0 := by omega
          rw [hmax, hzero]
        · cases h
      · cases h
  unfold trimToObservedRanges at h
  split at h
  · cases h
  · split at h
    · split at h
      · have hmax := hdrop _ h
        exact hmax
      · cases h
    · exact hdrop _ h

theorem maxSamples_of_step {a : BufferAction V} (h : TimeSorted buffer.values)
    (ha : Writes buffer a) (hstep : buffer.step I a = none) :
    buffer.retention.maxSamples = some 0 := by
  cases a with
  | insertOrUpdate value => cases hstep
  | replaceRange batch =>
      have hstep : buffer.replaceRange batch = none := hstep
      by_cases hempty : sanitize batch = []
      · rw [replaceRange_nil hempty] at hstep
        cases hstep
      · rw [replaceRange_placed h hempty] at hstep
        have hmax := maxSamples_of_trimToObservedRanges hstep
        exact hmax
  | clearRange range =>
      have hstep : buffer.clearRange range = none := hstep
      unfold TimedDataBuffer.clearRange at hstep
      rw [check_of ha.1, check_of ha.2] at hstep
      dsimp only [Option.bind_eq_bind, Option.bind_some] at hstep
      split at hstep <;> cases hstep
  | addReadyRange range => exact ha.elim
  | addObserver observer range => exact ha.elim
  | removeObserver observer => exact ha.elim
  | setRetention retention => exact ha.elim

/-- **A batch replaces what is in its range just when it is cleaned up**, and as long
as the batches are, the samples stay in order and have a time, and no check fails. -/
theorem replaceRange_exact (I : IntervalUtil) (start : TimedDataBuffer V)
    (hsorted : TimeSorted start.values) (htimed : Timed start.values) :
    (start.retention = .off → ∀ batch, Replaces start batch ↔ CleansUp batch) ∧
      ∀ buffer, (bufferMachine I).ReachesFrom Writes start buffer →
        TimeSorted buffer.values ∧ Timed buffer.values ∧
          ∀ a, Writes buffer a → buffer.step I a = none →
            buffer.retention.maxSamples = some 0 := by
  refine ⟨fun hoff batch => replaces_iff hsorted htimed hoff, fun buffer hreaches => ?_⟩
  have hinv : TimeSorted buffer.values ∧ Timed buffer.values := by
    refine hreaches.invariant (I := fun buffer => TimeSorted buffer.values ∧ Timed buffer.values)
      ⟨hsorted, htimed⟩ ?_
    rintro buffer a buffer' ⟨hsorted, htimed⟩ - ha hstep
    exact ⟨timeSorted_step hsorted hstep, timed_step hsorted htimed ha hstep⟩
  exact ⟨hinv.1, hinv.2, fun a ha hstep => maxSamples_of_step hinv.1 ha hstep⟩

/-- A sample at a time. -/
def pointAt (time serverTime : DateTime) : DataValue ℕ := ⟨0, 0, time, serverTime⟩

theorem replaceRange_exact_two_samples :
    (({ retention := .off, values := [pointAt 10 10, pointAt 20 20] } :
        TimedDataBuffer ℕ).retention = .off →
      ∀ batch, Replaces { retention := .off, values := [pointAt 10 10, pointAt 20 20] } batch ↔
        CleansUp batch) ∧
      ∀ buffer, (bufferMachine apartIntervals).ReachesFrom Writes
          { retention := .off, values := [pointAt 10 10, pointAt 20 20] } buffer →
        TimeSorted buffer.values ∧ Timed buffer.values ∧
          ∀ a, Writes buffer a → buffer.step apartIntervals a = none →
            buffer.retention.maxSamples = some 0 :=
  replaceRange_exact apartIntervals
    { retention := .off, values := [pointAt 10 10, pointAt 20 20] } (by decide) (by decide)

/-- A null behind an earlier time is stored. -/
theorem null_is_stored : ¬ Replaces { retention := .off } [pointAt (-5) 1, pointAt 0 1, pointAt 7 1] := by
  rintro ⟨buffer', hreplaced, -, -, htimed⟩
  have hrun : (({ retention := .off } : TimedDataBuffer ℕ).replaceRange
      [pointAt (-5) 1, pointAt 0 1, pointAt 7 1]).map TimedDataBuffer.values =
        some [pointAt (-5) 1, pointAt 0 1, pointAt 7 1] := by
    decide +kernel
  rw [hreplaced, Option.map_some, Option.some_inj] at hrun
  rw [hrun] at htimed
  exact htimed (pointAt 0 1) (by decide) rfl

/-! ## §5  One by one -/

/-- `InsertOrUpdate` of each sample. -/
def insertAll (buffer : TimedDataBuffer V) (values : List (DataValue V)) : TimedDataBuffer V :=
  values.foldl (fun buffer value => (buffer.insertOrUpdate value).1) buffer

/-- None of its time sorts later, and those behind it sort earlier. -/
def SortsLatest (values : List (DataValue V)) (v : DataValue V) : Prop :=
  ∃ before after, values = before ++ v :: after ∧
    (∀ w ∈ before, w.timestamp = v.timestamp → v.isLesser w = false) ∧
      ∀ w ∈ after, w.timestamp = v.timestamp → w.isLesser v = true

theorem insertAll_append (buffer : TimedDataBuffer V) (values : List (DataValue V))
    (value : DataValue V) :
    insertAll buffer (values ++ [value]) = ((insertAll buffer values).insertOrUpdate value).1 := by
  rw [insertAll, List.foldl_append]
  rfl

theorem insertAll_sorted (values : List (DataValue V)) :
    TimeSorted (insertAll ({ retention := .off } : TimedDataBuffer V) values).values := by
  induction values using List.reverseRecOn with
  | nil => exact List.Pairwise.nil
  | append_singleton values value ih =>
      rw [insertAll_append]
      exact timeSorted_insertOrUpdate ih value

theorem isLesser_iff (h : v.timestamp = w.timestamp) :
    v.isLesser w = true ↔ v.serverTimestamp < w.serverTimestamp := by
  have htime : v.sourceTimestamp = w.sourceTimestamp := h
  simp [DataValue.isLesser, htime]

theorem isLesser_eq_false_iff (h : v.timestamp = w.timestamp) :
    v.isLesser w = false ↔ w.serverTimestamp ≤ v.serverTimestamp := by
  rw [← Bool.not_eq_true, isLesser_iff h, not_lt]

theorem SortsLatest.mem (h : SortsLatest values v) : v ∈ values := by
  obtain ⟨before, after, rfl, -⟩ := h
  exact List.mem_append_right _ List.mem_cons_self

theorem SortsLatest.le (h : SortsLatest values v) (hw : w ∈ values)
    (htime : w.timestamp = v.timestamp) : w.serverTimestamp ≤ v.serverTimestamp := by
  obtain ⟨before, after, rfl, hbefore, hafter⟩ := h
  rcases List.mem_append.mp hw with hw | hw
  · exact (isLesser_eq_false_iff htime.symm).mp (hbefore w hw htime)
  · rcases List.mem_cons.mp hw with rfl | hw
    · exact le_rfl
    · exact ((isLesser_iff htime).mp (hafter w hw htime)).le

/-- Of the samples of one time one sorts latest. -/
theorem SortsLatest.unique (h : SortsLatest values v) (h' : SortsLatest values w)
    (htime : v.timestamp = w.timestamp) : v = w := by
  obtain ⟨before, after, hsplit, hbefore, hafter⟩ := h
  obtain ⟨before', after', hsplit', hbefore', hafter'⟩ := h'
  rw [hsplit] at hsplit'
  rcases List.append_eq_append_iff.mp hsplit' with ⟨middle, rfl, hrest⟩ | ⟨middle, rfl, hrest⟩
  · cases middle with
    | nil => exact (List.cons.inj hrest).1
    | cons u middle =>
        -- The second one stands behind the first.
        obtain ⟨rfl, rfl⟩ := List.cons.inj hrest
        have hlesser := hafter w (List.mem_append_right _ List.mem_cons_self) htime.symm
        have hnot := hbefore' v (List.mem_append_right _ List.mem_cons_self) htime
        rw [hlesser] at hnot
        cases hnot
  · cases middle with
    | nil => exact (List.cons.inj hrest).1.symm
    | cons u middle =>
        obtain ⟨rfl, rfl⟩ := List.cons.inj hrest
        have hlesser := hafter' v (List.mem_append_right _ List.mem_cons_self) htime
        have hnot := hbefore w (List.mem_append_right _ List.mem_cons_self) htime.symm
        rw [hlesser] at hnot
        cases hnot

/-- One more sample that sorts earlier changes nothing. -/
theorem SortsLatest.append (h : SortsLatest values v) {value : DataValue V}
    (hvalue : value.timestamp = v.timestamp → value.isLesser v = true) :
    SortsLatest (values ++ [value]) v := by
  obtain ⟨before, after, rfl, hbefore, hafter⟩ := h
  refine ⟨before, after ++ [value], by simp, hbefore, fun w hw htime => ?_⟩
  rcases List.mem_append.mp hw with hw | hw
  · exact hafter w hw htime
  · rw [List.mem_singleton.mp hw] at htime ⊢
    exact hvalue htime

theorem sortsLatest_last {value : DataValue V}
    (h : ∀ w ∈ values, w.timestamp = value.timestamp → value.isLesser w = false) :
    SortsLatest (values ++ [value]) value :=
  ⟨values, [], rfl, h, nofun⟩

/-- A sample that sorts earlier than the one of its time is not applied. -/
theorem insertOrUpdate_of_isLesser {value : DataValue V} (h : TimeSorted buffer.values)
    (hv : v ∈ buffer.values) (htime : v.timestamp = value.timestamp)
    (hlesser : value.isLesser v = true) : (buffer.insertOrUpdate value).1 = buffer := by
  unfold insertOrUpdate
  split
  · rfl
  · split
    · rename_i htail
      exact absurd (lt_of_getLast? h htail v hv) htime.not_lt
    · dsimp only
      have hat := (isAt_lowerBound h).mpr ⟨v, hv, htime⟩
      obtain ⟨u, hu, hutime⟩ := (Option.any_eq_true _ _).mp hat
      have hutime : u.timestamp = value.timestamp := eq_of_beq hutime
      obtain rfl := h.eq_of_timestamp hv (List.mem_of_getElem? hu) (htime.trans hutime.symm)
      rw [hu]
      dsimp only
      rw [if_pos htime, if_pos hlesser]

theorem sampleAt_insertOrUpdate {value : DataValue V} (h : TimeSorted buffer.values)
    (hnull : value.timestamp ≠ .null)
    (hlatest : ∀ v ∈ buffer.values, v.timestamp = value.timestamp → value.isLesser v = false) :
    sampleAt (buffer.insertOrUpdate value).1.values time =
      if time = value.timestamp then some value else sampleAt buffer.values time := by
  rcases insertOrUpdate_spec h value with ⟨-, hnull' | ⟨v, hv, htime, hlesser⟩⟩ | ⟨-, heq⟩
  · exact absurd hnull' hnull
  · rw [hlatest v hv htime] at hlesser
    cases hlesser
  · have hsorted := timeSorted_insertOrUpdate h value
    rw [heq] at hsorted ⊢
    split
    · rename_i htime
      refine hsorted.sampleAt_eq_some.mpr ⟨?_, htime.symm⟩
      exact List.mem_append_left _ (List.mem_append_right _ List.mem_cons_self)
    · rename_i htime
      refine Option.ext fun v => ?_
      rw [hsorted.sampleAt_eq_some, h.sampleAt_eq_some]
      refine and_congr_left fun hv => ?_
      have hvalue : v ≠ value := by
        rintro rfl
        exact htime hv.symm
      simp only [withBatch, List.mem_append, List.mem_filter, decide_eq_true_eq,
        List.mem_singleton, hvalue, or_false, ← and_or_left, and_iff_left_iff_imp, hv]
      exact fun _ => lt_or_gt_of_ne htime

/-- **Of the samples of each time the one that sorts latest stays.** -/
theorem sampleAt_insertAll (htimed : Timed values) (time : DateTime) :
    match sampleAt (insertAll ({ retention := .off } : TimedDataBuffer V) values).values time with
    | none => ∀ w ∈ values, w.timestamp ≠ time
    | some v => SortsLatest values v := by
  induction values using List.reverseRecOn with
  | nil => nofun
  | append_singleton values value ih =>
      have hih := ih fun v hv => htimed v (List.mem_append_left _ hv)
      have hnull := htimed value (List.mem_append_right _ List.mem_cons_self)
      have hsorted := insertAll_sorted values
      rw [insertAll_append]
      generalize insertAll ({ retention := .off } : TimedDataBuffer V) values = buffer
        at hih hsorted ⊢
      by_cases htime : value.timestamp = time
      · cases hsample : sampleAt buffer.values time with
        | none =>
            rw [hsample] at hih
            have hfresh : ∀ v ∈ buffer.values, v.timestamp = value.timestamp →
                value.isLesser v = false := by
              intro v hv hsame
              have hsome := hsorted.sampleAt_eq_some.mpr ⟨hv, hsame.trans htime⟩
              rw [hsample] at hsome
              cases hsome
            rw [sampleAt_insertOrUpdate hsorted hnull hfresh, if_pos htime.symm]
            exact sortsLatest_last fun w hw hsame => absurd (hsame.trans htime) (hih w hw)
        | some v =>
            rw [hsample] at hih
            obtain ⟨hv, hvtime⟩ := hsorted.sampleAt_eq_some.mp hsample
            have hsame : v.timestamp = value.timestamp := hvtime.trans htime.symm
            by_cases hlesser : value.isLesser v = true
            · rw [insertOrUpdate_of_isLesser hsorted hv hsame hlesser, hsample]
              exact hih.append fun _ => hlesser
            · have hle := (isLesser_eq_false_iff hsame.symm).mp (by simpa using hlesser)
              have hfresh : ∀ u ∈ buffer.values, u.timestamp = value.timestamp →
                  value.isLesser u = false := by
                intro u hu hutime
                rw [hsorted.eq_of_timestamp hu hv (hutime.trans hsame.symm)]
                simpa using hlesser
              rw [sampleAt_insertOrUpdate hsorted hnull hfresh, if_pos htime.symm]
              refine sortsLatest_last fun w hw hwtime => ?_
              rw [isLesser_eq_false_iff hwtime.symm]
              exact (hih.le hw (hwtime.trans hsame.symm)).trans hle
      · have hother : sampleAt (buffer.insertOrUpdate value).1.values time =
            sampleAt buffer.values time := by
          by_cases hlesser : ∃ v ∈ buffer.values, v.timestamp = value.timestamp ∧
              value.isLesser v = true
          · obtain ⟨v, hv, hsame, hlesser⟩ := hlesser
            rw [insertOrUpdate_of_isLesser hsorted hv hsame hlesser]
          · push Not at hlesser
            rw [sampleAt_insertOrUpdate hsorted hnull (by simpa using hlesser),
              if_neg (Ne.symm htime)]
        rw [hother]
        cases hsample : sampleAt buffer.values time with
        | none =>
            rw [hsample] at hih
            intro w hw
            rcases List.mem_append.mp hw with hw | hw
            · exact hih w hw
            · rwa [List.mem_singleton.mp hw]
        | some v =>
            rw [hsample] at hih
            refine hih.append fun hsame => absurd ?_ htime
            exact hsame.trans (timestamp_of_sampleAt hsample)

/-- A whole list and its samples one by one leave the same in an empty buffer, of
each time the sample that sorts latest. -/
def WritesAlike (values : List (DataValue V)) : Prop :=
  ∃ buffer : TimedDataBuffer V,
    ({ retention := .off } : TimedDataBuffer V).replaceRange values = some buffer ∧
      (insertAll { retention := .off } values).values = buffer.values ∧
        ∀ v ∈ buffer.values, SortsLatest values v

/-- **Both ways of writing agree** just when the first sample of each time is the one
that sorts latest. -/
theorem writesAlike_iff (values : List (DataValue V)) (htimed : Timed values) :
    WritesAlike values ↔ ∀ v, sampleAt values v.timestamp = some v → SortsLatest values v := by
  have hempty : TimeSorted ({ retention := .off } : TimedDataBuffer V).values :=
    List.Pairwise.nil
  have hcleans : CleansUp values := fun _ _ _ w hw hnull => absurd hnull (htimed w hw)
  have hplaced : placed [] (cleaned values) = cleaned values := by
    unfold placed
    split
    · rename_i front back hfront hback
      simp [withBatch]
    · rename_i hnone
      by_contra hne
      obtain ⟨front, hfront⟩ := Option.isSome_iff_exists.mp (List.isSome_head?.mpr (Ne.symm hne))
      obtain ⟨back, hback⟩ := Option.isSome_iff_exists.mp (List.getLast?_isSome.mpr (Ne.symm hne))
      exact hnone front back hfront hback
  have hcleaned : ∀ time, sampleAt (cleaned values) time = sampleAt values time := by
    intro time
    rw [sampleAt_cleaned]
    split
    · rename_i hnull
      exact (List.find?_eq_none.mpr fun v hv => by simpa [hnull] using htimed v hv).symm
    · rfl
  unfold WritesAlike
  rw [replaceRange_off hempty rfl, sanitize_eq_cleaned hcleans, hplaced]
  constructor
  · rintro ⟨buffer, hreplaced, -, hlatest⟩ v hfirst
    cases hreplaced
    rw [← hcleaned] at hfirst
    exact hlatest v (mem_of_sampleAt hfirst)
  · intro hfirst
    refine ⟨_, rfl, (insertAll_sorted values).ext (timeSorted_cleaned values) fun time => ?_,
      fun v hv => hfirst v ?_⟩
    · have hkept := sampleAt_insertAll htimed time
      rw [hcleaned]
      cases hsample : sampleAt (insertAll ({ retention := .off } : TimedDataBuffer V)
          values).values time with
      | none =>
          rw [hsample] at hkept
          exact (List.find?_eq_none.mpr fun w hw => by simpa using hkept w hw).symm
      | some v =>
          rw [hsample] at hkept
          have hvtime := timestamp_of_sampleAt hsample
          cases hvalues : sampleAt values time with
          | none =>
              have hnone := List.find?_eq_none.mp hvalues v hkept.mem
              exact absurd (decide_eq_true hvtime) hnone
          | some w =>
              have hwtime := timestamp_of_sampleAt hvalues
              have hw := hfirst w (hwtime ▸ hvalues)
              rw [hkept.unique hw (hvtime.trans hwtime.symm)]
    · rw [← hcleaned]
      exact (timeSorted_cleaned values).sampleAt_eq_some.mpr ⟨hv, rfl⟩

theorem writesAlike_iff_out_of_order :
    WritesAlike [pointAt 10 2, pointAt 5 1, pointAt 10 1] ↔
      ∀ v, sampleAt [pointAt 10 2, pointAt 5 1, pointAt 10 1] v.timestamp = some v →
        SortsLatest [pointAt 10 2, pointAt 5 1, pointAt 10 1] v :=
  writesAlike_iff [pointAt 10 2, pointAt 5 1, pointAt 10 1] (by decide)

/-- A correction that comes in one batch with what it corrects is lost. -/
theorem correction_is_lost : ¬ WritesAlike [pointAt 10 1, pointAt 10 2] := by
  rintro ⟨buffer, hreplaced, hsame, -⟩
  have hsort : sortByTime [pointAt 10 1, pointAt 10 2] = [pointAt 10 1, pointAt 10 2] :=
    List.mergeSort_of_pairwise (by decide)
  have hclean : sanitize [pointAt 10 1, pointAt 10 2] = [pointAt 10 1] := by
    have hunsorted : isTimeSorted [pointAt 10 1, pointAt 10 2] = false := by decide
    have hfilter : [pointAt 10 1, pointAt 10 2].filter (·.timestamp ≠ .null) =
        [pointAt 10 1, pointAt 10 2] := by
      decide
    rw [sanitize, hunsorted, hfilter, hsort]
    rfl
  have hone : (insertAll ({ retention := .off } : TimedDataBuffer ℕ)
      [pointAt 10 1, pointAt 10 2]).values = [pointAt 10 2] := by
    decide +kernel
  rw [replaceRange_off List.Pairwise.nil rfl, hclean] at hreplaced
  cases hreplaced
  rw [hone] at hsame
  exact absurd hsame (by decide)

end ScadaCommon
