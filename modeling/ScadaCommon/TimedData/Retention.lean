import ScadaCommon.TimedData.BaseTimedData

/-!
# The bound on the samples of a buffer

The retention policy bounds the samples of a buffer by their number and by the
hull of the observed ranges. Every eviction restores the bound, whatever was in
the buffer. A single sample is put in without an eviction, so it keeps the bound
just when it takes the place of another one, or is in the hull and there is
room.

§1 the bound · §2 eviction · §3 single samples · §4 the calls · §5 runs.
-/

namespace ScadaCommon

open Foundation

variable {V : Type} {I : IntervalUtil} {buffer buffer' : TimedDataBuffer V}

namespace TimedDataBuffer

/-! ## §1  The bound -/

/-- The samples are within the retention policy. -/
structure Bounded (buffer : TimedDataBuffer V) : Prop where
  length_le : ∀ maxSamples ∈ buffer.retention.maxSamples, buffer.values.length ≤ maxSamples
  inHull : buffer.retention.observedWindow = true →
    ∀ v ∈ buffer.values, InHull buffer.observedRanges v.timestamp

/-- There is room for a sample of this time. -/
def Admits (buffer : TimedDataBuffer V) (value : DataValue V) : Prop :=
  value.timestamp = .null ∨ (∃ v ∈ buffer.values, v.timestamp = value.timestamp) ∨
    (∀ maxSamples ∈ buffer.retention.maxSamples, buffer.values.length < maxSamples) ∧
      (buffer.retention.observedWindow = true → InHull buffer.observedRanges value.timestamp)

instance (buffer : TimedDataBuffer V) (value : DataValue V) : Decidable (buffer.Admits value) := by
  unfold Admits
  infer_instance

theorem bounded_of_nil (h : buffer.values = []) : buffer.Bounded where
  length_le := by
    intro maxSamples _
    rw [h]
    exact Nat.zero_le _
  inHull := by
    intro _ v hv
    rw [h] at hv
    cases hv

/-- What drops samples keeps the bound. -/
theorem Bounded.sublist (h : buffer.Bounded) (hretention : buffer'.retention = buffer.retention)
    (hobserved : buffer'.observedRanges = buffer.observedRanges)
    (hsub : buffer'.values.Sublist buffer.values) : buffer'.Bounded where
  length_le := by
    intro maxSamples hmax
    rw [hretention] at hmax
    exact hsub.length_le.trans (h.length_le maxSamples hmax)
  inHull := by
    intro hwindow v hv
    rw [hretention] at hwindow
    rw [hobserved]
    exact h.inHull hwindow v (hsub.mem hv)

/-! ## §2  Eviction -/

/-- The hull keeps what is in it. -/
theorem inHull_trimToHull {front back : DateTimeRange} (h : TimeSorted buffer.values)
    (hfront : buffer.observedRanges.head? = some front)
    (hback : buffer.observedRanges.getLast? = some back) :
    ∀ v ∈ (buffer.trimToHull front.first back.second).values,
      InHull buffer.observedRanges v.timestamp := by
  intro v hv
  have hpart : v ∈ buffer.values.drop (lowerBound buffer.values front.first) := by
    have hv' := hv
    unfold trimToHull at hv'
    dsimp only at hv'
    rw [List.drop_take] at hv'
    exact List.mem_of_mem_take hv'
  rw [drop_lowerBound h] at hpart
  have hfirst := of_decide_eq_true (List.mem_filter.mp hpart).2
  refine ⟨front, hfront, back, hback, hfirst, ?_⟩
  by_cases hnull : back.second = .null
  · exact Or.inl hnull
  · have hbefore := List.mem_of_mem_drop hv
    rw [if_neg hnull, take_upperBound h] at hbefore
    exact Or.inr (of_decide_eq_true (List.mem_filter.mp hbefore).2)

/-- The backstop bounds the number of samples. -/
theorem length_dropOldest_le (h : buffer.dropOldest = some buffer') :
    ∀ maxSamples ∈ buffer'.retention.maxSamples, buffer'.values.length ≤ maxSamples := by
  intro maxSamples hmax
  have hretention := (trimmed_dropOldest h).retention
  rw [hretention] at hmax
  unfold dropOldest at h
  rw [hmax] at h
  dsimp only at h
  split at h
  · split at h
    · cases h
    · cases h
      show (buffer.values.drop _).length ≤ maxSamples
      rw [List.length_drop]
      omega
  · rename_i hle
    cases h
    exact not_lt.mp hle

/-- **Every eviction restores the bound.** -/
theorem bounded_trimToObservedRanges (buffer : TimedDataBuffer V)
    (hsorted : TimeSorted buffer.values) (h : buffer.trimToObservedRanges = some buffer') :
    buffer'.Bounded := by
  unfold trimToObservedRanges at h
  split at h
  · rename_i hempty
    cases h
    exact bounded_of_nil (List.isEmpty_iff.mp hempty)
  · split at h
    · split at h
      · rename_i front back hfront hback
        refine ⟨length_dropOldest_le h, ?_⟩
        intro _ v hv
        have htrimmed := trimmed_dropOldest h
        rw [htrimmed.observedRanges]
        exact inHull_trimToHull hsorted hfront hback v (htrimmed.sublist.mem hv)
      · cases h
        exact bounded_of_nil rfl
    · rename_i hwindow
      refine ⟨length_dropOldest_le h, ?_⟩
      intro hwindow'
      rw [(trimmed_dropOldest h).retention] at hwindow'
      exact absurd hwindow' hwindow

/-! ## §3  Single samples -/

/-- Without a sample of its time, a sample makes the run longer by one. -/
theorem length_withBatch_new {values : List (DataValue V)} {value : DataValue V}
    (hnew : ∀ v ∈ values, v.timestamp ≠ value.timestamp) :
    (withBatch values [value] value.timestamp value.timestamp).length = values.length + 1 := by
  have hbehind : values.filter (value.timestamp < ·.timestamp) =
      values.filter (fun v => !decide (v.timestamp < value.timestamp)) := by
    refine List.filter_congr fun v hv => ?_
    rw [← decide_not, decide_eq_decide, not_lt]
    exact ⟨le_of_lt, fun hle => lt_of_le_of_ne hle (Ne.symm (hnew v hv))⟩
  have hsplit := List.length_eq_length_filter_add (l := values)
    (fun v => decide (v.timestamp < value.timestamp))
  unfold withBatch
  rw [hbehind, List.length_append, List.length_append, List.length_singleton]
  omega

/-- A sample of the same time gives up its place. -/
theorem length_withBatch_old {values : List (DataValue V)} {v value : DataValue V}
    (h : TimeSorted values) (hv : v ∈ values) (htime : v.timestamp = value.timestamp) :
    (withBatch values [value] value.timestamp value.timestamp).length = values.length := by
  obtain ⟨before, behind, rfl⟩ := List.append_of_mem hv
  obtain ⟨-, hrest, hcross⟩ := List.pairwise_append.mp h
  have hbehind := (List.pairwise_cons.mp hrest).1
  have hbefore := fun w hw => hcross w hw v (List.mem_cons_self ..)
  have hfirst : (before ++ v :: behind).filter (·.timestamp < value.timestamp) = before := by
    rw [List.filter_append, List.filter_cons_of_neg (by simp [htime]),
      List.filter_eq_self.mpr fun w hw => decide_eq_true (htime ▸ hbefore w hw),
      List.filter_eq_nil_iff.mpr fun w hw => by simpa using htime ▸ (hbehind w hw).le,
      List.append_nil]
  have hlast : (before ++ v :: behind).filter (value.timestamp < ·.timestamp) = behind := by
    rw [List.filter_append, List.filter_cons_of_neg (by simp [htime]),
      List.filter_eq_nil_iff.mpr fun w hw => by simpa using htime ▸ (hbefore w hw).le,
      List.filter_eq_self.mpr fun w hw => decide_eq_true (htime ▸ hbehind w hw),
      List.nil_append]
  unfold withBatch
  rw [hfirst, hlast]
  simp

/-- **A sample keeps the bound just when it is admitted.** -/
theorem bounded_insertOrUpdate_iff (hsorted : TimeSorted buffer.values) (h : buffer.Bounded)
    (value : DataValue V) :
    (buffer.insertOrUpdate value).1.Bounded ↔ buffer.Admits value := by
  rcases insertOrUpdate_spec hsorted value with ⟨heq, hrejected⟩ | ⟨hnull, heq⟩
  · rw [heq]
    refine iff_of_true h ?_
    rcases hrejected with hnull | ⟨v, hv, htime, -⟩
    · exact Or.inl hnull
    · exact Or.inr (Or.inl ⟨v, hv, htime⟩)
  · rw [heq]
    have hmem : ∀ v ∈ withBatch buffer.values [value] value.timestamp value.timestamp,
        v = value ∨ v ∈ buffer.values := by
      intro v hv
      unfold withBatch at hv
      simp only [List.mem_append, List.mem_singleton, List.mem_filter] at hv
      tauto
    -- A sample that is overwritten has made the room for the new one.
    by_cases hold : ∃ v ∈ buffer.values, v.timestamp = value.timestamp
    · refine iff_of_true ⟨?_, ?_⟩ (Or.inr (Or.inl hold))
      · obtain ⟨v, hv, htime⟩ := hold
        intro maxSamples hmax
        rw [length_withBatch_old hsorted hv htime]
        exact h.length_le maxSamples hmax
      · obtain ⟨v, hv, htime⟩ := hold
        intro hwindow w hw
        rcases hmem w hw with rfl | hw
        · rw [← htime]
          exact h.inHull hwindow v hv
        · exact h.inHull hwindow w hw
    · have hnew : ∀ v ∈ buffer.values, v.timestamp ≠ value.timestamp :=
        fun v hv htime => hold ⟨v, hv, htime⟩
      have hlength := length_withBatch_new hnew
      constructor
      · intro hbounded
        refine Or.inr (Or.inr ⟨?_, ?_⟩)
        · intro maxSamples hmax
          have hle := hbounded.length_le maxSamples hmax
          rw [hlength] at hle
          exact hle
        · intro hwindow
          refine hbounded.inHull hwindow value ?_
          simp [withBatch]
      · rintro (hnull' | hold' | ⟨hroom, hhull⟩)
        · exact absurd hnull' hnull
        · exact absurd hold' hold
        · constructor
          · intro maxSamples hmax
            rw [hlength]
            exact hroom maxSamples hmax
          · intro hwindow w hw
            rcases hmem w hw with rfl | hw
            · exact hhull hwindow
            · exact h.inHull hwindow w hw

/-! ## §4  The calls -/

theorem bounded_updateObservedRanges (buffer : TimedDataBuffer V)
    (hsorted : TimeSorted buffer.values) (h : buffer.updateObservedRanges I = some buffer') :
    buffer'.Bounded := by
  obtain ⟨observedRanges, -, htrim⟩ := Option.bind_eq_some_iff.mp h
  exact bounded_trimToObservedRanges { buffer with observedRanges } hsorted htrim

/-- What a call of the buffer needs: room for a single sample. -/
def Allows (buffer : TimedDataBuffer V) : BufferAction V → Prop
  | .insertOrUpdate value => buffer.Admits value
  | _ => True

instance (buffer : TimedDataBuffer V) (a : BufferAction V) : Decidable (buffer.Allows a) := by
  apply BufferAction.casesOn (motive := fun a => Decidable (buffer.Allows a)) a <;>
    intros <;> unfold Allows <;> infer_instance

/-- **One call.** All calls but `InsertOrUpdate` keep the bound anyway. -/
theorem bounded_step_iff {a : BufferAction V} (hsorted : TimeSorted buffer.values)
    (h : buffer.Bounded) (hstep : buffer.step I a = some buffer') :
    buffer'.Bounded ↔ buffer.Allows a := by
  cases a with
  | insertOrUpdate value =>
      cases hstep
      exact bounded_insertOrUpdate_iff hsorted h value
  | replaceRange values =>
      refine iff_of_true ?_ trivial
      rcases replaceRange_eq_some hstep with ⟨-, rfl⟩ | ⟨_, _, replaced, -, -, -, hreplaced, htrim⟩
      · exact h
      · exact bounded_trimToObservedRanges _ hreplaced htrim
  | clearRange range =>
      have htrimmed := trimmed_clearRange hsorted hstep
      exact iff_of_true
        (h.sublist htrimmed.retention htrimmed.observedRanges htrimmed.sublist) trivial
  | addReadyRange range =>
      cases hstep
      exact iff_of_true (h.sublist rfl rfl (List.Sublist.refl _)) trivial
  | addObserver observer range =>
      obtain ⟨-, hupdate⟩ := addObserver_checks hstep
      exact iff_of_true (bounded_updateObservedRanges { buffer with
        observerRanges := insertOrAssign observer range buffer.observerRanges } hsorted hupdate)
        trivial
  | removeObserver observer =>
      exact iff_of_true (bounded_updateObservedRanges { buffer with
        observerRanges := buffer.observerRanges.filter (·.1 ≠ observer) } hsorted hstep) trivial
  | setRetention retention =>
      exact iff_of_true
        (bounded_trimToObservedRanges { buffer with retention } hsorted hstep) trivial

end TimedDataBuffer

open TimedDataBuffer

/-! ## §5  Runs -/

section

variable [DecidableEq V] {core : SampleCore V} {w w' : TimedDataWorld V}

/-- The sample the owner puts into its buffer of its own accord. -/
def TimedDataWorld.inserted (core : SampleCore V) (w : TimedDataWorld V) :
    TimedDataAction V → Option (DataValue V)
  | .updateObservedRanges =>
      if (w.data.historical || w.updatedRanges.getD false) && !core.isNull w.data.current then
        some w.data.current
      else none
  | .channelData value =>
      if core.isFailed value.qualifier then none
      else if core.isUpdate w.data.current value then
        if w.data.addsPoint value then some value else none
      else some value
  | _ => none

/-- What a step of the owner needs: room for each single sample. -/
def TimedDataWorld.Allows (core : SampleCore V) (w : TimedDataWorld V) : TimedDataAction V → Prop
  | .buffer a => w.data.buffer.Allows a
  | a => ∀ value ∈ w.inserted core a, w.data.buffer.Admits value

instance (w : TimedDataWorld V) (a : TimedDataAction V) : Decidable (w.Allows core a) := by
  apply TimedDataAction.casesOn (motive := fun a => Decidable (w.Allows core a)) a <;>
    intros <;> unfold TimedDataWorld.Allows <;> infer_instance

/-- Of its own accord the owner does nothing else to the buffer. -/
theorem TimedDataWorld.step_buffer {a : TimedDataAction V} (ha : ∀ b, a ≠ .buffer b)
    (h : w.step I core a = some w') :
    w'.data.buffer = ((w.inserted core a).map (w.data.buffer.insertOrUpdate · |>.1)).getD
      w.data.buffer := by
  cases a with
  | buffer b => exact absurd rfl (ha b)
  | updateObservedRanges =>
      cases h
      unfold inserted BaseTimedData.updateObservedRanges
      dsimp only
      split <;> rfl
  | channelData value =>
      cases h
      unfold inserted onChannelData
      dsimp only
      split
      · rfl
      · split
        · unfold BaseTimedData.addPoint
          by_cases hcurrent : value = w.data.current
          · have hadds : w.data.addsPoint value = false := by
              simp [BaseTimedData.addsPoint, hcurrent]
            rw [if_pos hcurrent, hadds]
            rfl
          · rw [if_neg hcurrent]
            dsimp only
            split <;> rfl
        · rfl
  | setCurrent =>
      unfold TimedDataWorld.step at h
      dsimp only at h
      split at h <;> cases h
      rfl

/-- **One step of the owner.** -/
theorem TimedDataWorld.bounded_step_iff {a : TimedDataAction V}
    (hsorted : TimeSorted w.data.buffer.values) (h : w.data.buffer.Bounded)
    (hstep : w.step I core a = some w') :
    TimeSorted w'.data.buffer.values ∧ (w'.data.buffer.Bounded ↔ w.Allows core a) := by
  -- The owner's own steps differ in what they insert only.
  have hown : (∀ b, a ≠ .buffer b) →
      TimeSorted w'.data.buffer.values ∧
        (w'.data.buffer.Bounded ↔ ∀ value ∈ w.inserted core a, w.data.buffer.Admits value) := by
    intro ha
    rw [step_buffer ha hstep]
    cases w.inserted core a with
    | none => exact ⟨hsorted, iff_of_true h (by rintro value ⟨⟩)⟩
    | some value =>
        refine ⟨timeSorted_insertOrUpdate hsorted value, ?_⟩
        rw [Option.map_some, Option.getD_some, bounded_insertOrUpdate_iff hsorted h value]
        simp
  cases a with
  | buffer b =>
      obtain ⟨buffer', hbuffer, hstep⟩ := Option.bind_eq_some_iff.mp hstep
      cases hstep
      exact ⟨timeSorted_step hsorted hbuffer, TimedDataBuffer.bounded_step_iff hsorted h hbuffer⟩
  | updateObservedRanges => exact hown fun b => by simp
  | channelData value => exact hown fun b => by simp
  | setCurrent => exact hown fun b => by simp

/-- **The bound over runs.** While every single sample finds room the samples
stay within the retention policy, in a buffer and in the buffer of an owner. The
first that finds none breaks the bound. -/
theorem samples_stay_bounded (I : IntervalUtil) (core : SampleCore V) :
    (∀ buffer : TimedDataBuffer V, (bufferMachine I).Reaches TimedDataBuffer.Allows buffer →
      buffer.Bounded ∧ ∀ a buffer', buffer.step I a = some buffer' →
        (buffer'.Bounded ↔ buffer.Allows a)) ∧
      ∀ w : TimedDataWorld V, (timedDataMachine I core).Reaches (TimedDataWorld.Allows core) w →
        w.data.buffer.Bounded ∧ ∀ a w', w.step I core a = some w' →
          (w'.data.buffer.Bounded ↔ w.Allows core a) := by
  constructor
  · intro buffer hreaches
    have hinv : TimeSorted buffer.values ∧ buffer.Bounded := by
      refine hreaches.invariant (I := fun buffer => TimeSorted buffer.values ∧ buffer.Bounded) ?_ ?_
      · exact ⟨List.Pairwise.nil, bounded_of_nil rfl⟩
      · intro t a t' ht _ hok hs
        exact ⟨timeSorted_step ht.1 hs, (TimedDataBuffer.bounded_step_iff ht.1 ht.2 hs).mpr hok⟩
    refine ⟨hinv.2, ?_⟩
    intro a buffer' hs
    exact TimedDataBuffer.bounded_step_iff hinv.1 hinv.2 hs
  · intro w hreaches
    have hinv : TimeSorted w.data.buffer.values ∧ w.data.buffer.Bounded := by
      refine hreaches.invariant
        (I := fun w => TimeSorted w.data.buffer.values ∧ w.data.buffer.Bounded) ?_ ?_
      · exact ⟨List.Pairwise.nil, bounded_of_nil rfl⟩
      · intro t a t' ht _ hok hs
        obtain ⟨hsorted, hiff⟩ := TimedDataWorld.bounded_step_iff ht.1 ht.2 hs
        exact ⟨hsorted, hiff.mpr hok⟩
    refine ⟨hinv.2, ?_⟩
    intro a w' hs
    exact (TimedDataWorld.bounded_step_iff hinv.1 hinv.2 hs).2

end

/-- Samples of numbers; the first bit of the qualifier stands for a failure. -/
def numberSamples : SampleCore ℕ where
  default := ⟨0, 0, .null, .null⟩
  isNull v := v.sourceTimestamp = .null
  isUpdate current v := current.timestamp ≤ v.timestamp
  isFailed qualifier := qualifier.testBit 0
  setFailed qualifier := qualifier ||| 1

/-- An observer of `[1, 10]` gets a batch, of which one sample is kept, and then
a live value in its range. -/
theorem samples_stay_bounded_once : ∃ w : TimedDataWorld ℕ,
    w.data.buffer.values = [⟨1, 0, 5, 5⟩, ⟨2, 0, 7, 7⟩] ∧ w.data.buffer.Bounded := by
  obtain ⟨w, hw, hp⟩ := Machine.exists_reaches_of_exec
    (M := timedDataMachine apartIntervals numberSamples)
    (TimedDataWorld.Allows numberSamples)
    (p := fun w => decide (w.data.buffer.values = [⟨1, 0, 5, 5⟩, ⟨2, 0, 7, 7⟩]))
    [.buffer (.setRetention ⟨true, some 2⟩), .buffer (.addObserver 1 ⟨1, 10⟩),
      .updateObservedRanges, .buffer (.replaceRange [⟨1, 0, 5, 5⟩, ⟨1, 0, 20, 20⟩]),
      .channelData ⟨2, 0, 7, 7⟩, .setCurrent] (by decide)
  exact ⟨w, of_decide_eq_true hp, ((samples_stay_bounded apartIntervals numberSamples).2 w hw).1⟩

/-- A second sample goes over a cap of one. And a channel fills the history that
nobody observes any more. -/
theorem live_updates_break_bound :
    (∃ buffer : TimedDataBuffer ℕ, (bufferMachine apartIntervals).Reachable buffer ∧
        buffer.retention.maxSamples = some 1 ∧ buffer.values.length = 2 ∧ ¬ buffer.Bounded) ∧
      ∃ w : TimedDataWorld ℕ, (timedDataMachine apartIntervals numberSamples).Reachable w ∧
        w.data.buffer.observerRanges = [] ∧ w.data.buffer.values.length = 2 ∧
        ¬ w.data.buffer.Bounded := by
  constructor
  · obtain ⟨buffer, hbuffer, hp⟩ := Machine.exists_reachable_of_exec
      (M := bufferMachine (V := ℕ) apartIntervals)
      (p := fun buffer => decide (buffer.retention.maxSamples = some 1 ∧ buffer.values.length = 2))
      [.setRetention ⟨false, some 1⟩, .insertOrUpdate ⟨1, 0, 5, 5⟩,
        .insertOrUpdate ⟨2, 0, 7, 7⟩] (by decide)
    obtain ⟨hmax, hlength⟩ := of_decide_eq_true hp
    refine ⟨buffer, hbuffer, hmax, hlength, ?_⟩
    intro hbounded
    have hle := hbounded.length_le 1 hmax
    omega
  · obtain ⟨w, hw, hp⟩ := Machine.exists_reachable_of_exec
      (M := timedDataMachine apartIntervals numberSamples)
      (p := fun w => decide (w.data.buffer.observerRanges = [] ∧
        w.data.buffer.observedRanges = [] ∧ w.data.buffer.retention.observedWindow = true ∧
        w.data.buffer.values.length = 2))
      [.buffer (.addObserver 1 ⟨1, 10⟩), .updateObservedRanges, .buffer (.removeObserver 1),
        .updateObservedRanges, .channelData ⟨1, 0, 20, 20⟩, .setCurrent,
        .channelData ⟨2, 0, 30, 30⟩, .setCurrent] (by decide)
    obtain ⟨hobservers, hobserved, hwindow, hlength⟩ := of_decide_eq_true hp
    refine ⟨w, hw, hobservers, hlength, ?_⟩
    intro hbounded
    obtain ⟨v, hv⟩ := List.exists_mem_of_length_pos (l := w.data.buffer.values) (by omega)
    obtain ⟨front, hfront, -⟩ := hbounded.inHull hwindow v hv
    rw [hobserved] at hfront
    cases hfront

end ScadaCommon
