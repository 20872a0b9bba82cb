import ScadaCommon.TimedData.BufferActions

/-!
# A buffer with the default retention

What the calls of a buffer keep while its retention is not changed: the samples
and the ready ranges stay in order, the observed ranges follow the observers,
and no call fails whose arguments are accepted.

§1 the invariant · §2 the calls.
-/

namespace ScadaCommon

open Foundation TimedDataBuffer

variable {V : Type} {I : IntervalUtil} {buffer buffer' : TimedDataBuffer V}

/-! ## §1  The invariant -/

/-- The buffer of a fetcher: default retention, valid ranges, sorted samples. -/
structure BufferInv (I : IntervalUtil) (buffer : TimedDataBuffer V) : Prop where
  sorted : TimeSorted buffer.values
  retention : buffer.retention = {}
  observers : buffer.ValidObservers
  observes : buffer.ObservesAll I
  readyValid : I.areValidIntervals buffer.readyRanges = true

/-- Some observed range is not ready as a whole. -/
def TimedDataBuffer.HasGap (buffer : TimedDataBuffer V) : Prop :=
  ∃ i ∈ buffer.observedRanges, ∀ j ∈ buffer.readyRanges, j.first ≤ i.first → j.second < i.second

instance (buffer : TimedDataBuffer V) : Decidable buffer.HasGap := by
  unfold HasGap
  infer_instance

theorem BufferInv.init : BufferInv I ({} : TimedDataBuffer V) where
  sorted := List.Pairwise.nil
  retention := rfl
  observers := by
    rintro entry ⟨⟩
  observes := by
    refine ⟨I.areValid_nil, ?_⟩
    rintro entry ⟨⟩
  readyValid := I.areValid_nil

/-! ## §2  The calls -/

theorem BufferInv.findNextGap (h : BufferInv I buffer) :
    buffer.findNextGap I = some (firstGap buffer.observedRanges buffer.readyRanges) := by
  unfold TimedDataBuffer.findNextGap findFirstGap
  rw [check_of h.observes.1, check_of h.readyValid]
  rfl

theorem BufferInv.gap_lt (h : BufferInv I buffer) (hI : I.Merges) {gap : DateTimeRange}
    (hgap : firstGap buffer.observedRanges buffer.readyRanges = some gap) :
    gap.first < gap.second :=
  rel_of_firstGap (fun _ _ => id) (I.lt_of_areValid _ h.observes.1)
    (hI.apart_of_areValid _ h.readyValid) hgap

theorem BufferInv.hasGap_iff (h : BufferInv I buffer) (hI : I.Merges) :
    buffer.HasGap ↔ firstGap buffer.observedRanges buffer.readyRanges ≠ none := by
  have hsorted := I.sorted_of_areValid _ h.observes.1
  rw [Ne, firstGap_eq_none_iff (I.lt_of_areValid _ h.observes.1) hsorted
    (hI.apart_of_areValid _ h.readyValid)]
  unfold TimedDataBuffer.HasGap
  push Not
  rfl

theorem BufferInv.evicted (h : BufferInv I buffer) (hevicted : Evicted I buffer buffer') :
    BufferInv I buffer' where
  sorted := h.sorted.sublist hevicted.sublist
  retention := hevicted.retention.trans h.retention
  observers := by
    intro entry hentry
    rw [hevicted.observerRanges] at hentry
    exact h.observers entry hentry
  observes := by
    rw [ObservesAll, hevicted.observedRanges, hevicted.observerRanges]
    exact h.observes
  readyValid := hevicted.areValid h.readyValid

theorem BufferInv.insertOrUpdate (h : BufferInv I buffer) (value : DataValue V) :
    BufferInv I (buffer.insertOrUpdate value).1 := by
  have hsorted := timeSorted_insertOrUpdate h.sorted value
  rcases insertOrUpdate_spec h.sorted value with ⟨heq, -⟩ | ⟨-, heq⟩
  · rw [heq]
    exact h
  · rw [heq] at hsorted ⊢
    exact ⟨hsorted, h.retention, h.observers, h.observes, h.readyValid⟩

theorem BufferInv.insertOrUpdate_ranges (h : BufferInv I buffer) (value : DataValue V) :
    (buffer.insertOrUpdate value).1.observedRanges = buffer.observedRanges ∧
      (buffer.insertOrUpdate value).1.readyRanges = buffer.readyRanges := by
  rcases insertOrUpdate_spec h.sorted value with ⟨heq, -⟩ | ⟨-, heq⟩
  · rw [heq]
    exact ⟨rfl, rfl⟩
  · rw [heq]
    exact ⟨rfl, rfl⟩

/-- Working a page in never fails, and leaves the observed ranges as they are. -/
theorem BufferInv.replaceRange (h : BufferInv I buffer) (values : List (DataValue V)) :
    ∃ buffer', buffer.replaceRange values = some buffer' ∧ BufferInv I buffer' ∧
      ∀ time, Covers buffer'.readyRanges time → Covers buffer.readyRanges time := by
  by_cases hempty : sanitize values = []
  · exact ⟨buffer, replaceRange_nil hempty, h, fun _ => id⟩
  · obtain ⟨front, hfront⟩ := Option.isSome_iff_exists.mp (List.isSome_head?.mpr hempty)
    obtain ⟨back, hback⟩ := Option.isSome_iff_exists.mp (List.getLast?_isSome.mpr hempty)
    have hsanitized := timeSorted_sanitize values
    have hbatch := h.sorted.withBatch hsanitized hfront hback
    obtain ⟨buffer', htrim, hevicted⟩ := trimToObservedRanges_spec I { buffer with
      values := withBatch buffer.values (sanitize values) front.timestamp back.timestamp }
      hbatch h.retention
    refine ⟨buffer', ?_, ?_, fun time hcovers => (hevicted.covers time hcovers).1⟩
    · rw [replaceRange_eq h.sorted hsanitized hfront hback]
      exact htrim
    · have hbatched : BufferInv I { buffer with
          values := withBatch buffer.values (sanitize values) front.timestamp back.timestamp } :=
        ⟨hbatch, h.retention, h.observers, h.observes, h.readyValid⟩
      exact hbatched.evicted hevicted

theorem BufferInv.addReadyRange (h : BufferInv I buffer) (hI : I.Merges) {range : DateTimeRange}
    (hle : range.first ≤ range.second) : BufferInv I (buffer.addReadyRange I range) :=
  ⟨h.sorted, h.retention, h.observers, h.observes, hI.areValid_union h.readyValid hle⟩

theorem exists_unionObserved (ranges : List DateTimeRange)
    {entries : List (ObserverId × DateTimeRange)}
    (hentries : ∀ entry ∈ entries, entry.2.first ≠ .max → entry.2.first < entry.2.second) :
    ∃ result, unionObserved I ranges entries = some result := by
  induction entries generalizing ranges with
  | nil => exact ⟨ranges, rfl⟩
  | cons head entries ih =>
      obtain ⟨observer, range⟩ := head
      have hrest := fun entry hentry =>
        hentries entry (List.mem_cons_of_mem (observer, range) hentry)
      rw [unionObserved]
      split
      · rename_i hmax
        have hlt := hentries (observer, range) (List.mem_cons_self ..) hmax
        have hnonempty : I.isEmptyInterval range = false := by
          rw [← Bool.not_eq_true, I.isEmpty_iff]
          exact hlt.ne
        obtain ⟨result, hresult⟩ := ih (I.unionIntervals ranges range) hrest
        refine ⟨result, ?_⟩
        rw [check_of hnonempty]
        exact hresult
      · exact ih ranges hrest

/-- The observed ranges follow the observers. -/
theorem BufferInv.updateObservedRanges (h : BufferInv I buffer)
    {entries : List (ObserverId × DateTimeRange)}
    (hobservers : ValidObservers { buffer with observerRanges := entries }) :
    ∃ buffer', TimedDataBuffer.updateObservedRanges I
        { buffer with observerRanges := entries } = some buffer' ∧ BufferInv I buffer' ∧
      ∀ time, Covers buffer'.readyRanges time → Covers buffer.readyRanges time := by
  obtain ⟨observedRanges, hunion⟩ := exists_unionObserved (I := I) [] hobservers
  obtain ⟨buffer', htrim, -⟩ := trimToObservedRanges_spec I
    { buffer with observerRanges := entries, observedRanges } h.sorted h.retention
  have hupdate : TimedDataBuffer.updateObservedRanges I
      { buffer with observerRanges := entries } = some buffer' := by
    unfold TimedDataBuffer.updateObservedRanges
    rw [hunion]
    exact htrim
  obtain ⟨observedRanges', -, hevicted, hobserves⟩ :=
    updateObservedRanges_spec { buffer with observerRanges := entries } h.sorted h.retention
      hobservers hupdate
  refine ⟨buffer', hupdate, ⟨h.sorted.sublist hevicted.sublist,
    hevicted.retention.trans h.retention, ?_, hobserves, hevicted.areValid h.readyValid⟩,
    fun time hcovers => (hevicted.covers time hcovers).1⟩
  intro entry hentry
  rw [hevicted.observerRanges] at hentry
  exact hobservers entry hentry

theorem BufferInv.addObserver (h : BufferInv I buffer) (observer : ObserverId)
    {range : DateTimeRange} (hnull : range.second ≠ .null) (hvalid : I.isValidInterval range = true)
    (hempty : range.first = .max ∨ I.isEmptyInterval range = false) :
    ∃ buffer', buffer.addObserver I observer range = some buffer' ∧ BufferInv I buffer' ∧
      ∀ time, Covers buffer'.readyRanges time → Covers buffer.readyRanges time := by
  have hlt : range.first ≠ .max → range.first < range.second := by
    intro hmax
    refine lt_of_le_of_ne (I.le_of_isValid range hnull hvalid) ?_
    intro heq
    have hnonempty := hempty.resolve_left hmax
    rw [(I.isEmpty_iff range).mpr heq] at hnonempty
    cases hnonempty
  have hobservers : ValidObservers { buffer with
      observerRanges := insertOrAssign observer range buffer.observerRanges } :=
    h.observers.insertOrAssign hlt
  obtain ⟨buffer', hupdate, hrest⟩ := h.updateObservedRanges hobservers
  refine ⟨buffer', ?_, hrest⟩
  unfold TimedDataBuffer.addObserver
  rw [check_of hnull, check_of hvalid, check_of hempty]
  exact hupdate

theorem BufferInv.removeObserver (h : BufferInv I buffer) (observer : ObserverId) :
    ∃ buffer', buffer.removeObserver I observer = some buffer' ∧ BufferInv I buffer' ∧
      ∀ time, Covers buffer'.readyRanges time → Covers buffer.readyRanges time := by
  refine h.updateObservedRanges ?_
  intro entry hentry
  exact h.observers entry (List.mem_of_mem_filter hentry)

theorem BufferInv.clearRange (h : BufferInv I buffer) {range : DateTimeRange}
    (hnull : range.first ≠ .null) (hvalid : range.second = .null ∨ range.first ≤ range.second) :
    ∃ buffer', buffer.clearRange range = some buffer' ∧ BufferInv I buffer' ∧
      buffer'.readyRanges = buffer.readyRanges := by
  have hcleared : ∃ buffer', buffer.clearRange range = some buffer' := by
    unfold TimedDataBuffer.clearRange
    rw [check_of hnull, check_of hvalid]
    dsimp only [Option.bind_eq_bind, Option.bind_some]
    split <;> exact ⟨_, rfl⟩
  obtain ⟨buffer', hclear⟩ := hcleared
  have hsorted := h.sorted.sublist (trimmed_clearRange h.sorted hclear).sublist
  obtain ⟨-, rfl⟩ := clearRange_eq_some hclear
  exact ⟨_, hclear, ⟨hsorted, h.retention, h.observers, h.observes, h.readyValid⟩, rfl⟩

/-- The arguments of a call meet its checks; the retention is left alone. -/
def BufferAction.Valid (I : IntervalUtil) : BufferAction V → Prop
  | .clearRange range => range.first ≠ .null ∧ (range.second = .null ∨ range.first ≤ range.second)
  | .addReadyRange range => range.first ≤ range.second
  | .addObserver _ range => range.second ≠ .null ∧ I.isValidInterval range = true ∧
      (range.first = .max ∨ I.isEmptyInterval range = false)
  | .setRetention _ => False
  | _ => True

instance (a : BufferAction V) : Decidable (a.Valid I) := by
  apply BufferAction.casesOn (motive := fun a => Decidable (a.Valid I)) a <;>
    intros <;> unfold BufferAction.Valid <;> infer_instance

/-- **A call with valid arguments succeeds**, and makes no more ready than it is
asked to. -/
theorem BufferInv.step (h : BufferInv I buffer) (hI : I.Merges) {a : BufferAction V}
    (ha : a.Valid I) :
    ∃ buffer', buffer.step I a = some buffer' ∧ BufferInv I buffer' ∧
      ∀ time, Covers buffer'.readyRanges time → Covers buffer.readyRanges time ∨
        ∃ range, a = .addReadyRange range ∧ range.Holds time := by
  have hshrunk : (∃ buffer', buffer.step I a = some buffer' ∧ BufferInv I buffer' ∧
      ∀ time, Covers buffer'.readyRanges time → Covers buffer.readyRanges time) →
      ∃ buffer', buffer.step I a = some buffer' ∧ BufferInv I buffer' ∧
        ∀ time, Covers buffer'.readyRanges time → Covers buffer.readyRanges time ∨
          ∃ range, a = .addReadyRange range ∧ range.Holds time := by
    rintro ⟨buffer', hstep, hbuffer, hready⟩
    exact ⟨buffer', hstep, hbuffer, fun time hcovers => Or.inl (hready time hcovers)⟩
  cases a with
  | insertOrUpdate value =>
      refine hshrunk ⟨_, rfl, h.insertOrUpdate value, ?_⟩
      intro time hcovers
      rwa [(h.insertOrUpdate_ranges value).2] at hcovers
  | replaceRange values => exact hshrunk (h.replaceRange values)
  | clearRange range =>
      obtain ⟨buffer', hclear, hbuffer, hready⟩ := h.clearRange ha.1 ha.2
      refine hshrunk ⟨buffer', hclear, hbuffer, ?_⟩
      intro time hcovers
      rwa [hready] at hcovers
  | addReadyRange range =>
      refine ⟨_, rfl, h.addReadyRange hI ha, ?_⟩
      intro time hcovers
      exact (hI.covers_union h.readyValid ha hcovers).imp_right fun hholds => ⟨range, rfl, hholds⟩
  | addObserver observer range => exact hshrunk (h.addObserver observer ha.1 ha.2.1 ha.2.2)
  | removeObserver observer => exact hshrunk (h.removeObserver observer)
  | setRetention retention => exact ha.elim

end ScadaCommon
