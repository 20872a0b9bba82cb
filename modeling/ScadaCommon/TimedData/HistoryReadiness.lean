import ScadaCommon.TimedData.TimedDataFetcher

/-!
# Ready ranges hold their history

A range is ready when the buffer has every sample the server stores in it. The
buffer keeps that when it evicts samples, because it clamps the ready ranges to
what it keeps. A read breaks it: its range becomes ready when its answer has
been worked in, also when samples of the answer have been evicted by then
because the observers moved away from them.

§1 samples that are present · §2 the invariant · §3 the steps · §4 runs.
-/

namespace ScadaCommon

open Foundation TimedDataBuffer

variable {V : Type} {I : IntervalUtil} {store : HistoryStore V} {w w' : HistoryWorld V}
  {buffer buffer' : TimedDataBuffer V} {live : List (DataValue V)} {s v : DataValue V}

/-! ## §1  Samples that are present -/

/-- The buffer has a sample of the server, or a live value of its time that came
over it. -/
def Present (live : List (DataValue V)) (buffer : TimedDataBuffer V) (s : DataValue V) : Prop :=
  ∃ v ∈ buffer.values, v.timestamp = s.timestamp ∧ (v = s ∨ v ∈ live)

/-- Every stored sample in a ready range is present. -/
def ReadySound (store : HistoryStore V) (live : List (DataValue V)) (buffer : TimedDataBuffer V) :
    Prop :=
  ∀ s ∈ store.samples, Covers buffer.readyRanges s.timestamp → Present live buffer s

theorem Present.evicted (h : Present live buffer s) (hevicted : Evicted I buffer buffer')
    (hhull : InHull buffer.observedRanges s.timestamp) : Present live buffer' s := by
  obtain ⟨v, hv, htime, hfrom⟩ := h
  exact ⟨v, hevicted.mem v hv (htime ▸ hhull), htime, hfrom⟩

/-- **Eviction is sound**: what is still ready is still there. -/
theorem ReadySound.evicted (h : ReadySound store live buffer) (hevicted : Evicted I buffer buffer') :
    ReadySound store live buffer' := by
  intro s hs hcovers
  obtain ⟨hready, hhull⟩ := hevicted.covers s.timestamp hcovers
  have hpresent := h s hs hready
  obtain ⟨v, hv, -⟩ := hpresent
  exact (h s hs hready).evicted hevicted (hhull (List.ne_nil_of_mem hv))

/-- A batch keeps what is outside its range; what is inside is there when the
batch has it. -/
theorem Present.withBatch {updates : List (DataValue V)} {first last : DateTime}
    (h : Present live buffer s)
    (hinside : first ≤ s.timestamp → s.timestamp ≤ last → ∃ v ∈ updates,
      v.timestamp = s.timestamp ∧ (v = s ∨ v ∈ live)) :
    Present live { buffer with values := withBatch buffer.values updates first last } s := by
  obtain ⟨v, hv, htime, hfrom⟩ := h
  unfold ScadaCommon.withBatch
  rcases lt_or_ge v.timestamp first with hbefore | hfirst
  · refine ⟨v, ?_, htime, hfrom⟩
    simp [hv, hbefore]
  · rcases lt_or_ge last v.timestamp with hbehind | hlast
    · refine ⟨v, ?_, htime, hfrom⟩
      simp [hv, hbehind]
    · obtain ⟨u, hu, hrest⟩ := hinside (htime ▸ hfirst) (htime ▸ hlast)
      exact ⟨u, by simp [hu], hrest⟩

theorem Present.insertOrUpdate (h : Present live buffer s) (hsorted : TimeSorted buffer.values)
    (value : DataValue V) : Present (value :: live) (buffer.insertOrUpdate value).1 s := by
  have hmono : Present (value :: live) buffer s := by
    obtain ⟨v, hv, htime, hfrom⟩ := h
    exact ⟨v, hv, htime, hfrom.imp_right (List.mem_cons_of_mem _)⟩
  rcases insertOrUpdate_spec hsorted value with ⟨heq, -⟩ | ⟨-, heq⟩
  · rw [heq]
    exact hmono
  · rw [heq]
    refine hmono.withBatch ?_
    intro hfirst hlast
    exact ⟨value, List.mem_singleton_self _, le_antisymm hfirst hlast,
      Or.inr (List.mem_cons_self ..)⟩

namespace HistoryStore

theorem timeSorted_read (store : HistoryStore V) (first last : DateTime) :
    TimeSorted (store.read first last) :=
  store.sorted.sublist List.filter_sublist

theorem mem_read {first last : DateTime} :
    s ∈ store.read first last ↔ s ∈ store.samples ∧ first ≤ s.timestamp ∧ s.timestamp ≤ last := by
  simp [read]

/-- In whatever order the server answers, the fetcher gets the samples sorted. -/
theorem receivedValues_eq {values : List (DataValue V)} {first last : DateTime}
    (h : values.Perm (store.read first last)) :
    TimedDataFetcher.receivedValues values = store.read first last := by
  have hsorted := store.timeSorted_read first last
  have hfilter : values.filter (·.serverTimestamp ≠ .null) = values := by
    refine List.filter_eq_self.mpr fun v hv => ?_
    simpa using store.serverTimestamp_ne v (mem_read.mp (h.mem_iff.mp hv)).1
  -- Samples of one time are one sample, so the order is the only one.
  have hanti : ∀ values', values'.Perm (store.read first last) →
      (values'.Pairwise fun v w => v.timestamp ≤ w.timestamp) →
      values' = store.read first last := by
    intro values' hperm hle
    refine hperm.eq_of_pairwise ?_ hle (hsorted.imp le_of_lt)
    intro v w hv hw hvw hwv
    exact hsorted.eq_of_timestamp (hperm.mem_iff.mp hv) hw (le_antisymm hvw hwv)
  unfold TimedDataFetcher.receivedValues
  rw [hfilter]
  dsimp only
  by_cases hvalues : isTimeSorted values = true
  · rw [if_pos hvalues]
    exact hanti values h ((isTimeSorted_iff.mp hvalues).imp le_of_lt)
  · have hsort : sortByTime values = store.read first last := by
      exact hanti _ ((List.mergeSort_perm _ _).trans h) (pairwise_sortByTime values)
    rw [if_neg hvalues, hsort, uniqueByTime_of_sorted hsorted]

end HistoryStore

/-! ## §2  The invariant -/

/-- The range of the read that is under way. -/
abbrev HistoryWorld.queryingRange (w : HistoryWorld V) : DateTimeRange := w.fetcher.queryingRange

/-- The stored samples of the read that is under way. -/
def HistoryWorld.queried (store : HistoryStore V) (w : HistoryWorld V) : List (DataValue V) :=
  store.read w.queryingRange.first w.queryingRange.second

/-- The samples of an answer have been put into the buffer, and their range is
not ready yet. -/
def HistoryWorld.Delivering (w : HistoryWorld V) : Prop :=
  ∃ values, w.completion = some (.notifyingUpdates, values)

structure HistoryInv (I : IntervalUtil) (store : HistoryStore V) (w : HistoryWorld V) : Prop where
  sorted : TimeSorted w.buffer.values
  retention : w.buffer.retention = {}
  observers : w.buffer.ValidObservers
  observes : w.buffer.ObservesAll I
  readyValid : I.areValidIntervals w.buffer.readyRanges = true
  sound : ReadySound store w.live w.buffer
  /-- The read asks for the range that will be ready. -/
  reading : ∀ details, w.read = some details → w.fetcher.querying = true ∧ w.completion = none ∧
    details.fromTime = w.queryingRange.first ∧ details.toTime = w.queryingRange.second ∧
    w.queryingRange.first < w.queryingRange.second
  completing : w.completion ≠ none → w.fetcher.querying = true ∧ w.read = none
  delivered : w.Delivering → w.queryingRange.first < w.queryingRange.second ∧
    ∀ s ∈ w.queried store, Present w.live w.buffer s

theorem HistoryInv.init : HistoryInv I store (historyMachine I store).init where
  sorted := List.Pairwise.nil
  retention := rfl
  observers := by
    rintro entry ⟨⟩
  observes := ⟨I.areValid_nil, by rintro entry ⟨⟩⟩
  readyValid := I.areValid_nil
  sound := fun s _ hcovers => absurd hcovers (covers_nil s.timestamp)
  reading := by
    rintro details ⟨⟩
  completing := fun h => absurd rfl h
  delivered := by
    rintro ⟨values, ⟨⟩⟩

/-! ## §3  Steps -/

/-- What `FetchNextGap` does: nothing, or it starts a read of a gap. -/
theorem fetchNextGap_cases {fetcher fetcher' : TimedDataFetcher} {calls : List HistoryCall}
    (h : fetcher.fetchNextGap I buffer = some (fetcher', calls)) :
    (fetcher' = fetcher ∧ calls = []) ∨
      ∃ gap, fetcher.querying = false ∧ gap.first < gap.second ∧
        fetcher' = { fetcher with querying := true, queryingRange := gap } ∧
        calls = [.historyReadRaw ⟨gap.first, gap.second, kMaxReadCount, none⟩] := by
  unfold TimedDataFetcher.fetchNextGap at h
  split at h
  · cases h
    exact Or.inl ⟨rfl, rfl⟩
  · rename_i hquerying
    split at h
    · cases h
      exact Or.inl ⟨rfl, rfl⟩
    · obtain ⟨found, hfound, h⟩ := Option.bind_eq_some_iff.mp h
      obtain ⟨hobserved, hfound⟩ := check_bind_eq_some.mp hfound
      obtain ⟨hready, hfound⟩ := check_bind_eq_some.mp hfound
      cases found with
      | none =>
          cases h
          exact Or.inl ⟨rfl, rfl⟩
      | some gap =>
          obtain ⟨hempty, h⟩ := check_bind_eq_some.mp h
          cases h
          have hle := rel_of_firstGap (fun _ _ => le_of_lt) (I.lt_of_areValid _ hobserved)
            (I.sorted_of_areValid _ hready) (Option.some_inj.mp hfound)
          have hne : gap.first ≠ gap.second := by
            intro heq
            rw [(I.isEmpty_iff gap).mpr heq] at hempty
            cases hempty
          exact Or.inr ⟨gap, by simpa using hquerying, lt_of_le_of_ne hle hne, rfl, rfl⟩

theorem HistoryInv.fetchNextGap (h : HistoryInv I store w)
    (hs : w.fetchNextGap I = some w') : HistoryInv I store w' := by
  obtain ⟨⟨fetcher, calls⟩, hfetch, hw'⟩ := Option.bind_eq_some_iff.mp hs
  cases hw'
  rcases fetchNextGap_cases hfetch with ⟨rfl, rfl⟩ | ⟨gap, hidle, hlt, rfl, rfl⟩
  · exact h
  · have hnone : w.completion = none := by
      by_contra hne
      rw [(h.completing hne).1] at hidle
      cases hidle
    refine ⟨h.sorted, h.retention, h.observers, h.observes, h.readyValid, h.sound, ?_, ?_, ?_⟩
    · rintro details ⟨⟩
      exact ⟨rfl, hnone, rfl, rfl, hlt⟩
    · intro hne
      exact absurd hnone hne
    · rintro ⟨values, hvalues⟩
      rw [show w.completion = some (.notifyingUpdates, values) from hvalues] at hnone
      cases hnone

/-- The observers changed, and the samples of an answer that is being delivered
stayed in the hull of what they observe. -/
theorem HistoryInv.updateObservedRanges {entries : List (ObserverId × DateTimeRange)}
    (h : HistoryInv I store w)
    (hobservers : ValidObservers { w.buffer with observerRanges := entries })
    (hkeeps : w.Delivering → ∀ ranges ∈ unionObserved I [] entries,
      ∀ s ∈ w.queried store, InHull ranges s.timestamp)
    (hupdate : TimedDataBuffer.updateObservedRanges I
      { w.buffer with observerRanges := entries } = some buffer') :
    HistoryInv I store { w with buffer := buffer' } := by
  obtain ⟨ranges, hunion, hevicted, hobserves⟩ :=
    updateObservedRanges_spec { w.buffer with observerRanges := entries } h.sorted h.retention
      hobservers hupdate
  refine ⟨h.sorted.sublist hevicted.sublist, hevicted.retention.trans h.retention, ?_, hobserves,
    hevicted.areValid h.readyValid, ?_, h.reading, h.completing, ?_⟩
  · intro entry hentry
    rw [hevicted.observerRanges] at hentry
    exact hobservers entry hentry
  · have hsound : ReadySound store w.live { w.buffer with
        observerRanges := entries, observedRanges := ranges } := h.sound
    exact hsound.evicted hevicted
  · intro hdelivering
    obtain ⟨hlt, hpresent⟩ := h.delivered hdelivering
    refine ⟨hlt, fun s hs => ?_⟩
    have hs' : Present w.live { w.buffer with
        observerRanges := entries, observedRanges := ranges } s := hpresent s hs
    exact hs'.evicted hevicted (hkeeps hdelivering ranges hunion s hs)

theorem HistoryInv.insertOrUpdate (h : HistoryInv I store w) (value : DataValue V) :
    HistoryInv I store { w with
      buffer := (w.buffer.insertOrUpdate value).1, live := value :: w.live } := by
  have hfields : (w.buffer.insertOrUpdate value).1.observerRanges = w.buffer.observerRanges ∧
      (w.buffer.insertOrUpdate value).1.observedRanges = w.buffer.observedRanges ∧
      (w.buffer.insertOrUpdate value).1.readyRanges = w.buffer.readyRanges ∧
      (w.buffer.insertOrUpdate value).1.retention = w.buffer.retention := by
    rcases insertOrUpdate_spec h.sorted value with ⟨heq, -⟩ | ⟨-, heq⟩ <;> rw [heq] <;>
      exact ⟨rfl, rfl, rfl, rfl⟩
  obtain ⟨hobservers, hobserved, hready, hretention⟩ := hfields
  refine ⟨timeSorted_insertOrUpdate h.sorted value, hretention.trans h.retention, ?_, ?_, ?_, ?_,
    h.reading, h.completing, ?_⟩
  · intro entry hentry
    rw [hobservers] at hentry
    exact h.observers entry hentry
  · rw [ObservesAll, hobserved, hobservers]
    exact h.observes
  · rw [hready]
    exact h.readyValid
  · intro s hs hcovers
    rw [hready] at hcovers
    exact (h.sound s hs hcovers).insertOrUpdate h.sorted value
  · intro hdelivering
    obtain ⟨hlt, hpresent⟩ := h.delivered hdelivering
    exact ⟨hlt, fun s hs => (hpresent s hs).insertOrUpdate h.sorted value⟩

/-- The answer of the server puts the stored samples of the range into the
buffer; those in the hull stay. -/
theorem HistoryInv.answer {details : HistoryReadRawDetails} {values : List (DataValue V)}
    (h : HistoryInv I store w) (hread : w.read = some details)
    (hvalues : values.Perm (store.read details.fromTime details.toTime))
    (hhull : ∀ s ∈ store.read details.fromTime details.toTime,
      InHull w.buffer.observedRanges s.timestamp)
    (hreplace : w.fetcher.replaceValues w.buffer values = some buffer') :
    HistoryInv I store { w with
      buffer := buffer', read := none, completion := some (.notifyingUpdates, values) } := by
  obtain ⟨hquerying, -, hfrom, hto, hlt⟩ := h.reading details hread
  obtain ⟨-, hreplace⟩ := check_bind_eq_some.mp hreplace
  rw [HistoryStore.receivedValues_eq hvalues] at hreplace
  have hsorted := store.timeSorted_read details.fromTime details.toTime
  have hnull : ∀ v ∈ store.read details.fromTime details.toTime, v.timestamp ≠ .null :=
    fun v hv => store.sourceTimestamp_ne v (HistoryStore.mem_read.mp hv).1
  have hqueried : store.read details.fromTime details.toTime = w.queried store := by
    rw [HistoryWorld.queried, hfrom, hto]
  have hcompleting : w.fetcher.querying = true ∧ (none : Option HistoryReadRawDetails) = none :=
    ⟨hquerying, rfl⟩
  by_cases hempty : store.read details.fromTime details.toTime = []
  · -- Nothing is stored there.
    rw [hempty, replaceRange_nil rfl] at hreplace
    cases hreplace
    refine ⟨h.sorted, h.retention, h.observers, h.observes, h.readyValid, h.sound, ?_,
      fun _ => hcompleting, ?_⟩
    · rintro details' ⟨⟩
    · intro _
      refine ⟨hlt, fun s hs => ?_⟩
      have hs' : s ∈ w.queried store := hs
      rw [← hqueried, hempty] at hs'
      cases hs'
  · obtain ⟨front, hfront⟩ := Option.isSome_iff_exists.mp (List.isSome_head?.mpr hempty)
    obtain ⟨back, hback⟩ := Option.isSome_iff_exists.mp (List.getLast?_isSome.mpr hempty)
    rw [replaceRange_of_sorted h.sorted hsorted hnull hfront hback] at hreplace
    have hbatch := h.sorted.withBatch hsorted hfront hback
    obtain ⟨trimmed, htrim, hevicted⟩ := trimToObservedRanges_spec I { w.buffer with
      values := withBatch w.buffer.values (store.read details.fromTime details.toTime)
        front.timestamp back.timestamp } hbatch h.retention
    rw [hreplace] at htrim
    cases htrim
    have hfront' := (HistoryStore.mem_read.mp (List.mem_of_mem_head? hfront)).2.1
    have hback' := (HistoryStore.mem_read.mp (List.mem_of_getLast? hback)).2.2
    refine ⟨hbatch.sublist hevicted.sublist, hevicted.retention.trans h.retention, ?_, ?_,
      hevicted.areValid h.readyValid, ?_, ?_, fun _ => hcompleting, ?_⟩
    · intro entry hentry
      rw [hevicted.observerRanges] at hentry
      exact h.observers entry hentry
    · rw [ObservesAll, hevicted.observedRanges, hevicted.observerRanges]
      exact h.observes
    · -- What the batch replaces, it has again.
      refine ReadySound.evicted ?_ hevicted
      intro s hs hcovers
      refine (h.sound s hs hcovers).withBatch ?_
      intro hfirst hlast
      exact ⟨s, HistoryStore.mem_read.mpr ⟨hs, hfront'.trans hfirst, hlast.trans hback'⟩, rfl,
        Or.inl rfl⟩
    · rintro details' ⟨⟩
    · intro _
      refine ⟨hlt, fun s hs => ?_⟩
      have hs' : s ∈ store.read details.fromTime details.toTime := hqueried ▸ hs
      refine Present.evicted ?_ hevicted (hhull s hs')
      refine ⟨s, ?_, rfl, Or.inl rfl⟩
      exact List.mem_append_left _ (List.mem_append_right _ hs')

/-- The range of the read becomes ready while its samples are there. -/
theorem HistoryInv.ready (h : HistoryInv I store w) (hdelivering : w.Delivering)
    {values : List (DataValue V)} {fetcher : TimedDataFetcher}
    (hready : w.fetcher.addReady I w.buffer values none = (fetcher, buffer')) :
    HistoryInv I store { w with
      fetcher, buffer := buffer', completion := some (.notifyingReady, values) } := by
  obtain ⟨hlt, hpresent⟩ := h.delivered hdelivering
  obtain ⟨hquerying, hread⟩ := h.completing (by
    obtain ⟨values', hvalues'⟩ := hdelivering
    rw [hvalues']
    exact Option.some_ne_none _)
  have hreading : ∀ {P : HistoryReadRawDetails → Prop}, ∀ details, w.read = some details →
      P details := by
    intro P details hdetails
    rw [hread] at hdetails
    cases hdetails
  have hlater : ¬ HistoryWorld.Delivering { w with
      fetcher, buffer := buffer', completion := some (.notifyingReady, values) } := by
    rintro ⟨values', ⟨⟩⟩
  unfold TimedDataFetcher.addReady at hready
  dsimp only at hready
  split at hready
  · cases hready
    exact ⟨h.sorted, h.retention, h.observers, h.observes, h.readyValid, h.sound, hreading,
      fun _ => ⟨hquerying, hread⟩, fun hd => absurd hd hlater⟩
  · cases hready
    refine ⟨h.sorted, h.retention, h.observers, h.observes,
      I.areValid_union _ _ h.readyValid hlt, ?_, hreading, fun _ => ⟨hquerying, hread⟩,
      fun hd => absurd hd hlater⟩
    intro s hs hcovers
    -- A time that is ready now was before, or lies in the range that was read.
    rcases (I.covers_union _ _ h.readyValid hlt s.timestamp).mp hcovers with hold | hnew
    · exact h.sound s hs hold
    · exact hpresent s (HistoryStore.mem_read.mpr ⟨hs, hnew⟩)

theorem HistoryInv.finish (h : HistoryInv I store w) (hcompletion : w.completion ≠ none)
    (hs : w.step I .finish = some w') : HistoryInv I store w' := by
  obtain ⟨hquerying, hread⟩ := h.completing hcompletion
  have hidle : HistoryInv I store { w with
      fetcher := { w.fetcher with querying := false }, completion := none } := by
    refine ⟨h.sorted, h.retention, h.observers, h.observes, h.readyValid, h.sound, ?_, ?_, ?_⟩
    · intro details hdetails
      rw [show w.read = some details from hdetails] at hread
      cases hread
    · exact fun hne => absurd rfl hne
    · rintro ⟨values, ⟨⟩⟩
  -- The next gap is looked for from an idle fetcher.
  exact hidle.fetchNextGap hs

/-! ## §4  Runs -/

/-- From the answer of a read until its range is ready, the samples of the
answer lie in the hull of the observed ranges. -/
def HistoryWorld.KeepsAnswer (I : IntervalUtil) (store : HistoryStore V) (w : HistoryWorld V) :
    HistoryAction V → Prop
  | .answer _ => ∀ s ∈ w.queried store, InHull w.buffer.observedRanges s.timestamp
  | .addObserver observer range =>
      w.completion.any (·.1 = .notifyingUpdates) = true →
        ∀ ranges ∈ unionObserved I [] (insertOrAssign observer range w.buffer.observerRanges),
          ∀ s ∈ w.queried store, InHull ranges s.timestamp
  | .removeObserver observer =>
      w.completion.any (·.1 = .notifyingUpdates) = true →
        ∀ ranges ∈ unionObserved I [] (w.buffer.observerRanges.filter (·.1 ≠ observer)),
          ∀ s ∈ w.queried store, InHull ranges s.timestamp
  | _ => True

instance (w : HistoryWorld V) (a : HistoryAction V) : Decidable (w.KeepsAnswer I store a) := by
  apply HistoryAction.casesOn (motive := fun a => Decidable (w.KeepsAnswer I store a)) a <;>
    intros <;> unfold HistoryWorld.KeepsAnswer <;> infer_instance

theorem HistoryWorld.Delivering.any (h : w.Delivering) :
    w.completion.any (·.1 = .notifyingUpdates) = true := by
  obtain ⟨values, hvalues⟩ := h
  rw [hvalues]
  rfl

theorem HistoryInv.step {a : HistoryAction V} (h : HistoryInv I store w)
    (hen : w.enabled store a) (hkeeps : w.KeepsAnswer I store a) (hs : w.step I a = some w') :
    HistoryInv I store w' := by
  cases a with
  | addObserver observer range =>
      obtain ⟨buffer, hadd, hs⟩ := Option.bind_eq_some_iff.mp hs
      obtain ⟨hlt, hupdate⟩ := addObserver_checks hadd
      exact (h.updateObservedRanges (h.observers.insertOrAssign hlt)
        (fun hd => hkeeps hd.any) hupdate).fetchNextGap hs
  | removeObserver observer =>
      obtain ⟨buffer, hupdate, hs⟩ := Option.bind_eq_some_iff.mp hs
      have hobservers : ValidObservers { w.buffer with
          observerRanges := w.buffer.observerRanges.filter (·.1 ≠ observer) } := by
        intro entry hentry
        exact h.observers entry (List.mem_of_mem_filter hentry)
      exact (h.updateObservedRanges hobservers (fun hd => hkeeps hd.any) hupdate).fetchNextGap hs
  | insertOrUpdate value =>
      cases hs
      exact h.insertOrUpdate value
  | setNode hasNode =>
      cases hs
      exact ⟨h.sorted, h.retention, h.observers, h.observes, h.readyValid, h.sound, h.reading,
        h.completing, h.delivered⟩
  | answer values =>
      obtain ⟨buffer, hreplace, hs⟩ := Option.bind_eq_some_iff.mp hs
      cases hs
      unfold HistoryWorld.enabled at hen
      cases hread : w.read with
      | none =>
          rw [hread] at hen
          exact hen.elim
      | some details =>
          rw [hread] at hen
          obtain ⟨-, -, hfrom, hto, -⟩ := h.reading details hread
          refine h.answer hread hen ?_ hreplace
          rw [hfrom, hto]
          exact hkeeps
  | ready =>
      cases hs
      have hdelivering : w.Delivering := by
        unfold HistoryWorld.enabled at hen
        dsimp only at hen
        split at hen
        · rename_i values hcompletion
          exact ⟨values, hcompletion⟩
        · exact hen.elim
      exact h.ready hdelivering rfl
  | finish =>
      refine h.finish ?_ hs
      intro hnone
      unfold HistoryWorld.enabled at hen
      rw [hnone] at hen
      exact hen

/-- **Ready ranges hold their history.** In every run in which the answers stay
observed until their ranges are ready, an observer whose range is ready has all
stored samples of its range; and when there is no gap left every observer has. -/
theorem ready_ranges_sound (h : (historyMachine I store).Reaches (HistoryWorld.KeepsAnswer I store) w) :
    (∀ entry ∈ w.buffer.observerRanges,
        (∀ time, entry.2.Holds time → Covers w.buffer.readyRanges time) →
          ∀ s ∈ store.samples, entry.2.Holds s.timestamp → Present w.live w.buffer s) ∧
      ∃ gap, w.buffer.findNextGap I = some gap ∧
        (gap = none → ∀ entry ∈ w.buffer.observerRanges, entry.2.first ≠ .max →
          ∀ s ∈ store.samples, entry.2.Holds s.timestamp → Present w.live w.buffer s) := by
  have hinv : HistoryInv I store w :=
    h.invariant HistoryInv.init fun _ _ _ hinv hen hok hs => hinv.step hen hok hs
  have hgap : w.buffer.findNextGap I =
      some (firstGap w.buffer.observedRanges w.buffer.readyRanges) := by
    unfold findNextGap findFirstGap
    rw [check_of hinv.observes.1, check_of hinv.readyValid]
    rfl
  refine ⟨?_, _, hgap, ?_⟩
  · intro entry _ hready s hs hholds
    exact hinv.sound s hs (hready s.timestamp hholds)
  · intro hnone entry hentry hmax s hs hholds
    obtain ⟨range, hrange, hfirst, hsecond⟩ := hinv.observes.2 entry hentry hmax s.timestamp hholds
    obtain ⟨ready, hready, hfirst', hsecond'⟩ := firstGap_eq_none hnone range hrange
    exact hinv.sound s hs ⟨ready, hready, hfirst'.trans hfirst, hsecond.trans hsecond'⟩

/-- One sample, at 5. -/
def sampleAtFive : DataValue ℕ := ⟨1, 0, 5, 5⟩

def storeOfOne : HistoryStore ℕ where
  samples := [sampleAtFive]
  sorted := List.pairwise_singleton _ _
  sourceTimestamp_ne := by decide
  serverTimestamp_ne := by decide

/-- An observer of `[1, 10]` waits for its history and has it. -/
theorem ready_ranges_sound_once : ∃ w : HistoryWorld ℕ,
    w.buffer.observerRanges = [(1, ⟨1, 10⟩)] ∧ w.buffer.readyRanges = [⟨1, 10⟩] ∧
      Present w.live w.buffer sampleAtFive := by
  obtain ⟨w, hw, hp⟩ := Machine.exists_reaches_of_exec (M := historyMachine apartIntervals storeOfOne)
    (HistoryWorld.KeepsAnswer apartIntervals storeOfOne)
    (p := fun w => decide (w.buffer.observerRanges = [(1, ⟨1, 10⟩)]) &&
      decide (w.buffer.readyRanges = [⟨1, 10⟩]))
    [.addObserver 1 ⟨1, 10⟩, .answer [sampleAtFive], .ready, .finish] (by decide)
  obtain ⟨hobservers, hready⟩ := Bool.and_eq_true_iff.mp hp
  have hobservers := of_decide_eq_true hobservers
  have hready := of_decide_eq_true hready
  refine ⟨w, hobservers, hready, ?_⟩
  refine (ready_ranges_sound hw).1 (1, ⟨1, 10⟩) ?_ ?_ sampleAtFive ?_ ⟨by decide, by decide⟩
  · rw [hobservers]
    exact List.mem_singleton_self _
  · intro time hholds
    rw [hready]
    exact ⟨⟨1, 10⟩, List.mem_singleton_self _, hholds⟩
  · exact List.mem_singleton_self _

/-- The observer leaves while its history is read and another one comes later:
the range is ready, nothing is fetched, and the sample is missing. -/
theorem observer_change_loses_history : ∃ w : HistoryWorld ℕ,
    (historyMachine apartIntervals storeOfOne).Reachable w ∧
      w.completion = none ∧ w.read = none ∧ w.live = [] ∧
      w.buffer.observerRanges = [(2, ⟨1, 10⟩)] ∧ w.buffer.readyRanges = [⟨1, 10⟩] ∧
      w.buffer.findNextGap apartIntervals = some none ∧
      sampleAtFive ∈ storeOfOne.samples ∧ w.buffer.values = [] := by
  obtain ⟨w, hw, hp⟩ := Machine.exists_reachable_of_exec
    (M := historyMachine apartIntervals storeOfOne)
    (p := fun w => decide (w.completion = none ∧ w.read = none ∧ w.live = [] ∧
      w.buffer.observerRanges = [(2, ⟨1, 10⟩)] ∧ w.buffer.readyRanges = [⟨1, 10⟩] ∧
      w.buffer.findNextGap apartIntervals = some none ∧
      sampleAtFive ∈ storeOfOne.samples ∧ w.buffer.values = []))
    [.addObserver 1 ⟨1, 10⟩, .removeObserver 1, .answer [sampleAtFive], .ready, .finish,
      .addObserver 2 ⟨1, 10⟩] (by decide)
  exact ⟨w, hw, of_decide_eq_true hp⟩

end ScadaCommon
