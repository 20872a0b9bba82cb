import ScadaCommon.Foundation.Machine
import ScadaCommon.TimedData.TimedDataBuffer

/-!
# The calls of a buffer

What any call of a buffer leaves as it is: eviction only drops samples, and the
samples stay sorted.

§1 the calls · §2 eviction · §3 sorted samples.
-/

namespace ScadaCommon

open Foundation

variable {V : Type} {I : IntervalUtil} {buffer buffer' : TimedDataBuffer V}

/-! ## §1  The calls -/

inductive BufferAction (V : Type) where
  | insertOrUpdate (value : DataValue V)
  | replaceRange (values : List (DataValue V))
  | clearRange (range : DateTimeRange)
  | addReadyRange (range : DateTimeRange)
  | addObserver (observer : ObserverId) (range : DateTimeRange)
  | removeObserver (observer : ObserverId)
  | setRetention (retention : RetentionPolicy)

def TimedDataBuffer.step (I : IntervalUtil) (buffer : TimedDataBuffer V) :
    BufferAction V → Option (TimedDataBuffer V)
  | .insertOrUpdate value => some (buffer.insertOrUpdate value).1
  | .replaceRange values => buffer.replaceRange values
  | .clearRange range => buffer.clearRange range
  | .addReadyRange range => some (buffer.addReadyRange I range)
  | .addObserver observer range => buffer.addObserver I observer range
  | .removeObserver observer => buffer.removeObserver I observer
  | .setRetention retention => buffer.setRetention retention

/-- A buffer without an owner. -/
def bufferMachine (I : IntervalUtil) : Machine (TimedDataBuffer V) (BufferAction V) :=
  ⟨{}, fun _ _ => True, TimedDataBuffer.step I⟩

instance (I : IntervalUtil) (buffer : TimedDataBuffer V) (a : BufferAction V) :
    Decidable ((bufferMachine I).enabled buffer a) :=
  inferInstanceAs (Decidable True)

namespace TimedDataBuffer

/-! ## §2  Eviction -/

/-- What eviction leaves as it is. -/
structure Trimmed (buffer buffer' : TimedDataBuffer V) : Prop where
  observerRanges : buffer'.observerRanges = buffer.observerRanges
  observedRanges : buffer'.observedRanges = buffer.observedRanges
  retention : buffer'.retention = buffer.retention
  sublist : buffer'.values.Sublist buffer.values

theorem Trimmed.refl (buffer : TimedDataBuffer V) : Trimmed buffer buffer :=
  ⟨rfl, rfl, rfl, List.Sublist.refl _⟩

theorem Trimmed.trans {buffer'' : TimedDataBuffer V} (h : Trimmed buffer buffer')
    (h' : Trimmed buffer' buffer'') : Trimmed buffer buffer'' where
  observerRanges := h'.observerRanges.trans h.observerRanges
  observedRanges := h'.observedRanges.trans h.observedRanges
  retention := h'.retention.trans h.retention
  sublist := h'.sublist.trans h.sublist

theorem trimmed_trimToHull (buffer : TimedDataBuffer V) (hullFirst hullLast : DateTime) :
    Trimmed buffer (buffer.trimToHull hullFirst hullLast) :=
  ⟨rfl, rfl, rfl, (List.drop_sublist _ _).trans (List.take_sublist _ _)⟩

theorem trimmed_dropOldest (h : buffer.dropOldest = some buffer') : Trimmed buffer buffer' := by
  unfold dropOldest at h
  split at h
  · cases h
    exact Trimmed.refl _
  · split at h
    · dsimp only at h
      split at h
      · cases h
      · cases h
        exact ⟨rfl, rfl, rfl, List.drop_sublist _ _⟩
    · cases h
      exact Trimmed.refl _

theorem trimmed_trimToObservedRanges (buffer : TimedDataBuffer V)
    (h : buffer.trimToObservedRanges = some buffer') : Trimmed buffer buffer' := by
  unfold trimToObservedRanges at h
  split at h
  · cases h
    exact Trimmed.refl _
  · split at h
    · split at h
      · exact (trimmed_trimToHull _ _ _).trans (trimmed_dropOldest h)
      · cases h
        exact ⟨rfl, rfl, rfl, List.nil_sublist _⟩
    · exact trimmed_dropOldest h

/-! ## §3  Sorted samples -/

/-- `ClearRange` erases the samples between two positions. -/
theorem clearRange_eq_some {range : DateTimeRange} (h : buffer.clearRange range = some buffer') :
    (range.first ≠ .null ∧ (range.second = .null ∨ range.first ≤ range.second)) ∧
      buffer' = { buffer with
        values := buffer.values.take (buffer.clearBounds range).1 ++
          buffer.values.drop (buffer.clearBounds range).2 } := by
  obtain ⟨hnull, h⟩ := check_bind_eq_some.mp h
  obtain ⟨hvalid, h⟩ := check_bind_eq_some.mp h
  refine ⟨⟨hnull, hvalid⟩, ?_⟩
  dsimp only at h
  split at h
  · rename_i heq
    cases h
    rw [heq, List.take_append_drop]
  · cases h
    rfl

theorem clearBounds_le (hsorted : TimeSorted buffer.values) {range : DateTimeRange}
    (hvalid : range.second = .null ∨ range.first ≤ range.second) :
    (buffer.clearBounds range).1 ≤ (buffer.clearBounds range).2 := by
  unfold clearBounds
  dsimp only
  split
  · have hlength := lowerBound_le_upperBound hsorted (le_refl range.first)
    exact hlength.trans (upperBound_le_length hsorted range.first)
  · rename_i hnull
    exact lowerBound_le_upperBound hsorted (hvalid.resolve_left hnull)

theorem trimmed_clearRange (hsorted : TimeSorted buffer.values) {range : DateTimeRange}
    (h : buffer.clearRange range = some buffer') : Trimmed buffer buffer' := by
  obtain ⟨⟨-, hvalid⟩, rfl⟩ := clearRange_eq_some h
  refine ⟨rfl, rfl, rfl, ?_⟩
  show (buffer.values.take _ ++ buffer.values.drop _).Sublist buffer.values
  have hdrop := List.drop_sublist_drop_left buffer.values (clearBounds_le hsorted hvalid)
  have happend := (List.Sublist.refl (buffer.values.take (buffer.clearBounds range).1)).append hdrop
  rwa [List.take_append_drop] at happend

/-- A change of the observers drops samples at most. -/
theorem sublist_updateObservedRanges (buffer : TimedDataBuffer V)
    (h : buffer.updateObservedRanges I = some buffer') :
    buffer'.values.Sublist buffer.values := by
  obtain ⟨observedRanges, -, htrim⟩ := Option.bind_eq_some_iff.mp h
  exact (trimmed_trimToObservedRanges { buffer with observedRanges } htrim).sublist

/-- A batch that is not empty is put into its place, and the buffer trimmed. -/
theorem replaceRange_eq_some {values : List (DataValue V)}
    (h : buffer.replaceRange values = some buffer') :
    (sanitize values = [] ∧ buffer' = buffer) ∨
      ∃ front back replaced, (sanitize values).head? = some front ∧
        (sanitize values).getLast? = some back ∧
        insertOrReplace buffer.values (sanitize values) front.timestamp back.timestamp =
          some replaced ∧
        TimeSorted replaced ∧
        trimToObservedRanges { buffer with values := replaced } = some buffer' := by
  unfold replaceRange at h
  dsimp only at h
  split at h
  · rename_i front back hfront hback
    obtain ⟨replaced, hreplaced, h⟩ := Option.bind_eq_some_iff.mp h
    obtain ⟨hcheck, htrim⟩ := check_bind_eq_some.mp h
    exact Or.inr ⟨front, back, replaced, hfront, hback, hreplaced, isTimeSorted_iff.mp hcheck, htrim⟩
  · rename_i hnone
    cases h
    refine Or.inl ⟨?_, rfl⟩
    by_contra hne
    obtain ⟨front, hfront⟩ := Option.isSome_iff_exists.mp (List.isSome_head?.mpr hne)
    obtain ⟨back, hback⟩ := Option.isSome_iff_exists.mp (List.getLast?_isSome.mpr hne)
    exact hnone front back hfront hback

/-- **Every call keeps the samples sorted.** -/
theorem timeSorted_step {a : BufferAction V} (hsorted : TimeSorted buffer.values)
    (hstep : buffer.step I a = some buffer') : TimeSorted buffer'.values := by
  cases a with
  | insertOrUpdate value =>
      cases hstep
      exact timeSorted_insertOrUpdate hsorted value
  | replaceRange values =>
      rcases replaceRange_eq_some hstep with ⟨-, rfl⟩ | ⟨_, _, replaced, -, -, -, hreplaced, htrim⟩
      · exact hsorted
      · exact hreplaced.sublist (trimmed_trimToObservedRanges _ htrim).sublist
  | clearRange range => exact hsorted.sublist (trimmed_clearRange hsorted hstep).sublist
  | addReadyRange range =>
      cases hstep
      exact hsorted
  | addObserver observer range =>
      obtain ⟨-, hupdate⟩ := addObserver_checks hstep
      exact hsorted.sublist (sublist_updateObservedRanges { buffer with
        observerRanges := insertOrAssign observer range buffer.observerRanges } hupdate)
  | removeObserver observer =>
      exact hsorted.sublist (sublist_updateObservedRanges { buffer with
        observerRanges := buffer.observerRanges.filter (·.1 ≠ observer) } hstep)
  | setRetention retention =>
      exact hsorted.sublist (trimmed_trimToObservedRanges { buffer with retention } hstep).sublist

end TimedDataBuffer

end ScadaCommon
