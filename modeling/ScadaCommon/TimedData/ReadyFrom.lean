import Mathlib.Order.Bounds.Basic
import ScadaCommon.TimedData.ExpressionCallbackRuns

/-!
# From when on a range is ready

`GetReadyFrom` is asked for the start of the part of a range that reaches its
end and is ready. It takes the first interval that starts at the end of the
range or later, which is one too late.

§1 the ready suffix · §2 the interval that is found · §3 the ranges of an
expression · §4 when the answer is right.
-/

namespace ScadaCommon

open Foundation TimedDataBuffer

/-! ## §1  The ready suffix -/

/-- From the time to the end of the range lies in one ready interval. -/
def StartsReadySuffix (readyRanges : List DateTimeRange) (range : DateTimeRange)
    (time : DateTime) : Prop :=
  range.first ≤ time ∧ ∃ r ∈ readyRanges, r.first ≤ time ∧ range.second ≤ r.second

/-- The earliest such time where there is one before the end, `max` where there is
none. -/
def IsReadyFrom (readyRanges : List DateTimeRange) (range : DateTimeRange) (result : DateTime) :
    Prop :=
  ((∃ time < range.second, StartsReadySuffix readyRanges range time) →
      IsLeast {time | StartsReadySuffix readyRanges range time} result) ∧
    (result = .max ↔ ¬ ∃ time < range.second, StartsReadySuffix readyRanges range time)

/-- Sorted and disjoint intervals of times, none of them empty. -/
structure ReadyIntervals (readyRanges : List DateTimeRange) : Prop where
  sorted : readyRanges.Pairwise fun a b => a.second ≤ b.first
  nonempty : ∀ r ∈ readyRanges, r.first < r.second
  le_max : ∀ r ∈ readyRanges, r.second ≤ .max

section

variable {readyRanges : List DateTimeRange} {range r : DateTimeRange} {time : DateTime}

theorem ReadyIntervals.partitioned (h : ReadyIntervals readyRanges) (time : DateTime) :
    Partitioned (fun r : DateTimeRange => decide (r.first < time)) readyRanges := by
  refine h.sorted.imp_of_mem ?_
  intro a b ha _ hab hb
  have hlt := of_decide_eq_true hb
  exact decide_eq_true ((h.nonempty a ha).trans (hab.trans_lt hlt))

/-- An interval that starts in time and reaches the end gives a ready suffix. -/
theorem startsReadySuffix_of_mem (hr : r ∈ readyRanges) (hend : range.second ≤ r.second) :
    StartsReadySuffix readyRanges range (max range.first r.first) :=
  ⟨le_max_left _ _, r, hr, le_max_right _ _, hend⟩

/-! ## §2  The interval that is found -/

theorem getElem?_length_takeWhile {α : Type*} (p : α → Bool) (values : List α) :
    values[(values.takeWhile p).length]? = values.find? (!p ·) := by
  rw [← List.head?_drop, drop_length_takeWhile, List.find?_not_eq_head?_dropWhile]

theorem le_first_of_find? (h : readyRanges.find? (range.second ≤ ·.first) = some r) :
    range.second ≤ r.first := by
  have hfound := List.find?_some h
  exact of_decide_eq_true hfound

/-- **The first interval behind the range.** Its start is the answer. -/
theorem getReadyFrom_eq (h : ReadyIntervals readyRanges) (hrange : range.first < range.second) :
    getReadyFrom readyRanges range =
      ((readyRanges.find? (range.second ≤ ·.first)).map DateTimeRange.first).getD .max := by
  have hfound : readyRanges[partitionPoint (fun r => r.first < range.second) readyRanges]? =
      readyRanges.find? (range.second ≤ ·.first) := by
    rw [partitionPoint_eq (h.partitioned range.second), getElem?_length_takeWhile]
    congr 1
    funext r
    rw [← decide_not]
    exact decide_eq_decide.mpr not_lt
  unfold getReadyFrom
  rw [hfound]
  cases hfind : readyRanges.find? (range.second ≤ ·.first) with
  | none => rfl
  | some i =>
      have hstart := le_first_of_find? hfind
      have hlt := h.nonempty i (List.mem_of_find?_eq_some hfind)
      have hbehind : ¬ i.second ≤ range.first :=
        not_le.mpr ((hrange.trans_le hstart).trans hlt)
      dsimp only
      rw [if_neg hbehind, max_eq_right (hrange.le.trans hstart)]
      rfl

/-- The answer is never inside the range. -/
theorem getReadyFrom_ge (h : ReadyIntervals readyRanges) (hrange : range.first < range.second) :
    getReadyFrom readyRanges range = .max ∨ range.second ≤ getReadyFrom readyRanges range := by
  rw [getReadyFrom_eq h hrange]
  cases hfind : readyRanges.find? (range.second ≤ ·.first) with
  | none => exact Or.inl rfl
  | some i => exact Or.inr (le_first_of_find? hfind)

/-- An interval behind the range is taken for a ready part of it. -/
theorem getReadyFrom_ne_max (h : ReadyIntervals readyRanges) (hrange : range.first < range.second)
    (hr : r ∈ readyRanges) (hbehind : range.second ≤ r.first) :
    getReadyFrom readyRanges range ≠ .max := by
  rw [getReadyFrom_eq h hrange]
  cases hfind : readyRanges.find? (range.second ≤ ·.first) with
  | none =>
      have hnot := List.find?_eq_none.mp hfind r hr
      exact absurd (decide_eq_true hbehind) hnot
  | some i =>
      have hmem := List.mem_of_find?_eq_some hfind
      have hlt := h.nonempty i hmem
      have hle := h.le_max i hmem
      exact (lt_of_lt_of_le hlt hle).ne

/-- **When the answer is right.** No interval reaches the end of the range. -/
theorem isReadyFrom_iff (h : ReadyIntervals readyRanges) (hrange : range.first < range.second) :
    IsReadyFrom readyRanges range (getReadyFrom readyRanges range) ↔
      ∀ r ∈ readyRanges, r.second < range.second := by
  constructor
  · rintro ⟨hleast, hmax⟩ r hr
    by_contra hend
    have hsuffix := startsReadySuffix_of_mem hr (not_lt.mp hend)
    by_cases hex : ∃ time < range.second, StartsReadySuffix readyRanges range time
    -- The suffix starts before the end, where no answer is.
    · obtain ⟨time, hlt, htime⟩ := hex
      have hle := (hleast ⟨time, hlt, htime⟩).2 htime
      rcases getReadyFrom_ge h hrange with hanswer | hanswer
      · exact hmax.mp hanswer ⟨time, hlt, htime⟩
      · exact hlt.not_ge (hanswer.trans hle)
    -- The interval starts at the end or behind it.
    · have hbehind : range.second ≤ r.first := by
        by_contra hstart
        exact hex ⟨_, max_lt hrange (not_le.mp hstart), hsuffix⟩
      exact getReadyFrom_ne_max h hrange hr hbehind (hmax.mpr hex)
  · intro hbefore
    have hnone : ¬ ∃ time < range.second, StartsReadySuffix readyRanges range time := by
      rintro ⟨time, -, -, r, hr, -, hend⟩
      exact (hbefore r hr).not_ge hend
    have hfind : readyRanges.find? (range.second ≤ ·.first) = none := by
      rw [List.find?_eq_none]
      intro r hr hbehind
      have hstart := of_decide_eq_true hbehind
      exact ((h.nonempty r hr).trans (hbefore r hr)).not_ge hstart
    refine ⟨fun hex => absurd hex hnone, ?_⟩
    rw [getReadyFrom_eq h hrange, hfind]
    exact ⟨fun _ => hnone, fun _ => rfl⟩

end

/-! ## §3  The ranges of an expression -/

theorem TimedDataBuffer.readyRanges_insertOrUpdate {V : Type} (buffer : TimedDataBuffer V)
    (value : DataValue V) : (buffer.insertOrUpdate value).1.readyRanges = buffer.readyRanges := by
  unfold TimedDataBuffer.insertOrUpdate
  dsimp only
  repeat' split
  all_goals rfl

section

variable {V D : Type} {core : ExpressionCore V D} {evaluate : List V → D} {I : IntervalUtil}
  {e e' : ExpressionTimedData V} {histories : List (List (DataValue V))} {range : DateTimeRange}

theorem readyRanges_calculationLoop {fuel : ℕ} {operands operands' : List (Operand V)}
    {buffer buffer' : TimedDataBuffer V}
    (h : calculationLoop core evaluate range fuel operands buffer = some (operands', buffer')) :
    buffer'.readyRanges = buffer.readyRanges := by
  induction fuel generalizing operands buffer with
  | zero => cases h
  | succ fuel ih =>
      rw [calculationLoop] at h
      split at h
      · cases h
        rfl
      · obtain ⟨-, h⟩ := check_bind_eq_some.mp h
        refine (ih h).trans ?_
        unfold storeTotal
        dsimp only
        split
        · rfl
        · exact buffer.readyRanges_insertOrUpdate _

theorem readyRanges_calculateRange
    (h : e.calculateRange core evaluate histories range = some e') :
    e'.data.buffer.readyRanges = e.data.buffer.readyRanges := by
  obtain ⟨⟨operands, buffer⟩, hcalculate, h⟩ := Option.bind_eq_some_iff.mp h
  cases h
  obtain ⟨-, hcalculate⟩ := check_bind_eq_some.mp hcalculate
  obtain ⟨-, hcalculate⟩ := check_bind_eq_some.mp hcalculate
  obtain ⟨started, -, hloop⟩ := Option.bind_eq_some_iff.mp hcalculate
  exact readyRanges_calculationLoop hloop

theorem readyRanges_onTimedDataUpdates {values : List (DataValue V)}
    (h : e.onTimedDataUpdates core evaluate histories values = some e') :
    e'.data.buffer.readyRanges = e.data.buffer.readyRanges := by
  obtain ⟨-, h⟩ := check_bind_eq_some.mp h
  obtain ⟨front, -, h⟩ := Option.bind_eq_some_iff.mp h
  obtain ⟨back, -, h⟩ := Option.bind_eq_some_iff.mp h
  obtain ⟨-, h⟩ := check_bind_eq_some.mp h
  obtain ⟨buffer, hclear, h⟩ := Option.bind_eq_some_iff.mp h
  have hbuffer : buffer.readyRanges = e.data.buffer.readyRanges := by
    obtain ⟨-, rfl⟩ := clearRange_eq_some hclear
    rfl
  exact (readyRanges_calculateRange h).trans hbuffer

variable [DecidableEq V]

theorem readyRanges_calculateCurrent (e : ExpressionTimedData V) (core : ExpressionCore V D)
    (samples : SampleCore V) (evaluate : List V → D) (currents : List (DataValue V))
    (now : DateTime) :
    (e.calculateCurrent core samples evaluate currents now).data.buffer.readyRanges =
      e.data.buffer.readyRanges := by
  have hstored : ∀ value : DataValue V,
      (if value = e.data.current then e.data
        else (e.data.addPoint value).setCurrent value (e.data.isChange value)).buffer.readyRanges =
          e.data.buffer.readyRanges := by
    intro value
    split
    · rfl
    · unfold BaseTimedData.setCurrent BaseTimedData.addPoint
      dsimp only
      split
      · exact e.data.buffer.readyRanges_insertOrUpdate _
      · rfl
  exact hstored _

namespace ExpressionWorld

variable {s : ExpressionSetup V D} {w w' : ExpressionWorld V}

/-- No part of the expression's history is ready. -/
def NothingReady (w : ExpressionWorld V) : Prop :=
  ∀ e ∈ w.expression, ∀ time, ¬ Covers e.data.buffer.readyRanges time

theorem nothingReady_calculateCurrent (hnone : ∀ time, ¬ Covers e.data.buffer.readyRanges time)
    (w : ExpressionWorld V) (s : ExpressionSetup V D) (now : DateTime) :
    (w.calculateCurrent s e now).NothingReady := by
  rintro _ ⟨⟩ time
  rw [readyRanges_calculateCurrent]
  exact hnone time

/-- Nothing that the operands have ready is in a range the expression asks for. -/
theorem nothingReady_onObservedRangesChanged (h : ExpressionInv I w) (hI : I.Merges)
    (hmax : I.isValidInterval ⟨.max, .max⟩ = true) (he : e.Valid I)
    (hnone : ∀ time, ¬ Covers e.data.buffer.readyRanges time) {now : DateTime}
    (hs : w.onObservedRangesChanged I s e now = some w') : w'.NothingReady := by
  obtain ⟨w₁, hconnect, hinv, -⟩ := h.connectOperands hI hmax s
  unfold ExpressionWorld.onObservedRangesChanged at hs
  rw [he.fromTime, hconnect] at hs
  dsimp only [Option.bind_eq_bind, Option.bind_some] at hs
  obtain ⟨e', he', rfl⟩ := Option.map_eq_some_iff.mp hs
  split at he'
  · rename_i hhistorical
    rw [updateReadyRange_eq he s.core s.evaluate _ (hinv.readyRanges_le s) hhistorical] at he'
    cases he'
    exact nothingReady_calculateCurrent hnone w₁ s now
  · cases he'
    exact nothingReady_calculateCurrent hnone w₁ s now

/-- Observers come and go. -/
theorem nothingReady_updateObservedRanges (h : ExpressionInv I w) (hI : I.Merges)
    (hmax : I.isValidInterval ⟨.max, .max⟩ = true) (he : e.Valid I)
    (hnone : ∀ time, ¬ Covers e.data.buffer.readyRanges time) {now : DateTime}
    (hs : w.updateObservedRanges I s e now = some w') : w'.NothingReady := by
  have hvalid := he.updateObservedRanges s.samples (!e.data.buffer.observedRanges.isEmpty)
  refine nothingReady_onObservedRangesChanged h hI hmax hvalid ?_ hs
  intro time
  unfold BaseTimedData.updateObservedRanges
  dsimp only
  split
  · rw [readyRanges_insertOrUpdate]
    exact hnone time
  · exact hnone time

theorem nothingReady_take (h : ExpressionInv I w) (he : w.expression = some e)
    (hnone : ∀ time, ¬ Covers e.data.buffer.readyRanges time) {now : DateTime}
    {call : OperandCall V} (htake : w.take I s e now call = some e') :
    ∀ time, ¬ Covers e'.data.buffer.readyRanges time := by
  intro time
  cases call with
  | timedDataUpdates values =>
      rw [readyRanges_onTimedDataUpdates htake]
      exact hnone time
  | timedDataReady =>
      have hready : e.onTimedDataReady I s.core s.evaluate (w.histories s) (w.readyRanges s) =
          some e' := htake
      rw [onTimedDataReady_eq (h.expression e he) s.core s.evaluate _ (h.readyRanges_le s),
        Option.ite_none_right_eq_some] at hready
      obtain ⟨-, heq⟩ := hready
      cases heq
      exact hnone time
  | propertyChanged =>
      obtain rfl : e.calculateCurrent s.core s.samples s.evaluate (w.currents s) now = e' :=
        Option.some_inj.mp htake
      rw [readyRanges_calculateCurrent]
      exact hnone time

/-- **No step makes the expression ready.** -/
theorem NothingReady.step (hnone : w.NothingReady) (h : ExpressionInv I w) (hI : I.Merges)
    (hmax : I.isValidInterval ⟨.max, .max⟩ = true) {a : ExpressionAction V}
    (hen : w.enabled I s a) (hs : w.step I s a = some w') : w'.NothingReady := by
  cases a with
  | call i a =>
      obtain ⟨o, -, hs⟩ := Option.bind_eq_some_iff.mp hs
      cases hs
      exact hnone
  | beginUpdate i =>
      cases hs
      exact hnone
  | endUpdate i =>
      obtain ⟨batched, -, hs⟩ := Option.bind_eq_some_iff.mp hs
      cases hs
      exact hnone
  | updateCurrent i value =>
      obtain ⟨o, -, hs⟩ := Option.bind_eq_some_iff.mp hs
      cases hs
      exact hnone
  | setCurrent i =>
      unfold ExpressionWorld.step at hs
      dsimp only at hs
      split at hs
      · cases hs
      · cases hs
        exact hnone
  | notifyPropertyChanged i =>
      cases hs
      exact hnone
  | construct now =>
      obtain ⟨w₁, -, hs⟩ := Option.bind_eq_some_iff.mp hs
      cases hs
      exact nothingReady_calculateCurrent covers_nil w₁ s now
  | addObserver observer range now =>
      obtain ⟨e, he, hs⟩ := Option.bind_eq_some_iff.mp hs
      obtain ⟨buffer, hadd, hs⟩ := Option.bind_eq_some_iff.mp hs
      have hvalid := h.expression e he
      obtain ⟨buffer', hadd', hbuffer, hcovers⟩ :=
        hvalid.buffer.addObserver observer hen.2.1 hen.2.2.1 hen.2.2.2
      obtain rfl := Option.some_inj.mp (hadd.symm.trans hadd')
      exact nothingReady_updateObservedRanges h hI hmax
        (e := { e with data := { e.data with buffer } })
        ⟨hbuffer, hvalid.fromTime, hvalid.readyFrom⟩
        (fun time hcover => hnone e he time (hcovers time hcover)) hs
  | removeObserver observer now =>
      obtain ⟨e, he, hs⟩ := Option.bind_eq_some_iff.mp hs
      obtain ⟨buffer, hremove, hs⟩ := Option.bind_eq_some_iff.mp hs
      have hvalid := h.expression e he
      obtain ⟨buffer', hremove', hbuffer, hcovers⟩ := hvalid.buffer.removeObserver observer
      obtain rfl := Option.some_inj.mp (hremove.symm.trans hremove')
      exact nothingReady_updateObservedRanges h hI hmax
        (e := { e with data := { e.data with buffer } })
        ⟨hbuffer, hvalid.fromTime, hvalid.readyFrom⟩
        (fun time hcover => hnone e he time (hcovers time hcover)) hs
  | deliver k now =>
      obtain ⟨e, he, hs⟩ := Option.bind_eq_some_iff.mp hs
      obtain ⟨call, -, hs⟩ := Option.bind_eq_some_iff.mp hs
      obtain ⟨e', htake, hs⟩ := Option.bind_eq_some_iff.mp hs
      cases hs
      rintro _ ⟨⟩
      exact nothingReady_take h he (hnone e he) htake

/-- **An expression never reports a range as ready.** -/
theorem nothingReady_of_reachable (hI : I.Merges) (hmax : I.isValidInterval ⟨.max, .max⟩ = true)
    (h : (expressionMachine I s).Reachable w) : w.NothingReady := by
  have hinv : ExpressionInv I w ∧ w.NothingReady := by
    refine h.invariant (I := fun w => ExpressionInv I w ∧ w.NothingReady)
      ⟨ExpressionInv.init s, by rintro e ⟨⟩⟩ ?_
    rintro t a t' ⟨hinv, hnone⟩ hen - hs
    obtain ⟨t'', hs', hinv'⟩ := hinv.step hI hmax hen (hinv.accepts_of_step hs)
    obtain rfl := Option.some_inj.mp (hs'.symm.trans hs)
    exact ⟨hinv', hnone.step hinv hI hmax hen hs⟩
  exact hinv.2

end ExpressionWorld

end

/-! ## §4  When the answer is right -/

/-- **The start of the ready suffix.** The answer is right exactly where no ready
interval reaches the end of the range. An expression does not depend on it: what
it reports as ready, all operands have ready. -/
theorem ready_from_iff {V D : Type} [DecidableEq V] {I : IntervalUtil} {s : ExpressionSetup V D}
    {w : ExpressionWorld V} (readyRanges : List DateTimeRange) (range : DateTimeRange) :
    (ReadyIntervals readyRanges → range.first < range.second →
      (IsReadyFrom readyRanges range (getReadyFrom readyRanges range) ↔
        ∀ r ∈ readyRanges, r.second < range.second)) ∧
      (I.Merges → I.isValidInterval ⟨.max, .max⟩ = true → (expressionMachine I s).Reachable w →
        ∀ e ∈ w.expression, ∀ time, Covers e.data.buffer.readyRanges time →
          ∀ operandRanges ∈ w.readyRanges s, Covers operandRanges time) := by
  constructor
  · intro hready hrange
    exact isReadyFrom_iff hready hrange
  · intro hI hmax h e he time hcovers
    exact absurd hcovers (ExpressionWorld.nothingReady_of_reachable hI hmax h e he time)

theorem readyIntervals_singleton {r : DateTimeRange} (hr : r.first < r.second)
    (hmax : r.second ≤ .max) : ReadyIntervals [r] where
  sorted := List.pairwise_singleton _ _
  nonempty := by
    intro r' hr'
    rwa [List.mem_singleton.mp hr']
  le_max := by
    intro r' hr'
    rwa [List.mem_singleton.mp hr']

/-- All is ready up to 60, the range goes on to 80. The expression is observed
with history, as its operand. -/
theorem ready_from_iff_short :
    IsReadyFrom [⟨0, 60⟩] ⟨50, 80⟩ (getReadyFrom [⟨0, 60⟩] ⟨50, 80⟩) ∧
      ∃ w : ExpressionWorld (Option ℤ), w.expression.isSome = true ∧
        w.readyRanges plusFive = [[⟨1, 10⟩]] ∧
        ∀ e ∈ w.expression, ∀ time, Covers e.data.buffer.readyRanges time →
          ∀ readyRanges ∈ w.readyRanges plusFive, Covers readyRanges time := by
  have hready := readyIntervals_singleton (r := ⟨0, 60⟩) (by decide) (by decide)
  constructor
  · exact ((ready_from_iff (I := mergingIntervals) (s := plusFive)
      (w := { operands := fun _ => { current := plusFive.samples.default } })
      [⟨0, 60⟩] ⟨50, 80⟩).1 hready (by decide)).mpr (by decide)
  · obtain ⟨w, hw, hp⟩ := Machine.exists_reachable_of_exec
      (M := expressionMachine mergingIntervals plusFive)
      (p := fun w => decide (w.expression.isSome = true ∧
        w.readyRanges plusFive = [[⟨1, 10⟩]]))
      [.construct 1, .addObserver 1 ⟨1, 10⟩ 1, .call 0 (.addReadyRange ⟨1, 10⟩)] (by decide)
    obtain ⟨hsome, hready⟩ := of_decide_eq_true hp
    refine ⟨w, hsome, hready, ?_⟩
    exact (ready_from_iff [⟨0, 60⟩] ⟨50, 80⟩).2 merges_mergingIntervals rfl hw

/-- All of the range is ready, and nothing of it is said to be. What is ready only
from the end of the range on is said to be ready there. -/
theorem ready_range_missed :
    (ReadyIntervals [⟨0, 100⟩] ∧ StartsReadySuffix [⟨0, 100⟩] ⟨50, 80⟩ 50 ∧
      getReadyFrom [⟨0, 100⟩] ⟨50, 80⟩ = .max ∧
      ¬ IsReadyFrom [⟨0, 100⟩] ⟨50, 80⟩ (getReadyFrom [⟨0, 100⟩] ⟨50, 80⟩)) ∧
      ReadyIntervals [⟨90, 100⟩] ∧ getReadyFrom [⟨90, 100⟩] ⟨50, 80⟩ = 90 ∧
      ¬ IsReadyFrom [⟨90, 100⟩] ⟨50, 80⟩ (getReadyFrom [⟨90, 100⟩] ⟨50, 80⟩) := by
  have hlong := readyIntervals_singleton (r := ⟨0, 100⟩) (by decide) (by decide)
  have hlate := readyIntervals_singleton (r := ⟨90, 100⟩) (by decide) (by decide)
  refine ⟨⟨hlong, ⟨le_rfl, ⟨0, 100⟩, List.mem_singleton_self _, by decide⟩, by decide, ?_⟩, hlate,
    by decide, ?_⟩
  · rw [isReadyFrom_iff hlong (by decide)]
    decide
  · rw [isReadyFrom_iff hlate (by decide)]
    decide

end ScadaCommon
