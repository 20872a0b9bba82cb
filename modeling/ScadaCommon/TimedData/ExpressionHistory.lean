import Mathlib.Algebra.GroupWithZero.Nat
import Mathlib.Algebra.Ring.Int.Defs
import Mathlib.Data.List.MinMax
import ScadaCommon.TimedData.ExpressionTimedData

/-!
# Expression history against pointwise evaluation

What the history of an expression should be, and when
`CalculateValuesInRange` gives it. The loop stamps what it calculates with the
latest time its items had *before* the round, and takes one sample of every
operand a round whatever their times. So it is right only where the whole range
has a single time to calculate at.

§1 pointwise evaluation · §2 operands · §3 rounds · §4 the loop · §5 the three
courses of the loop · §6 when the history is pointwise.
-/

namespace ScadaCommon

open TimedDataBuffer

variable {V D : Type} {range : DateTimeRange} {time : DateTime}
  {values : List (DataValue V)} {histories : List (List (DataValue V))}

/-! ## §1  Pointwise evaluation -/

/-- A null end is no end. -/
def InRange (range : DateTimeRange) (time : DateTime) : Prop :=
  range.first ≤ time ∧ (range.second = .null ∨ time ≤ range.second)

/-- The last sample at or before a time. -/
def lastUpTo (values : List (DataValue V)) (time : DateTime) : Option (DataValue V) :=
  (values.filter (·.timestamp ≤ time)).getLast?

def itemsAt (histories : List (List (DataValue V))) (time : DateTime) : List (DataValue V) :=
  histories.filterMap (lastUpTo · time)

/-- A time of the range at which some operand has a sample, and every operand
one at or before it. -/
def ExpectedAt (histories : List (List (DataValue V))) (range : DateTimeRange) (time : DateTime) :
    Prop :=
  InRange range time ∧ (∃ values ∈ histories, ∃ v ∈ values, v.timestamp = time) ∧
    ∀ values ∈ histories, ∃ v ∈ values, v.timestamp ≤ time

/-- In the range the buffer holds, at each expected time, what the expression
gives on the last samples of the operands (nothing if that is null), and nothing
else. -/
def PointwiseHistory (core : ExpressionCore V D) (evaluate : List V → D)
    (histories : List (List (DataValue V))) (range : DateTimeRange) (buffer : TimedDataBuffer V) :
    Prop :=
  ∀ time, InRange range time → ∀ x,
    (∃ v ∈ buffer.values, v.timestamp = time ∧ v.value = x) ↔
      ExpectedAt histories range time ∧ x = calculate core evaluate (itemsAt histories time) ∧
        core.isNullVariant x = false

/-- Histories as buffers keep them. -/
def ValidHistories (histories : List (List (DataValue V))) : Prop :=
  ∀ values ∈ histories, values ≠ [] ∧ TimeSorted values ∧ ∀ v ∈ values, v.timestamp ≠ .null

theorem ValidHistories.sorted (h : ValidHistories histories) :
    ∀ values ∈ histories, TimeSorted values :=
  fun values hvalues => (h values hvalues).2.1

theorem exists_lastUpTo (h : ∃ v ∈ values, v.timestamp ≤ time) :
    ∃ u, lastUpTo values time = some u ∧ u ∈ values ∧ u.timestamp ≤ time := by
  obtain ⟨v, hv, hle⟩ := h
  have hmem : v ∈ values.filter (·.timestamp ≤ time) :=
    List.mem_filter.mpr ⟨hv, decide_eq_true hle⟩
  obtain ⟨u, hu⟩ := Option.isSome_iff_exists.mp
    (List.getLast?_isSome.mpr (List.ne_nil_of_mem hmem))
  obtain ⟨humem, hule⟩ := List.mem_filter.mp (List.mem_of_getLast? hu)
  exact ⟨u, hu, humem, of_decide_eq_true hule⟩

/-- The sample up to which nothing comes is the last one. -/
theorem lastUpTo_eq_some {v : DataValue V} (h : TimeSorted values) (hv : v ∈ values)
    (hle : v.timestamp ≤ time)
    (hlast : ∀ w ∈ values, w.timestamp ≤ time → w.timestamp ≤ v.timestamp) :
    lastUpTo values time = some v := by
  have hmem : v ∈ values.filter (·.timestamp ≤ time) :=
    List.mem_filter.mpr ⟨hv, decide_eq_true hle⟩
  obtain ⟨u, hu, humem, hule⟩ := exists_lastUpTo ⟨v, hv, hle⟩
  have hsorted : TimeSorted (values.filter (·.timestamp ≤ time)) := h.sublist List.filter_sublist
  obtain ⟨front, hfront⟩ := Option.isSome_iff_exists.mp
    (List.isSome_head?.mpr (List.ne_nil_of_mem hmem))
  have hvu := (hsorted.mem_range hfront hu hmem).2
  rw [hu, h.eq_of_timestamp humem hv (le_antisymm (hlast u humem hule) hvu)]

/-- Positions are ordered as times. -/
theorem TimeSorted.lt_of_getElem? {i j : ℕ} {v w : DataValue V} (h : TimeSorted values)
    (hi : values[i]? = some v) (hj : values[j]? = some w) (hlt : i < j) :
    v.timestamp < w.timestamp := by
  obtain ⟨hi', rfl⟩ := List.getElem?_eq_some_iff.mp hi
  obtain ⟨hj', rfl⟩ := List.getElem?_eq_some_iff.mp hj
  exact List.pairwise_iff_getElem.mp h i j hi' hj' hlt

theorem TimeSorted.lt_of_timestamp {i j : ℕ} {v w : DataValue V} (h : TimeSorted values)
    (hi : values[i]? = some v) (hj : values[j]? = some w) (hlt : v.timestamp < w.timestamp) :
    i < j := by
  by_contra hge
  rcases Nat.lt_or_eq_of_le (not_lt.mp hge) with hji | rfl
  · exact lt_asymm hlt (h.lt_of_getElem? hj hi hji)
  · rw [hi] at hj
    cases hj
    exact lt_irrefl _ hlt

/-- From the lower bound on nothing lies before the time. -/
theorem le_of_lowerBound_le {i : ℕ} {v : DataValue V} (h : TimeSorted values)
    (hi : lowerBound values time ≤ i) (hv : values[i]? = some v) : time ≤ v.timestamp := by
  have hdrop : (values.drop (lowerBound values time))[i - lowerBound values time]? = some v := by
    rw [List.getElem?_drop, Nat.add_sub_cancel' hi]
    exact hv
  have hmem := List.mem_of_getElem? hdrop
  rw [drop_lowerBound h] at hmem
  exact of_decide_eq_true (List.mem_filter.mp hmem).2

/-- Before the lower bound everything does. -/
theorem lowerBound_le_of_le {i : ℕ} {v : DataValue V} (h : TimeSorted values)
    (hv : values[i]? = some v) (hle : time ≤ v.timestamp) : lowerBound values time ≤ i := by
  by_contra hlt
  have htake : (values.take (lowerBound values time))[i]? = some v := by
    rw [List.getElem?_take_of_lt (not_le.mp hlt)]
    exact hv
  have hmem := List.mem_of_getElem? htake
  rw [take_lowerBound h] at hmem
  exact not_lt.mpr hle (of_decide_eq_true (List.mem_filter.mp hmem).2)

/-! ## §2  Operands -/

namespace Operand

/-- Where an operand is: still at its first sample from the start of the range
on; without such a sample, at its last one; or behind a sample of the range. -/
inductive State (range : DateTimeRange) (operand : Operand V) : Prop
  | ahead : operand.iterator = lowerBound operand.values range.first →
      operand.values[operand.iterator]? = some operand.value → State range operand
  | behind : operand.values[operand.iterator]? = none →
      operand.values.getLast? = some operand.value →
      (∀ v ∈ operand.values, v.timestamp < range.first) → State range operand
  | taken {i : ℕ} : operand.iterator = i + 1 → lowerBound operand.values range.first ≤ i →
      operand.values[i]? = some operand.value → InRange range operand.value.timestamp →
      State range operand

/-- The operand has a sample in the range or only samples before it. -/
def Reached (range : DateTimeRange) (values : List (DataValue V)) : Prop :=
  (∃ v ∈ values, InRange range v.timestamp) ∨ ∀ v ∈ values, v.timestamp < range.first

variable {operand : Operand V}

theorem pending_eq_some {v : DataValue V} (h : operand.pending range = some v) :
    operand.values[operand.iterator]? = some v ∧
      (range.second = .null ∨ v.timestamp ≤ range.second) := by
  unfold pending at h
  split at h
  · cases h
  · rename_i w hw
    split at h
    · cases h
    · rename_i hbefore
      cases h
      refine ⟨hw, ?_⟩
      by_contra hnot
      rw [not_or, not_le] at hnot
      exact hbefore hnot

theorem pending_eq_none (h : operand.pending range = none) {v : DataValue V}
    (hv : operand.values[operand.iterator]? = some v) :
    range.second ≠ .null ∧ range.second < v.timestamp := by
  unfold pending at h
  rw [hv] at h
  dsimp only at h
  split at h
  · assumption
  · cases h

theorem advance_of_none (h : operand.pending range = none) : operand.advance range = operand := by
  unfold advance
  rw [h]

theorem advance_of_some {v : DataValue V} (h : operand.pending range = some v) :
    operand.advance range = { operand with value := v, iterator := operand.iterator + 1 } := by
  unfold advance
  rw [h]

@[simp] theorem advance_values : (operand.advance range).values = operand.values := by
  unfold advance
  split <;> rfl

theorem State.mem (h : operand.State range) : operand.value ∈ operand.values := by
  cases h with
  | ahead _ hvalue => exact List.mem_of_getElem? hvalue
  | behind _ hvalue _ => exact List.mem_of_getLast? hvalue
  | taken _ _ hvalue _ => exact List.mem_of_getElem? hvalue

/-- A pending sample lies in the range. -/
theorem State.inRange_of_pending {v : DataValue V} (h : operand.State range)
    (hsorted : TimeSorted operand.values) (hv : operand.pending range = some v) :
    InRange range v.timestamp := by
  obtain ⟨hat, hsecond⟩ := pending_eq_some hv
  refine ⟨?_, hsecond⟩
  cases h with
  | ahead heq _ => exact le_of_lowerBound_le hsorted heq.ge hat
  | behind hnone _ _ =>
      rw [hnone] at hat
      cases hat
  | taken heq hle _ _ => exact le_of_lowerBound_le hsorted (by omega) hat

theorem State.advance (h : operand.State range) (hsorted : TimeSorted operand.values) :
    (operand.advance range).State range := by
  cases hpending : operand.pending range with
  | none =>
      rw [advance_of_none hpending]
      exact h
  | some v =>
      have hin := h.inRange_of_pending hsorted hpending
      obtain ⟨hv, -⟩ := pending_eq_some hpending
      rw [advance_of_some hpending]
      exact .taken rfl (lowerBound_le_of_le hsorted hv hin.1) hv hin

/-- Items only move on in time. -/
theorem State.le_advance (h : operand.State range) (hsorted : TimeSorted operand.values) :
    operand.value.timestamp ≤ (operand.advance range).value.timestamp := by
  cases hpending : operand.pending range with
  | none => rw [advance_of_none hpending]
  | some v =>
      obtain ⟨hv, -⟩ := pending_eq_some hpending
      rw [advance_of_some hpending]
      cases h with
      | ahead _ hvalue =>
          rw [hv] at hvalue
          cases hvalue
          exact le_rfl
      | behind hnone _ _ =>
          rw [hnone] at hv
          cases hv
      | taken heq _ hvalue _ => exact (hsorted.lt_of_getElem? hvalue hv (by omega)).le

/-- The item of an operand that the range reaches is never behind the range. -/
theorem State.before_or_inRange (h : operand.State range) (hsorted : TimeSorted operand.values)
    (hreached : Reached range operand.values) :
    operand.value.timestamp < range.first ∨ InRange range operand.value.timestamp := by
  cases h with
  | ahead heq hvalue =>
      rcases hreached with ⟨v, hv, hfirst, hsecond⟩ | hbefore
      · right
        refine ⟨le_of_lowerBound_le hsorted heq.ge hvalue, ?_⟩
        obtain ⟨j, hj⟩ := List.mem_iff_getElem?.mp hv
        have hle := lowerBound_le_of_le hsorted hj hfirst
        rcases Nat.lt_or_eq_of_le (heq ▸ hle) with hlt | rfl
        · exact hsecond.imp_right fun h =>
            (hsorted.lt_of_getElem? hvalue hj hlt).le.trans h
        · rw [hvalue] at hj
          cases hj
          exact hsecond
      · exact Or.inl (hbefore _ (List.mem_of_getElem? hvalue))
  | behind _ hvalue hbefore => exact Or.inl (hbefore _ (List.mem_of_getLast? hvalue))
  | taken _ _ _ hin => exact Or.inr hin

/-- The item of an operand that is behind the range is its last sample. -/
theorem State.not_lt_of_before {w : DataValue V} (h : operand.State range)
    (hsorted : TimeSorted operand.values) (hbefore : operand.value.timestamp < range.first)
    (hw : w ∈ operand.values) : ¬ operand.value.timestamp < w.timestamp := by
  cases h with
  | ahead heq hvalue =>
      exact absurd hbefore (not_lt.mpr (le_of_lowerBound_le hsorted heq.ge hvalue))
  | behind _ hvalue _ =>
      obtain ⟨front, hfront⟩ := Option.isSome_iff_exists.mp
        (List.isSome_head?.mpr (List.ne_nil_of_mem hw))
      exact not_lt.mpr (hsorted.mem_range hfront hvalue hw).2
  | taken _ _ _ hin => exact absurd hbefore (not_lt.mpr hin.1)

/-- An operand with a sample in the range has one pending before it moves. -/
theorem pending_ne_none {v : DataValue V} (hsorted : TimeSorted operand.values)
    (hunmoved : operand.iterator = lowerBound operand.values range.first)
    (hv : v ∈ operand.values) (hin : InRange range v.timestamp) :
    operand.pending range ≠ none := by
  intro hnone
  obtain ⟨j, hj⟩ := List.mem_iff_getElem?.mp hv
  have hle : operand.iterator ≤ j := hunmoved ▸ lowerBound_le_of_le hsorted hj hin.1
  have hlen : operand.iterator < operand.values.length :=
    hle.trans_lt (List.getElem?_eq_some_iff.mp hj).1
  obtain ⟨hnull, hbehind⟩ := pending_eq_none hnone (List.getElem?_eq_getElem hlen)
  refine not_lt.mpr ?_ hbehind
  refine le_trans ?_ (hin.2.resolve_left hnull)
  rcases Nat.lt_or_eq_of_le hle with hlt | rfl
  · exact (hsorted.lt_of_getElem? (List.getElem?_eq_getElem hlen) hj hlt).le
  · rw [List.getElem?_eq_getElem hlen] at hj
    cases hj
    exact le_rfl

theorem State.first_le (h : operand.State range) (hsorted : TimeSorted operand.values)
    (hexists : ∃ v ∈ operand.values, range.first ≤ v.timestamp) :
    range.first ≤ operand.value.timestamp := by
  cases h with
  | ahead heq hvalue => exact le_of_lowerBound_le hsorted heq.ge hvalue
  | behind _ _ hbefore =>
      obtain ⟨v, hv, hle⟩ := hexists
      exact absurd (hbefore v hv) (not_lt.mpr hle)
  | taken _ _ _ hin => exact hin.1

/-- An operand that is not reached stays at a sample behind the range. -/
theorem State.stuck (h : operand.State range) (hsorted : TimeSorted operand.values)
    (hreached : ¬ Reached range operand.values) :
    operand.pending range = none ∧ range.second ≠ .null ∧
      range.second < operand.value.timestamp := by
  rw [Reached, not_or] at hreached
  have hmem := h.mem
  cases h with
  | ahead heq hvalue =>
      have hfirst := le_of_lowerBound_le hsorted heq.ge hvalue
      have hbehind : range.second ≠ .null ∧ range.second < operand.value.timestamp := by
        by_contra hnot
        refine hreached.1 ⟨operand.value, hmem, hfirst, ?_⟩
        by_contra hsecond
        rw [not_or, not_le] at hsecond
        exact hnot hsecond
      refine ⟨?_, hbehind⟩
      unfold pending
      rw [hvalue]
      exact if_pos hbehind
  | behind _ _ hbefore => exact absurd hbefore hreached.2
  | taken _ _ _ hin => exact absurd ⟨operand.value, hmem, hin⟩ hreached.1

/-- A reached operand without a sample left is at its last sample of the
range. -/
theorem State.lastUpTo (h : operand.State range) (hsorted : TimeSorted operand.values)
    (hreached : Reached range operand.values) (hpending : operand.pending range = none)
    (hin : InRange range time)
    (hlatest : ∀ v ∈ operand.values, InRange range v.timestamp → v.timestamp ≤ time) :
    ScadaCommon.lastUpTo operand.values time = some operand.value := by
  have hvalue : operand.value.timestamp ≤ time := by
    rcases h.before_or_inRange hsorted hreached with hbefore | hin'
    · exact hbefore.le.trans hin.1
    · exact hlatest _ h.mem hin'
  refine lastUpTo_eq_some hsorted h.mem hvalue ?_
  intro w hw hle
  by_contra hlt
  rw [not_le] at hlt
  obtain ⟨j, hj⟩ := List.mem_iff_getElem?.mp hw
  -- A later sample up to `time` would be pending.
  have hnext : ∀ v, operand.values[operand.iterator]? = some v → v.timestamp ≤ w.timestamp →
      False := by
    intro v hv hvw
    obtain ⟨hnull, hbehind⟩ := pending_eq_none hpending hv
    exact not_lt.mpr (hvw.trans (hle.trans (hin.2.resolve_left hnull))) hbehind
  cases h with
  | ahead _ hat => exact hnext _ hat hlt.le
  | behind _ hlast _ =>
      obtain ⟨front, hfront⟩ := Option.isSome_iff_exists.mp
        (List.isSome_head?.mpr (List.ne_nil_of_mem hw))
      exact not_lt.mpr (hsorted.mem_range hfront hlast hw).2 hlt
  | taken heq _ hat _ =>
      have hij := hsorted.lt_of_timestamp hat hj hlt
      have hlen : operand.iterator < operand.values.length := by
        have := (List.getElem?_eq_some_iff.mp hj).1
        omega
      refine hnext _ (List.getElem?_eq_getElem hlen) ?_
      rcases Nat.lt_or_eq_of_le (show operand.iterator ≤ j by omega) with hlt' | rfl
      · exact (hsorted.lt_of_getElem? (List.getElem?_eq_getElem hlen) hj hlt').le
      · rw [List.getElem?_eq_getElem hlen] at hj
        cases hj
        exact le_rfl

theorem start_spec (range : DateTimeRange) (hsorted : TimeSorted values) (hne : values ≠ []) :
    ∃ operand, start range.first values = some operand ∧ operand.values = values ∧
      operand.State range ∧ operand.iterator = lowerBound operand.values range.first := by
  unfold start
  dsimp only
  cases hat : values[lowerBound values range.first]? with
  | some v => exact ⟨_, rfl, rfl, .ahead rfl hat, rfl⟩
  | none =>
      have hbefore : ∀ v ∈ values, v.timestamp < range.first := by
        intro v hv
        by_contra hle
        obtain ⟨j, hj⟩ := List.mem_iff_getElem?.mp hv
        have hj' := lowerBound_le_of_le hsorted hj (not_lt.mp hle)
        have hlen := (List.getElem?_eq_some_iff.mp hj).1
        rw [List.getElem?_eq_none_iff] at hat
        omega
      obtain ⟨back, hback⟩ := Option.isSome_iff_exists.mp (List.getLast?_isSome.mpr hne)
      have hle := (hbefore back (List.mem_of_getLast? hback)).le
      rw [hback]
      refine ⟨⟨values, lowerBound values range.first, back⟩, ?_, rfl, .behind hat hback hbefore,
        rfl⟩
      show (check (back.timestamp ≤ range.first)).bind _ = _
      rw [check_of hle]
      rfl

end Operand

/-! ## §3  Rounds -/

variable {core : ExpressionCore V D} {evaluate : List V → D} {operands : List (Operand V)}
  {buffer : TimedDataBuffer V}

/-- The latest time of the items. -/
def LatestTime (operands : List (Operand V)) (time : DateTime) : Prop :=
  (∃ operand ∈ operands, operand.value.timestamp = time) ∧
    ∀ operand ∈ operands, operand.value.timestamp ≤ time

theorem visit_calculationFinished (core : ExpressionCore V D) (range : DateTimeRange)
    (operands : List (Operand V)) (round : CalculationRound) :
    (operands.foldl (CalculationRound.visit core range) round).calculationFinished = true ↔
      round.calculationFinished = true ∧ ∀ operand ∈ operands, operand.pending range = none := by
  induction operands generalizing round with
  | nil => simp
  | cons operand operands ih =>
      rw [List.foldl_cons, ih, List.forall_mem_cons, ← and_assoc]
      refine and_congr_left fun _ => ?_
      unfold CalculationRound.visit
      cases operand.pending range with
      | none => simp
      | some v => simp

/-- `update_time` after visiting some operands, once it is not null. -/
theorem visit_updateTime (core : ExpressionCore V D)
    (hnull : ∀ operand ∈ operands, operand.value.timestamp ≠ .null)
    (round : CalculationRound) (hround : round.updateTime ≠ .null) :
    let time := (operands.foldl (CalculationRound.visit core range) round).updateTime
    (time = round.updateTime ∨ ∃ operand ∈ operands, operand.value.timestamp = time) ∧
      round.updateTime ≤ time ∧ ∀ operand ∈ operands, operand.value.timestamp ≤ time := by
  induction operands generalizing round with
  | nil => simp
  | cons operand operands ih =>
      -- A round with a time takes the later of the two.
      have hvisit : (round.visit core range operand).updateTime =
          max round.updateTime operand.value.timestamp := by
        have hlater : (if round.updateTime = .null ∨
            round.updateTime < operand.value.timestamp then operand.value.timestamp
            else round.updateTime) = max round.updateTime operand.value.timestamp := by
          by_cases hlt : round.updateTime < operand.value.timestamp
          · rw [if_pos (Or.inr hlt), max_eq_right hlt.le]
          · rw [if_neg (by simp [hround, hlt]), max_eq_left (not_lt.mp hlt)]
        unfold CalculationRound.visit
        cases operand.pending range with
        | none => exact hlater
        | some v => exact hlater
      have hne : (round.visit core range operand).updateTime ≠ .null := by
        rw [hvisit]
        rcases max_choice round.updateTime operand.value.timestamp with heq | heq
        · rw [heq]
          exact hround
        · rw [heq]
          exact hnull operand (List.mem_cons_self ..)
      obtain ⟨hfrom, hround', hall⟩ :=
        ih (fun o ho => hnull o (List.mem_cons_of_mem _ ho)) (round.visit core range operand) hne
      rw [List.foldl_cons]
      rw [hvisit] at hfrom hround'
      refine ⟨?_, (le_max_left _ _).trans hround', ?_⟩
      · rcases hfrom with heq | ⟨o, ho, heq⟩
        · rcases max_choice round.updateTime operand.value.timestamp with hmax | hmax
          · exact Or.inl (heq.trans hmax)
          · exact Or.inr ⟨operand, List.mem_cons_self .., (heq.trans hmax).symm⟩
        · exact Or.inr ⟨o, List.mem_cons_of_mem _ ho, heq⟩
      · intro o ho
        rcases List.mem_cons.mp ho with rfl | ho
        · exact (le_max_right _ _).trans hround'
        · exact hall o ho

/-- A round is stamped with the latest time its items had before it. -/
theorem latestTime_visit (core : ExpressionCore V D) (range : DateTimeRange)
    (hne : operands ≠ []) (hnull : ∀ operand ∈ operands, operand.value.timestamp ≠ .null) :
    LatestTime operands
      (operands.foldl (CalculationRound.visit core range) {}).updateTime := by
  obtain ⟨operand, rest, rfl⟩ := List.exists_cons_of_ne_nil hne
  have hvisit : (({} : CalculationRound).visit core range operand).updateTime =
      operand.value.timestamp := by
    unfold CalculationRound.visit
    cases operand.pending range with
    | none => rfl
    | some v => rfl
  have hround : (({} : CalculationRound).visit core range operand).updateTime ≠ .null := by
    rw [hvisit]
    exact hnull operand (List.mem_cons_self ..)
  obtain ⟨hfrom, hle, hall⟩ := visit_updateTime core
    (fun o ho => hnull o (List.mem_cons_of_mem _ ho)) _ hround
  rw [hvisit] at hfrom hle
  rw [List.foldl_cons]
  constructor
  · rcases hfrom with heq | ⟨o, ho, heq⟩
    · exact ⟨operand, List.mem_cons_self .., heq.symm⟩
    · exact ⟨o, List.mem_cons_of_mem _ ho, heq⟩
  · intro o ho
    rcases List.mem_cons.mp ho with rfl | ho
    · exact hle
    · exact hall o ho

/-- What is stored in the range carries no server timestamp, so that nothing
stored later is refused. -/
structure StoredInRange (range : DateTimeRange) (buffer : TimedDataBuffer V) : Prop where
  sorted : TimeSorted buffer.values
  serverTimestamp : ∀ v ∈ buffer.values, InRange range v.timestamp → v.serverTimestamp = .null

theorem mem_withBatch_single {v u : DataValue V} :
    v ∈ withBatch values [u] u.timestamp u.timestamp ↔
      v = u ∨ v ∈ values ∧ v.timestamp ≠ u.timestamp := by
  unfold withBatch
  rw [List.mem_append, List.mem_append, List.mem_filter, List.mem_filter, List.mem_singleton,
    decide_eq_true_eq, decide_eq_true_eq]
  constructor
  · rintro ((⟨hv, hlt⟩ | rfl) | ⟨hv, hlt⟩)
    · exact Or.inr ⟨hv, hlt.ne⟩
    · exact Or.inl rfl
    · exact Or.inr ⟨hv, hlt.ne'⟩
  · rintro (rfl | ⟨hv, hne⟩)
    · exact Or.inl (Or.inr rfl)
    · rcases lt_or_gt_of_ne hne with hlt | hgt
      · exact Or.inl (Or.inl ⟨hv, hlt⟩)
      · exact Or.inr ⟨hv, hgt⟩

/-- The total of a round. -/
def totalOf (core : ExpressionCore V D) (evaluate : List V → D) (operands : List (Operand V)) : V :=
  calculate core evaluate (operands.map (·.value))

variable {round : CalculationRound} {v : DataValue V}

theorem storeTotal_of_null (h : core.isNullVariant (totalOf core evaluate operands) = true) :
    storeTotal core evaluate buffer round operands = buffer :=
  if_pos h

/-- What storing a total does. -/
theorem storeTotal_cases (core : ExpressionCore V D) (evaluate : List V → D)
    (round : CalculationRound) (operands : List (Operand V)) (h : TimeSorted buffer.values) :
    storeTotal core evaluate buffer round operands = buffer ∨
      round.updateTime ≠ .null ∧ ∃ u : DataValue V, u.timestamp = round.updateTime ∧
        u.value = totalOf core evaluate operands ∧ u.serverTimestamp = .null ∧
        storeTotal core evaluate buffer round operands =
          { buffer with values := withBatch buffer.values [u] u.timestamp u.timestamp } := by
  unfold storeTotal
  dsimp only
  split
  · exact Or.inl rfl
  · rcases insertOrUpdate_spec h
      (⟨calculate core evaluate (operands.map (·.value)), round.totalQualifier, round.updateTime,
        .null⟩ : DataValue V) with ⟨heq, -⟩ | ⟨hnull, heq⟩
    · exact Or.inl heq
    · exact Or.inr ⟨hnull, _, rfl, rfl, rfl, heq⟩

theorem StoredInRange.storeTotal (h : StoredInRange range buffer) :
    StoredInRange range (storeTotal core evaluate buffer round operands) := by
  rcases storeTotal_cases core evaluate round operands h.sorted with heq | ⟨-, u, -, -, hserver, heq⟩
  · rw [heq]
    exact h
  · rw [heq]
    refine ⟨h.sorted.withBatch (List.pairwise_singleton _ _) rfl rfl, ?_⟩
    intro v hv hin
    rcases mem_withBatch_single.mp hv with rfl | ⟨hv, -⟩
    · exact hserver
    · exact h.serverTimestamp v hv hin

/-- Other times are not touched. -/
theorem mem_storeTotal_of_ne (h : TimeSorted buffer.values)
    (hne : v.timestamp ≠ round.updateTime) :
    v ∈ (storeTotal core evaluate buffer round operands).values ↔ v ∈ buffer.values := by
  rcases storeTotal_cases core evaluate round operands h with heq | ⟨-, u, htime, -, -, heq⟩
  · rw [heq]
  · rw [heq, mem_withBatch_single, htime]
    constructor
    · rintro (rfl | ⟨hv, -⟩)
      · exact absurd htime hne
      · exact hv
    · exact fun hv => Or.inr ⟨hv, hne⟩

/-- In the range a total that is not null is stored, over what was there. -/
theorem exists_storeTotal (h : StoredInRange range buffer) (hnull : round.updateTime ≠ .null)
    (hin : InRange range round.updateTime)
    (htotal : core.isNullVariant (totalOf core evaluate operands) = false) :
    ∃ v ∈ (storeTotal core evaluate buffer round operands).values,
      v.timestamp = round.updateTime ∧ v.value = totalOf core evaluate operands := by
  unfold storeTotal
  dsimp only
  rw [show core.isNullVariant (calculate core evaluate (operands.map (·.value))) = false
    from htotal]
  generalize hu : (⟨calculate core evaluate (operands.map (·.value)), round.totalQualifier,
    round.updateTime, .null⟩ : DataValue V) = u
  have htime : u.timestamp = round.updateTime := by rw [← hu]
  have hvalue : u.value = totalOf core evaluate operands := by
    rw [← hu]
    rfl
  have hserver : u.serverTimestamp = .null := by rw [← hu]
  rcases insertOrUpdate_spec h.sorted u with ⟨-, hnull' | ⟨w, hw, hsame, hlesser⟩⟩ | ⟨-, heq⟩
  · exact absurd (htime.symm.trans hnull') hnull
  · -- Nothing in the range has a later server timestamp.
    have hwserver := h.serverTimestamp w hw (by rw [hsame, htime]; exact hin)
    unfold DataValue.isLesser at hlesser
    rw [show u.sourceTimestamp = w.sourceTimestamp from hsame.symm, hserver, hwserver] at hlesser
    simp at hlesser
  · refine ⟨u, ?_, htime, hvalue⟩
    show u ∈ (buffer.insertOrUpdate u).1.values
    rw [heq]
    exact mem_withBatch_single.mpr (Or.inl rfl)

/-! ## §4  The loop -/

/-- The operands of a loop over given histories. -/
structure Running (range : DateTimeRange) (histories : List (List (DataValue V)))
    (operands : List (Operand V)) : Prop where
  values : operands.map (·.values) = histories
  state : ∀ operand ∈ operands, operand.State range

variable {operands' : List (Operand V)}

theorem Running.mem (h : Running range histories operands) {operand : Operand V}
    (ho : operand ∈ operands) : operand.values ∈ histories :=
  h.values ▸ List.mem_map_of_mem ho

theorem Running.advance (h : Running range histories operands)
    (hsorted : ∀ values ∈ histories, TimeSorted values) :
    Running range histories (operands.map (·.advance range)) where
  values := by
    rw [← h.values, List.map_map]
    refine List.map_congr_left fun operand _ => ?_
    exact Operand.advance_values
  state := by
    intro operand ho
    obtain ⟨o, ho', rfl⟩ := List.mem_map.mp ho
    exact (h.state o ho').advance (hsorted _ (h.mem ho'))

/-- The samples that are left. -/
def remaining (operands : List (Operand V)) : ℕ :=
  (operands.map fun operand => operand.values.length - operand.iterator).sum

theorem remaining_advance_le (range : DateTimeRange) (operands : List (Operand V)) :
    remaining (operands.map (·.advance range)) ≤ remaining operands := by
  unfold remaining
  induction operands with
  | nil => exact le_rfl
  | cons operand operands ih =>
      rw [List.map_cons, List.map_cons, List.map_cons, List.sum_cons, List.sum_cons]
      refine Nat.add_le_add ?_ ih
      unfold Operand.advance
      split
      · exact le_rfl
      · exact Nat.sub_le_sub_left (Nat.le_succ _) _

/-- A round that is not the last one takes a sample. -/
theorem remaining_advance_lt (h : ∃ operand ∈ operands, operand.pending range ≠ none) :
    remaining (operands.map (·.advance range)) < remaining operands := by
  obtain ⟨operand, ho, hpending⟩ := h
  obtain ⟨front, back, rfl⟩ := List.append_of_mem ho
  obtain ⟨v, hv⟩ := Option.ne_none_iff_exists'.mp hpending
  have hlt : (operand.advance range).values.length - (operand.advance range).iterator <
      operand.values.length - operand.iterator := by
    have hlen := (List.getElem?_eq_some_iff.mp (Operand.pending_eq_some hv).1).1
    rw [Operand.advance_of_some hv]
    dsimp only
    omega
  have hfront := remaining_advance_le range front
  have hback := remaining_advance_le range back
  unfold remaining at *
  rw [List.map_append, List.map_append, List.map_append, List.map_cons, List.map_cons,
    List.map_cons, List.sum_append, List.sum_append, List.sum_cons, List.sum_cons]
  omega

/-- **Loop rule**: what every round keeps holds when the loop ends, and it
ends, with no operand at a sample of the range. -/
theorem calculationLoop_rule (core : ExpressionCore V D) (evaluate : List V → D)
    (P : List (Operand V) → TimedDataBuffer V → Prop) {fuel : ℕ}
    (hvalid : ValidHistories histories) (hne : histories ≠ [])
    (hstep : ∀ operands buffer (round : CalculationRound), Running range histories operands →
      P operands buffer → (∃ operand ∈ operands, operand.pending range ≠ none) →
      LatestTime operands round.updateTime → round.updateTime ≠ .null →
      P (operands.map (·.advance range))
        (storeTotal core evaluate buffer round (operands.map (·.advance range))))
    (h : Running range histories operands) (hP : P operands buffer)
    (hfuel : remaining operands < fuel) :
    ∃ operands' buffer', calculationLoop core evaluate range fuel operands buffer =
        some (operands', buffer') ∧
      Running range histories operands' ∧ P operands' buffer' ∧
      ∀ operand ∈ operands', operand.pending range = none := by
  induction fuel generalizing operands buffer with
  | zero => omega
  | succ fuel ih =>
      have hnull : ∀ operand ∈ operands, operand.value.timestamp ≠ .null := fun o ho =>
        (hvalid _ (h.mem ho)).2.2 _ (h.state o ho).mem
      have hops : operands ≠ [] := by
        rintro rfl
        exact hne h.values.symm
      have hlatest := latestTime_visit core range hops hnull
      have hfinished := visit_calculationFinished core range operands {}
      rw [calculationLoop]
      by_cases hlast : ∀ operand ∈ operands, operand.pending range = none
      · rw [if_pos (hfinished.mpr ⟨rfl, hlast⟩)]
        have hstay : operands.map (·.advance range) = operands := by
          refine (List.map_congr_left fun o ho => ?_).trans (List.map_id _)
          exact Operand.advance_of_none (hlast o ho)
        rw [hstay]
        exact ⟨operands, buffer, rfl, h, hP, hlast⟩
      · have hround : (operands.foldl (CalculationRound.visit core range) {}).updateTime ≠
            .null := by
          obtain ⟨o, ho, heq⟩ := hlatest.1
          rw [← heq]
          exact hnull o ho
        have hmore : ∃ operand ∈ operands, operand.pending range ≠ none := by
          by_contra hno
          refine hlast fun o ho => ?_
          by_contra hpending
          exact hno ⟨o, ho, hpending⟩
        rw [if_neg (fun hf => hlast (hfinished.mp hf).2), check_of hround]
        refine ih (h.advance hvalid.sorted) (hstep operands buffer _ h hP hmore hlatest hround) ?_
        have := remaining_advance_lt hmore
        omega

/-- No sample has been taken. -/
def Unmoved (range : DateTimeRange) (operands : List (Operand V)) : Prop :=
  ∀ operand ∈ operands, operand.iterator = lowerBound operand.values range.first

/-- The operands before the loop. -/
theorem exists_started (range : DateTimeRange)
    (hvalid : ∀ values ∈ histories, values ≠ [] ∧ TimeSorted values) :
    ∃ operands, histories.mapM (Operand.start range.first) = some operands ∧
      Running range histories operands ∧ Unmoved range operands := by
  induction histories with
  | nil => exact ⟨[], rfl, ⟨rfl, by simp⟩, by rintro operand ⟨⟩⟩
  | cons values histories ih =>
      obtain ⟨operands, hrest, hrunning, hunmoved⟩ :=
        ih fun v hv => hvalid v (List.mem_cons_of_mem _ hv)
      obtain ⟨hne, hsorted⟩ := hvalid values (List.mem_cons_self ..)
      obtain ⟨operand, hstart, hvalues, hstate, hiterator⟩ :=
        Operand.start_spec range hsorted hne
      refine ⟨operand :: operands, ?_, ⟨?_, ?_⟩, ?_⟩
      · rw [List.mapM_cons, hstart, hrest]
        rfl
      · rw [List.map_cons, hvalues, hrunning.values]
      · intro o ho
        rcases List.mem_cons.mp ho with rfl | ho
        · exact hstate
        · exact hrunning.state o ho
      · intro o ho
        rcases List.mem_cons.mp ho with rfl | ho
        · exact hiterator
        · exact hunmoved o ho

theorem remaining_le_sum (h : operands.map (·.values) = histories) :
    remaining operands ≤ (histories.map List.length).sum := by
  subst h
  unfold remaining
  induction operands with
  | nil => exact le_rfl
  | cons operand operands ih =>
      rw [List.map_cons, List.map_cons, List.map_cons, List.sum_cons, List.sum_cons]
      exact Nat.add_le_add (Nat.sub_le _ _) ih

/-! ## §5  The courses of the loop -/

/-- The latest time of the range at which an operand has a sample. -/
structure LatestSample (histories : List (List (DataValue V))) (range : DateTimeRange)
    (time : DateTime) : Prop where
  inRange : InRange range time
  exists_eq : ∃ values ∈ histories, ∃ v ∈ values, v.timestamp = time
  le : ∀ values ∈ histories, ∀ v ∈ values, InRange range v.timestamp → v.timestamp ≤ time

/-- The range reaches every operand. -/
def AllReached (histories : List (List (DataValue V))) (range : DateTimeRange) : Prop :=
  ∀ values ∈ histories, Operand.Reached range values

/-- Some operand has only null samples in the range, and its last sample is null
at every time to calculate at. -/
def NullOperand (core : ExpressionCore V D) (histories : List (List (DataValue V)))
    (range : DateTimeRange) : Prop :=
  ∃ values ∈ histories,
    (∀ v ∈ values, InRange range v.timestamp → core.isNullVariant v.value = true) ∧
      ∀ time, ExpectedAt histories range time → ∀ v, lastUpTo values time = some v →
        core.isNullVariant v.value = true

instance (range : DateTimeRange) (time : DateTime) : Decidable (InRange range time) :=
  inferInstanceAs (Decidable (_ ∧ _))

theorem exists_latestSample
    (h : ∃ values ∈ histories, ∃ v ∈ values, InRange range v.timestamp) :
    ∃ time, LatestSample histories range time := by
  let times := (histories.flatten.filter fun v => InRange range v.timestamp).map (·.timestamp)
  have hmem : ∀ time, time ∈ times ↔
      ∃ values ∈ histories, ∃ v ∈ values, InRange range v.timestamp ∧ v.timestamp = time := by
    intro time
    simp only [times, List.mem_map, List.mem_filter, List.mem_flatten, decide_eq_true_eq]
    constructor
    · rintro ⟨v, ⟨⟨values, hvalues, hv⟩, hin⟩, rfl⟩
      exact ⟨values, hvalues, v, hv, hin, rfl⟩
    · rintro ⟨values, hvalues, v, hv, hin, rfl⟩
      exact ⟨v, ⟨⟨values, hvalues, hv⟩, hin⟩, rfl⟩
  obtain ⟨values, hvalues, v, hv, hin⟩ := h
  have hlength : 0 < times.length :=
    List.length_pos_of_mem ((hmem v.timestamp).mpr ⟨values, hvalues, v, hv, hin, rfl⟩)
  obtain ⟨values', hvalues', v', hv', hin', heq⟩ :=
    (hmem _).mp (List.maximum_of_length_pos_mem hlength)
  refine ⟨times.maximum_of_length_pos hlength, heq ▸ hin', ⟨values', hvalues', v', hv', heq⟩, ?_⟩
  intro w hw u hu hin
  exact List.le_maximum_of_length_pos_of_mem ((hmem u.timestamp).mpr ⟨w, hw, u, hu, hin, rfl⟩)
    hlength

theorem LatestSample.expectedAt (h : LatestSample histories range time)
    (hvalid : ValidHistories histories) (hall : AllReached histories range) :
    ExpectedAt histories range time := by
  refine ⟨h.inRange, h.exists_eq, ?_⟩
  intro values hvalues
  rcases hall values hvalues with ⟨v, hv, hin⟩ | hbefore
  · exact ⟨v, hv, h.le values hvalues v hv hin⟩
  · obtain ⟨v, hv⟩ := List.exists_mem_of_ne_nil values (hvalid values hvalues).1
    exact ⟨v, hv, (hbefore v hv).le.trans h.inRange.1⟩

/-- Items stay at or before the latest sample. -/
theorem Running.le_latest (h : Running range histories operands) (hvalid : ValidHistories histories)
    (hall : AllReached histories range) (hlatest : LatestSample histories range time)
    {operand : Operand V} (ho : operand ∈ operands) : operand.value.timestamp ≤ time := by
  have hmem := h.mem ho
  have hstate := h.state operand ho
  rcases hstate.before_or_inRange (hvalid _ hmem).2.1 (hall _ hmem) with hbefore | hin
  · exact hbefore.le.trans hlatest.inRange.1
  · exact hlatest.le _ hmem _ hstate.mem hin

theorem calculate_null {items : List (DataValue V)}
    (h : ∃ v ∈ items, core.isNullVariant v.value = true) :
    core.isNullVariant (calculate core evaluate items) = true := by
  unfold calculate
  rw [if_pos (List.any_eq_true.mpr h)]
  exact core.isNull_null

section

variable (h : Running range histories operands) (hvalid : ValidHistories histories)
  (hall : AllReached histories range)
include h hvalid hall

/-- The latest time of the items is one to calculate at. -/
theorem Running.expectedAt (hsome : ∃ values ∈ histories, ∃ v ∈ values, InRange range v.timestamp)
    (htime : LatestTime operands time) : ExpectedAt histories range time := by
  obtain ⟨⟨operand, ho, heq⟩, hle⟩ := htime
  have hmem := h.mem ho
  have hstate := h.state operand ho
  refine ⟨?_, ⟨operand.values, hmem, operand.value, hstate.mem, heq⟩, ?_⟩
  · rcases hstate.before_or_inRange (hvalid _ hmem).2.1 (hall _ hmem) with hbefore | hin
    · -- The operand with a sample in the range is not before it.
      obtain ⟨values, hvalues, v, hv, hin⟩ := hsome
      rw [← h.values] at hvalues
      obtain ⟨o, ho', rfl⟩ := List.mem_map.mp hvalues
      have hfirst := (h.state o ho').first_le (hvalid _ (h.mem ho')).2.1 ⟨v, hv, hin.1⟩
      rw [heq] at hbefore
      exact absurd (hfirst.trans (hle o ho')) (not_le.mpr hbefore)
    · exact heq ▸ hin
  · intro values hvalues
    rw [← h.values] at hvalues
    obtain ⟨o, ho', rfl⟩ := List.mem_map.mp hvalues
    exact ⟨o.value, (h.state o ho').mem, hle o ho'⟩

/-- When no operand is at a sample of the range any more, the items are those of
the latest sample. -/
theorem Running.itemsAt_eq (hlatest : LatestSample histories range time)
    (hend : ∀ operand ∈ operands, operand.pending range = none) :
    itemsAt histories time = operands.map (·.value) := by
  have hlast : ∀ operand ∈ operands, lastUpTo operand.values time = some operand.value := by
    intro operand ho
    have hmem := h.mem ho
    exact (h.state operand ho).lastUpTo (hvalid _ hmem).2.1 (hall _ hmem) (hend operand ho)
      hlatest.inRange (hlatest.le _ hmem)
  rw [itemsAt, ← h.values, List.filterMap_map]
  clear h hend hall hlatest
  induction operands with
  | nil => rfl
  | cons operand operands ih =>
      have hhead : ((fun values => lastUpTo values time) ∘ fun o : Operand V => o.values) operand =
          some operand.value := hlast operand (List.mem_cons_self ..)
      rw [List.filterMap_cons_some hhead, List.map_cons,
        ih fun o ho => hlast o (List.mem_cons_of_mem _ ho)]

/-- With a null operand there is nothing to store. -/
theorem Running.totalOf_null (hlatest : LatestSample histories range time)
    (hnull : NullOperand core histories range) :
    core.isNullVariant (totalOf core evaluate operands) = true := by
  obtain ⟨values, hvalues, hin, hlast⟩ := hnull
  rw [← h.values] at hvalues
  obtain ⟨o, ho, rfl⟩ := List.mem_map.mp hvalues
  have hmem := h.mem ho
  have hstate := h.state o ho
  apply calculate_null
  refine ⟨o.value, List.mem_map_of_mem ho, ?_⟩
  rcases hstate.before_or_inRange (hvalid _ hmem).2.1 (hall _ hmem) with hbefore | hin'
  · -- An item before the range is the last sample of the operand.
    apply hlast time (hlatest.expectedAt hvalid hall)
    apply lastUpTo_eq_some (hvalid _ hmem).2.1 hstate.mem (hbefore.le.trans hlatest.inRange.1)
    intro w hw _
    by_contra hlt
    exact hstate.not_lt_of_before (hvalid _ hmem).2.1 hbefore hw (not_le.mp hlt)
  · exact hin _ hstate.mem hin'

end

/-- Without samples in the range, or with an operand that it does not reach, or
with a null one, nothing is stored in the range. -/
theorem loop_stores_nothing (core : ExpressionCore V D) (evaluate : List V → D) {fuel : ℕ}
    (hvalid : ValidHistories histories) (hne : histories ≠ [])
    (hnone : (∀ values ∈ histories, ∀ v ∈ values, ¬ InRange range v.timestamp) ∨
      ¬ AllReached histories range ∨ NullOperand core histories range)
    (h : Running range histories operands) (hstored : StoredInRange range buffer)
    (hempty : ∀ v ∈ buffer.values, ¬ InRange range v.timestamp)
    (hfuel : remaining operands < fuel) :
    ∃ operands' buffer', calculationLoop core evaluate range fuel operands buffer =
        some (operands', buffer') ∧ ∀ v ∈ buffer'.values, ¬ InRange range v.timestamp := by
  have hrule := calculationLoop_rule core evaluate
    (fun _ buffer => StoredInRange range buffer ∧
      ∀ v ∈ buffer.values, ¬ InRange range v.timestamp)
    hvalid hne ?_ h ⟨hstored, hempty⟩ hfuel
  · obtain ⟨operands', buffer', hloop, -, ⟨-, hempty'⟩, -⟩ := hrule
    exact ⟨operands', buffer', hloop, hempty'⟩
  · rintro operands buffer round hrun ⟨hstored, hempty⟩ ⟨operand, ho, hpending⟩ hlatest -
    refine ⟨hstored.storeTotal, ?_⟩
    -- The pending sample lies in the range.
    obtain ⟨v, hv⟩ := Option.ne_none_iff_exists'.mp hpending
    have hmem := List.mem_of_getElem? (Operand.pending_eq_some hv).1
    have hin := (hrun.state operand ho).inRange_of_pending (hvalid _ (hrun.mem ho)).2.1 hv
    by_cases hall : AllReached histories range
    · rcases hnone with hnone | hnot | hnull
      · exact absurd hin (hnone _ (hrun.mem ho) v hmem)
      · exact absurd hall hnot
      · obtain ⟨time, hlatest⟩ := exists_latestSample ⟨_, hrun.mem ho, v, hmem, hin⟩
        rw [storeTotal_of_null ((hrun.advance hvalid.sorted).totalOf_null hvalid hall hlatest hnull)]
        exact hempty
    · unfold AllReached at hall
      push Not at hall
      obtain ⟨values, hvalues, hreached⟩ := hall
      rw [← hrun.values] at hvalues
      obtain ⟨o, ho', rfl⟩ := List.mem_map.mp hvalues
      obtain ⟨-, hnull, hbehind⟩ :=
        (hrun.state o ho').stuck (hvalid _ (hrun.mem ho')).2.1 hreached
      intro v hv hin
      have hne : v.timestamp ≠ round.updateTime := by
        intro heq
        have hle := hin.2.resolve_left hnull
        rw [heq] at hle
        exact not_lt.mpr ((hlatest.2 o ho').trans hle) hbehind
      exact hempty v ((mem_storeTotal_of_ne hstored.sorted hne).mp hv) hin

/-- When the items start at the latest sample of the range, everything is stored
there, and last of all the total of the last samples. -/
theorem loop_at_latest (core : ExpressionCore V D) (evaluate : List V → D) {fuel : ℕ}
    (hvalid : ValidHistories histories) (hne : histories ≠ [])
    (hall : AllReached histories range) (hlatest : LatestSample histories range time)
    (h : Running range histories operands) (hunmoved : Unmoved range operands)
    (hstart : LatestTime operands time) (hstored : StoredInRange range buffer)
    (hempty : ∀ v ∈ buffer.values, ¬ InRange range v.timestamp)
    (hfuel : remaining operands < fuel) :
    ∃ operands' buffer', calculationLoop core evaluate range fuel operands buffer =
        some (operands', buffer') ∧ StoredInRange range buffer' ∧
      (∀ v ∈ buffer'.values, InRange range v.timestamp → v.timestamp = time) ∧
      (core.isNullVariant (calculate core evaluate (itemsAt histories time)) = false →
        ∃ v ∈ buffer'.values, v.timestamp = time ∧
          v.value = calculate core evaluate (itemsAt histories time)) := by
  have hrule := calculationLoop_rule core evaluate
    (fun operands buffer => StoredInRange range buffer ∧
      (∃ operand ∈ operands, operand.value.timestamp = time) ∧
      (∀ v ∈ buffer.values, InRange range v.timestamp → v.timestamp = time) ∧
      (Unmoved range operands ∨
        (core.isNullVariant (totalOf core evaluate operands) = false →
          ∃ v ∈ buffer.values, v.timestamp = time ∧ v.value = totalOf core evaluate operands)))
    hvalid hne ?_ h ⟨hstored, hstart.1, fun v hv hin => absurd hin (hempty v hv), Or.inl hunmoved⟩
    hfuel
  · obtain ⟨operands', buffer', hloop, hrun', ⟨hstored', -, honly, hlast⟩, hend⟩ := hrule
    have htotal : totalOf core evaluate operands' =
        calculate core evaluate (itemsAt histories time) := by
      rw [totalOf, hrun'.itemsAt_eq hvalid hall hlatest hend]
    refine ⟨operands', buffer', hloop, hstored', honly, ?_⟩
    rcases hlast with hunmoved' | hlast
    · -- The operand with the latest sample has moved.
      obtain ⟨values, hvalues, v, hv, heq⟩ := hlatest.exists_eq
      rw [← hrun'.values] at hvalues
      obtain ⟨o, ho, rfl⟩ := List.mem_map.mp hvalues
      have hpending := Operand.pending_ne_none (hvalid _ (hrun'.mem ho)).2.1 (hunmoved' o ho) hv
        (heq.symm ▸ hlatest.inRange)
      exact absurd (hend o ho) hpending
    · rw [htotal] at hlast
      exact hlast
  · rintro operands buffer round hrun ⟨hstored, hat, honly, -⟩ - hround hnull
    have hrun' := hrun.advance hvalid.sorted
    have htime : round.updateTime = time := by
      obtain ⟨⟨o, ho, heq⟩, hle⟩ := hround
      obtain ⟨o', ho', heq'⟩ := hat
      refine le_antisymm ?_ ?_
      · rw [← heq]
        exact hrun.le_latest hvalid hall hlatest ho
      · rw [← heq']
        exact hle o' ho'
    refine ⟨hstored.storeTotal, ?_, ?_, Or.inr ?_⟩
    · obtain ⟨o, ho, heq⟩ := hat
      have ho' : o.advance range ∈ operands.map (·.advance range) := List.mem_map_of_mem ho
      refine ⟨o.advance range, ho', le_antisymm (hrun'.le_latest hvalid hall hlatest ho') ?_⟩
      rw [← heq]
      exact (hrun.state o ho).le_advance (hvalid _ (hrun.mem ho)).2.1
    · intro v hv hin
      by_contra hother
      exact hother (honly v ((mem_storeTotal_of_ne hstored.sorted (by rwa [htime])).mp hv) hin)
    · intro htotal
      rw [← htime]
      exact exists_storeTotal hstored hnull (htime ▸ hlatest.inRange) htotal

/-- A choice of one sample of every operand. -/
abbrev Choice (histories : List (List (DataValue V))) (items : List (DataValue V)) : Prop :=
  List.Forall₂ (fun v values => v ∈ values) items histories

theorem Running.choice (h : Running range histories operands) :
    Choice histories (operands.map (·.value)) := by
  rw [← h.values, Choice, List.forall₂_map_left_iff, List.forall₂_map_right_iff]
  exact List.forall₂_same.mpr fun o ho => (h.state o ho).mem

/-- When the items start before the latest sample of the range, what is stored
at the time they start at was calculated from a later sample. -/
theorem loop_before_latest (core : ExpressionCore V D) (evaluate : List V → D) {fuel : ℕ}
    {latest : DateTime} (hvalid : ValidHistories histories) (hne : histories ≠ [])
    (hall : AllReached histories range) (hlatest : LatestSample histories range latest)
    (htotal : ∀ items, Choice histories items →
      core.isNullVariant (calculate core evaluate items) = false)
    (h : Running range histories operands) (hstart : LatestTime operands time)
    (hin : InRange range time) (hlt : time < latest) (hstored : StoredInRange range buffer)
    (hfuel : remaining operands < fuel) :
    ∃ operands' buffer', calculationLoop core evaluate range fuel operands buffer =
        some (operands', buffer') ∧ StoredInRange range buffer' ∧
      ∃ items, Choice histories items ∧ (∃ v ∈ items, time < v.timestamp) ∧
        ∃ v ∈ buffer'.values, v.timestamp = time ∧ v.value = calculate core evaluate items := by
  have hrule := calculationLoop_rule core evaluate
    (fun operands buffer => StoredInRange range buffer ∧
      (LatestTime operands time ∨ (∃ operand ∈ operands, time < operand.value.timestamp) ∧
        ∃ items, Choice histories items ∧ (∃ v ∈ items, time < v.timestamp) ∧
          ∃ v ∈ buffer.values, v.timestamp = time ∧ v.value = calculate core evaluate items))
    hvalid hne ?_ h ⟨hstored, Or.inl hstart⟩ hfuel
  · obtain ⟨operands', buffer', hloop, hrun', ⟨hstored', hcourse⟩, hend⟩ := hrule
    refine ⟨operands', buffer', hloop, hstored', ?_⟩
    rcases hcourse with hstill | ⟨-, hitems⟩
    · -- The operand with the latest sample ends there.
      obtain ⟨values, hvalues, v, hv, heq⟩ := hlatest.exists_eq
      rw [← hrun'.values] at hvalues
      obtain ⟨o, ho, rfl⟩ := List.mem_map.mp hvalues
      have hmem := hrun'.mem ho
      have hlast := (hrun'.state o ho).lastUpTo (hvalid _ hmem).2.1 (hall _ hmem) (hend o ho)
        hlatest.inRange (hlatest.le _ hmem)
      have hlast' := lastUpTo_eq_some (hvalid _ hmem).2.1 hv heq.le fun w _ hw => heq ▸ hw
      rw [hlast] at hlast'
      cases hlast'
      exact absurd (hstill.2 o ho) (not_le.mpr (heq ▸ hlt))
    · exact hitems
  · rintro operands buffer round hrun ⟨hstored, hcourse⟩ - hround hnull
    have hrun' := hrun.advance hvalid.sorted
    refine ⟨hstored.storeTotal, ?_⟩
    rcases hcourse with hstill | ⟨⟨o, ho, hlater⟩, items, hchoice, hsome, v, hv, htime, hvalue⟩
    · have htime : round.updateTime = time := by
        obtain ⟨⟨o, ho, heq⟩, hle⟩ := hround
        obtain ⟨⟨o', ho', heq'⟩, hle'⟩ := hstill
        exact le_antisymm (heq ▸ hle' o ho) (heq' ▸ hle o' ho')
      by_cases hmoved : ∃ operand ∈ operands.map (·.advance range),
          time < operand.value.timestamp
      · obtain ⟨o, ho, hlater⟩ := hmoved
        obtain ⟨v, hv, htime', hvalue⟩ :=
          exists_storeTotal hstored hnull (htime ▸ hin) (htotal _ hrun'.choice)
        exact Or.inr ⟨⟨o, ho, hlater⟩, _, hrun'.choice,
          ⟨o.value, List.mem_map_of_mem ho, hlater⟩, v, hv, htime'.trans htime, hvalue⟩
      · push Not at hmoved
        obtain ⟨⟨o, ho, heq⟩, -⟩ := hstill
        have ho' : o.advance range ∈ operands.map (·.advance range) := List.mem_map_of_mem ho
        refine Or.inl ⟨⟨o.advance range, ho', le_antisymm (hmoved _ ho') ?_⟩, hmoved⟩
        rw [← heq]
        exact (hrun.state o ho).le_advance (hvalid _ (hrun.mem ho)).2.1
    · refine Or.inr ⟨⟨o.advance range, List.mem_map_of_mem ho, ?_⟩, items, hchoice, hsome, v, ?_,
        htime, hvalue⟩
      · exact hlater.trans_le ((hrun.state o ho).le_advance (hvalid _ (hrun.mem ho)).2.1)
      · refine (mem_storeTotal_of_ne hstored.sorted ?_).mpr hv
        rw [htime]
        exact (hlater.trans_le (hround.2 o ho)).ne

/-! ## §6  When the history is pointwise -/

/-- There is one time to calculate at, the expression has a value there, and
every operand has a sample in the range or only samples before it. -/
def SingleTime (core : ExpressionCore V D) (evaluate : List V → D)
    (histories : List (List (DataValue V))) (range : DateTimeRange) : Prop :=
  ∃ time, ExpectedAt histories range time ∧
    (∀ time', ExpectedAt histories range time' → time' = time) ∧
    core.isNullVariant (calculate core evaluate (itemsAt histories time)) = false ∧
    AllReached histories range

/-- Nothing that the loop could mix up: nothing to calculate in the range, or
nothing but null, or a single value. -/
def Unmixed (core : ExpressionCore V D) (evaluate : List V → D)
    (histories : List (List (DataValue V))) (range : DateTimeRange) : Prop :=
  (∀ time, ¬ ExpectedAt histories range time) ∨ NullOperand core histories range ∨
    SingleTime core evaluate histories range

/-- With a null operand the expression is null wherever it is calculated. -/
theorem NullOperand.calculate_itemsAt (h : NullOperand core histories range)
    (hexpected : ExpectedAt histories range time) :
    core.isNullVariant (calculate core evaluate (itemsAt histories time)) = true := by
  obtain ⟨values, hvalues, -, hlast⟩ := h
  obtain ⟨u, hu, -, -⟩ := exists_lastUpTo (hexpected.2.2 values hvalues)
  apply calculate_null
  exact ⟨u, List.mem_filterMap.mpr ⟨values, hvalues, hu⟩, hlast time hexpected u hu⟩

/-- No sample is null, and the expression gives different results for different
choices of samples. -/
def TellsApart (core : ExpressionCore V D) (evaluate : List V → D)
    (histories : List (List (DataValue V))) : Prop :=
  (∀ values ∈ histories, ∀ v ∈ values, core.isNullVariant v.value = false) ∧
    ∀ items items', Choice histories items → Choice histories items' →
      evaluate (items.map (·.value)) = evaluate (items'.map (·.value)) → items = items'

theorem Choice.values_ne_null {items : List (DataValue V)} (h : Choice histories items)
    (hnull : ∀ values ∈ histories, ∀ v ∈ values, core.isNullVariant v.value = false) :
    items.any (core.isNullVariant ·.value) = false := by
  induction h with
  | nil => rfl
  | cons hv _ ih =>
      rw [List.any_cons, hnull _ (List.mem_cons_self ..) _ hv,
        ih fun values hvalues => hnull values (List.mem_cons_of_mem _ hvalues)]
      rfl

theorem TellsApart.calculate_eq (h : TellsApart core evaluate histories)
    {items : List (DataValue V)} (hitems : Choice histories items) :
    calculate core evaluate items = core.ofDouble (evaluate (items.map (·.value))) := by
  unfold calculate
  rw [hitems.values_ne_null h.1]
  rfl

theorem TellsApart.ne_null (h : TellsApart core evaluate histories) {items : List (DataValue V)}
    (hitems : Choice histories items) :
    core.isNullVariant (calculate core evaluate items) = false := by
  rw [h.calculate_eq hitems]
  exact core.isNull_ofDouble _

/-- Where something is expected the items are a choice of samples up to that
time. -/
theorem choice_itemsAt (h : ∀ values ∈ histories, ∃ v ∈ values, v.timestamp ≤ time) :
    Choice histories (itemsAt histories time) ∧
      ∀ v ∈ itemsAt histories time, v.timestamp ≤ time := by
  induction histories with
  | nil => exact ⟨.nil, by rintro v ⟨⟩⟩
  | cons values histories ih =>
      obtain ⟨hchoice, hle⟩ := ih fun v hv => h v (List.mem_cons_of_mem _ hv)
      obtain ⟨u, hu, humem, hule⟩ := exists_lastUpTo (h values (List.mem_cons_self ..))
      have hitems : itemsAt (values :: histories) time = u :: itemsAt histories time :=
        List.filterMap_cons_some hu
      rw [hitems]
      refine ⟨.cons humem hchoice, ?_⟩
      intro v hv
      rcases List.mem_cons.mp hv with rfl | hv
      · exact hule
      · exact hle v hv

/-- A single value stored in the range is the pointwise history of a single
time. -/
theorem pointwise_of_single {buffer : TimedDataBuffer V} (hsorted : TimeSorted buffer.values)
    (hexpected : ExpectedAt histories range time)
    (hsingle : ∀ time', ExpectedAt histories range time' → time' = time)
    (htotal : core.isNullVariant (calculate core evaluate (itemsAt histories time)) = false)
    (honly : ∀ v ∈ buffer.values, InRange range v.timestamp → v.timestamp = time)
    (hlast : ∃ v ∈ buffer.values, v.timestamp = time ∧
      v.value = calculate core evaluate (itemsAt histories time)) :
    PointwiseHistory core evaluate histories range buffer := by
  obtain ⟨w, hw, hwtime, hwvalue⟩ := hlast
  intro time' hin x
  constructor
  · rintro ⟨v, hv, rfl, rfl⟩
    have hvtime := honly v hv hin
    obtain rfl := hsorted.eq_of_timestamp hv hw (hvtime.trans hwtime.symm)
    rw [hvtime, hwvalue]
    exact ⟨hexpected, rfl, htotal⟩
  · rintro ⟨hexpected', rfl, -⟩
    rw [hsingle time' hexpected']
    exact ⟨w, hw, hwtime, hwvalue⟩

/-- What is expected of an expression that tells its samples apart is stored. -/
theorem PointwiseHistory.exists_stored (h : PointwiseHistory core evaluate histories range buffer)
    (happart : TellsApart core evaluate histories) (hexpected : ExpectedAt histories range time) :
    ∃ v ∈ buffer.values, v.timestamp = time ∧
      v.value = calculate core evaluate (itemsAt histories time) :=
  (h time hexpected.1 _).mpr
    ⟨hexpected, rfl, happart.ne_null (choice_itemsAt hexpected.2.2).1⟩

/-- **Expression history.** `CalculateValuesInRange` ends; it gives the
pointwise history when there is nothing it could mix up; and for an expression
that tells the samples of its operands apart it gives it only then. -/
theorem expression_history_iff (core : ExpressionCore V D) (evaluate : List V → D)
    (histories : List (List (DataValue V))) (range : DateTimeRange) (buffer : TimedDataBuffer V)
    (hne : histories ≠ []) (hvalid : ValidHistories histories) (hfirst : range.first ≠ .null)
    (hrange : range.second = .null ∨ range.first ≤ range.second)
    (hsorted : TimeSorted buffer.values)
    (hempty : ∀ v ∈ buffer.values, ¬ InRange range v.timestamp) :
    ∃ operands buffer', calculateValuesInRange core evaluate histories range buffer =
        some (operands, buffer') ∧
      (Unmixed core evaluate histories range →
        PointwiseHistory core evaluate histories range buffer') ∧
      (TellsApart core evaluate histories →
        (PointwiseHistory core evaluate histories range buffer' ↔
          Unmixed core evaluate histories range)) := by
  obtain ⟨started, hstarted, hrun, hunmoved⟩ := exists_started range
    fun values hvalues => ⟨(hvalid values hvalues).1, hvalid.sorted values hvalues⟩
  have hstored : StoredInRange range buffer :=
    ⟨hsorted, fun v hv hin => absurd hin (hempty v hv)⟩
  have hfuel : remaining started < (histories.map List.length).sum + 1 :=
    Nat.lt_succ_of_le (remaining_le_sum hrun.values)
  have hcall : calculateValuesInRange core evaluate histories range buffer =
      calculationLoop core evaluate range ((histories.map List.length).sum + 1) started buffer := by
    unfold calculateValuesInRange
    rw [check_of hfirst, check_of hrange, hstarted]
    rfl
  obtain ⟨operands', buffer', hloop, -⟩ := calculationLoop_rule core evaluate
    (fun _ _ => True) hvalid hne (fun _ _ _ _ _ _ _ _ => trivial) hrun
    (show (fun _ _ => True) started buffer from trivial) hfuel
  refine ⟨operands', buffer', hcall.trans hloop, ?_⟩
  -- Each direction of the equivalence from what the loop stores.
  have hboth : (Unmixed core evaluate histories range →
        PointwiseHistory core evaluate histories range buffer') ∧
      (TellsApart core evaluate histories →
        PointwiseHistory core evaluate histories range buffer' →
          Unmixed core evaluate histories range) := by
    by_cases hnone : (∀ values ∈ histories, ∀ v ∈ values, ¬ InRange range v.timestamp) ∨
        ¬ AllReached histories range ∨ NullOperand core histories range
    · obtain ⟨_, _, hloop', hempty'⟩ :=
        loop_stores_nothing core evaluate hvalid hne hnone hrun hstored hempty hfuel
      rw [hloop] at hloop'
      cases hloop'
      constructor
      · intro hunmixed time hin x
        refine iff_of_false ?_ ?_
        · rintro ⟨v, hv, rfl, -⟩
          exact hempty' v hv hin
        · rintro ⟨hexpected, rfl, htotal⟩
          have hvalue : NullOperand core histories range → False := by
            intro hnull
            rw [hnull.calculate_itemsAt hexpected] at htotal
            cases htotal
          rcases hunmixed with hno | hnull | ⟨-, -, -, -, hall⟩
          · exact hno time hexpected
          · exact hvalue hnull
          · rcases hnone with hnone | hnot | hnull
            · obtain ⟨hin, ⟨values, hvalues, v, hv, rfl⟩, -⟩ := hexpected
              exact hnone values hvalues v hv hin
            · exact hnot hall
            · exact hvalue hnull
      · intro happart hpointwise
        refine Or.inl fun time hexpected => ?_
        obtain ⟨v, hv, rfl, -⟩ := hpointwise.exists_stored happart hexpected
        exact hempty' v hv hexpected.1
    · rw [not_or, not_or, not_not] at hnone
      obtain ⟨hsome, hall, hnotNull⟩ := hnone
      push Not at hsome
      obtain ⟨latest, hlatest⟩ := exists_latestSample hsome
      have hexpected := hlatest.expectedAt hvalid hall
      have hops : started ≠ [] := by
        rintro rfl
        exact hne hrun.values.symm
      have hstart := latestTime_visit core range hops fun o ho =>
        (hvalid _ (hrun.mem ho)).2.2 _ (hrun.state o ho).mem
      generalize (started.foldl (CalculationRound.visit core range) {}).updateTime = time at hstart
      have htime := hrun.expectedAt hvalid hall hsome hstart
      rcases eq_or_ne time latest with rfl | hother
      · -- The items start at the latest sample.
        obtain ⟨_, _, hloop', hstored', honly, hlast⟩ := loop_at_latest core evaluate hvalid hne hall
          hlatest hrun hunmoved hstart hstored hempty hfuel
        rw [hloop] at hloop'
        cases hloop'
        constructor
        · rintro (hno | hnull | ⟨time', hexpected', hsingle, htotal, -⟩)
          · exact absurd htime (hno time)
          · exact absurd hnull hnotNull
          · obtain rfl := hsingle time htime
            exact pointwise_of_single hstored'.sorted htime hsingle htotal honly (hlast htotal)
        · intro happart hpointwise
          refine Or.inr (Or.inr ⟨time, htime, ?_, happart.ne_null (choice_itemsAt htime.2.2).1, hall⟩)
          intro time' hexpected'
          obtain ⟨v, hv, rfl, -⟩ := hpointwise.exists_stored happart hexpected'
          exact honly v hv hexpected'.1
      · -- They start before it: two times to calculate at, and the first one is wrong.
        have hlt : time < latest := by
          obtain ⟨⟨o, ho, heq⟩, -⟩ := hstart
          exact lt_of_le_of_ne (heq ▸ hrun.le_latest hvalid hall hlatest ho) hother
        constructor
        · rintro (hno | hnull | ⟨time', -, hsingle, -, -⟩)
          · exact absurd htime (hno time)
          · exact absurd hnull hnotNull
          · exact absurd ((hsingle time htime).trans (hsingle latest hexpected).symm) hother
        · intro happart hpointwise
          obtain ⟨_, _, hloop', hstored', items, hchoice, ⟨w, hw, hlater⟩, v, hv, hvtime, hvalue⟩ :=
            loop_before_latest core evaluate hvalid hne hall hlatest
              (fun items hitems => happart.ne_null hitems) hrun hstart htime.1 hlt hstored hfuel
          rw [hloop] at hloop'
          cases hloop'
          obtain ⟨u, hu, hutime, huvalue⟩ := hpointwise.exists_stored happart htime
          obtain rfl := hstored'.sorted.eq_of_timestamp hv hu (hvtime.trans hutime.symm)
          obtain ⟨hchoice', hle⟩ := choice_itemsAt htime.2.2
          rw [hvalue, happart.calculate_eq hchoice, happart.calculate_eq hchoice'] at huvalue
          have hsame := happart.2 _ _ hchoice hchoice' (core.ofDouble_injective huvalue)
          exact absurd (hle w (hsame ▸ hw)) (not_le.mpr hlater)
  exact ⟨hboth.1, fun happart => ⟨hboth.2 happart, hboth.1⟩⟩

/-- Integers for doubles, with `none` for the null value. -/
def integerCore : ExpressionCore (Option ℤ) ℤ where
  nullVariant := none
  isNullVariant := Option.isNone
  ofDouble := some
  isBad qualifier := qualifier.testBit 0
  setBad qualifier := qualifier ||| 1
  isNull_null := rfl
  isNull_ofDouble _ := rfl
  ofDouble_injective := Option.some_injective ℤ

/-- The expression that adds its operands. -/
def sumOfOperands (values : List (Option ℤ)) : ℤ :=
  (values.map (·.getD 0)).sum

def sampleOf (value : ℤ) (time : DateTime) : DataValue (Option ℤ) := ⟨some value, 0, time, time⟩

instance (range : DateTimeRange) (time : DateTime) :
    Decidable (ExpectedAt histories range time) :=
  inferInstanceAs (Decidable (_ ∧ _ ∧ _))

/-- Two operands with a sample at the same time. -/
theorem expression_history_iff_two : ∃ operands buffer',
    calculateValuesInRange integerCore sumOfOperands [[sampleOf 10 5], [sampleOf 20 5]] ⟨1, 10⟩ {} =
        some (operands, buffer') ∧
      ∃ v ∈ buffer'.values, v.timestamp = 5 ∧ v.value = some 30 := by
  have hvalid : ValidHistories [[sampleOf 10 5], [sampleOf 20 5]] := by
    intro values hvalues
    simp only [List.mem_cons, List.not_mem_nil, or_false] at hvalues
    rcases hvalues with rfl | rfl
    · exact ⟨by decide, List.pairwise_singleton _ _, by decide⟩
    · exact ⟨by decide, List.pairwise_singleton _ _, by decide⟩
  have hexpected : ExpectedAt [[sampleOf 10 5], [sampleOf 20 5]] ⟨1, 10⟩ 5 := by decide
  have hsingle : SingleTime integerCore sumOfOperands [[sampleOf 10 5], [sampleOf 20 5]]
      ⟨1, 10⟩ := by
    refine ⟨5, hexpected, ?_, by decide, ?_⟩
    · rintro time ⟨-, ⟨values, hvalues, v, hv, rfl⟩, -⟩
      simp only [List.mem_cons, List.not_mem_nil, or_false] at hvalues
      rcases hvalues with rfl | rfl
      · rw [List.mem_singleton.mp hv]
        rfl
      · rw [List.mem_singleton.mp hv]
        rfl
    · intro values hvalues
      simp only [List.mem_cons, List.not_mem_nil, or_false] at hvalues
      rcases hvalues with rfl | rfl
      · exact Or.inl ⟨sampleOf 10 5, List.mem_singleton_self _, by decide⟩
      · exact Or.inl ⟨sampleOf 20 5, List.mem_singleton_self _, by decide⟩
  obtain ⟨operands, buffer', hcall, hpointwise, -⟩ :=
    expression_history_iff integerCore sumOfOperands [[sampleOf 10 5], [sampleOf 20 5]] ⟨1, 10⟩ {}
      (by decide) hvalid (by decide) (by decide) List.Pairwise.nil (by rintro v ⟨⟩)
  refine ⟨operands, buffer', hcall, ?_⟩
  exact (hpointwise (Or.inr (Or.inr hsingle)) 5 hexpected.1 (some 30)).mpr
    ⟨hexpected, by decide, by decide⟩

/-- A single operand with three samples: each time but the last one gets the
value of the next one. -/
theorem lockstep_shifts_history : ∃ operands buffer',
    calculateValuesInRange integerCore sumOfOperands [[sampleOf 10 1, sampleOf 20 2, sampleOf 30 3]]
        ⟨1, 3⟩ {} = some (operands, buffer') ∧
      buffer'.values.map (fun v => (v.timestamp, v.value)) = [(1, some 20), (2, some 30)] ∧
      ¬ PointwiseHistory integerCore sumOfOperands
        [[sampleOf 10 1, sampleOf 20 2, sampleOf 30 3]] ⟨1, 3⟩ buffer' := by
  have hcall : (calculateValuesInRange integerCore sumOfOperands
      [[sampleOf 10 1, sampleOf 20 2, sampleOf 30 3]] ⟨1, 3⟩ {}).map
        (·.2.values.map fun v => (v.timestamp, v.value)) = some [(1, some 20), (2, some 30)] := by
    decide
  obtain ⟨⟨operands, buffer'⟩, hsome, hvalues⟩ := Option.map_eq_some_iff.mp hcall
  refine ⟨operands, buffer', hsome, hvalues, ?_⟩
  intro hpointwise
  obtain ⟨v, hv, htime, -⟩ := (hpointwise 3 (by decide) (some 30)).mpr ⟨by decide, by decide, rfl⟩
  have hmem : (v.timestamp, v.value) ∈ [((1 : ℤ), some (20 : ℤ)), (2, some 30)] :=
    hvalues ▸ List.mem_map_of_mem hv
  rw [htime] at hmem
  revert hmem
  simp

end ScadaCommon
