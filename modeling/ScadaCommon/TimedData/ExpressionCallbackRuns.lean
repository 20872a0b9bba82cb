import ScadaCommon.TimedData.ExpressionCallbacks
import ScadaCommon.TimedData.ExpressionHistory

/-!
# When the assertions of an expression hold

The operands keep their samples sorted and nothing ready after `max`, so an
expression never finds its operands ready and only a notification of samples
makes it calculate. What that needs is a condition on the state in which the
notification is taken.

§1 what the operands keep · §2 a calculation succeeds · §3 the callbacks · §4
the steps · §5 when the assertions hold.
-/

namespace ScadaCommon

open Foundation TimedDataBuffer

variable {V D : Type}

/-! ## §1  What the operands keep -/

section

variable {I : IntervalUtil} {b b' : BatchedBuffer V} {range : DateTimeRange}

/-- The buffer of an operand, no part of which is ready after `max`, and the
samples it has notified of. -/
structure BatchedInv (I : IntervalUtil) (b : BatchedBuffer V) : Prop where
  buffer : BufferInv I b.buffer
  ready : ∀ time, Covers b.buffer.readyRanges time → time ≤ .max
  notified : ∀ values ∈ b.notified, values ≠ [] ∧ TimeSorted values

theorem BatchedInv.init : BatchedInv I ({} : BatchedBuffer V) where
  buffer := BufferInv.init
  ready := fun time hcovers => absurd hcovers (covers_nil time)
  notified := by
    rintro values ⟨⟩

theorem BatchedInv.notifyRange (h : BatchedInv I b) (range : DateTimeRange) :
    BatchedInv I (b.notifyRange range) := by
  unfold BatchedBuffer.notifyRange
  dsimp only
  split
  · exact h
  · rename_i hne
    refine ⟨h.buffer, h.ready, ?_⟩
    intro values hvalues
    rcases List.mem_append.mp hvalues with hold | hnew
    · exact h.notified values hold
    · rw [List.mem_singleton.mp hnew]
      have hslice := viewSlice_isInfix b.buffer.values range
      exact ⟨fun hnil => hne (List.isEmpty_iff.mpr hnil), h.buffer.sorted.sublist hslice.sublist⟩

theorem BatchedInv.markDirty (h : BatchedInv I b) (range : DateTimeRange) :
    BatchedInv I (b.markDirty range) := by
  unfold BatchedBuffer.markDirty
  split
  · exact ⟨h.buffer, h.ready, h.notified⟩
  · exact h.notifyRange range

theorem BatchedInv.endBatch (h : BatchedInv I b) (hdepth : 0 < b.batchDepth) :
    ∃ b', b.endBatch = some b' ∧ BatchedInv I b' := by
  have hclosed : BatchedInv I { b with batchDepth := b.batchDepth - 1 } :=
    ⟨h.buffer, h.ready, h.notified⟩
  unfold BatchedBuffer.endBatch
  rw [check_of hdepth]
  dsimp only [Option.bind_eq_bind, Option.bind_some]
  split
  · split
    · rename_i range _
      have hclean : BatchedInv I { b with batchDepth := b.batchDepth - 1, dirty := none } :=
        ⟨h.buffer, h.ready, h.notified⟩
      exact ⟨_, rfl, hclean.notifyRange range⟩
    · exact ⟨_, rfl, hclosed⟩
  · exact ⟨_, rfl, hclosed⟩

theorem BatchedInv.call (h : BatchedInv I b) (hI : I.Merges) {a : BufferAction V} (ha : a.Valid I)
    (hmax : ∀ range, a = .addReadyRange range → range.second ≤ .max) :
    ∃ b', b.call I a = some b' ∧ BatchedInv I b' := by
  obtain ⟨buffer, hstep, hbuffer, hready⟩ := h.buffer.step hI ha
  have hchanged : BatchedInv I { b with buffer } := by
    refine ⟨hbuffer, ?_, h.notified⟩
    intro time hcovers
    rcases hready time hcovers with hold | ⟨range, rfl, -, hsecond⟩
    · exact h.ready time hold
    · exact hsecond.trans (hmax range rfl)
  unfold BatchedBuffer.call
  rw [hstep]
  dsimp only [Option.bind_eq_bind, Option.bind_some]
  split
  · rename_i range _
    exact ⟨_, rfl, hchanged.markDirty range⟩
  · exact ⟨_, rfl, hchanged⟩

theorem BatchedInv.insert (h : BatchedInv I b) (hI : I.Merges) (value : DataValue V) :
    ∃ b', b.call I (.insertOrUpdate value) = some b' ∧ BatchedInv I b' :=
  h.call hI trivial (by rintro range ⟨⟩)

theorem exists_updateObservedRanges {o : OperandData V} (h : BatchedInv I o.batched) (hI : I.Merges)
    (samples : SampleCore V) :
    ∃ o', o.updateObservedRanges I samples = some o' ∧ BatchedInv I o'.batched := by
  obtain ⟨batched, hinsert, hbatched⟩ := h.insert hI o.current
  unfold OperandData.updateObservedRanges
  dsimp only
  split
  · rw [hinsert]
    exact ⟨_, rfl, hbatched⟩
  · exact ⟨_, rfl, h⟩

theorem exists_call {o : OperandData V} (h : BatchedInv I o.batched) (hI : I.Merges)
    (samples : SampleCore V) {a : BufferAction V} (ha : a.Valid I)
    (hmax : ∀ range, a = .addReadyRange range → range.second ≤ .max) :
    ∃ o', o.call I samples a = some o' ∧ BatchedInv I o'.batched := by
  obtain ⟨batched, hcall, hbatched⟩ := h.call hI ha hmax
  unfold OperandData.call
  rw [hcall]
  dsimp only [Option.bind_eq_bind, Option.bind_some]
  split
  · exact exists_updateObservedRanges hbatched hI samples
  · exact exists_updateObservedRanges hbatched hI samples
  · exact ⟨_, rfl, hbatched⟩

theorem exists_updateCurrent [DecidableEq V] {o : OperandData V} (h : BatchedInv I o.batched)
    (hI : I.Merges) (value : DataValue V) :
    ∃ o', o.updateCurrent I value = some o' ∧ BatchedInv I o'.batched := by
  obtain ⟨batched, hinsert, hbatched⟩ := h.insert hI value
  unfold OperandData.updateCurrent
  dsimp only
  split
  · exact ⟨o, rfl, h⟩
  · split
    · rw [hinsert]
      exact ⟨_, rfl, hbatched⟩
    · exact ⟨_, rfl, h⟩

end

/-! ## §2  A calculation succeeds -/

section

variable {core : ExpressionCore V D} {evaluate : List V → D} {I : IntervalUtil}
  {range : DateTimeRange} {histories : List (List (DataValue V))} {operands : List (Operand V)}
  {buffer : TimedDataBuffer V}

/-- An update time behind the null time only grows. -/
theorem le_visit_of_pos (core : ExpressionCore V D) (range : DateTimeRange)
    (operands : List (Operand V)) (round : CalculationRound) (hpos : .null < round.updateTime) :
    round.updateTime ≤ (operands.foldl (CalculationRound.visit core range) round).updateTime := by
  induction operands generalizing round with
  | nil => exact le_rfl
  | cons operand operands ih =>
      have hvisit : round.updateTime ≤ (round.visit core range operand).updateTime := by
        unfold CalculationRound.visit
        dsimp only
        have hlater : round.updateTime ≤ if round.updateTime = .null ∨
            round.updateTime < operand.value.timestamp then operand.value.timestamp
            else round.updateTime := by
          split
          · rename_i hor
            exact (hor.resolve_left hpos.ne').le
          · exact le_rfl
        split <;> exact hlater
      rw [List.foldl_cons]
      exact hvisit.trans (ih _ (hpos.trans_le hvisit))

theorem le_visit_of_mem (core : ExpressionCore V D) (range : DateTimeRange)
    {operand : Operand V} (hmem : operand ∈ operands) (hpos : .null < operand.value.timestamp)
    (round : CalculationRound) :
    operand.value.timestamp ≤
      (operands.foldl (CalculationRound.visit core range) round).updateTime := by
  induction operands generalizing round with
  | nil => cases hmem
  | cons head operands ih =>
      rw [List.foldl_cons]
      rcases List.mem_cons.mp hmem with rfl | hmem
      · have hvisit : operand.value.timestamp ≤ (round.visit core range operand).updateTime := by
          unfold CalculationRound.visit
          dsimp only
          have hlater : operand.value.timestamp ≤ if round.updateTime = .null ∨
              round.updateTime < operand.value.timestamp then operand.value.timestamp
              else round.updateTime := by
            split
            · exact le_rfl
            · rename_i hor
              rw [not_or, not_lt] at hor
              exact hor.2
          split <;> exact hlater
        exact hvisit.trans (le_visit_of_pos core range operands _ (hpos.trans_le hvisit))
      · exact ih hmem _

theorem BufferInv.storeTotal (h : BufferInv I buffer) (core : ExpressionCore V D)
    (evaluate : List V → D) (round : CalculationRound) (operands : List (Operand V)) :
    BufferInv I (storeTotal core evaluate buffer round operands) := by
  unfold ScadaCommon.storeTotal
  dsimp only
  split
  · exact h
  · exact h.insertOrUpdate _

/-- **The loop ends** in a range behind the null time: a round that takes a sample
has an update time. -/
theorem exists_calculationLoop (core : ExpressionCore V D) (evaluate : List V → D) {fuel : ℕ}
    (hfirst : .null < range.first) (hsorted : ∀ values ∈ histories, TimeSorted values)
    (h : Running range histories operands) (hbuffer : BufferInv I buffer)
    (hfuel : remaining operands < fuel) :
    ∃ operands' buffer', calculationLoop core evaluate range fuel operands buffer =
      some (operands', buffer') ∧ BufferInv I buffer' := by
  induction fuel generalizing operands buffer with
  | zero => omega
  | succ fuel ih =>
      have hfinished := visit_calculationFinished core range operands {}
      rw [calculationLoop]
      by_cases hlast : ∀ operand ∈ operands, operand.pending range = none
      · rw [if_pos (hfinished.mpr ⟨rfl, hlast⟩)]
        exact ⟨_, _, rfl, hbuffer⟩
      · have hmore : ∃ operand ∈ operands, operand.pending range ≠ none := by
          push Not at hlast
          exact hlast
        have hround : (operands.foldl (CalculationRound.visit core range) {}).updateTime ≠
            .null := by
          -- The sample the round takes lies in the range, which is behind the null time.
          obtain ⟨operand, hmem, hpending⟩ := hmore
          obtain ⟨v, hv⟩ := Option.ne_none_iff_exists'.mp hpending
          have hstate := h.state operand hmem
          have hvalues := hsorted _ (h.mem hmem)
          have hin := (hstate.inRange_of_pending hvalues hv).1
          have hle := hstate.first_le hvalues
            ⟨v, List.mem_of_getElem? (Operand.pending_eq_some hv).1, hin⟩
          have hpos := hfirst.trans_le hle
          exact (hpos.trans_le (le_visit_of_mem core range hmem hpos {})).ne'
        rw [if_neg (fun hf => hlast (hfinished.mp hf).2), check_of hround]
        refine ih (h.advance hsorted) ?_ ?_
        · exact hbuffer.storeTotal core evaluate _ _
        · have := remaining_advance_lt hmore
          omega

/-- What an expression keeps: it asks for nothing before `max`. -/
structure ExpressionTimedData.Valid (I : IntervalUtil) (e : ExpressionTimedData V) : Prop where
  buffer : BufferInv I e.data.buffer
  fromTime : e.fromTime = .max
  readyFrom : e.readyFrom = .max

variable {e : ExpressionTimedData V}

theorem exists_calculateRange (he : e.Valid I) (core : ExpressionCore V D) (evaluate : List V → D)
    (hfirst : .null < range.first) (hvalid : range.second = .null ∨ range.first ≤ range.second)
    (hhistories : ∀ values ∈ histories, values ≠ [] ∧ TimeSorted values) :
    ∃ e', e.calculateRange core evaluate histories range = some e' ∧ e'.Valid I := by
  obtain ⟨operands, hstarted, hrunning, -⟩ := exists_started range hhistories
  have hfuel := Nat.lt_succ_of_le (remaining_le_sum hrunning.values)
  obtain ⟨operands', buffer', hloop, hbuffer⟩ := exists_calculationLoop core evaluate hfirst
    (fun values hvalues => (hhistories values hvalues).2) hrunning he.buffer hfuel
  unfold ExpressionTimedData.calculateRange calculateValuesInRange
  rw [check_of hfirst.ne', check_of hvalid]
  dsimp only [Option.bind_eq_bind, Option.bind_some]
  rw [hstarted]
  dsimp only [Option.bind_some]
  rw [hloop]
  exact ⟨_, rfl, hbuffer, he.fromTime, he.readyFrom⟩

theorem nonempty_of_started {first : DateTime}
    (h : histories.mapM (Operand.start first) = some operands) :
    ∀ values ∈ histories, values ≠ [] := by
  induction histories generalizing operands with
  | nil => rintro values ⟨⟩
  | cons head histories ih =>
      rw [List.mapM_cons] at h
      obtain ⟨operand, hstart, h⟩ := Option.bind_eq_some_iff.mp h
      obtain ⟨rest, hrest, -⟩ := Option.bind_eq_some_iff.mp h
      intro values hvalues
      rcases List.mem_cons.mp hvalues with rfl | hvalues
      · rintro rfl
        cases hstart
      · exact ih hrest values hvalues

/-- Every operand has a sample when the calculation succeeds. -/
theorem nonempty_of_calculateRange {e' : ExpressionTimedData V}
    (h : e.calculateRange core evaluate histories range = some e') :
    ∀ values ∈ histories, values ≠ [] := by
  obtain ⟨result, hcalculate, -⟩ := Option.bind_eq_some_iff.mp h
  obtain ⟨-, h⟩ := check_bind_eq_some.mp hcalculate
  obtain ⟨-, h⟩ := check_bind_eq_some.mp h
  obtain ⟨operands, hstarted, -⟩ := Option.bind_eq_some_iff.mp h
  exact nonempty_of_started hstarted

/-! ## §3  The callbacks -/

theorem getReadyFrom_max {readyRanges : List DateTimeRange}
    (h : ∀ r ∈ readyRanges, r.second ≤ .max) : getReadyFrom readyRanges ⟨.max, .max⟩ = .max := by
  unfold getReadyFrom
  split
  · rfl
  · rename_i r hr
    exact if_pos (h r (List.mem_of_getElem? hr))

/-- No operand is ready from any time on, as nothing was asked for. -/
theorem getOperandsReadyFrom_eq (he : e.Valid I) {readyRanges : List (List DateTimeRange)}
    (h : ∀ ranges ∈ readyRanges, ∀ r ∈ ranges, r.second ≤ .max) :
    e.getOperandsReadyFrom readyRanges = some .max := by
  unfold ExpressionTimedData.getOperandsReadyFrom
  rw [he.fromTime]
  cases readyRanges with
  | nil => rfl
  | cons ranges readyRanges =>
      unfold ExpressionTimedData.operandsReadyFrom
      rw [getReadyFrom_max (h ranges (List.mem_cons_self ..))]
      rfl

theorem updateReadyRange_eq (he : e.Valid I) (core : ExpressionCore V D) (evaluate : List V → D)
    (histories : List (List (DataValue V))) {readyRanges : List (List DateTimeRange)}
    (h : ∀ ranges ∈ readyRanges, ∀ r ∈ ranges, r.second ≤ .max)
    (hhistorical : e.data.historical = true) :
    e.updateReadyRange I core evaluate histories readyRanges = some e := by
  unfold ExpressionTimedData.updateReadyRange
  rw [check_of hhistorical, getOperandsReadyFrom_eq he h]
  rfl

theorem onTimedDataReady_eq (he : e.Valid I) (core : ExpressionCore V D) (evaluate : List V → D)
    (histories : List (List (DataValue V))) {readyRanges : List (List DateTimeRange)}
    (h : ∀ ranges ∈ readyRanges, ∀ r ∈ ranges, r.second ≤ .max) :
    e.onTimedDataReady I core evaluate histories readyRanges =
      if e.data.historical = true then some e else none := by
  unfold ExpressionTimedData.onTimedDataReady
  by_cases hhistorical : e.data.historical = true
  · rw [check_of hhistorical, if_pos hhistorical]
    exact updateReadyRange_eq he core evaluate histories h hhistorical
  · rw [if_neg hhistorical, check, if_neg hhistorical]
    rfl

/-- The samples of which an operand notifies do not trip the expression. -/
def TakesUpdates (histories : List (List (DataValue V))) (historical : Bool)
    (values : List (DataValue V)) : Prop :=
  historical = true ∧ values.head?.all (DateTime.max ≤ ·.timestamp) = true ∧
    ∀ history ∈ histories, history.isEmpty = false

instance (histories : List (List (DataValue V))) (historical : Bool)
    (values : List (DataValue V)) : Decidable (TakesUpdates histories historical values) := by
  unfold TakesUpdates
  infer_instance

theorem exists_onTimedDataUpdates (he : e.Valid I) (core : ExpressionCore V D)
    (evaluate : List V → D) (hhistories : ∀ values ∈ histories, TimeSorted values)
    {values : List (DataValue V)} (hne : values ≠ []) (hsorted : TimeSorted values)
    (h : TakesUpdates histories e.data.historical values) :
    ∃ e', e.onTimedDataUpdates core evaluate histories values = some e' ∧ e'.Valid I := by
  obtain ⟨hhistorical, hfront, hall⟩ := h
  obtain ⟨front, hhead⟩ := Option.isSome_iff_exists.mp (List.isSome_head?.mpr hne)
  obtain ⟨back, hlast⟩ := Option.isSome_iff_exists.mp (List.getLast?_isSome.mpr hne)
  rw [hhead] at hfront
  have hle : DateTime.max ≤ front.timestamp := of_decide_eq_true hfront
  -- Nothing assigns to ready_from_, so it is max for ever.
  have hready : e.readyFrom ≤ front.timestamp := by rwa [he.readyFrom]
  have hpos : DateTime.null < front.timestamp := lt_of_lt_of_le (by decide) hle
  have hends : front.timestamp ≤ back.timestamp := by
    obtain ⟨rest, rfl⟩ := List.head?_eq_some_iff.mp hhead
    rcases List.mem_cons.mp (List.mem_of_getLast? hlast) with rfl | hmem
    · exact le_rfl
    · exact ((List.pairwise_cons.mp hsorted).1 back hmem).le
  have hcleared : ∃ buffer, e.data.buffer.clearRange ⟨front.timestamp, back.timestamp⟩ =
      some buffer ∧ BufferInv I buffer ∧ buffer.readyRanges = e.data.buffer.readyRanges :=
    he.buffer.clearRange hpos.ne' (Or.inr hends)
  obtain ⟨buffer, hclear, hbuffer, -⟩ := hcleared
  have he' : ExpressionTimedData.Valid I { e with data := { e.data with buffer } } :=
    ⟨hbuffer, he.fromTime, he.readyFrom⟩
  have hnonempty : ∀ values ∈ histories, values ≠ [] ∧ TimeSorted values := by
    intro values hvalues
    refine ⟨?_, hhistories values hvalues⟩
    rintro rfl
    cases hall [] hvalues
  have hcalculated : ∃ e', ExpressionTimedData.calculateRange core evaluate
      { e with data := { e.data with buffer } } histories ⟨front.timestamp, back.timestamp⟩ =
        some e' ∧ e'.Valid I :=
    exists_calculateRange he' core evaluate hpos (Or.inr hends) hnonempty
  obtain ⟨e', hcalculate, hvalid⟩ := hcalculated
  refine ⟨e', ?_, hvalid⟩
  unfold ExpressionTimedData.onTimedDataUpdates
  rw [check_of hhistorical, hhead, hlast]
  dsimp only [Option.bind_eq_bind, Option.bind_some]
  rw [check_of hready]
  dsimp only [Option.bind_some]
  rw [hclear]
  exact hcalculate

theorem takesUpdates_of_onTimedDataUpdates (he : e.Valid I) {e' : ExpressionTimedData V}
    {values : List (DataValue V)}
    (h : e.onTimedDataUpdates core evaluate histories values = some e') :
    TakesUpdates histories e.data.historical values := by
  obtain ⟨hhistorical, h⟩ := check_bind_eq_some.mp h
  obtain ⟨front, hhead, h⟩ := Option.bind_eq_some_iff.mp h
  obtain ⟨back, hlast, h⟩ := Option.bind_eq_some_iff.mp h
  obtain ⟨hready, h⟩ := check_bind_eq_some.mp h
  obtain ⟨buffer, -, h⟩ := Option.bind_eq_some_iff.mp h
  refine ⟨hhistorical, ?_, ?_⟩
  · rw [he.readyFrom] at hready
    rw [hhead]
    exact decide_eq_true hready
  · intro values hvalues
    have hne := nonempty_of_calculateRange h values hvalues
    rwa [← Bool.not_eq_true, List.isEmpty_iff]

theorem ExpressionTimedData.Valid.calculateCurrent [DecidableEq V] (he : e.Valid I)
    (core : ExpressionCore V D) (samples : SampleCore V) (evaluate : List V → D)
    (currents : List (DataValue V)) (now : DateTime) :
    (e.calculateCurrent core samples evaluate currents now).Valid I := by
  refine ⟨?_, he.fromTime, he.readyFrom⟩
  unfold ExpressionTimedData.calculateCurrent BaseTimedData.addPoint BaseTimedData.setCurrent
  dsimp only
  split
  · exact he.buffer
  · dsimp only
    split
    · exact he.buffer.insertOrUpdate _
    · exact he.buffer

theorem ExpressionTimedData.Valid.updateObservedRanges (he : e.Valid I) (samples : SampleCore V)
    (hasObservers : Bool) :
    ExpressionTimedData.Valid I
      { e with data := e.data.updateObservedRanges samples hasObservers } := by
  refine ⟨?_, he.fromTime, he.readyFrom⟩
  unfold BaseTimedData.updateObservedRanges
  dsimp only
  split
  · exact he.buffer.insertOrUpdate _
  · exact he.buffer

end

/-! ## §4  The steps -/

namespace ExpressionWorld

section

variable {I : IntervalUtil} {s : ExpressionSetup V D} {w w' : ExpressionWorld V}
  {e : ExpressionTimedData V} {o : OperandData V} {i : OperandId}

structure ExpressionInv (I : IntervalUtil) (w : ExpressionWorld V) : Prop where
  operands : ∀ i, BatchedInv I (w.operands i).batched
  pending : ∀ values, .timedDataUpdates values ∈ w.pending → values ≠ [] ∧ TimeSorted values
  expression : ∀ e ∈ w.expression, e.Valid I

theorem ExpressionInv.put (h : ExpressionInv I w) (ho : BatchedInv I o.batched)
    {calls : List (OperandCall V)} (hcalls : ∀ values, .timedDataUpdates values ∉ calls) :
    ExpressionInv I (w.put s i o calls) where
  operands := by
    intro j
    show BatchedInv I (if j = i then { o with batched := { o.batched with notified := [] } }
      else w.operands j).batched
    split
    · refine ⟨ho.buffer, ho.ready, ?_⟩
      rintro values ⟨⟩
    · exact h.operands j
  pending := by
    intro values hmem
    rcases List.mem_append.mp hmem with hold | hnew
    · exact h.pending values hold
    · split at hnew
      · rcases List.mem_append.mp hnew with hnotified | hcall
        · obtain ⟨values', hvalues', heq⟩ := List.mem_map.mp hnotified
          cases heq
          exact ho.notified values hvalues'
        · exact absurd hcall (hcalls values)
      · cases hnew
  expression := h.expression

theorem ExpressionInv.callOperand (h : ExpressionInv I w) (hI : I.Merges) {a : BufferAction V}
    (ha : a.Valid I) (hmax : ∀ range, a = .addReadyRange range → range.second ≤ .max)
    (s : ExpressionSetup V D) (i : OperandId) :
    ∃ w', w.callOperand I s i a = some w' ∧ ExpressionInv I w' ∧ w'.expression = w.expression := by
  obtain ⟨o, hcall, ho⟩ := exists_call (h.operands i) hI s.samples ha hmax
  unfold ExpressionWorld.callOperand
  rw [hcall]
  refine ⟨_, rfl, h.put ho ?_, rfl⟩
  intro values hmem
  split at hmem
  · cases hmem with
    | tail _ hmem => cases hmem
  · cases hmem

/-- The expression can always ask for current values. -/
theorem ExpressionInv.connectOperands (h : ExpressionInv I w) (hI : I.Merges)
    (hmax : I.isValidInterval ⟨.max, .max⟩ = true) (s : ExpressionSetup V D) :
    ∃ w', w.connectOperands I s .max = some w' ∧ ExpressionInv I w' ∧
      w'.expression = w.expression := by
  unfold ExpressionWorld.connectOperands
  induction s.operands generalizing w with
  | nil => exact ⟨w, rfl, h, rfl⟩
  | cons i operands ih =>
      have hvalid : BufferAction.Valid (V := V) I (.addObserver s.self ⟨.max, .max⟩) :=
        ⟨by decide, hmax, Or.inl rfl⟩
      obtain ⟨w₁, hcall, hinv, hexpression⟩ :=
        h.callOperand hI hvalid (by rintro range ⟨⟩) s i
      obtain ⟨w', hrest, hinv', hexpression'⟩ := ih hinv
      refine ⟨w', ?_, hinv', hexpression'.trans hexpression⟩
      rw [List.foldlM_cons, hcall]
      exact hrest

/-- Ready ranges of operands end at `max` at the latest. -/
theorem ExpressionInv.readyRanges_le (h : ExpressionInv I w) (s : ExpressionSetup V D) :
    ∀ ranges ∈ w.readyRanges s, ∀ r ∈ ranges, r.second ≤ .max := by
  intro ranges hranges r hr
  obtain ⟨i, -, rfl⟩ := List.mem_map.mp hranges
  have hoperand := h.operands i
  have hlt := I.lt_of_areValid _ hoperand.buffer.readyValid r hr
  exact hoperand.ready r.second ⟨r, hr, hlt.le, le_rfl⟩

theorem ExpressionInv.sorted_histories (h : ExpressionInv I w) (s : ExpressionSetup V D) :
    ∀ values ∈ w.histories s, TimeSorted values := by
  intro values hvalues
  obtain ⟨i, -, rfl⟩ := List.mem_map.mp hvalues
  exact (h.operands i).buffer.sorted

variable [DecidableEq V]

theorem ExpressionInv.calculateCurrent (h : ExpressionInv I w) (he : e.Valid I)
    (s : ExpressionSetup V D) (now : DateTime) : ExpressionInv I (w.calculateCurrent s e now) := by
  refine ⟨h.operands, h.pending, ?_⟩
  rintro _ ⟨⟩
  exact he.calculateCurrent s.core s.samples s.evaluate (w.currents s) now

/-- Observers of the expression come and go. -/
theorem ExpressionInv.onObservedRangesChanged (h : ExpressionInv I w) (hI : I.Merges)
    (hmax : I.isValidInterval ⟨.max, .max⟩ = true) (he : e.Valid I) (s : ExpressionSetup V D)
    (now : DateTime) :
    ∃ w', w.onObservedRangesChanged I s e now = some w' ∧ ExpressionInv I w' := by
  obtain ⟨w₁, hconnect, hinv, -⟩ := h.connectOperands hI hmax s
  refine ⟨w₁.calculateCurrent s e now, ?_, hinv.calculateCurrent he s now⟩
  unfold ExpressionWorld.onObservedRangesChanged
  rw [he.fromTime, hconnect]
  dsimp only [Option.bind_eq_bind, Option.bind_some]
  split
  · rename_i hhistorical
    rw [updateReadyRange_eq he s.core s.evaluate _ (hinv.readyRanges_le s) hhistorical]
    rfl
  · rfl

theorem ExpressionInv.updateObservedRanges (h : ExpressionInv I w) (hI : I.Merges)
    (hmax : I.isValidInterval ⟨.max, .max⟩ = true) (he : e.Valid I) (s : ExpressionSetup V D)
    (now : DateTime) : ∃ w', w.updateObservedRanges I s e now = some w' ∧ ExpressionInv I w' :=
  h.onObservedRangesChanged hI hmax (he.updateObservedRanges s.samples _) s now

/-- What a call needs of the state it is taken in. -/
def AcceptsCall (s : ExpressionSetup V D) (w : ExpressionWorld V) : OperandCall V → Prop
  | .timedDataUpdates values =>
      TakesUpdates (w.histories s) (w.expression.any (·.data.historical)) values
  | .timedDataReady => w.expression.any (·.data.historical) = true
  | .propertyChanged => True

omit [DecidableEq V] in
instance (s : ExpressionSetup V D) (w : ExpressionWorld V) (call : OperandCall V) :
    Decidable (w.AcceptsCall s call) := by
  unfold AcceptsCall
  split <;> infer_instance

omit [DecidableEq V] in
theorem any_historical (he : w.expression = some e) :
    w.expression.any (·.data.historical) = e.data.historical := by
  rw [he]
  rfl

theorem ExpressionInv.exists_take (h : ExpressionInv I w) (he : w.expression = some e)
    (s : ExpressionSetup V D) (now : DateTime) {call : OperandCall V} (hmem : call ∈ w.pending)
    (haccepts : w.AcceptsCall s call) : ∃ e', w.take I s e now call = some e' ∧ e'.Valid I := by
  have hvalid := h.expression e he
  have hhistorical := any_historical he
  cases call with
  | timedDataUpdates values =>
      obtain ⟨hne, hsorted⟩ := h.pending values hmem
      unfold AcceptsCall at haccepts
      rw [hhistorical] at haccepts
      exact exists_onTimedDataUpdates hvalid s.core s.evaluate (h.sorted_histories s) hne hsorted
        haccepts
  | timedDataReady =>
      unfold AcceptsCall at haccepts
      rw [hhistorical] at haccepts
      refine ⟨e, ?_, hvalid⟩
      show e.onTimedDataReady I s.core s.evaluate _ _ = some e
      rw [onTimedDataReady_eq hvalid s.core s.evaluate _ (h.readyRanges_le s), if_pos haccepts]
  | propertyChanged =>
      exact ⟨_, rfl, hvalid.calculateCurrent s.core s.samples s.evaluate (w.currents s) now⟩

theorem ExpressionInv.accepts_of_take (h : ExpressionInv I w) (he : w.expression = some e)
    {now : DateTime} {call : OperandCall V} {e' : ExpressionTimedData V}
    (htake : w.take I s e now call = some e') : w.AcceptsCall s call := by
  have hvalid := h.expression e he
  have hhistorical := any_historical he
  unfold AcceptsCall
  cases call with
  | timedDataUpdates values =>
      dsimp only
      rw [hhistorical]
      exact takesUpdates_of_onTimedDataUpdates hvalid htake
  | timedDataReady =>
      dsimp only
      rw [hhistorical]
      exact (check_bind_eq_some.mp htake).1
  | propertyChanged => trivial

/-- **When a step succeeds.** Only a call into the expression may fail. -/
def Accepts (s : ExpressionSetup V D) (w : ExpressionWorld V) : ExpressionAction V → Prop
  | .deliver k _ => ∀ call ∈ w.pending[k]?, w.AcceptsCall s call
  | _ => True

omit [DecidableEq V] in
instance (s : ExpressionSetup V D) (w : ExpressionWorld V) (a : ExpressionAction V) :
    Decidable (w.Accepts s a) := by
  apply ExpressionAction.casesOn (motive := fun a => Decidable (w.Accepts s a)) a <;>
    intros <;> unfold Accepts <;> infer_instance

theorem ExpressionInv.step (h : ExpressionInv I w) (hI : I.Merges)
    (hmax : I.isValidInterval ⟨.max, .max⟩ = true) {a : ExpressionAction V}
    (hen : w.enabled I s a) (haccepts : w.Accepts s a) :
    ∃ w', w.step I s a = some w' ∧ ExpressionInv I w' := by
  cases a with
  | call i a =>
      have hready : ∀ range, a = .addReadyRange range → range.second ≤ .max := by
        rintro range rfl
        exact hen.2
      obtain ⟨w', hcall, hinv, -⟩ := h.callOperand hI hen.1 hready s i
      exact ⟨w', hcall, hinv⟩
  | beginUpdate i =>
      have hoperand := h.operands i
      refine ⟨_, rfl, h.put ?_ ?_⟩
      · exact ⟨hoperand.buffer, hoperand.ready, hoperand.notified⟩
      · rintro values ⟨⟩
  | endUpdate i =>
      obtain ⟨batched, hend, hbatched⟩ := (h.operands i).endBatch hen
      unfold ExpressionWorld.step
      dsimp only
      rw [hend]
      exact ⟨_, rfl, h.put hbatched (by rintro values ⟨⟩)⟩
  | updateCurrent i value =>
      obtain ⟨o, hupdate, ho⟩ := exists_updateCurrent (h.operands i) hI value
      unfold ExpressionWorld.step
      dsimp only
      rw [hupdate]
      exact ⟨_, rfl, h.put ho (by rintro values ⟨⟩)⟩
  | setCurrent i =>
      unfold ExpressionWorld.step
      dsimp only
      cases hupdates : (w.operands i).updates with
      | nil =>
          have hne : (w.operands i).updates.isEmpty = false := hen
          rw [hupdates] at hne
          cases hne
      | cons value updates =>
          refine ⟨_, rfl, h.put ?_ ?_⟩
          · exact h.operands i
          · intro values hmem
            cases List.mem_singleton.mp hmem
  | notifyPropertyChanged i =>
      refine ⟨_, rfl, h.put (h.operands i) ?_⟩
      intro values hmem
      cases List.mem_singleton.mp hmem
  | construct now =>
      obtain ⟨w', hconnect, hinv, -⟩ := h.connectOperands hI hmax s
      have he : ExpressionTimedData.Valid I
          ({ data := { current := s.samples.default }, items := [] } : ExpressionTimedData V) :=
        ⟨BufferInv.init, rfl, rfl⟩
      unfold ExpressionWorld.step
      dsimp only
      rw [hconnect]
      exact ⟨_, rfl, hinv.calculateCurrent he s now⟩
  | addObserver observer range now =>
      obtain ⟨e, he⟩ := Option.isSome_iff_exists.mp hen.1
      have hvalid := h.expression e he
      obtain ⟨buffer, hadd, hbuffer, -⟩ :=
        hvalid.buffer.addObserver observer hen.2.1 hen.2.2.1 hen.2.2.2
      have he' : ExpressionTimedData.Valid I { e with data := { e.data with buffer } } :=
        ⟨hbuffer, hvalid.fromTime, hvalid.readyFrom⟩
      unfold ExpressionWorld.step
      dsimp only
      rw [he]
      dsimp only [Option.bind_eq_bind, Option.bind_some]
      rw [hadd]
      exact h.updateObservedRanges hI hmax he' s now
  | removeObserver observer now =>
      obtain ⟨e, he⟩ := Option.isSome_iff_exists.mp hen
      have hvalid := h.expression e he
      obtain ⟨buffer, hremove, hbuffer, -⟩ := hvalid.buffer.removeObserver observer
      have he' : ExpressionTimedData.Valid I { e with data := { e.data with buffer } } :=
        ⟨hbuffer, hvalid.fromTime, hvalid.readyFrom⟩
      unfold ExpressionWorld.step
      dsimp only
      rw [he]
      dsimp only [Option.bind_eq_bind, Option.bind_some]
      rw [hremove]
      exact h.updateObservedRanges hI hmax he' s now
  | deliver k now =>
      -- Other observers may have run since the call was made, so the operands are
      -- as they are now, while the call has the samples of then.
      obtain ⟨e, he⟩ := Option.isSome_iff_exists.mp hen.1
      have hcall := List.getElem?_eq_getElem hen.2
      have hmem := List.getElem_mem hen.2
      obtain ⟨e', htake, hvalid⟩ := h.exists_take he s now hmem (haccepts _ hcall)
      unfold ExpressionWorld.step
      dsimp only
      rw [he, hcall]
      dsimp only [Option.bind_eq_bind, Option.bind_some]
      rw [htake]
      refine ⟨_, rfl, h.operands, ?_, ?_⟩
      · intro values hvalues
        exact h.pending values (List.mem_of_mem_eraseIdx hvalues)
      · rintro _ ⟨⟩
        exact hvalid

theorem ExpressionInv.accepts_of_step (h : ExpressionInv I w) {a : ExpressionAction V}
    (hs : w.step I s a = some w') : w.Accepts s a := by
  unfold Accepts
  split
  · rename_i k now
    intro call hcall
    obtain ⟨e, he, hs⟩ := Option.bind_eq_some_iff.mp hs
    obtain ⟨call', hcall', hs⟩ := Option.bind_eq_some_iff.mp hs
    obtain ⟨e', htake, -⟩ := Option.bind_eq_some_iff.mp hs
    rw [hcall'] at hcall
    cases hcall
    exact h.accepts_of_take he htake
  · trivial

omit [DecidableEq V] in
theorem ExpressionInv.init (s : ExpressionSetup V D) :
    ExpressionInv I { operands := fun _ => { current := s.samples.default } } where
  operands := fun _ => BatchedInv.init
  pending := by
    rintro values ⟨⟩
  expression := by
    rintro e ⟨⟩

end

end ExpressionWorld

/-! ## §5  When the assertions hold -/

section

variable [DecidableEq V] {I : IntervalUtil} {s : ExpressionSetup V D} {w : ExpressionWorld V}

/-- **The callbacks of an expression.** Whatever the operands, their other
observers and the observers of the expression do, a call into the expression
succeeds exactly where the expression has been observed with history and, when
samples are notified, they are not before `max` and no operand is without a
sample; all other steps succeed. -/
theorem expression_callbacks_iff (hI : I.Merges) (hmax : I.isValidInterval ⟨.max, .max⟩ = true)
    (h : (expressionMachine I s).Reachable w) :
    ∀ a, w.enabled I s a → ((∃ w', w.step I s a = some w') ↔ w.Accepts s a) := by
  have hinv : ExpressionWorld.ExpressionInv I w := by
    refine h.invariant (ExpressionWorld.ExpressionInv.init s) ?_
    intro t a t' ht hen _ hs
    obtain ⟨t'', hs', hinv⟩ := ht.step hI hmax hen (ht.accepts_of_step hs)
    rw [show t.step I s a = some t' from hs] at hs'
    cases hs'
    exact hinv
  intro a hen
  constructor
  · rintro ⟨w', hs⟩
    exact hinv.accepts_of_step hs
  · intro haccepts
    obtain ⟨w', hs, -⟩ := hinv.step hI hmax hen haccepts
    exact ⟨w', hs⟩

end

/-- The operand 0, and 5 added to it. -/
def plusFive : ExpressionSetup (Option ℤ) ℤ where
  core := integerCore
  samples :=
    { default := ⟨none, 0, .null, .null⟩
      isNull := fun v => v.sourceTimestamp = .null
      isUpdate := fun current v => current.timestamp ≤ v.timestamp
      isFailed := fun qualifier => qualifier.testBit 0
      setFailed := fun qualifier => qualifier ||| 1 }
  evaluate := fun values => sumOfOperands values + 5
  operands := [0]
  self := 7

/-- The expression is observed with history, and its operand gets a ready
range. -/
theorem expression_callbacks_iff_ready : ∃ w : ExpressionWorld (Option ℤ),
    w.pending.length = 1 ∧ ∃ w', w.step mergingIntervals plusFive (.deliver 0 0) = some w' := by
  obtain ⟨w, hw, hp⟩ := Machine.exists_reachable_of_exec
    (M := expressionMachine mergingIntervals plusFive)
    (p := fun w => decide (w.pending.length = 1 ∧
      w.enabled mergingIntervals plusFive (.deliver 0 0) ∧ w.Accepts plusFive (.deliver 0 0)))
    [.construct 1, .addObserver 1 ⟨1, 10⟩ 1, .call 0 (.addReadyRange ⟨1, 10⟩)] (by decide)
  obtain ⟨hlength, hen, haccepts⟩ := of_decide_eq_true hp
  refine ⟨w, hlength, ?_⟩
  exact (expression_callbacks_iff merges_mergingIntervals rfl hw (.deliver 0 0) hen).mpr haccepts

/-- A chart has asked the operand for history, and a live value comes: the
assertion that the expression is historical fails. When the expression is
observed with history too, the value is not after `max`, and the next assertion
fails. -/
theorem live_value_trips_expression :
    (∃ w : ExpressionWorld (Option ℤ),
      (expressionMachine mergingIntervals plusFive).Reachable w ∧
        w.enabled mergingIntervals plusFive (.deliver 0 0) ∧
        w.step mergingIntervals plusFive (.deliver 0 0) = none) ∧
      ∃ w : ExpressionWorld (Option ℤ),
        (expressionMachine mergingIntervals plusFive).Reachable w ∧
        w.expression.any (·.data.historical) = true ∧
        w.enabled mergingIntervals plusFive (.deliver 0 0) ∧
        w.step mergingIntervals plusFive (.deliver 0 0) = none := by
  constructor
  · obtain ⟨w, hw, hp⟩ := Machine.exists_reachable_of_exec
      (M := expressionMachine mergingIntervals plusFive)
      (p := fun w => decide (w.enabled mergingIntervals plusFive (.deliver 0 0) ∧
        (w.step mergingIntervals plusFive (.deliver 0 0)).isNone = true))
      [.construct 1, .call 0 (.addObserver 1 ⟨1, 10⟩), .updateCurrent 0 ⟨some 2, 0, 5, 5⟩]
      (by decide)
    obtain ⟨hen, hnone⟩ := of_decide_eq_true hp
    exact ⟨w, hw, hen, Option.isNone_iff_eq_none.mp hnone⟩
  · obtain ⟨w, hw, hp⟩ := Machine.exists_reachable_of_exec
      (M := expressionMachine mergingIntervals plusFive)
      (p := fun w => decide (w.expression.any (·.data.historical) = true ∧
        w.enabled mergingIntervals plusFive (.deliver 0 0) ∧
        (w.step mergingIntervals plusFive (.deliver 0 0)).isNone = true))
      [.construct 1, .addObserver 1 ⟨1, 10⟩ 1, .call 0 (.addObserver 1 ⟨1, 10⟩),
        .updateCurrent 0 ⟨some 2, 0, 5, 5⟩] (by decide)
    obtain ⟨hhistorical, hen, hnone⟩ := of_decide_eq_true hp
    exact ⟨w, hw, hhistorical, hen, Option.isNone_iff_eq_none.mp hnone⟩

end ScadaCommon
