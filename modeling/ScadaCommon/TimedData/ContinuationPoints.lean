import ScadaCommon.TimedData.PagedHistory

/-!
# Continuation points of a fetcher

The fetcher hands the point of a page to the next read, or drops it, and then
the point is released at the server. Whatever observers and the node do between
the pages, no point is used twice and none is lost.

§1 where the points are · §2 each point is consumed once.
-/

namespace ScadaCommon

open Foundation TimedDataBuffer

variable {V : Type}

/-! ## §1  Where the points are -/

/-- The points that reads carry. -/
def carriedBy (calls : List HistoryCall) : List ContinuationPoint :=
  calls.filterMap fun call =>
    match call with
    | .historyReadRaw details => details.continuationPoint
    | .cancelHistory _ => none

theorem carriedBy_append (calls calls' : List HistoryCall) :
    carriedBy (calls ++ calls') = carriedBy calls ++ carriedBy calls' :=
  List.filterMap_append

theorem carriedBy_cancel (continuationPoints : List ContinuationPoint) :
    carriedBy (continuationPoints.map .cancelHistory) = [] := by
  rw [carriedBy, List.filterMap_eq_nil_iff]
  intro call hcall
  obtain ⟨continuationPoint, -, rfl⟩ := List.mem_map.mp hcall
  rfl

theorem carriedBy_read (details : HistoryReadRawDetails) (calls : List HistoryCall) :
    carriedBy (.historyReadRaw details :: calls) =
      details.continuationPoint.toList ++ carriedBy calls := by
  obtain ⟨fromTime, toTime, maxCount, continuationPoint⟩ := details
  cases continuationPoint <;> rfl

namespace PagedWorld

variable {I : IntervalUtil} {logged : Bool} {w w' : PagedWorld V} {a : PagedAction V}
  {c : PagedCompletion V}

/-- The point of the completion that is under way. -/
def held (w : PagedWorld V) : List ContinuationPoint :=
  w.completion.elim [] (·.point.held)

theorem held_of_some (hc : w.completion = some c) : w.held = c.point.held := by
  rw [held, hc]
  rfl

/-- Every point that came is held, or was carried by one read or released by one
call. -/
def Linear (w : PagedWorld V) : Prop :=
  ∀ point, w.received.count point = (carriedBy w.calls).count point +
    (cancelledBy w.calls).count point + w.held.count point

/-! ## §2  Each point is consumed once -/

theorem Linear.startQuery (h : w.Linear) (gap : DateTimeRange) : (w.startQuery gap).Linear :=
  h

theorem Linear.endQuery (h : w.Linear) (hc : w.completion = some c) :
    (w.endQuery c.point.held).Linear := by
  intro point
  have hpoint := h point
  rw [held_of_some hc] at hpoint
  rw [PagedWorld.endQuery, send_cancel]
  show w.received.count point = (carriedBy (_ ++ w.calls)).count point +
    (cancelledBy (_ ++ w.calls)).count point + 0
  rw [← List.map_reverse, carriedBy_append, cancelledBy_append, carriedBy_cancel, cancelledBy_map,
    List.count_append, List.count_append, List.count_reverse, List.count_nil]
  omega

theorem Linear.continueQuery (h : w.Linear) (hc : w.completion = some c)
    {continuationPoint : ContinuationPoint} (hheld : c.point.held = [continuationPoint]) :
    (w.continueQuery continuationPoint).Linear := by
  intro point
  have hpoint := h point
  rw [held_of_some hc, hheld] at hpoint
  show w.received.count point = (carriedBy (.historyReadRaw _ :: w.calls)).count point +
    (cancelledBy w.calls).count point + 0
  rw [carriedBy_read]
  dsimp only [Option.toList_some]
  rw [List.count_append]
  omega

theorem Linear.answered (h : w.Linear) (hnone : w.completion = none)
    (details : HistoryReadRawDetails) (answer : HistoryAnswer V) (buffer : TimedDataBuffer V) :
    (w.answered details answer buffer).Linear := by
  intro point
  have hpoint := h point
  have hheld : w.held = [] := by rw [held, hnone]; rfl
  rw [hheld, List.count_nil] at hpoint
  show (answer.continuationPoint.toList ++ w.received).count point =
    (carriedBy (w.deliver answer).calls).count point +
      (cancelledBy (w.deliver answer).calls).count point +
      (ScopedContinuationPoint.ofResponse answer.continuationPoint).held.count point
  rw [(deliver_fetcher w answer).2.1, ScopedContinuationPoint.held_ofResponse, List.count_append]
  omega

theorem Linear.readied (h : w.Linear) (hc : w.completion = some c) :
    (w.readied I c).Linear := by
  intro point
  have hpoint := h point
  rw [held_of_some hc] at hpoint
  exact hpoint

theorem Linear.fetchNextGap (h : w.Linear) (hbuffer : BufferInv I w.buffer) (hI : I.Merges)
    (hs : w.fetchNextGap I = some w') : w'.Linear :=
  fetchNextGap_induct hbuffer hI hs h fun gap _ _ => h.startQuery gap

/-- **A step accounts for each point.** -/
theorem Linear.step (h : w.Linear) (hinv : PagedInv I w) (hI : I.Merges) (hen : w.enabled I a)
    (hs : w.step I logged a = some w') : w'.Linear := by
  cases hinv.moves hen hs with
  | @observed _ buffer _ _ hbuffer _ hs =>
      have hw : Linear { w with buffer } := h
      exact hw.fetchNextGap hbuffer hI hs
  | inserted value => exact h
  | nodeSet hasNode => exact h
  | answered _ _ => exact h.answered (Option.isNone_iff_eq_none.mp hen.2) _ _ _
  | readied hc _ => exact h.readied hc
  | ended hc hs => exact (h.endQuery hc).fetchNextGap (hinv.endQuery hc _).buffer hI hs
  | dropped hc _ => exact h.endQuery hc
  | continued hc hheld => exact h.continueQuery hc hheld

theorem linear_of_reachable (hI : I.Merges) (h : (pagedMachine I logged).Reachable w) :
    PagedInv I w ∧ w.Linear := by
  refine h.invariant (I := fun w => PagedInv I w ∧ w.Linear) ⟨PagedInv.init, fun _ => rfl⟩ ?_
  intro t a t' ht hen _ hs
  exact ⟨ht.1.of_step hI hen hs, ht.2.step ht.1 hI hen hs⟩

end PagedWorld

open PagedWorld

variable {I : IntervalUtil}

/-- **Continuation points are linear.** Objects may be moved about in any way:
each point is owned by one of them, or was released at the server or handed out
once, and no operation fails. So in every run of the fetcher each point is
carried by one read or released by one call, and none releases an empty point. -/
theorem continuation_points_linear (hI : I.Merges) :
    (∀ w : PointWorld, pointMachine.Reachable w →
        (∀ c, w.received.count c =
          (cancelledBy w.calls).count c + w.released.count c + heldCount w.points c) ∧
          ∀ a, w.enabled a → ∃ w', w.step a = some w') ∧
      ∀ (logged : Bool) (w : PagedWorld V), (pagedMachine I logged).Reachable w →
        w.Linear ∧
          (w.completion = none → ∀ point, w.received.count point = 1 →
            (carriedBy w.calls).count point = 1 ∧ (cancelledBy w.calls).count point = 0 ∨
              (carriedBy w.calls).count point = 0 ∧ (cancelledBy w.calls).count point = 1) ∧
          ∀ a, w.enabled I a → ∃ w', w.step I false a = some w' := by
  refine ⟨fun w h => PointWorld.points_linear h, ?_⟩
  intro logged w h
  obtain ⟨hinv, hlinear⟩ := linear_of_reachable hI h
  refine ⟨hlinear, ?_, ?_⟩
  · intro hnone point hone
    have hpoint := hlinear point
    have hheld : w.held = [] := by rw [held, hnone]; rfl
    rw [hheld, List.count_nil] at hpoint
    omega
  · intro a hen
    have hlog : a = .finish → w.LogsGap false := by
      rintro rfl ⟨⟩
    exact hinv.exists_step hI hen hlog

/-- Two pages of `[1, 10]`; the observer is gone before the second one. -/
theorem continuation_points_linear_paged : ∃ w : PagedWorld ℕ,
    w.received = [8, 7] ∧ w.completion = none ∧
      ((carriedBy w.calls).count 8 = 1 ∧ (cancelledBy w.calls).count 8 = 0 ∨
        (carriedBy w.calls).count 8 = 0 ∧ (cancelledBy w.calls).count 8 = 1) := by
  obtain ⟨w, hw, hp⟩ := Machine.exists_reachable_of_exec (M := pagedMachine mergingIntervals false)
    (p := fun w : PagedWorld ℕ => decide (w.received = [8, 7] ∧ w.completion.isNone = true))
    [.setNode true, .addObserver 1 ⟨1, 10⟩,
      .answer ⟨1, 10, kMaxReadCount, none⟩ ⟨true, [⟨1, 0, 5, 5⟩], some 7⟩, .ready, .finish,
      .answer ⟨10, 5, kMaxReadCount, some 7⟩ ⟨true, [⟨2, 0, 8, 8⟩], some 8⟩, .removeObserver 1,
      .ready, .finish] (by decide)
  obtain ⟨hreceived, hnone⟩ := of_decide_eq_true hp
  rw [Option.isNone_iff_eq_none] at hnone
  refine ⟨w, hreceived, hnone, ?_⟩
  refine ((continuation_points_linear merges_mergingIntervals).2 false w hw).2.1 hnone 8 ?_
  rw [hreceived]
  rfl

end ScadaCommon
