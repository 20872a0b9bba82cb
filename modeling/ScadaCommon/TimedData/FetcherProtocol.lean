import ScadaCommon.TimedData.PagedHistory

/-!
# One read at a time

A fetcher that is idle and has a node has nothing left to read, and it never
sends a second read before the first one is answered and worked in. The pages
of a read come while the observers change; the log statement of a cancelled
query takes for granted that some gap is left then.

§1 nothing left to read · §2 the protocol.
-/

namespace ScadaCommon

open Foundation TimedDataBuffer

variable {V : Type}

/-! ## §1  Nothing left to read -/

namespace PagedWorld

variable {I : IntervalUtil} {logged : Bool} {w w' : PagedWorld V} {a : PagedAction V}

/-- An idle fetcher with a node has no gap to read. -/
def Settled (I : IntervalUtil) (w : PagedWorld V) : Prop :=
  w.fetcher.querying = false → w.fetcher.hasNode = true → w.buffer.findNextGap I = some none

theorem settled_of_querying (h : w.fetcher.querying = true) : w.Settled I := by
  intro hidle
  rw [h] at hidle
  cases hidle

theorem findNextGap_eq_none_iff {buffer : TimedDataBuffer V} (h : BufferInv I buffer)
    (hI : I.Merges) : buffer.findNextGap I = some none ↔ ¬ buffer.HasGap := by
  rw [h.findNextGap, h.hasGap_iff hI, not_not, Option.some_inj]

theorem settled_fetchNextGap (h : BufferInv I w.buffer) (hI : I.Merges)
    (hs : w.fetchNextGap I = some w') : w'.Settled I := by
  rw [fetchNextGap_cases h hI] at hs
  cases hs
  split
  · rename_i hbusy
    intro hidle hnode
    rw [hidle, hnode] at hbusy
    simp at hbusy
  · cases hgap : firstGap w.buffer.observedRanges w.buffer.readyRanges with
    | none =>
        intro _ _
        rw [h.findNextGap, hgap]
    | some gap => exact settled_of_querying rfl

theorem settled_insertOrUpdate (h : PagedInv I w) (hw : w.Settled I) (value : DataValue V) :
    Settled I { w with buffer := (w.buffer.insertOrUpdate value).1 } := by
  intro hidle hnode
  have hgap := hw hidle hnode
  obtain ⟨hobserved, hready⟩ := h.buffer.insertOrUpdate_ranges value
  unfold TimedDataBuffer.findNextGap at hgap ⊢
  rw [hobserved, hready]
  exact hgap

theorem querying_answered (h : PagedInv I w) {details : HistoryReadRawDetails}
    {answer : HistoryAnswer V} (hen : w.enabled I (.answer details answer))
    (buffer : TimedDataBuffer V) :
    (w.answered details answer buffer).fetcher.querying = true := by
  show (w.deliver answer).fetcher.querying = true
  rw [(deliver_fetcher w answer).1]
  exact (h.waiting hen.1).1

theorem querying_readied (h : PagedInv I w) {c : PagedCompletion V} (hc : w.completion = some c) :
    (w.readied I c).fetcher.querying = true := by
  unfold readied TimedDataFetcher.addReady
  dsimp only
  split <;> exact (h.completing hc).1

theorem settled_endQuery (hnode : w.fetcher.hasNode = false)
    (continuationPoints : List ContinuationPoint) :
    (w.endQuery continuationPoints).Settled I := by
  intro _ hset
  rw [endQuery, send_cancel] at hset
  dsimp only at hset
  rw [hnode] at hset
  cases hset

/-- **Steps keep the fetcher settled**, but for a node that comes while there is
a gap: nobody looks for it then. -/
theorem settled_step_iff (h : PagedInv I w) (hI : I.Merges) (hw : w.Settled I)
    (hen : w.enabled I a) (hs : w.step I logged a = some w') :
    w'.Settled I ↔ (a = .setNode true → w.fetcher.querying = false → ¬ w.buffer.HasGap) := by
  cases h.moves hen hs with
  | observed hne hbuffer _ hs =>
      exact iff_of_true (settled_fetchNextGap hbuffer hI hs) fun ha => absurd ha (hne true)
  | inserted value =>
      exact iff_of_true (settled_insertOrUpdate h hw value) (by rintro ⟨⟩)
  | nodeSet hasNode =>
      unfold Settled
      dsimp only
      rw [findNextGap_eq_none_iff h.buffer hI]
      cases hasNode with
      | false => simp
      | true => simp
  | answered _ _ => exact iff_of_true (settled_of_querying (querying_answered h hen _)) (by rintro ⟨⟩)
  | readied hc _ => exact iff_of_true (settled_of_querying (querying_readied h hc)) (by rintro ⟨⟩)
  | ended hc hs =>
      exact iff_of_true (settled_fetchNextGap (h.endQuery hc _).buffer hI hs) (by rintro ⟨⟩)
  | dropped _ hnode => exact iff_of_true (settled_endQuery hnode _) (by rintro ⟨⟩)
  | continued hc _ => exact iff_of_true (settled_of_querying (h.completing hc).1) (by rintro ⟨⟩)

/-! ## §2  The protocol -/

/-- A page with a continuation point leaves a gap, and a node comes only where
there is none. -/
def Foreseen (w : PagedWorld V) : PagedAction V → Prop
  | .finish => w.LogsGap true
  | .setNode true => w.fetcher.querying = false → ¬ w.buffer.HasGap
  | _ => True

instance (w : PagedWorld V) (a : PagedAction V) : Decidable (w.Foreseen a) := by
  apply PagedAction.casesOn (motive := fun a => Decidable (w.Foreseen a)) a
  case setNode =>
    intro hasNode
    apply Bool.casesOn (motive := fun hasNode => Decidable (w.Foreseen (.setNode hasNode))) hasNode <;>
      unfold Foreseen <;> infer_instance
  all_goals
    intros
    unfold Foreseen
    infer_instance

theorem foreseen_iff (w : PagedWorld V) (a : PagedAction V) :
    w.Foreseen a ↔ (a = .finish → w.LogsGap true) ∧
      (a = .setNode true → w.fetcher.querying = false → ¬ w.buffer.HasGap) := by
  unfold Foreseen
  split <;> simp_all

theorem PagedInv.step_isSome_iff (h : PagedInv I w) (hI : I.Merges) (hen : w.enabled I a) :
    (w.step I logged a).isSome = true ↔ (a = .finish → w.LogsGap logged) := by
  constructor
  · rintro hsome rfl
    obtain ⟨w', hs⟩ := Option.isSome_iff_exists.mp hsome
    exact h.logsGap_of_step hI hs
  · intro hlog
    obtain ⟨w', hs⟩ := h.exists_step hI hen hlog
    rw [hs]
    rfl

theorem PagedInv.length_reads (h : PagedInv I w) : w.reads.length ≤ 1 := by
  have hbusy := h.busy
  split at hbusy <;> omega

theorem pagedInv_of_reaches (hI : I.Merges) {ok : PagedWorld V → PagedAction V → Prop}
    (h : (pagedMachine I logged).Reaches ok w) : PagedInv I w :=
  h.invariant PagedInv.init fun _ _ _ hinv hen _ hs => hinv.of_step hI hen hs

end PagedWorld

open PagedWorld

variable {I : IntervalUtil}

/-- **The fetcher reads one gap at a time.** No run has two reads outstanding,
and a step fails only where a query is cancelled and no gap is left. In the runs
in which that does not happen and no node comes to a fetcher with a gap, the
idle fetcher has nothing left to read. -/
theorem fetcher_reads_one_gap (hI : I.Merges) :
    (∀ w : PagedWorld V, (pagedMachine I true).Reachable w →
        w.reads.length ≤ 1 ∧ ∀ a, w.enabled I a →
          ((w.step I true a).isSome = true ↔ (a = .finish → w.LogsGap true))) ∧
      ∀ w : PagedWorld V, (pagedMachine I true).Reaches Foreseen w →
        w.Settled I ∧ ∀ a, w.enabled I a →
          (w.Foreseen a ↔ ∃ w', w.step I true a = some w' ∧ w'.Settled I) := by
  constructor
  · intro w h
    have hinv := pagedInv_of_reaches hI h
    exact ⟨hinv.length_reads, fun a hen => hinv.step_isSome_iff hI hen⟩
  · intro w h
    have hinv : PagedInv I w ∧ w.Settled I := by
      refine h.invariant (I := fun w => PagedInv I w ∧ w.Settled I) ?_ ?_
      -- At first there is no node, so an idle fetcher owes no read.
      · refine ⟨PagedInv.init, ?_⟩
        intro _ hnode
        cases hnode
      · intro t a t' ht hen hok hs
        refine ⟨ht.1.of_step hI hen hs, (settled_step_iff ht.1 hI ht.2 hen hs).mpr ?_⟩
        exact ((foreseen_iff t a).mp hok).2
    refine ⟨hinv.2, ?_⟩
    intro a hen
    rw [foreseen_iff]
    constructor
    · rintro ⟨hlog, hnode⟩
      obtain ⟨w', hs⟩ := hinv.1.exists_step hI hen hlog
      exact ⟨w', hs, (settled_step_iff hinv.1 hI hinv.2 hen hs).mpr hnode⟩
    · rintro ⟨w', hs, hsettled⟩
      refine ⟨?_, (settled_step_iff hinv.1 hI hinv.2 hen hs).mp hsettled⟩
      rintro rfl
      exact hinv.1.logsGap_of_step hI hs

/-- Two pages of `[1, 10]`, the first one up to 5. -/
theorem fetcher_reads_one_gap_paged : ∃ w : PagedWorld ℕ,
    w.buffer.readyRanges = [⟨1, 10⟩] ∧ w.fetcher.querying = false ∧
      w.buffer.findNextGap mergingIntervals = some none := by
  obtain ⟨w, hw, hp⟩ := Machine.exists_reaches_of_exec (M := pagedMachine mergingIntervals true)
    Foreseen
    (p := fun w : PagedWorld ℕ => decide (w.buffer.readyRanges = [⟨1, 10⟩] ∧
      w.fetcher.querying = false ∧ w.fetcher.hasNode = true))
    [.setNode true, .addObserver 1 ⟨1, 10⟩,
      .answer ⟨1, 10, kMaxReadCount, none⟩ ⟨true, [⟨1, 0, 5, 5⟩], some 7⟩, .ready, .finish,
      .answer ⟨10, 5, kMaxReadCount, some 7⟩ ⟨true, [⟨2, 0, 8, 8⟩], none⟩, .ready, .finish]
    (by decide)
  obtain ⟨hready, hidle, hnode⟩ := of_decide_eq_true hp
  exact ⟨w, hready, hidle, ((fetcher_reads_one_gap merges_mergingIntervals).2 w hw).1 hidle hnode⟩

/-- The last sample of a page is at the end of the range, and the page has a
continuation point: no gap is left, and the log statement reads it. And a node
comes to a fetcher that is observed: nothing is read. -/
theorem log_reads_missing_gap :
    (∃ w : PagedWorld ℕ, (pagedMachine mergingIntervals true).Reachable w ∧
        w.enabled mergingIntervals .finish ∧ w.step mergingIntervals true .finish = none) ∧
      ∃ w : PagedWorld ℕ, (pagedMachine mergingIntervals true).Reachable w ∧
        w.fetcher.querying = false ∧ w.fetcher.hasNode = true ∧
        w.buffer.findNextGap mergingIntervals = some (some ⟨1, 10⟩) := by
  constructor
  · obtain ⟨w, hw, hp⟩ := Machine.exists_reachable_of_exec (M := pagedMachine mergingIntervals true)
      (p := fun w : PagedWorld ℕ => decide (w.enabled mergingIntervals .finish ∧
        (w.step mergingIntervals true .finish).isNone = true))
      [.setNode true, .addObserver 1 ⟨1, 10⟩,
        .answer ⟨1, 10, kMaxReadCount, none⟩ ⟨true, [⟨1, 0, 10, 10⟩], some 7⟩, .ready] (by decide)
    obtain ⟨hen, hnone⟩ := of_decide_eq_true hp
    exact ⟨w, hw, hen, Option.isNone_iff_eq_none.mp hnone⟩
  · obtain ⟨w, hw, hp⟩ := Machine.exists_reachable_of_exec (M := pagedMachine mergingIntervals true)
      (p := fun w : PagedWorld ℕ => decide (w.fetcher.querying = false ∧
        w.fetcher.hasNode = true ∧ w.buffer.findNextGap mergingIntervals = some (some ⟨1, 10⟩)))
      [.addObserver 1 ⟨1, 10⟩, .setNode true] (by decide)
    exact ⟨w, hw, of_decide_eq_true hp⟩

end ScadaCommon
