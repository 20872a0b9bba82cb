import Mathlib.Data.List.Nodup
import Mathlib.Data.List.Range
import ScadaCommon.NodeService.V3.NodeServiceImpl

/-!
# Waiting for pending nodes

`WaitForPendingNodes` resumes at once when nothing is pending. Otherwise its waiter
connects to the service's `node_fetched` signal and looks again whenever that is
emitted. The v3 service has the signal and never emits it; what was pending is taken
when the channel opens.

§1 waiters · §2 the machine · §3 who resumes · §4 a wait resumes only at once.
-/

namespace ScadaCommon.V3

open Foundation

/-! ## §1  Waiters -/

abbrev WaitId := ℕ

/-- A wait that has resumed, with the pending tasks at that time. -/
structure ResumedWait where
  wait : WaitId
  pendingTaskCount : ℕ
deriving DecidableEq

structure WaitingService where
  service : NodeServiceImpl := {}
  /-- The suspended waiters, which are connected to `node_fetched`. -/
  waiters : List WaitId := []
  resumes : List ResumedWait := []
  /-- The pending tasks at the start of each wait. -/
  startCounts : List ℕ := []

namespace NodeServiceImpl

def getPendingTaskCount (w : NodeServiceImpl) : ℕ := w.pendingFetchNodes.length

/-- Nothing is on its way in the service. -/
def NothingToExecute (w : NodeServiceImpl) : Prop :=
  w.frames = [] ∧ w.nodeFetches = [] ∧ w.childrenFetches = [] ∧ w.fetchedNodes = [] ∧
    w.childrenTails = [] ∧ w.fetchCalls = [] ∧ w.callbacks = []

instance (w : NodeServiceImpl) : Decidable w.NothingToExecute :=
  inferInstanceAs (Decidable (_ ∧ _))

end NodeServiceImpl

namespace WaitingService

def resume (w : WaitingService) (wait : WaitId) : WaitingService :=
  { w with
    waiters := w.waiters.erase wait
    resumes := w.resumes ++ [{ wait, pendingTaskCount := w.service.getPendingTaskCount }] }

def tryResolve (w : WaitingService) (wait : WaitId) : WaitingService :=
  if wait ∉ w.waiters ∨ w.service.getPendingTaskCount ≠ 0 then w else w.resume wait

/-- `signals_.node_fetched`. -/
def nodeFetched (w : WaitingService) : WaitingService := w.waiters.foldl tryResolve w

/-- `PendingNodesWaiter::Wait`. -/
def wait (w : WaitingService) : WaitingService :=
  let id := w.startCounts.length
  let w := { w with startCounts := w.startCounts ++ [w.service.getPendingTaskCount] }
  if w.service.getPendingTaskCount = 0 then w.resume id
  else { w with waiters := w.waiters ++ [id] }.tryResolve id

end WaitingService

/-! ## §2  The machine -/

inductive WaitAction where
  | service (action : NodeServiceAction)
  | wait

/-- Whether a step emits `node_fetched`: the service only lets others connect to it. -/
def emitsNodeFetched (_action : NodeServiceAction) : Bool := false

namespace WaitingService

def enabled (w : WaitingService) : WaitAction → Prop
  | .service action => w.service.enabled action
  | .wait => True

instance (w : WaitingService) (a : WaitAction) : Decidable (w.enabled a) := by
  unfold enabled
  split <;> infer_instance

def step (context : NodeServiceImplContext) (w : WaitingService) :
    WaitAction → Option WaitingService
  | .service action =>
      (w.service.step context action).map fun service =>
        if emitsNodeFetched action then { w with service }.nodeFetched else { w with service }
  | .wait => some w.wait

end WaitingService

def waitMachine (context : NodeServiceImplContext) : Machine WaitingService WaitAction :=
  ⟨{}, WaitingService.enabled, WaitingService.step context⟩

instance (context : NodeServiceImplContext) (w : WaitingService) (a : WaitAction) :
    Decidable ((waitMachine context).enabled w a) :=
  inferInstanceAs (Decidable (w.enabled a))

/-! ## §3  Who resumes -/

/-- The waits that were started at a pending task count like this. -/
def startedAt (startCounts : List ℕ) (p : ℕ → Bool) : List WaitId :=
  (startCounts.zipIdx.filter (p ·.1)).map (·.2)

/-- The waits that found nothing pending have resumed; the others are suspended. -/
structure WaitInv (w : WaitingService) : Prop where
  waiters : w.waiters = startedAt w.startCounts (· ≠ 0)
  resumes : w.resumes = (startedAt w.startCounts (· = 0)).map ({ wait := ·, pendingTaskCount := 0 })

variable {context : NodeServiceImplContext} {w w' : WaitingService} {wait : WaitId}
  {startCounts : List ℕ} {p : ℕ → Bool} {count : ℕ}

theorem startedAt_append :
    startedAt (startCounts ++ [count]) p =
      startedAt startCounts p ++ if p count then [startCounts.length] else [] := by
  unfold startedAt
  rw [List.zipIdx_append, List.filter_append, List.map_append]
  cases hp : p count <;> simp [hp]

theorem mem_startedAt : wait ∈ startedAt startCounts p ↔ ∃ h : wait < startCounts.length,
    p startCounts[wait] = true := by
  simp only [startedAt, List.mem_map, List.mem_filter, Prod.exists, exists_eq_right,
    List.mk_mem_zipIdx_iff_getElem?, List.getElem?_eq_some_iff]
  constructor
  · rintro ⟨count, ⟨h, rfl⟩, hp⟩
    exact ⟨h, hp⟩
  · rintro ⟨h, hp⟩
    exact ⟨_, ⟨h, rfl⟩, hp⟩

theorem nodup_startedAt : (startedAt startCounts p).Nodup := by
  have hsub : (startedAt startCounts p).Sublist (startCounts.zipIdx.map (·.2)) :=
    List.filter_sublist.map _
  refine hsub.nodup ?_
  rw [List.zipIdx_map_snd]
  exact List.nodup_range'

theorem wait_startCounts (w : WaitingService) :
    w.wait.startCounts = w.startCounts ++ [w.service.getPendingTaskCount] := by
  unfold WaitingService.wait WaitingService.tryResolve
  dsimp only
  split
  · rfl
  · split <;> rfl

theorem WaitInv.started (h : WaitInv w) : WaitInv w.wait := by
  have hnew : w.startCounts.length ∉ w.waiters := by
    rw [h.waiters, mem_startedAt]
    rintro ⟨hlt, -⟩
    exact absurd hlt (Nat.lt_irrefl _)
  unfold WaitingService.wait WaitingService.tryResolve WaitingService.resume
  dsimp only
  split
  case isTrue hzero =>
    constructor
    case waiters =>
      rw [startedAt_append, ← h.waiters, List.erase_of_not_mem hnew]
      simp [hzero]
    case resumes =>
      rw [startedAt_append, List.map_append, ← h.resumes]
      simp [hzero]
  case isFalse hpending =>
    rw [if_pos (Or.inr hpending)]
    constructor
    case waiters =>
      rw [startedAt_append, ← h.waiters]
      simp [hpending]
    case resumes =>
      rw [startedAt_append, List.map_append, ← h.resumes]
      simp [hpending]

theorem step_service {action : NodeServiceAction}
    (h : w.step context (.service action) = some w') :
    ∃ service, w' = { w with service } := by
  obtain ⟨service, -, rfl⟩ := Option.map_eq_some_iff.mp h
  exact ⟨service, if_neg (by simp [emitsNodeFetched])⟩

theorem WaitInv.step {a : WaitAction} (h : WaitInv w) (hs : w.step context a = some w') :
    WaitInv w' := by
  cases a with
  | service action =>
      obtain ⟨service, rfl⟩ := step_service hs
      exact ⟨h.waiters, h.resumes⟩
  | wait =>
      cases hs
      exact h.started

theorem waitInv_of_reachesFrom {ok : WaitingService → WaitAction → Prop} (h : WaitInv w)
    (hreach : (waitMachine context).ReachesFrom ok w w') : WaitInv w' :=
  hreach.invariant h fun _ _ _ h _ _ hs => h.step hs

theorem waitInv_of_reachable (h : (waitMachine context).Reachable w) : WaitInv w :=
  waitInv_of_reachesFrom ⟨rfl, rfl⟩ h

/-- Waits are not forgotten. -/
theorem startCounts_kept {ok : WaitingService → WaitAction → Prop}
    (h : (waitMachine context).ReachesFrom ok w w') : w.startCounts <+: w'.startCounts := by
  refine h.invariant (I := fun w' => w.startCounts <+: w'.startCounts) (List.prefix_refl _) ?_
  intro t a t' ih _ _ hs
  cases a with
  | service action =>
      obtain ⟨service, rfl⟩ := step_service hs
      exact ih
  | wait =>
      cases hs
      rw [wait_startCounts t]
      exact ih.trans (List.prefix_append _ _)

/-! ## §4  A wait resumes only at once -/

/-- What is expected of the waits so far. -/
structure WaitsResolve (context : NodeServiceImplContext) (w : WaitingService) : Prop where
  /-- No wait has resumed twice. -/
  once : (w.resumes.map (·.wait)).Nodup
  /-- Nothing was pending when a wait resumed. -/
  idle : ∀ resume ∈ w.resumes, resume.pendingTaskCount = 0
  /-- A wait is suspended or has resumed. -/
  started : ∀ wait < w.startCounts.length, wait ∈ w.waiters ∨ wait ∈ w.resumes.map (·.wait)
  /-- A suspended wait can still resume. -/
  goesOn : ∀ wait ∈ w.waiters, ∃ w', (waitMachine context).ReachesFrom (fun _ _ => True) w w' ∧
    wait ∈ w'.resumes.map (·.wait)
  /-- Nobody is left when all is done. -/
  noneLeft : w.service.getPendingTaskCount = 0 → w.service.NothingToExecute → w.waiters = []

theorem WaitInv.map_wait (h : WaitInv w) :
    w.resumes.map (·.wait) = startedAt w.startCounts (· = 0) := by
  rw [h.resumes, List.map_map]
  exact List.map_id _

/-- A wait that is suspended stays so. -/
theorem WaitInv.never_resumes (h : WaitInv w) (hwait : wait ∈ w.waiters)
    (hreach : (waitMachine context).ReachesFrom (fun _ _ => True) w w') :
    wait ∉ w'.resumes.map (·.wait) := by
  rw [h.waiters, mem_startedAt] at hwait
  obtain ⟨hlt, hpending⟩ := hwait
  rw [(waitInv_of_reachesFrom h hreach).map_wait, mem_startedAt]
  rintro ⟨hlt', hzero⟩
  rw [(startCounts_kept hreach).getElem hlt] at hpending
  simp only [decide_eq_true_eq] at hpending hzero
  exact hpending hzero

/-- **Only the signal would wake a waiter.** The waits of a run resolve just when each
was started at a moment with nothing pending. -/
theorem pending_nodes_resolve_iff (h : (waitMachine context).Reachable w) :
    WaitsResolve context w ↔ ∀ count ∈ w.startCounts, count = 0 := by
  have hinv := waitInv_of_reachable h
  have hnobody : w.waiters = [] ↔ ∀ count ∈ w.startCounts, count = 0 := by
    rw [List.eq_nil_iff_forall_not_mem, hinv.waiters]
    simp [mem_startedAt, List.forall_mem_iff_getElem]
  constructor
  · intro hresolve
    rw [← hnobody, List.eq_nil_iff_forall_not_mem]
    intro wait hwait
    obtain ⟨w', hreach, hresumed⟩ := hresolve.goesOn wait hwait
    exact hinv.never_resumes hwait hreach hresumed
  · intro hzero
    have hnone := hnobody.mpr hzero
    constructor
    case noneLeft => exact fun _ _ => hnone
    case once =>
      rw [hinv.map_wait]
      exact nodup_startedAt
    case idle =>
      rw [hinv.resumes]
      intro resume hresume
      obtain ⟨wait, -, rfl⟩ := List.mem_map.mp hresume
      rfl
    case started =>
      intro wait hlt
      refine Or.inr ?_
      rw [hinv.map_wait, mem_startedAt]
      exact ⟨hlt, by simpa using hzero _ (List.getElem_mem hlt)⟩
    case goesOn =>
      rw [hnone]
      exact fun wait hwait => absurd hwait List.not_mem_nil

/-- Two waits with nothing pending. Between them a fetch is pending while the channel is
closed, is taken when it opens and ends. -/
theorem pending_nodes_resolve_iff_idle :
    ∃ w, (waitMachine ⟨1, .numeric 45 0⟩).Reachable w ∧ w.startCounts = [0, 0] ∧
      (w.service.models 0).fetchStatus.Includes .nodeOnly ∧
      WaitsResolve ⟨1, .numeric 45 0⟩ w := by
  obtain ⟨w, hreachable, hp⟩ := Machine.exists_reachable_of_exec
    (M := waitMachine ⟨1, .numeric 45 0⟩)
    (p := fun w => w.startCounts = [0, 0] ∧ (w.service.models 0).fetchStatus.Includes .nodeOnly)
    [.wait, .service (.startFetch (.numeric 1 1) .nodeOnly), .service .channelOpened,
      .service (.nodeFetched ⟨.numeric 1 1, some 0⟩ (.ok { nodeId := .numeric 1 1 })),
      .service (.processFetchedNode ⟨0, [], false⟩), .service (.processFetchedNode ⟨0, [], true⟩),
      .wait]
    (by decide)
  obtain ⟨hcounts, hfetched⟩ := of_decide_eq_true hp
  refine ⟨w, hreachable, hcounts, hfetched, (pending_nodes_resolve_iff hreachable).mpr ?_⟩
  rw [hcounts]
  simp

/-- **A waiter is left behind.** It waits for a fetch that is pending while the channel
is closed; the channel opens, the node is fetched, and nothing is left to execute. -/
theorem waiter_is_left_behind :
    ∃ w, (waitMachine ⟨1, .numeric 45 0⟩).Reachable w ∧ w.service.getPendingTaskCount = 0 ∧
      w.service.NothingToExecute ∧ w.waiters = [0] := by
  obtain ⟨w, hreachable, hp⟩ := Machine.exists_reachable_of_exec
    (M := waitMachine ⟨1, .numeric 45 0⟩)
    (p := fun w => w.service.getPendingTaskCount = 0 ∧ w.service.NothingToExecute ∧
      w.waiters = [0])
    [.service (.startFetch (.numeric 1 1) .nodeOnly), .wait, .service .channelOpened,
      .service (.nodeFetched ⟨.numeric 1 1, some 0⟩ (.ok { nodeId := .numeric 1 1 })),
      .service (.processFetchedNode ⟨0, [], false⟩), .service (.processFetchedNode ⟨0, [], true⟩)]
    (by decide)
  exact ⟨w, hreachable, of_decide_eq_true hp⟩

end ScadaCommon.V3
