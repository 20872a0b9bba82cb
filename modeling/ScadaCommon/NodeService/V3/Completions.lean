import ScadaCommon.NodeService.V3.Evolution

/-!
# Completions

What has been fetched of a model (its status, its fetch status and its children)
changes when a fetch of the model completes or its node is deleted, and in no
other step. Here each step is given the completion it is for a model, and a run
the completions it has seen.

§1 what is fetched of a model · §2 the completion of a step · §3 what the
functions change · §4 every step · §5 runs.
-/

namespace ScadaCommon.V3

open Foundation

/-! ## §1  What is fetched of a model -/

/-- What `GetStatus` and `GetFetchStatus` return, and the children. -/
structure Fetched where
  status : Status
  fetchStatus : NodeFetchStatus
  childReferences : List ReferenceDescription
deriving DecidableEq

def NodeModelImpl.fetched (model : NodeModelImpl) : Fetched :=
  ⟨model.status, model.fetchStatus, model.childReferences⟩

theorem NodeModelImpl.withBase_fetched {model : NodeModelImpl}
    {result : BaseNodeModel × List FetchId} {status : Status} {fetchStatus : NodeFetchStatus}
    (hstatus : result.1.status = status) (hfetchStatus : result.1.fetchStatus = fetchStatus) :
    (model.withBase result).1.fetched = ⟨status, fetchStatus, model.childReferences⟩ := by
  rw [← hstatus, ← hfetchStatus]
  rfl

/-- What completes for a model: a node fetch, a children fetch with its tail, or
the deletion of its node. -/
inductive Completion where
  | node (result : Except Status Unit)
  | children (result : Except Status (List ReferenceDescription))
  | deleted
deriving DecidableEq

/-- What a completion makes of what has been fetched. -/
def Completion.apply : Completion → Fetched → Fetched
  | .node (.ok _), fetched =>
      { fetched with status := .good, fetchStatus := fetched.fetchStatus ∪ .nodeOnly }
  | .node (.error status), fetched => { fetched with status, fetchStatus := .max }
  | .children (.ok childReferences), fetched =>
      { fetched with fetchStatus := fetched.fetchStatus ∪ .childrenOnly, childReferences }
  | .children (.error status), fetched => { fetched with status, fetchStatus := .max }
  | .deleted, _ => ⟨.badWrongNodeId, .max, []⟩

namespace NodeServiceImpl

variable {context : NodeServiceImplContext} {w w' u : NodeServiceImpl} {m k : ModelId}
  {nodeId : NodeId} {f g : ModelId → Fetched → Fetched}

/-! ## §2  The completion of a step -/

/-- The completion that a step is for a model. -/
def completionOf (w : NodeServiceImpl) (m : ModelId) : NodeServiceAction → Option Completion
  | .nodeFetched coroutine (.error status) =>
      if coroutine.pin = some m then some (.node (.error status)) else none
  | .processFetchedNode node =>
      if node.model = m ∧ node.applied = false ∧ node.references = [] then some (.node (.ok ()))
      else none
  | .childrenFetched coroutine (.error status) =>
      if coroutine.pin = some m then some (.children (.error status)) else none
  | .finishChildren tail =>
      if tail.model = m ∧ w.Current tail then some (.children (.ok tail.references)) else none
  | .modelChanged nodeId verb =>
      if verb.nodeDeleted ∧ w.findNodeModel nodeId = some m then some .deleted else none
  | _ => none

/-- What a step makes of what has been fetched of a model. -/
def fetchedBy (w : NodeServiceImpl) (a : NodeServiceAction) (m : ModelId) : Fetched → Fetched :=
  (w.completionOf m a).elim id Completion.apply

theorem fetchedBy_of_some {a : NodeServiceAction} {completion : Completion}
    (h : w.completionOf m a = some completion) : w.fetchedBy a m = completion.apply := by
  unfold fetchedBy
  rw [h]
  rfl

theorem fetchedBy_of_none {a : NodeServiceAction} (h : w.completionOf m a = none) :
    w.fetchedBy a m = id := by
  unfold fetchedBy
  rw [h]
  rfl

/-! ## §3  What the functions change -/

theorem fetched_ignoresRequests : IgnoresRequests NodeModelImpl.fetched := by
  intro model requestedStatus callback
  exact NodeModelImpl.withBase_fetched BaseNodeModel.startFetch_status
    BaseNodeModel.startFetch_fetchStatus

theorem keeps_pushMirror {reference : ReferenceDescription} :
    Keeps NodeModelImpl.fetched w (w.pushMirror m reference) := by
  unfold pushMirror
  dsimp only
  split
  · exact Evolves.refl w
  · split
    · rename_i target _
      obtain ⟨nodeState, heq⟩ := NodeModelImpl.pushReference_eq
        (reference.mirror (w.models m).nodeId) (w.models target)
      rw [heq]
      exact Evolves.changeKeep rfl
    · exact Evolves.refl w

theorem keeps_beginFetchedNode {state : NodeState} : Keeps NodeModelImpl.fetched w (w.beginFetchedNode context state) := by
  unfold beginFetchedNode
  split
  · exact (Evolves.changeKeep rfl).keeps (Evolves.keep rfl rfl rfl)
  · exact Evolves.refl w

/-! ## §4  Every step -/

/-- A fetch error completes the fetch of the model that is found. -/
theorem evolves_processFetchError {status : Status} (hfind : u.findNodeModel nodeId = some k)
    (hk : ∀ fetched, f k fetched = { fetched with status, fetchStatus := .max })
    (hrest : ∀ m, m ≠ k → f m = id) :
    Evolves NodeModelImpl.fetched f u (u.processFetchError nodeId status) := by
  unfold processFetchError
  rw [hfind]
  refine Evolves.change ?_ hrest
  rw [hk]
  exact NodeModelImpl.withBase_fetched BaseNodeModel.setFetchStatus_status
    BaseNodeModel.setFetchStatus_fetchStatus

theorem evolves_nodeFetched (h : Resident w) {coroutine : FetchCoroutine}
    (hmem : coroutine ∈ w.nodeFetches) {result : Except Status NodeState} :
    Evolves NodeModelImpl.fetched (w.fetchedBy (.nodeFetched coroutine result)) w
      (w.nodeFetched context coroutine result) := by
  obtain ⟨k, hpin, hid⟩ := h.nodeFetch coroutine hmem
  have hdone : Keeps NodeModelImpl.fetched w { w with
      nodeFetchInFlight := w.nodeFetchInFlight.erase coroutine.nodeId
      frames := coroutine.pin.toList
      nodeFetches := w.nodeFetches.erase coroutine } := Evolves.keep rfl rfl rfl
  have hfind : NodeServiceImpl.findNodeModel { w with
      nodeFetchInFlight := w.nodeFetchInFlight.erase coroutine.nodeId
      frames := coroutine.pin.toList
      nodeFetches := w.nodeFetches.erase coroutine } coroutine.nodeId = some k :=
    (h.nodeFetchDone hmem).find_of_nodeId (live_of_frame (Option.mem_toList.mpr hpin)) hid
  unfold nodeFetched
  rw [hpin] at hfind ⊢
  cases result with
  | ok state => exact (hpin ▸ hdone).keeps keeps_beginFetchedNode
  | error status =>
      refine (evolves_processFetchError hfind ?_ ?_).after rfl rfl rfl
      · intro fetched
        have hsome : w.completionOf k (.nodeFetched coroutine (.error status)) =
            some (.node (.error status)) := if_pos hpin
        rw [fetchedBy_of_some hsome]
        rfl
      · intro m hm
        refine fetchedBy_of_none (if_neg ?_)
        rw [hpin]
        exact fun heq => hm (Option.some.inj heq).symm

theorem evolves_childrenFetched (h : Resident w) {coroutine : FetchCoroutine}
    (hmem : coroutine ∈ w.childrenFetches) {result : Except Status (List ReferenceDescription)} :
    Evolves NodeModelImpl.fetched (w.fetchedBy (.childrenFetched coroutine result)) w
      (w.childrenFetched coroutine result) := by
  obtain ⟨k, hpin, hid⟩ := h.childrenFetch coroutine hmem
  have hfind : NodeServiceImpl.findNodeModel { w with
      childrenFetchInFlight := w.childrenFetchInFlight.erase coroutine.nodeId
      frames := coroutine.pin.toList
      childrenFetches := w.childrenFetches.erase coroutine } coroutine.nodeId = some k :=
    (h.childrenFetchDone hmem).find_of_nodeId (live_of_frame (Option.mem_toList.mpr hpin)) hid
  unfold childrenFetched
  rw [hpin] at hfind ⊢
  cases result with
  | ok references =>
      dsimp only
      split
      · exact (Evolves.changeKeep rfl).keeps (Evolves.keep rfl rfl rfl)
      · exact Evolves.keep rfl rfl rfl
  | error status =>
      refine (evolves_processFetchError hfind ?_ ?_).after rfl rfl rfl
      · intro fetched
        have hsome : w.completionOf k (.childrenFetched coroutine (.error status)) =
            some (.children (.error status)) := if_pos hpin
        rw [fetchedBy_of_some hsome]
        rfl
      · intro m hm
        refine fetchedBy_of_none (if_neg ?_)
        rw [hpin]
        exact fun heq => hm (Option.some.inj heq).symm

theorem evolves_processFetchedNode {node : FetchedNode}
    (hstep : w.processFetchedNode node = some w') :
    Evolves NodeModelImpl.fetched (w.fetchedBy (.processFetchedNode node)) w w' := by
  unfold processFetchedNode at hstep
  dsimp only at hstep
  split at hstep
  · cases hstep
    rename_i reference references _ hreferences
    -- A reference is pushed: nothing completes yet.
    have hpush : Keeps NodeModelImpl.fetched w (w.pushMirror node.model reference) :=
      keeps_pushMirror
    refine Evolves.congr (f := fun _ => id) (hpush.keeps ?_) ?_
    · exact Evolves.keep rfl rfl rfl
    intro m _
    symm
    refine fetchedBy_of_none (if_neg ?_)
    rintro ⟨-, -, hnil⟩
    rw [hreferences] at hnil
    cases hnil
  · obtain ⟨result, happly, hresult⟩ := Option.bind_eq_some_iff.mp hstep
    cases hresult
    rename_i happlied hreferences
    obtain ⟨-, hchildren, -, hstatus, hfetchStatus, -⟩ := NodeModelImpl.applyState_eq_some happly
    refine (Evolves.change ?_ ?_).keeps (Evolves.keep rfl rfl rfl)
    · have hsome : w.completionOf node.model (.processFetchedNode node) = some (.node (.ok ())) :=
        if_pos ⟨rfl, happlied, hreferences⟩
      rw [fetchedBy_of_some hsome]
      show Fetched.mk _ _ _ = Fetched.mk _ _ _
      rw [hstatus, hfetchStatus, hchildren]
      rfl
    · intro m hm
      refine fetchedBy_of_none (if_neg ?_)
      exact fun hcompletes => hm hcompletes.1.symm
  · cases hstep
    rename_i happlied
    -- The state was applied in an earlier step; only observers are notified.
    have hkeeps : Keeps NodeModelImpl.fetched w (w.change node.model (w.models node.model).completeFetch) := by
      apply Evolves.changeKeep
      exact NodeModelImpl.withBase_fetched BaseNodeModel.notifyCallbacks_status
        BaseNodeModel.notifyCallbacks_fetchStatus
    refine Evolves.congr (f := fun _ => id) (hkeeps.keeps ?_) ?_
    · exact Evolves.keep rfl rfl rfl
    intro m _
    symm
    refine fetchedBy_of_none (if_neg ?_)
    rintro ⟨-, hnot, -⟩
    rw [happlied] at hnot
    cases hnot

theorem evolves_finishChildren {tail : ChildrenTail} :
    Evolves NodeModelImpl.fetched (w.fetchedBy (.finishChildren tail)) w (w.finishChildren tail) := by
  unfold finishChildren
  split
  · rename_i hcurrent
    refine (Evolves.change ?_ ?_).keeps (Evolves.keep rfl rfl rfl)
    · have hsome : w.completionOf tail.model (.finishChildren tail) =
          some (.children (.ok tail.references)) := if_pos ⟨rfl, hcurrent⟩
      rw [fetchedBy_of_some hsome]
      exact NodeModelImpl.withBase_fetched BaseNodeModel.setFetchStatus_status
        BaseNodeModel.setFetchStatus_fetchStatus
    · intro m hm
      refine fetchedBy_of_none (if_neg ?_)
      exact fun hcompletes => hm hcompletes.1.symm
  · rename_i hcurrent
    refine Evolves.congr (f := fun _ => id) (Evolves.keep rfl rfl rfl) ?_
    intro m _
    symm
    refine fetchedBy_of_none (if_neg ?_)
    exact fun hcompletes => hcurrent hcompletes.2

theorem evolves_onModelChanged {verb : ModelChangeVerb} :
    Evolves NodeModelImpl.fetched (w.fetchedBy (.modelChanged nodeId verb)) w (w.onModelChanged nodeId verb) := by
  unfold onModelChanged
  by_cases hdeleted : verb.nodeDeleted
  · rw [if_pos hdeleted]
    dsimp only
    refine Evolves.keeps ?_ keeps_removeFromKeepAlive
    cases hfind : w.findNodeModel nodeId with
    | some k =>
        refine Evolves.change ?_ ?_
        · have hsome : w.completionOf k (.modelChanged nodeId verb) = some .deleted :=
            if_pos ⟨hdeleted, hfind⟩
          rw [fetchedBy_of_some hsome]
          unfold NodeModelImpl.onModelChanged
          rw [if_pos hdeleted]
          show Fetched.mk _ _ _ = Fetched.mk _ _ _
          unfold BaseNodeModel.onNodeDeleted
          rw [NodeModelImpl.withBase_base, BaseNodeModel.setFetchStatus_status,
            BaseNodeModel.setFetchStatus_fetchStatus]
        · intro m hm
          refine fetchedBy_of_none (if_neg fun hcompletes => hm ?_)
          exact Option.some.inj (hcompletes.2.symm.trans hfind)
    | none =>
        refine Evolves.congr (f := fun _ => id) (Evolves.refl w) ?_
        intro m _
        symm
        refine fetchedBy_of_none (if_neg ?_)
        rintro ⟨-, hsome⟩
        rw [hfind] at hsome
        cases hsome
  · have hnone : ∀ m < w.nextModel, id = w.fetchedBy (.modelChanged nodeId verb) m := by
      intro m _
      symm
      refine fetchedBy_of_none (if_neg ?_)
      exact fun hcompletes => hdeleted hcompletes.1
    rw [if_neg hdeleted]
    refine Evolves.congr (f := fun _ => id) ?_ hnone
    split
    · exact Evolves.refl w
    · split
      · apply Evolves.changeKeep
        unfold NodeModelImpl.onModelChanged
        rw [if_neg hdeleted]
      · exact Evolves.refl w

/-- **Steps.** What has been fetched of a model changes by the completion that
the step is for it. -/
theorem Resident.evolves (h : Resident w) {a : NodeServiceAction} (hen : w.enabled a)
    (hstep : w.step context a = some w') : Evolves NodeModelImpl.fetched (w.fetchedBy a) w w' := by
  obtain ⟨u, hrun, rfl⟩ := Option.map_eq_some_iff.mp hstep
  suffices h' : Evolves NodeModelImpl.fetched (w.fetchedBy a) w u from h'.keeps (Evolves.keep rfl rfl rfl)
  cases a with
  | getNode nodeId =>
      cases hrun
      exact keeps_getNode fetched_ignoresRequests
  | startFetch nodeId status =>
      cases hrun
      exact keeps_startFetch fetched_ignoresRequests
  | fetch nodeId status =>
      cases hrun
      exact keeps_fetch fetched_ignoresRequests
  | resume callback =>
      cases hrun
      exact Evolves.keep rfl rfl rfl
  | nodeFetched coroutine result =>
      cases hrun
      exact evolves_nodeFetched h hen.1
  | childrenFetched coroutine result =>
      cases hrun
      exact evolves_childrenFetched h hen
  | processFetchedNode node => exact evolves_processFetchedNode hrun
  | fetchNextChild tail =>
      cases hrun
      exact keeps_fetchNextChild fetched_ignoresRequests
  | finishChildren tail =>
      cases hrun
      exact evolves_finishChildren
  | settleChildren tail =>
      cases hrun
      exact Evolves.keep rfl rfl rfl
  | modelChanged nodeId verb =>
      cases hrun
      exact evolves_onModelChanged
  | channelOpened =>
      obtain ⟨-, hopened⟩ := check_bind_eq_some.mp hrun
      cases hopened
      refine Evolves.keeps ?_ (keeps_spawnPending w.pendingFetchNodes)
      exact Evolves.keep rfl rfl rfl
  | channelClosed =>
      obtain ⟨-, hclosed⟩ := check_bind_eq_some.mp hrun
      obtain ⟨-, hclosed⟩ := check_bind_eq_some.mp hclosed
      cases hclosed
      exact Evolves.keep rfl rfl rfl

/-! ## §5  Runs -/

/-- The states that runs from a state reach, with the completions for a model on
the way. -/
inductive Completes (context : NodeServiceImplContext) (m : ModelId) (w : NodeServiceImpl) :
    List Completion → NodeServiceImpl → Prop
  | refl : Completes context m w [] w
  | tail {completions : List Completion} {u u' : NodeServiceImpl} {a : NodeServiceAction} :
      Completes context m w completions u → (nodeServiceMachine context).enabled u a →
      (nodeServiceMachine context).step u a = some u' →
      Completes context m w (completions ++ (u.completionOf m a).toList) u'

namespace Completes

variable {completions : List Completion}

theorem resident (h : Completes context m w completions w') (hresident : Resident w) :
    Resident w' ∧ w.nextModel ≤ w'.nextModel := by
  induction h with
  | refl => exact ⟨hresident, le_rfl⟩
  | tail _ hen hstep ih =>
      obtain ⟨hu, hnext⟩ := ih
      exact ⟨hu.step hen hstep, hnext.trans (hu.evolves hen hstep).next⟩

/-- **Runs.** What has been fetched of a model in the end is what its completions
make of it, one after the other. -/
theorem fetched (h : Completes context m w completions w') (hresident : Resident w)
    (hm : m < w.nextModel) :
    (w'.models m).fetched =
      completions.foldl (fun fetched completion => completion.apply fetched)
        (w.models m).fetched := by
  induction h with
  | refl => rfl
  | @tail completions u u' a hrun hen hstep ih =>
      obtain ⟨hu, hnext⟩ := hrun.resident hresident
      rw [(hu.evolves hen hstep).seen m (hm.trans_le hnext), ih, List.foldl_append]
      unfold fetchedBy
      cases u.completionOf m a with
      | none => rfl
      | some completion => rfl

end Completes

/-- Fires the labels in order and collects the completions for a model. -/
def execCompletions (context : NodeServiceImplContext) (m : ModelId) :
    NodeServiceImpl → List NodeServiceAction → Option (List Completion × NodeServiceImpl)
  | w, [] => some ([], w)
  | w, a :: rest =>
      if w.enabled a then do
        let u ← w.step context a
        let (completions, w') ← execCompletions context m u rest
        return ((w.completionOf m a).toList ++ completions, w')
      else none

theorem Completes.exec {completions completions' : List Completion} {labels : List NodeServiceAction}
    (h : Completes context m w completions u)
    (hexec : execCompletions context m u labels = some (completions', w')) :
    Completes context m w (completions ++ completions') w' := by
  induction labels generalizing completions completions' u with
  | nil =>
      cases hexec
      rw [List.append_nil]
      exact h
  | cons a rest ih =>
      unfold execCompletions at hexec
      split at hexec
      · rename_i hen
        obtain ⟨u', hstep, hexec⟩ := Option.bind_eq_some_iff.mp hexec
        obtain ⟨⟨last, w''⟩, hrest, hresult⟩ := Option.bind_eq_some_iff.mp hexec
        cases hresult
        rw [← List.append_assoc]
        exact ih (h.tail hen hstep) hrest
      · cases hexec

end NodeServiceImpl

end ScadaCommon.V3
