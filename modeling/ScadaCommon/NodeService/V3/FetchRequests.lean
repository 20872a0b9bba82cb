import ScadaCommon.NodeService.V3.Residency

/-!
# Fetch requests are not lost

A callback that waits for a part of a node is answered by a fetch of that part
that goes to its own model. The guards of the fetches in flight are kept by node
id. A node fetch pins its model, so its guard is always held for the model that
asks; the guard of a children fetch is held until its tail is done, and the tail
pins nothing: when its model is released and a new one asks for children, the
request is dropped.

§1 what answers a request · §2 the invariant · §3 requests · §4 results · §5
every run.
-/

namespace ScadaCommon.V3

open Foundation
open NodeFetchStatus (Includes includes_iff)

namespace NodeServiceImpl

variable {context : NodeServiceImplContext} {w w' : NodeServiceImpl} {m k : ModelId}
  {nodeId : NodeId} {d : FetchDimension} {queued queued' : List (NodeId × PendingNodeFetch)}

/-! ## §1  What answers a request -/

/-- A fetch of a part whose result goes to a model object is in flight, or its
result is being applied. -/
def UnderWay (w : NodeServiceImpl) (m : ModelId) : FetchDimension → Prop
  | .nodeOnly =>
      (∃ coroutine ∈ w.nodeFetches, coroutine.pin = some m) ∨
        ∃ node ∈ w.fetchedNodes, node.model = m ∧ node.applied = false
  | .childrenOnly =>
      (∃ coroutine ∈ w.childrenFetches, coroutine.pin = some m) ∨
        ∃ tail ∈ w.childrenTails, tail.model = m ∧
          (w.models m).referenceRequest = some tail.request
  | .nonHierarchicalInverseReferences => False

/-- A part of a model will be fetched when the channel opens. -/
def Queued (queued : List (NodeId × PendingNodeFetch)) (m : ModelId) (d : FetchDimension) : Prop :=
  ∃ entry ∈ queued, entry.2.model = some m ∧ d ∈ entry.2.status

/-- A tail holds the children guard of a node for a model that is gone. -/
def Abandoned (w : NodeServiceImpl) (nodeId : NodeId) : Prop :=
  ∃ tail ∈ w.childrenTails, tail.nodeId = nodeId ∧ ¬ w.Current tail

instance (w : NodeServiceImpl) (nodeId : NodeId) : Decidable (w.Abandoned nodeId) :=
  inferInstanceAs (Decidable (∃ tail ∈ w.childrenTails, _))

/-- A request can be answered: no part that is missing is one that v3 never
fetches, or children whose guard is abandoned. -/
def Answerable (w : NodeServiceImpl) (nodeId : NodeId)
    (fetchStatus requestedStatus : NodeFetchStatus) : Prop :=
  ∀ d ∈ requestedStatus, d ∉ fetchStatus →
    d ≠ .nonHierarchicalInverseReferences ∧ (d = .childrenOnly → ¬ w.Abandoned nodeId)

instance (w : NodeServiceImpl) (nodeId : NodeId) (fetchStatus requestedStatus : NodeFetchStatus) :
    Decidable (w.Answerable nodeId fetchStatus requestedStatus) :=
  inferInstanceAs (Decidable (∀ d ∈ requestedStatus, _))

/-- What has been fetched of a node, by its live model. -/
def fetchStatusOf (w : NodeServiceImpl) (nodeId : NodeId) : NodeFetchStatus :=
  (w.findNodeModel nodeId).elim .none fun m => (w.models m).fetchStatus

/-- The steps that spawn fetches for waiting callbacks meet answerable
requests. -/
def KeepsRequests (w : NodeServiceImpl) : NodeServiceAction → Prop
  | .fetch nodeId requestedStatus =>
      w.channelOpened = true → nodeId ≠ .null →
        w.Answerable nodeId (w.fetchStatusOf nodeId) requestedStatus
  | .channelOpened =>
      ∀ entry ∈ w.pendingFetchNodes, ∀ m ∈ entry.2.model,
        ∀ waiting ∈ (w.models m).fetchCallbacks,
          w.Answerable entry.1 (w.models m).fetchStatus waiting.1
  | _ => True

instance (w : NodeServiceImpl) (a : NodeServiceAction) : Decidable (w.KeepsRequests a) := by
  unfold KeepsRequests
  split <;> infer_instance

theorem UnderWay.mono (h : w.UnderWay m d)
    (hnode : ∀ coroutine ∈ w.nodeFetches, coroutine.pin = some m → coroutine ∈ w'.nodeFetches)
    (hfetched : ∀ node ∈ w.fetchedNodes, node.model = m → node.applied = false →
      ∃ node' ∈ w'.fetchedNodes, node'.model = m ∧ node'.applied = false)
    (hchildren : ∀ coroutine ∈ w.childrenFetches, coroutine.pin = some m →
      coroutine ∈ w'.childrenFetches)
    (htails : ∀ tail ∈ w.childrenTails, tail.model = m → ∃ tail' ∈ w'.childrenTails,
      tail'.model = m ∧ tail'.request = tail.request)
    (hrequest : (w'.models m).referenceRequest = (w.models m).referenceRequest) :
    w'.UnderWay m d := by
  cases d with
  | nodeOnly =>
      rcases h with ⟨coroutine, hmem, hpin⟩ | ⟨node, hmem, hmodel, happlied⟩
      · exact Or.inl ⟨coroutine, hnode coroutine hmem hpin, hpin⟩
      · exact Or.inr (hfetched node hmem hmodel happlied)
  | childrenOnly =>
      rcases h with ⟨coroutine, hmem, hpin⟩ | ⟨tail, hmem, hmodel, hcurrent⟩
      · exact Or.inl ⟨coroutine, hchildren coroutine hmem hpin, hpin⟩
      · obtain ⟨tail', hmem', hmodel', hsame⟩ := htails tail hmem hmodel
        refine Or.inr ⟨tail', hmem', hmodel', ?_⟩
        rw [hrequest, hsame]
        exact hcurrent
  | nonHierarchicalInverseReferences => exact h

/-- Where nothing that is under way changes. -/
theorem UnderWay.keep (h : w.UnderWay m d) (hnode : w'.nodeFetches = w.nodeFetches)
    (hfetched : w'.fetchedNodes = w.fetchedNodes)
    (hchildren : w'.childrenFetches = w.childrenFetches)
    (htails : w'.childrenTails = w.childrenTails)
    (hrequest : (w'.models m).referenceRequest = (w.models m).referenceRequest) :
    w'.UnderWay m d := by
  refine h.mono ?_ ?_ ?_ ?_ hrequest
  · rw [hnode]
    exact fun _ hmem _ => hmem
  · rw [hfetched]
    exact fun node hmem hmodel happlied => ⟨node, hmem, hmodel, happlied⟩
  · rw [hchildren]
    exact fun _ hmem _ => hmem
  · rw [htails]
    exact fun tail hmem hmodel => ⟨tail, hmem, hmodel, rfl⟩

/-! ## §2  The invariant -/

/-- Every part a callback of a live model waits for is fetched, under way, or
queued; and a tail that has its model has applied the children. -/
structure Requested (queued : List (NodeId × PendingNodeFetch)) (w : NodeServiceImpl) : Prop where
  waiting : ∀ m, w.Live m → ∀ entry ∈ (w.models m).fetchCallbacks, ∀ d ∈ entry.1,
    d ∈ (w.models m).fetchStatus ∨ w.UnderWay m d ∨ Queued queued m d
  settling : ∀ tail ∈ w.childrenTails, tail.self ≠ none →
    .childrenOnly ∈ (w.models tail.model).fetchStatus

namespace Requested

theorem init : Requested [] {} where
  waiting := by
    intro m h
    cases h
  settling := by
    rintro tail ⟨⟩

/-- **Frame rule**: callbacks only go, fetch statuses only grow, and what is
under way is not given up before the part is fetched. -/
theorem mono (h : Requested queued w) (hlive : ∀ m, w'.Live m → w.Live m)
    (hcallbacks : ∀ m, w'.Live m → ∀ entry ∈ (w'.models m).fetchCallbacks,
      entry ∈ (w.models m).fetchCallbacks)
    (hstatus : ∀ m, (w.models m).fetchStatus ⊆ (w'.models m).fetchStatus)
    (hserved : ∀ m d, w'.Live m → w.UnderWay m d ∨ Queued queued m d →
      d ∈ (w'.models m).fetchStatus ∨ w'.UnderWay m d ∨ Queued queued' m d)
    (hsettling : ∀ tail ∈ w'.childrenTails, tail.self ≠ none →
      .childrenOnly ∈ (w'.models tail.model).fetchStatus) : Requested queued' w' where
  waiting := by
    intro m hm entry hentry d hd
    rcases h.waiting m (hlive m hm) entry (hcallbacks m hm entry hentry) d hd with hin | hserved'
    · exact Or.inl (hstatus m hin)
    · exact hserved m d hm hserved'
  settling := hsettling

/-- The frame rule where only holders change. -/
theorem keep (h : Requested queued w) (hmodels : w'.models = w.models)
    (hlive : ∀ m, w'.Live m → w.Live m) (hnode : w'.nodeFetches = w.nodeFetches)
    (hfetched : w'.fetchedNodes = w.fetchedNodes)
    (hchildren : w'.childrenFetches = w.childrenFetches)
    (htails : w'.childrenTails = w.childrenTails) : Requested queued w' := by
  refine h.mono hlive ?_ ?_ ?_ ?_
  · rw [hmodels]
    exact fun _ _ _ => id
  · rw [hmodels]
    exact fun _ => Finset.Subset.refl _
  · intro m d _ hserved
    refine Or.inr (hserved.imp_left fun hunder => hunder.keep hnode hfetched hchildren htails ?_)
    rw [hmodels]
  · rw [hmodels, htails]
    exact h.settling

theorem change (h : Requested queued w) {result : NodeModelImpl × List FetchId}
    (hcallbacks : ∀ entry ∈ result.1.fetchCallbacks, entry ∈ (w.models m).fetchCallbacks)
    (hstatus : (w.models m).fetchStatus ⊆ result.1.fetchStatus)
    (hrequest : result.1.referenceRequest = (w.models m).referenceRequest) :
    Requested queued (w.change m result) := by
  have hgrow : ∀ k, (w.models k).fetchStatus ⊆ ((w.change m result).models k).fetchStatus :=
    change_models (fun k model => (w.models k).fetchStatus ⊆ model.fetchStatus)
      (fun _ => Finset.Subset.refl _) hstatus
  refine h.mono (fun _ => id) ?_ hgrow ?_ ?_
  · exact fun k _ => change_models
      (fun k model => ∀ entry ∈ model.fetchCallbacks, entry ∈ (w.models k).fetchCallbacks)
      (fun _ _ => id) hcallbacks k
  · intro k d _ hserved
    refine Or.inr (hserved.imp_left fun hunder => hunder.keep rfl rfl rfl rfl ?_)
    exact change_models
      (fun k model => model.referenceRequest = (w.models k).referenceRequest) (fun _ => rfl)
      hrequest k
  · exact fun tail hmem hself => hgrow tail.model (h.settling tail hmem hself)

theorem unwind (h : Requested queued w) : Requested queued w.unwind :=
  h.keep rfl (fun _ => live_unwind) rfl rfl rfl rfl

theorem hold (h : Requested queued w) (hm : w.Live m) :
    Requested queued { w with frames := m :: w.frames } :=
  h.keep rfl (fun _ => live_hold hm) rfl rfl rfl rfl

theorem keepAlive (h : Requested queued w) {list : List (ℕ × ModelId)}
    {index : NodeId → Option ℕ} {entry : ℕ} (hlist : ∀ entry ∈ list, w.Live entry.2) :
    Requested queued
      { w with keepAliveList := list, keepAliveIndex := index, nextEntry := entry } :=
  h.keep rfl (fun _ => live_keepAliveList hlist) rfl rfl rfl rfl

/-- Nothing waits for a new model. -/
theorem makeModel (h : Requested queued w) (hresident : Resident w) :
    Requested queued (w.makeModel nodeId) := by
  constructor
  · intro m hm entry hentry d hd
    rcases live_makeModel hm with rfl | hm
    · rw [makeModel_models_self] at hentry
      cases hentry
    · have hlt := (hresident.live m hm).1
      rw [makeModel_models_of_lt hlt] at hentry ⊢
      refine (h.waiting m hm entry hentry d hd).imp_right (Or.imp_left fun hunder => ?_)
      refine hunder.keep rfl rfl rfl rfl ?_
      rw [makeModel_models_of_lt hlt]
  · intro tail hmem hself
    rw [makeModel_models_of_lt (hresident.tail tail hmem).1]
    exact h.settling tail hmem hself

end Requested

/-! ## §3  Requests -/

section

variable {status : NodeFetchStatus} {model : Option ModelId} {callback : Option FetchId}

theorem Queued.queueFetch (h : Queued queued k d) :
    Queued (queueFetch nodeId status model queued) k d := by
  induction queued with
  | nil =>
      obtain ⟨entry, hmem, -⟩ := h
      cases hmem
  | cons head rest ih =>
      obtain ⟨id, pending⟩ := head
      obtain ⟨entry, hmem, hmodel, hd⟩ := h
      rw [NodeServiceImpl.queueFetch]
      split
      · rcases List.mem_cons.mp hmem with rfl | hmem
        · refine ⟨_, List.mem_cons_self .., ?_, Finset.mem_union_left _ hd⟩
          show (pending.model <|> model) = some k
          change pending.model = some k at hmodel
          rw [hmodel]
          rfl
        · exact ⟨entry, List.mem_cons_of_mem _ hmem, hmodel, hd⟩
      · rcases List.mem_cons.mp hmem with rfl | hmem
        · exact ⟨_, List.mem_cons_self .., hmodel, hd⟩
        · obtain ⟨entry', hmem', hmodel', hd'⟩ := ih ⟨entry, hmem, hmodel, hd⟩
          exact ⟨entry', List.mem_cons_of_mem _ hmem', hmodel', hd'⟩

/-- What is requested is queued for the model that asks. -/
theorem queued_queueFetch (hqueued : ∀ entry ∈ queued, entry.1 = nodeId → entry.2.model = some m)
    (hd : d ∈ status) : Queued (queueFetch nodeId status (some m) queued) m d := by
  induction queued with
  | nil => exact ⟨_, List.mem_singleton_self _, rfl, hd⟩
  | cons head rest ih =>
      obtain ⟨id, pending⟩ := head
      rw [queueFetch]
      split
      · rename_i hid
        refine ⟨_, List.mem_cons_self .., ?_, Finset.mem_union_right _ hd⟩
        show (pending.model <|> some m) = some m
        have hmodel : pending.model = some m := hqueued _ (List.mem_cons_self ..) hid
        rw [hmodel]
        rfl
      · obtain ⟨entry, hmem, hmodel, hd⟩ :=
          ih fun entry hmem => hqueued entry (List.mem_cons_of_mem _ hmem)
        exact ⟨entry, List.mem_cons_of_mem _ hmem, hmodel, hd⟩

theorem UnderWay.spawnNodeFetch (h : w.UnderWay k d) :
    (w.spawnNodeFetch nodeId status model).UnderWay k d := by
  unfold NodeServiceImpl.spawnNodeFetch
  split
  · exact h.mono (fun _ hmem _ => List.mem_append_left _ hmem)
      (fun node hmem hmodel happlied => ⟨node, hmem, hmodel, happlied⟩) (fun _ hmem _ => hmem)
      (fun tail hmem hmodel => ⟨tail, hmem, hmodel, rfl⟩) rfl
  · exact h

theorem UnderWay.spawnChildrenFetch (h : w.UnderWay k d) :
    (w.spawnChildrenFetch nodeId status model).UnderWay k d := by
  unfold NodeServiceImpl.spawnChildrenFetch
  split
  · exact h.mono (fun _ hmem _ => hmem)
      (fun node hmem hmodel happlied => ⟨node, hmem, hmodel, happlied⟩)
      (fun _ hmem _ => List.mem_append_left _ hmem)
      (fun tail hmem hmodel => ⟨tail, hmem, hmodel, rfl⟩) rfl
  · exact h

theorem UnderWay.spawnFetch (h : w.UnderWay k d) : (w.spawnFetch nodeId status model).UnderWay k d :=
  h.spawnNodeFetch.spawnChildrenFetch

theorem UnderWay.onFetchNode (h : w.UnderWay k d) : (w.onFetchNode nodeId status).UnderWay k d := by
  unfold NodeServiceImpl.onFetchNode
  split
  · exact h.keep rfl rfl rfl rfl rfl
  · exact h.spawnFetch

theorem includes_nodeOnly : Includes status .nodeOnly ↔ .nodeOnly ∈ status := by
  rw [includes_iff]
  exact Finset.singleton_subset_iff

theorem includes_childrenOnly : Includes status .childrenOnly ↔ .childrenOnly ∈ status := by
  rw [includes_iff]
  exact Finset.singleton_subset_iff

/-- **Node fetches**: the fetch that holds the guard of the node pins the model
that asks. -/
theorem Resident.underWay_spawnNodeFetch (h : Resident w) (hm : w.Live m)
    (hid : (w.models m).nodeId = nodeId) (hd : .nodeOnly ∈ status) :
    (w.spawnNodeFetch nodeId status (some m)).UnderWay m .nodeOnly := by
  unfold NodeServiceImpl.spawnNodeFetch
  split
  · exact Or.inl ⟨_, List.mem_append_right _ (List.mem_singleton_self _), rfl⟩
  · rename_i hguard
    have hin : nodeId ∈ w.nodeFetchInFlight := by
      by_contra hnot
      exact hguard ⟨includes_nodeOnly.mpr hd, hnot⟩
    obtain ⟨coroutine, hmem, hnode⟩ := h.nodeGuard nodeId hin
    obtain ⟨k, hpin, hk⟩ := h.nodeFetch coroutine hmem
    have heq : k = m :=
      h.eq_of_nodeId (live_of_nodeFetch hmem hpin) hm (hk.trans (hnode.trans hid.symm))
    exact Or.inl ⟨coroutine, hmem, heq ▸ hpin⟩

/-- **Children fetches**: so does a browse that holds the guard; a tail must be
that of the model that asks. -/
theorem Resident.underWay_spawnChildrenFetch (h : Resident w) (hm : w.Live m)
    (hid : (w.models m).nodeId = nodeId) (hd : .childrenOnly ∈ status)
    (htails : ∀ tail ∈ w.childrenTails, tail.nodeId = nodeId →
      tail.model = m ∧ (w.models m).referenceRequest = some tail.request) :
    (w.spawnChildrenFetch nodeId status (some m)).UnderWay m .childrenOnly := by
  unfold NodeServiceImpl.spawnChildrenFetch
  split
  · exact Or.inl ⟨_, List.mem_append_right _ (List.mem_singleton_self _), rfl⟩
  · rename_i hguard
    have hin : nodeId ∈ w.childrenFetchInFlight := by
      by_contra hnot
      exact hguard ⟨includes_childrenOnly.mpr hd, hnot⟩
    rcases h.childrenGuard nodeId hin with ⟨coroutine, hmem, hnode⟩ | ⟨tail, hmem, hnode⟩
    · obtain ⟨k, hpin, hk⟩ := h.childrenFetch coroutine hmem
      have heq : k = m :=
        h.eq_of_nodeId (live_of_childrenFetch hmem hpin) hm (hk.trans (hnode.trans hid.symm))
      exact Or.inl ⟨coroutine, hmem, heq ▸ hpin⟩
    · obtain ⟨hmodel, hcurrent⟩ := htails tail hmem hnode
      exact Or.inr ⟨tail, hmem, hmodel, hcurrent⟩

/-- The tails of a node are those of a model, and current. -/
def TailsOf (w : NodeServiceImpl) (nodeId : NodeId) (m : ModelId) : Prop :=
  ∀ tail ∈ w.childrenTails, tail.nodeId = nodeId →
    tail.model = m ∧ (w.models m).referenceRequest = some tail.request

theorem Resident.underWay_spawnFetch (h : Resident w) (hm : m ∈ w.frames)
    (hid : (w.models m).nodeId = nodeId) (hd : d ∈ status)
    (hfetched : d ≠ .nonHierarchicalInverseReferences)
    (htails : d = .childrenOnly → w.TailsOf nodeId m) :
    (w.spawnFetch nodeId status (some m)).UnderWay m d := by
  cases d with
  | nodeOnly =>
      exact (h.underWay_spawnNodeFetch (live_of_frame hm) hid hd).spawnChildrenFetch
  | childrenOnly =>
      obtain ⟨guard, fetches, heq⟩ := spawnNodeFetch_eq w nodeId status (some m)
      have hresident : Resident (w.spawnNodeFetch nodeId status (some m)) :=
        h.spawnNodeFetch hm hid
      unfold NodeServiceImpl.spawnFetch
      rw [heq] at hresident ⊢
      exact hresident.underWay_spawnChildrenFetch (live_of_frame hm) hid hd (htails rfl)
  | nonHierarchicalInverseReferences => exact absurd rfl hfetched

/-- What a model requests is queued or under way afterwards. -/
theorem Resident.served_onFetchNode (h : Resident w) (hm : m ∈ w.frames)
    (hid : (w.models m).nodeId = nodeId) (hd : d ∈ status)
    (hopen : w.channelOpened = true → d ≠ .nonHierarchicalInverseReferences ∧
      (d = .childrenOnly → w.TailsOf nodeId m)) :
    (w.onFetchNode nodeId status).UnderWay m d ∨
      Queued (w.onFetchNode nodeId status).pendingFetchNodes m d := by
  rw [h.onFetchNode_eq hm hid]
  split
  · rename_i hchannel
    obtain ⟨hfetched, htails⟩ := hopen hchannel
    exact Or.inl (h.underWay_spawnFetch hm hid hd hfetched htails)
  · refine Or.inr (queued_queueFetch ?_ hd)
    intro entry hmem hentry
    obtain ⟨k, hk, hnode⟩ := h.pending entry hmem
    have heq : k = m := h.eq_of_nodeId (live_of_pending hmem hk) (live_of_frame hm)
      (hnode.trans (hentry.trans hid.symm))
    exact heq ▸ hk

theorem queued_onFetchNode (h : Queued w.pendingFetchNodes k d) :
    Queued (w.onFetchNode nodeId status).pendingFetchNodes k d := by
  unfold onFetchNode
  split
  · exact h.queueFetch
  · obtain ⟨_, _, _, _, heq⟩ := spawnFetch_eq w nodeId status (w.findNodeModel nodeId)
    rw [heq]
    exact h

theorem live_spawnFetch (hm : m ∈ w.frames)
    (hk : (w.spawnFetch nodeId status (some m)).Live k) : w.Live k := by
  obtain ⟨guard, fetches, heq⟩ := spawnNodeFetch_eq w nodeId status (some m)
  have hspawn : (w.spawnNodeFetch nodeId status (some m)).Live k → w.Live k :=
    live_spawnNodeFetch hm
  unfold NodeServiceImpl.spawnFetch at hk
  rw [heq] at hk hspawn
  exact hspawn (live_spawnChildrenFetch hm hk)

theorem Resident.live_onFetchNode (h : Resident w) (hm : m ∈ w.frames)
    (hid : (w.models m).nodeId = nodeId) (hk : (w.onFetchNode nodeId status).Live k) :
    w.Live k := by
  rw [h.onFetchNode_eq hm hid] at hk
  split at hk
  · exact live_spawnFetch hm hk
  · exact h.live_queueFetch hm hid hk

theorem beginFetch_fetchStatus (k : ModelId) :
    ((w.beginFetch m status callback).models k).fetchStatus = (w.models k).fetchStatus :=
  change_models (fun k model => model.fetchStatus = (w.models k).fetchStatus) (fun _ => rfl)
    BaseNodeModel.startFetch_fetchStatus k

theorem beginFetch_referenceRequest (k : ModelId) :
    ((w.beginFetch m status callback).models k).referenceRequest =
      (w.models k).referenceRequest :=
  change_models (fun k model => model.referenceRequest = (w.models k).referenceRequest)
    (fun _ => rfl) rfl k

/-- The callbacks that wait after `StartFetch` waited before, or are the new
one. -/
theorem mem_beginFetch {entry : NodeFetchStatus × FetchId}
    (h : entry ∈ ((w.beginFetch m status callback).models k).fetchCallbacks) :
    entry ∈ (w.models k).fetchCallbacks ∨ k = m ∧ entry.1 = status ∧ callback ≠ none := by
  by_cases hk : k = m
  · subst hk
    unfold beginFetch at h
    rw [change_models_self] at h
    refine (BaseNodeModel.mem_startFetch h).imp_right ?_
    rintro ⟨hstatus, hcallback⟩
    exact ⟨rfl, hstatus, by simp [hcallback]⟩
  · unfold beginFetch at h
    rw [change_models_of_ne hk] at h
    exact Or.inl h

/-- **Requests are kept** when the parts that a new callback misses can be
fetched. -/
theorem Requested.startFetchOf (h : Requested w.pendingFetchNodes w) (hresident : Resident w)
    (hm : m ∈ w.frames)
    (hanswer : callback ≠ none → w.channelOpened = true →
      ∀ d ∈ status, d ∉ (w.models m).fetchStatus → d ≠ .nonHierarchicalInverseReferences ∧
        (d = .childrenOnly → w.TailsOf (w.models m).nodeId m)) :
    Requested (w.startFetchOf m status callback).pendingFetchNodes
      (w.startFetchOf m status callback) := by
  have hstarted : Resident (w.beginFetch m status callback) := hresident.beginFetch
  have hid : ((w.beginFetch m status callback).models m).nodeId = (w.models m).nodeId :=
    beginFetch_nodeId m
  -- What is left to show, for either way the function goes on.
  have hframe : ∀ {w' : NodeServiceImpl}, w'.models = (w.beginFetch m status callback).models →
      w'.childrenTails = w.childrenTails → (∀ k, w'.Live k → w.Live k) →
      (∀ k d, (w.beginFetch m status callback).UnderWay k d → w'.UnderWay k d) →
      (∀ k d, Queued w.pendingFetchNodes k d → Queued w'.pendingFetchNodes k d) →
      (callback ≠ none → ∀ d ∈ status, d ∉ (w.models m).fetchStatus →
        w'.UnderWay m d ∨ Queued w'.pendingFetchNodes m d) →
      Requested w'.pendingFetchNodes w' := by
    intro w' hmodels htails hlive hunder hqueued hnew
    constructor
    · intro k hk entry hentry d hd
      rw [hmodels] at hentry ⊢
      rw [beginFetch_fetchStatus]
      rcases mem_beginFetch hentry with hold | ⟨rfl, rfl, hcallback⟩
      · refine (h.waiting k (hlive k hk) entry hold d hd).imp_right (Or.imp ?_ (hqueued k d))
        exact fun hold => hunder k d (hold.keep rfl rfl rfl rfl (beginFetch_referenceRequest k))
      · by_cases hin : d ∈ (w.models k).fetchStatus
        · exact Or.inl hin
        · exact Or.inr (hnew hcallback d hd hin)
    · rw [htails, hmodels]
      intro tail hmem hself
      rw [beginFetch_fetchStatus]
      exact h.settling tail hmem hself
  rcases (w.models m).toBaseNodeModel.startFetch_request status callback with
    ⟨hincludes, hnone⟩ | ⟨-, hsome⟩
  · unfold NodeServiceImpl.startFetchOf
    dsimp only
    rw [hnone]
    refine hframe rfl rfl (fun _ => id) (fun _ _ => id) (fun _ _ => id) ?_
    exact fun _ d hd hnot => absurd (includes_iff.mp hincludes hd) hnot
  · unfold NodeServiceImpl.startFetchOf
    dsimp only
    rw [hsome]
    refine hframe onFetchNode_models onFetchNode_childrenTails
      (fun k hk => hstarted.live_onFetchNode hm hid hk) (fun k d hunder => hunder.onFetchNode)
      (fun k d hqueued => queued_onFetchNode hqueued) ?_
    intro hcallback d hd hnot
    refine hstarted.served_onFetchNode hm hid (Finset.mem_union_right _ hd) ?_
    intro hopen
    obtain ⟨hfetched, htails⟩ := hanswer hcallback hopen d hd hnot
    refine ⟨hfetched, fun hchildren tail hmem hnode => ?_⟩
    rw [beginFetch_referenceRequest]
    exact htails hchildren tail hmem hnode

theorem startFetchOf_channelOpened :
    (w.startFetchOf m status callback).channelOpened = w.channelOpened := by
  obtain ⟨_, _, _, _, _, heq⟩ := startFetchOf_eq w m status callback
  rw [heq]
  rfl

theorem startFetchOf_fetchStatus (k : ModelId) :
    ((w.startFetchOf m status callback).models k).fetchStatus = (w.models k).fetchStatus := by
  obtain ⟨_, _, _, _, _, heq⟩ := startFetchOf_eq w m status callback
  rw [heq]
  exact beginFetch_fetchStatus k

theorem startFetchOf_nodeId (k : ModelId) :
    ((w.startFetchOf m status callback).models k).nodeId = (w.models k).nodeId := by
  obtain ⟨_, _, _, _, _, heq⟩ := startFetchOf_eq w m status callback
  rw [heq]
  exact beginFetch_nodeId k

theorem TailsOf.startFetchOf (h : w.TailsOf nodeId k) :
    (w.startFetchOf m status callback).TailsOf nodeId k := by
  obtain ⟨_, _, _, _, _, heq⟩ := startFetchOf_eq w m status callback
  rw [heq]
  intro tail hmem hid
  obtain ⟨hmodel, hcurrent⟩ := h tail hmem hid
  refine ⟨hmodel, ?_⟩
  rw [← hcurrent]
  exact beginFetch_referenceRequest k

/-- The tails of a node that none has abandoned are those of its live model. -/
theorem Resident.tailsOf (h : Resident w) (hfind : w.findNodeModel nodeId = some m)
    (habandoned : ¬ w.Abandoned nodeId) : w.TailsOf nodeId m := by
  intro tail hmem hid
  have hcurrent : w.Current tail := by
    by_contra hnot
    exact habandoned ⟨tail, hmem, hid, hnot⟩
  have hmodel : tail.model = m := by
    have hfind' := h.find_of_nodeId hcurrent.1 ((h.tail tail hmem).2.1.trans hid)
    rw [hfind] at hfind'
    exact (Option.some.inj hfind').symm
  exact ⟨hmodel, hmodel ▸ hcurrent.2⟩

section

variable (h : Requested w.pendingFetchNodes w) (hresident : Resident w)
include h hresident

theorem Requested.getNodeModel (context : NodeServiceImplContext) (hid : nodeId ≠ .null) :
    ∃ m w', w.getNodeModel context nodeId = (some m, w') ∧ Resident w' ∧
      Requested w'.pendingFetchNodes w' ∧ m ∈ w'.frames ∧ (w'.models m).nodeId = nodeId ∧
      w'.channelOpened = w.channelOpened ∧
      (w'.models m).fetchStatus = w.fetchStatusOf nodeId ∧
      (¬ w.Abandoned nodeId → w'.TailsOf nodeId m) := by
  obtain ⟨m', w', heq', hresident', hframe', hid'⟩ := hresident.getNodeModel context hid
  obtain ⟨m, u, list, index, entry, heq, hkeepAlive, hlist, hcases⟩ :=
    getNodeModel_eq context w hid
  rw [heq] at heq'
  cases heq'
  refine ⟨_, _, heq, hresident', ?_, hframe', hid', ?_⟩
  · have hu : Requested u.pendingFetchNodes u := by
      rcases hcases with ⟨hfind, rfl⟩ | ⟨hfind, rfl, rfl⟩
      · exact h.hold (findNodeModel_eq_some.mp hfind).2
      · exact h.makeModel hresident
    refine hu.keepAlive ?_
    intro entry hentry
    rcases hlist entry hentry with hold | heq
    · exact live_of_keepAlive (hkeepAlive ▸ hold)
    · rw [heq]
      exact live_of_frame hframe'
  · rcases hcases with ⟨hfind, rfl⟩ | ⟨hfind, rfl, rfl⟩
    · refine ⟨rfl, ?_, hresident.tailsOf hfind⟩
      unfold fetchStatusOf
      rw [hfind]
      rfl
    · refine ⟨rfl, ?_, ?_⟩
      · unfold fetchStatusOf
        rw [hfind]
        show ((w.makeModel nodeId).models w.nextModel).fetchStatus = _
        rw [makeModel_models_self]
        rfl
      · -- Without a live model every tail is an abandoned one.
        intro habandoned tail hmem hnode
        refine absurd ⟨tail, hmem, hnode, fun hcurrent => ?_⟩ habandoned
        have hfind' := hresident.find_of_nodeId hcurrent.1
          ((hresident.tail tail hmem).2.1.trans hnode)
        rw [hfind] at hfind'
        cases hfind'

theorem Requested.getNodeModelForRead (context : NodeServiceImplContext) (hid : nodeId ≠ .null) :
    ∃ m w', w.getNodeModelForRead context nodeId = (some m, w') ∧ Resident w' ∧
      Requested w'.pendingFetchNodes w' ∧ m ∈ w'.frames ∧ (w'.models m).nodeId = nodeId ∧
      w'.channelOpened = w.channelOpened ∧
      (w'.models m).fetchStatus = w.fetchStatusOf nodeId ∧
      (¬ w.Abandoned nodeId → w'.TailsOf nodeId m) := by
  obtain ⟨m, u, heq, hresident', hrequested, hframe, hid', hopen, hstatus, htails⟩ :=
    h.getNodeModel hresident context hid
  unfold NodeServiceImpl.getNodeModelForRead
  rw [heq]
  refine ⟨m, _, rfl, hresident'.startFetchOf hframe,
    hrequested.startFetchOf hresident' hframe (fun hnone => absurd rfl hnone), ?_, ?_, ?_, ?_, ?_⟩
  · rw [startFetchOf_frames]
    exact hframe
  · rw [startFetchOf_nodeId]
    exact hid'
  · rw [startFetchOf_channelOpened]
    exact hopen
  · rw [startFetchOf_fetchStatus]
    exact hstatus
  · exact fun habandoned => (htails habandoned).startFetchOf

theorem Requested.getNode :
    Requested (w.getNode context nodeId).pendingFetchNodes (w.getNode context nodeId) := by
  unfold NodeServiceImpl.getNode
  by_cases hid : nodeId = .null
  · subst hid
    rw [getNodeModelForRead_null]
    exact h
  · obtain ⟨m, w', heq, -, hrequested, -⟩ := h.getNodeModelForRead hresident context hid
    rw [heq]
    exact hrequested

theorem Requested.startFetch :
    Requested (w.startFetch context nodeId status).pendingFetchNodes
      (w.startFetch context nodeId status) := by
  unfold NodeServiceImpl.startFetch
  by_cases hid : nodeId = .null
  · subst hid
    rw [getNodeModel_null]
    exact h
  · obtain ⟨m, w', heq, hresident', hrequested, hframe, -⟩ :=
      h.getNodeModel hresident context hid
    rw [heq]
    exact hrequested.startFetchOf hresident' hframe fun hnone => absurd rfl hnone

theorem Requested.fetch (hanswer : w.channelOpened = true → nodeId ≠ .null →
      w.Answerable nodeId (w.fetchStatusOf nodeId) status) :
    Requested (w.fetch context nodeId status).2.pendingFetchNodes
      (w.fetch context nodeId status).2 := by
  unfold NodeServiceImpl.fetch
  by_cases hid : nodeId = .null
  · subst hid
    rw [getNodeModelForRead_null]
    exact h
  · obtain ⟨m, w', heq, hresident', hrequested, hframe, hid', hopen, hstatus, htails⟩ :=
      h.getNodeModelForRead hresident context hid
    rw [heq]
    dsimp only
    unfold NodeServiceImpl.awaitFetch
    have hwaiting : Requested w'.pendingFetchNodes { w' with
        fetchCalls := w'.fetchCalls ++ [⟨w'.nextFetch, m⟩]
        nextFetch := w'.nextFetch + 1 } :=
      hrequested.keep rfl (fun _ => live_callFetch hframe) rfl rfl rfl rfl
    have hresident'' : Resident { w' with
        fetchCalls := w'.fetchCalls ++ [⟨w'.nextFetch, m⟩]
        nextFetch := w'.nextFetch + 1 } :=
      hresident'.keep (fun _ => rfl) rfl rfl (fun _ => live_callFetch hframe) rfl rfl rfl rfl rfl
        rfl
    refine Requested.startFetchOf hwaiting hresident'' hframe ?_
    intro _ hopen' d hd hmissing
    change d ∉ (w'.models m).fetchStatus at hmissing
    rw [hstatus] at hmissing
    obtain ⟨hfetched, hchildren⟩ := hanswer (hopen ▸ hopen') hid d hd hmissing
    refine ⟨hfetched, fun heq => ?_⟩
    show w'.TailsOf (w'.models m).nodeId m
    rw [hid']
    exact htails (hchildren heq)

end

end

/-! ## §4  Results -/

section

variable {pending : PendingNodeFetch} {status : Status} {state : NodeState}

/-- A queued fetch is done with when what callbacks wait for in it is fetched or
under way. -/
theorem Requested.discharge (nodeId : NodeId) (pending : PendingNodeFetch)
    (h : Requested ((nodeId, pending) :: queued) w)
    (hserved : ∀ m, pending.model = some m → w.Live m →
      ∀ entry ∈ (w.models m).fetchCallbacks, ∀ d ∈ entry.1, d ∈ pending.status →
        d ∈ (w.models m).fetchStatus ∨ w.UnderWay m d) : Requested queued w where
  waiting := by
    intro m hm entry hentry d hd
    rcases h.waiting m hm entry hentry d hd with hin | hunder | ⟨queuedEntry, hmem, hmodel, hin⟩
    · exact Or.inl hin
    · exact Or.inr (Or.inl hunder)
    · rcases List.mem_cons.mp hmem with rfl | hmem
      · exact (hserved m hmodel hm entry hentry d hd hin).imp_right Or.inl
      · exact Or.inr (Or.inr ⟨queuedEntry, hmem, hmodel, hin⟩)
  settling := h.settling

/-- A node coroutine that comes back has the state of its model in hand. -/
theorem Requested.nodeFetchDone (h : Requested queued w) {coroutine : FetchCoroutine}
    (hmem : coroutine ∈ w.nodeFetches) :
    Requested ((coroutine.nodeId, ⟨.nodeOnly, coroutine.pin⟩) :: queued) { w with
      nodeFetchInFlight := w.nodeFetchInFlight.erase coroutine.nodeId
      frames := coroutine.pin.toList
      nodeFetches := w.nodeFetches.erase coroutine } := by
  refine h.mono (fun _ => live_nodeFetchDone hmem) (fun _ _ _ => id)
    (fun _ => Finset.Subset.refl _) ?_ h.settling
  intro m d _ hserved
  have hqueued : Queued queued m d →
      Queued ((coroutine.nodeId, ⟨.nodeOnly, coroutine.pin⟩) :: queued) m d := by
    rintro ⟨entry, hentry, hmodel, hin⟩
    exact ⟨entry, List.mem_cons_of_mem _ hentry, hmodel, hin⟩
  rcases hserved with hunder | hold
  · cases d with
    | nodeOnly =>
        rcases hunder with ⟨other, hother, hpin⟩ | hfetched
        · by_cases heq : other = coroutine
          · subst heq
            refine Or.inr (Or.inr ⟨_, List.mem_cons_self .., hpin, ?_⟩)
            exact Finset.mem_singleton_self _
          · exact Or.inr (Or.inl (Or.inl ⟨other, (List.mem_erase_of_ne heq).mpr hother, hpin⟩))
        · exact Or.inr (Or.inl (Or.inr hfetched))
    | childrenOnly => exact Or.inr (Or.inl hunder)
    | nonHierarchicalInverseReferences => exact hunder.elim
  · exact Or.inr (Or.inr (hqueued hold))

/-- So has a children coroutine. -/
theorem Requested.childrenFetchDone (h : Requested queued w) {coroutine : FetchCoroutine}
    (hmem : coroutine ∈ w.childrenFetches) {guard : Finset NodeId} :
    Requested ((coroutine.nodeId, ⟨.childrenOnly, coroutine.pin⟩) :: queued) { w with
      childrenFetchInFlight := guard
      frames := coroutine.pin.toList
      childrenFetches := w.childrenFetches.erase coroutine } := by
  refine h.mono (fun _ => live_childrenFetchDone hmem) (fun _ _ _ => id)
    (fun _ => Finset.Subset.refl _) ?_ h.settling
  intro m d _ hserved
  have hqueued : Queued queued m d →
      Queued ((coroutine.nodeId, ⟨.childrenOnly, coroutine.pin⟩) :: queued) m d := by
    rintro ⟨entry, hentry, hmodel, hin⟩
    exact ⟨entry, List.mem_cons_of_mem _ hentry, hmodel, hin⟩
  rcases hserved with hunder | hold
  · cases d with
    | nodeOnly => exact Or.inr (Or.inl hunder)
    | childrenOnly =>
        rcases hunder with ⟨other, hother, hpin⟩ | htail
        · by_cases heq : other = coroutine
          · subst heq
            refine Or.inr (Or.inr ⟨_, List.mem_cons_self .., hpin, ?_⟩)
            exact Finset.mem_singleton_self _
          · exact Or.inr (Or.inl (Or.inl ⟨other, (List.mem_erase_of_ne heq).mpr hother, hpin⟩))
        · exact Or.inr (Or.inl (Or.inr htail))
    | nonHierarchicalInverseReferences => exact hunder.elim
  · exact Or.inr (Or.inr (hqueued hold))

/-- A fetch error fetches everything there is of its model. -/
theorem Requested.processFetchError (h : Requested ((nodeId, pending) :: queued) w)
    (hmodel : ∀ m, pending.model = some m → w.findNodeModel nodeId = some m) :
    Requested queued (w.processFetchError nodeId status) := by
  unfold NodeServiceImpl.processFetchError
  split
  · rename_i m hfind
    have hstatus : ((w.models m).onFetchError status).1.fetchStatus = .max :=
      BaseNodeModel.setFetchStatus_fetchStatus
    have hchange : Requested ((nodeId, pending) :: queued)
        (w.change m ((w.models m).onFetchError status)) := by
      refine h.change (fun _ hentry => BaseNodeModel.mem_setFetchStatus hentry) ?_ rfl
      rw [hstatus]
      exact fun d _ => NodeFetchStatus.mem_max d
    refine hchange.discharge nodeId pending ?_
    intro k hk _ _ _ d _ _
    have heq : m = k := Option.some.inj (hfind.symm.trans (hmodel k hk))
    subst heq
    rw [change_models_self, hstatus]
    exact Or.inl (NodeFetchStatus.mem_max d)
  · rename_i hnone
    refine h.discharge nodeId pending ?_
    intro k hk
    rw [hmodel k hk] at hnone
    cases hnone

/-- A state that its model receives is being applied. -/
theorem Requested.beginFetchedNode (h : Requested ((nodeId, pending) :: queued) w)
    (hstatus : pending.status = .nodeOnly) (hid : state.nodeId = nodeId)
    (hmodel : ∀ m, pending.model = some m → w.findNodeModel nodeId = some m) :
    Requested queued (w.beginFetchedNode context state) := by
  unfold NodeServiceImpl.beginFetchedNode
  rw [hid]
  split
  · rename_i m hfind
    dsimp only
    have hchange : Requested ((nodeId, pending) :: queued)
        (w.change m ((w.models m).receiveState context.hasSubtype state, [])) :=
      h.change (fun _ => id) (Finset.Subset.refl _) rfl
    refine Requested.discharge nodeId pending ?_ ?_
    · refine hchange.mono (fun _ hk => ?_) (fun _ _ _ => id) (fun _ => Finset.Subset.refl _) ?_
        hchange.settling
      · refine live_fetchedNodes ?_ hk
        intro node hmem
        rcases List.mem_append.mp hmem with hold | hnew
        · exact live_of_fetchedNode (w := w) hold
        · obtain rfl := List.mem_singleton.mp hnew
          exact (findNodeModel_eq_some.mp hfind).2
      · intro k d _ hserved
        refine Or.inr (hserved.imp_left fun hunder => ?_)
        exact hunder.mono (fun _ hmem _ => hmem)
          (fun node hmem hnode happlied => ⟨node, List.mem_append_left _ hmem, hnode, happlied⟩)
          (fun _ hmem _ => hmem) (fun tail hmem hnode => ⟨tail, hmem, hnode, rfl⟩) rfl
    · intro k hk _ _ _ d _ hd
      have heq : m = k := Option.some.inj (hfind.symm.trans (hmodel k hk))
      subst heq
      rw [hstatus] at hd
      obtain rfl := Finset.mem_singleton.mp hd
      exact Or.inr (Or.inr
        ⟨_, List.mem_append_right _ (List.mem_singleton_self _), rfl, rfl⟩)
  · rename_i hnone
    refine h.discharge nodeId pending ?_
    intro k hk
    rw [hmodel k hk] at hnone
    cases hnone

theorem beginFetchedNode_pendingFetchNodes :
    (w.beginFetchedNode context state).pendingFetchNodes = w.pendingFetchNodes := by
  unfold NodeServiceImpl.beginFetchedNode
  split <;> rfl

theorem processFetchError_pendingFetchNodes :
    (w.processFetchError nodeId status).pendingFetchNodes = w.pendingFetchNodes := by
  unfold NodeServiceImpl.processFetchError
  split <;> rfl

theorem pushMirror_pendingFetchNodes {reference : ReferenceDescription} :
    (w.pushMirror m reference).pendingFetchNodes = w.pendingFetchNodes := by
  unfold NodeServiceImpl.pushMirror
  dsimp only
  split
  · rfl
  · split <;> rfl

theorem Requested.nodeFetched (h : Requested w.pendingFetchNodes w) (hresident : Resident w)
    {coroutine : FetchCoroutine} (hmem : coroutine ∈ w.nodeFetches)
    {result : Except Status NodeState}
    (hresult : ∀ state ∈ result.toOption, state.nodeId = coroutine.nodeId) :
    Requested (w.nodeFetched context coroutine result).pendingFetchNodes
      (w.nodeFetched context coroutine result) := by
  have hdone := h.nodeFetchDone hmem
  have hresidentDone := hresident.nodeFetchDone hmem
  obtain ⟨m, hpin, hid⟩ := hresident.nodeFetch coroutine hmem
  -- The pin is on the stack: the result finds its model.
  have hfind : ∀ k, coroutine.pin = some k → NodeServiceImpl.findNodeModel { w with
      nodeFetchInFlight := w.nodeFetchInFlight.erase coroutine.nodeId
      frames := coroutine.pin.toList
      nodeFetches := w.nodeFetches.erase coroutine } coroutine.nodeId = some k := by
    intro k hk
    refine hresidentDone.find_of_nodeId (live_of_frame (Option.mem_toList.mpr hk)) ?_
    rw [hpin] at hk
    cases hk
    exact hid
  unfold NodeServiceImpl.nodeFetched
  dsimp only
  split
  · rename_i hnone
    rw [hnone] at hpin
    cases hpin
  · rw [beginFetchedNode_pendingFetchNodes]
    exact hdone.beginFetchedNode rfl (hresult _ rfl) hfind
  · rw [processFetchError_pendingFetchNodes]
    exact hdone.processFetchError hfind

theorem Requested.pushMirror (h : Requested queued w) {reference : ReferenceDescription} :
    Requested queued (w.pushMirror m reference) := by
  unfold NodeServiceImpl.pushMirror
  dsimp only
  split
  · exact h
  · split
    · rename_i target _
      obtain ⟨nodeState, heq⟩ := NodeModelImpl.pushReference_eq
        (reference.mirror (w.models m).nodeId) (w.models target)
      rw [heq]
      exact h.change (fun _ => id) (Finset.Subset.refl _) rfl
    · exact h

/-- The list of states in hand changes, and keeps those that are not applied. -/
theorem Requested.fetchedNodes (h : Requested queued w) {list : List FetchedNode}
    (hlive : ∀ node ∈ list, w.Live node.model)
    (hlist : ∀ node ∈ w.fetchedNodes, node.applied = false →
      .nodeOnly ∈ (w.models node.model).fetchStatus ∨
        ∃ node' ∈ list, node'.model = node.model ∧ node'.applied = false) :
    Requested queued { w with fetchedNodes := list } := by
  refine h.mono (fun _ => live_fetchedNodes hlive) (fun _ _ _ => id)
    (fun _ => Finset.Subset.refl _) ?_ h.settling
  intro m d _ hserved
  rcases hserved with hunder | hqueued
  · cases d with
    | nodeOnly =>
        rcases hunder with hfetch | ⟨node, hmem, rfl, happlied⟩
        · exact Or.inr (Or.inl (Or.inl hfetch))
        · exact (hlist node hmem happlied).imp_right fun hnew => Or.inl (Or.inr hnew)
    | childrenOnly => exact Or.inr (Or.inl hunder)
    | nonHierarchicalInverseReferences => exact hunder.elim
  · exact Or.inr (Or.inr hqueued)

theorem Requested.processFetchedNode (h : Requested w.pendingFetchNodes w) {node : FetchedNode}
    (hmem : node ∈ w.fetchedNodes) (hstep : w.processFetchedNode node = some w') :
    Requested w'.pendingFetchNodes w' := by
  have hlive := live_of_fetchedNode hmem
  have hrest : ∀ other ∈ w.fetchedNodes.erase node, w.Live other.model :=
    fun _ hother => live_of_fetchedNode (List.mem_of_mem_erase hother)
  unfold NodeServiceImpl.processFetchedNode at hstep
  dsimp only at hstep
  split at hstep
  · cases hstep
    rename_i reference references happlied _
    have hpush : Requested (w.pushMirror node.model reference).pendingFetchNodes
        (w.pushMirror node.model reference) := by
      rw [pushMirror_pendingFetchNodes]
      exact h.pushMirror
    refine hpush.fetchedNodes ?_ ?_
    · intro other hother
      rw [pushMirror_live]
      rcases List.mem_cons.mp hother with rfl | hother
      · exact hlive
      · exact hrest other hother
    · intro other hother hnot
      rw [pushMirror_fetchedNodes] at hother
      refine Or.inr ?_
      by_cases heq : other = node
      · subst heq
        exact ⟨_, List.mem_cons_self .., rfl, happlied⟩
      · exact ⟨other, List.mem_cons_of_mem _ ((List.mem_erase_of_ne heq).mpr hother), rfl, hnot⟩
  · obtain ⟨result, happly, hresult⟩ := Option.bind_eq_some_iff.mp hstep
    cases hresult
    obtain ⟨-, -, hrequest, -, hstatus, hcallbacks⟩ := NodeModelImpl.applyState_eq_some happly
    have hchange : Requested w.pendingFetchNodes (w.change node.model result) := by
      refine h.change hcallbacks ?_ hrequest
      rw [hstatus]
      exact Finset.subset_union_left
    refine Requested.fetchedNodes hchange ?_ ?_
    · intro other hother
      rcases List.mem_cons.mp hother with rfl | hother
      · exact hlive
      · exact hrest other hother
    · intro other hother hnot
      by_cases heq : other = node
      · subst heq
        rw [change_models_self, hstatus]
        exact Or.inl (Finset.mem_union_right _ (Finset.mem_singleton_self _))
      · exact Or.inr
          ⟨other, List.mem_cons_of_mem _ ((List.mem_erase_of_ne heq).mpr hother), rfl, hnot⟩
  · cases hstep
    rename_i happlied
    have hchange : Requested w.pendingFetchNodes
        (w.change node.model (w.models node.model).completeFetch) := by
      refine h.change (fun _ hentry => BaseNodeModel.mem_notifyCallbacks hentry) ?_ rfl
      rw [NodeModelImpl.completeFetch, NodeModelImpl.withBase_base,
        BaseNodeModel.notifyCallbacks_fetchStatus]
    refine Requested.fetchedNodes hchange hrest ?_
    intro other hother hnot
    refine Or.inr ⟨other, (List.mem_erase_of_ne ?_).mpr hother, rfl, hnot⟩
    rintro rfl
    rw [happlied] at hnot
    cases hnot

/-- The tail of a new request takes over from whatever was under way. -/
theorem Requested.onChildrenFetched (h : Requested ((nodeId, pending) :: queued) w)
    (hmodel : ∀ k, pending.model = some k → k = m) (hstatus : pending.status = .childrenOnly)
    (hm : w.Live m) (references : List ReferenceDescription) {guard : Finset NodeId} :
    Requested queued
      { w.onChildrenFetched m references with childrenFetchInFlight := guard } := by
  have hgrow : ∀ k, ((w.onChildrenFetched m references).models k).fetchCallbacks =
      (w.models k).fetchCallbacks ∧
      ((w.onChildrenFetched m references).models k).fetchStatus = (w.models k).fetchStatus :=
    change_models (fun k model => model.fetchCallbacks = (w.models k).fetchCallbacks ∧
      model.fetchStatus = (w.models k).fetchStatus) (fun _ => ⟨rfl, rfl⟩) ⟨rfl, rfl⟩
  -- The model has a current tail now.
  have hself : UnderWay { w.onChildrenFetched m references with childrenFetchInFlight := guard } m
      .childrenOnly := by
    refine Or.inr ⟨_, List.mem_append_right _ (List.mem_singleton_self _), rfl, ?_⟩
    show ((w.change m ((w.models m).beginChildren w.nextRequest, [])).models m).referenceRequest = _
    rw [change_models_self]
    rfl
  refine Requested.discharge nodeId pending ?_ ?_
  · refine h.mono (fun _ hk => live_onChildrenFetched hk) ?_ ?_ ?_ ?_
    · intro k _ entry hentry
      exact (hgrow k).1 ▸ hentry
    · intro k
      exact (hgrow k).2.symm.subset
    · intro k d _ hserved
      refine Or.inr (hserved.imp_left fun hunder => ?_)
      cases d with
      | nodeOnly => exact hunder
      | childrenOnly =>
          by_cases heq : k = m
          · subst heq
            exact hself
          · refine hunder.mono (fun _ hmem _ => hmem)
              (fun node hmem hnode happlied => ⟨node, hmem, hnode, happlied⟩)
              (fun _ hmem _ => hmem)
              (fun tail hmem hnode => ⟨tail, List.mem_append_left _ hmem, hnode, rfl⟩) ?_
            show ((w.change m ((w.models m).beginChildren w.nextRequest, [])).models
              k).referenceRequest = _
            rw [change_models_of_ne heq]
      | nonHierarchicalInverseReferences => exact hunder
    · intro tail hmem hlocked
      rcases List.mem_append.mp hmem with hold | hnew
      · show _ ∈ ((w.onChildrenFetched m references).models tail.model).fetchStatus
        rw [(hgrow tail.model).2]
        exact h.settling tail hold hlocked
      · obtain rfl := List.mem_singleton.mp hnew
        exact absurd rfl hlocked
  · intro k hk _ _ _ d _ hd
    obtain rfl := hmodel k hk
    rw [hstatus] at hd
    obtain rfl := Finset.mem_singleton.mp hd
    exact Or.inr hself

theorem Requested.childrenFetched (h : Requested w.pendingFetchNodes w) (hresident : Resident w)
    {coroutine : FetchCoroutine} (hmem : coroutine ∈ w.childrenFetches)
    {result : Except Status (List ReferenceDescription)} :
    Requested (w.childrenFetched coroutine result).pendingFetchNodes
      (w.childrenFetched coroutine result) := by
  have hresidentDone := hresident.childrenFetchDone hmem
  obtain ⟨m, hpin, hid⟩ := hresident.childrenFetch coroutine hmem
  have hfind : ∀ guard, NodeServiceImpl.findNodeModel { w with
      childrenFetchInFlight := guard
      frames := coroutine.pin.toList
      childrenFetches := w.childrenFetches.erase coroutine } coroutine.nodeId = some m :=
    fun guard => hresidentDone.find_of_nodeId (live_of_frame (Option.mem_toList.mpr hpin)) hid
  have hpinned : ∀ guard k, coroutine.pin = some k → NodeServiceImpl.findNodeModel { w with
      childrenFetchInFlight := guard
      frames := coroutine.pin.toList
      childrenFetches := w.childrenFetches.erase coroutine } coroutine.nodeId = some k := by
    intro guard k hk
    rw [hpin] at hk
    cases hk
    exact hfind guard
  unfold NodeServiceImpl.childrenFetched
  dsimp only
  split
  · rename_i hnone
    rw [hnone] at hpin
    cases hpin
  · split
    · rename_i k hk
      refine (h.childrenFetchDone hmem).onChildrenFetched ?_ rfl ?_ _
      · intro j hj
        exact Option.some.inj ((hpinned _ j hj).symm.trans hk)
      · exact (findNodeModel_eq_some.mp hk).2
    · rename_i hnone
      rw [hfind] at hnone
      cases hnone
  · rw [processFetchError_pendingFetchNodes]
    exact (h.childrenFetchDone hmem).processFetchError (hpinned _)

/-- A tail goes on as a tail of the same request. -/
theorem Requested.replaceTail (h : Requested queued w) {tail tail' : ChildrenTail}
    (hmem : tail ∈ w.childrenTails) (hmodel : tail'.model = tail.model)
    (hrequest : tail'.request = tail.request) (hlive : ∀ m, tail'.self = some m → w.Live m)
    (hself : tail'.self ≠ none → .childrenOnly ∈ (w.models tail'.model).fetchStatus) :
    Requested queued { w with childrenTails := tail' :: w.childrenTails.erase tail } := by
  refine h.mono (fun _ => live_replaceTail hlive) (fun _ _ _ => id)
    (fun _ => Finset.Subset.refl _) ?_ ?_
  · intro m d _ hserved
    refine Or.inr (hserved.imp_left fun hunder => ?_)
    refine hunder.mono (fun _ hmem _ => hmem)
      (fun node hmem hnode happlied => ⟨node, hmem, hnode, happlied⟩) (fun _ hmem _ => hmem) ?_ rfl
    intro other hother hm
    by_cases heq : other = tail
    · subst heq
      exact ⟨tail', List.mem_cons_self .., hmodel.trans hm, hrequest⟩
    · exact ⟨other, List.mem_cons_of_mem _ ((List.mem_erase_of_ne heq).mpr hother), hm, rfl⟩
  · intro other hother hlocked
    rcases List.mem_cons.mp hother with rfl | hother
    · exact hself hlocked
    · exact h.settling other (List.mem_of_mem_erase hother) hlocked

/-- A tail may end when its children are fetched or it is not current. -/
theorem Requested.settleChildren (h : Requested queued w) {tail : ChildrenTail}
    (hdone : .childrenOnly ∈ (w.models tail.model).fetchStatus ∨ ¬ w.Current tail) :
    Requested queued (w.settleChildren tail) := by
  refine h.mono (fun _ => live_settleChildren) (fun _ _ _ => id)
    (fun _ => Finset.Subset.refl _) ?_ ?_
  · intro m d hm hserved
    rcases hserved with hunder | hqueued
    · cases d with
      | nodeOnly => exact Or.inr (Or.inl hunder)
      | childrenOnly =>
          rcases hunder with hfetch | ⟨other, hother, rfl, hcurrent⟩
          · exact Or.inr (Or.inl (Or.inl hfetch))
          · by_cases heq : other = tail
            · subst heq
              rcases hdone with hin | hnot
              · exact Or.inl hin
              · exact absurd ⟨live_settleChildren hm, hcurrent⟩ hnot
            · exact Or.inr (Or.inl (Or.inr
                ⟨other, (List.mem_erase_of_ne heq).mpr hother, rfl, hcurrent⟩))
      | nonHierarchicalInverseReferences => exact hunder.elim
    · exact Or.inr (Or.inr hqueued)
  · exact fun other hother => h.settling other (List.mem_of_mem_erase hother)

theorem Requested.finishChildren (h : Requested queued w) {tail : ChildrenTail}
    (hmem : tail ∈ w.childrenTails) : Requested queued (w.finishChildren tail) := by
  unfold NodeServiceImpl.finishChildren
  split
  · rename_i hcurrent
    have hstatus : ((w.models tail.model).applyChildren tail.references).1.fetchStatus =
        (w.models tail.model).fetchStatus ∪ .childrenOnly :=
      BaseNodeModel.setFetchStatus_fetchStatus
    have hchange : Requested queued (w.change tail.model
        ((w.models tail.model).applyChildren tail.references)) := by
      refine h.change (fun _ hentry => BaseNodeModel.mem_setFetchStatus hentry) ?_ rfl
      rw [hstatus]
      exact Finset.subset_union_left
    refine hchange.replaceTail hmem rfl rfl ?_ ?_
    · rintro m ⟨⟩
      exact hcurrent.1
    · intro _
      show _ ∈ ((w.change tail.model _).models tail.model).fetchStatus
      rw [change_models_self, hstatus]
      exact Finset.mem_union_right _ (Finset.mem_singleton_self _)
  · rename_i hnot
    exact h.settleChildren (Or.inr hnot)

theorem finishChildren_pendingFetchNodes {tail : ChildrenTail} :
    (w.finishChildren tail).pendingFetchNodes = w.pendingFetchNodes := by
  unfold NodeServiceImpl.finishChildren
  split <;> rfl

/-- Tails only fetch nodes, which can always be answered. -/
theorem Requested.fetchNextChild (h : Requested w.pendingFetchNodes w) (hresident : Resident w)
    {tail : ChildrenTail} (hmem : tail ∈ w.childrenTails) (hself : tail.self = none) :
    Requested (w.fetchNextChild context tail).pendingFetchNodes
      (w.fetchNextChild context tail) := by
  unfold NodeServiceImpl.fetchNextChild
  split
  · exact h
  · rename_i nodeId remaining _
    have hget : Requested (w.getNode context nodeId).pendingFetchNodes
        (w.getNode context nodeId) := h.getNode hresident
    have hanswer : ∀ fetchStatus,
        (w.getNode context nodeId).Answerable nodeId fetchStatus .nodeOnly := by
      intro fetchStatus d hd _
      obtain rfl := Finset.mem_singleton.mp hd
      refine ⟨?_, ?_⟩
      · rintro ⟨⟩
      · rintro ⟨⟩
    refine Requested.replaceTail (hget.fetch hresident.getNode fun _ _ => hanswer _) ?_ rfl rfl ?_ ?_
    · rw [fetch_childrenTails, getNode_childrenTails]
      exact hmem
    · intro m hm
      rw [hself] at hm
      cases hm
    · exact fun hlocked => absurd hself hlocked

theorem Requested.resume (h : Requested queued w) {callback : FetchId} :
    Requested queued (w.resume callback) := by
  refine h.mono (fun _ => live_resume) (fun _ _ _ => id) (fun _ => Finset.Subset.refl _) ?_ ?_
  · intro m d _ hserved
    refine Or.inr (hserved.imp_left fun hunder => ?_)
    refine hunder.mono (fun _ hmem _ => hmem)
      (fun node hmem hnode happlied => ⟨node, hmem, hnode, happlied⟩) (fun _ hmem _ => hmem) ?_ rfl
    intro tail hmem hm
    refine ⟨_, List.mem_map_of_mem hmem, ?_, ?_⟩
    · split <;> exact hm
    · split <;> rfl
  · intro tail hmem hlocked
    obtain ⟨old, hold, waiting, rfl⟩ := mem_resume_childrenTails hmem
    exact h.settling old hold hlocked

theorem Requested.removeFromKeepAlive (h : Requested queued w) :
    Requested queued (w.removeFromKeepAlive nodeId) := by
  unfold NodeServiceImpl.removeFromKeepAlive
  split
  · exact h.keepAlive fun _ hmem => live_of_keepAlive (List.mem_of_mem_filter hmem)
  · exact h

theorem Requested.onModelChanged (h : Requested queued w) {verb : ModelChangeVerb} :
    Requested queued (w.onModelChanged nodeId verb) := by
  obtain ⟨told, hcases, heq⟩ := exists_onModelChanged w nodeId verb
  have hfound : Requested queued told := by
    rcases hcases with rfl | ⟨m, -, rfl⟩
    · exact h
    · unfold NodeModelImpl.onModelChanged
      split
      · refine h.change (fun _ hentry => BaseNodeModel.mem_setFetchStatus hentry) ?_ rfl
        show _ ⊆ (w.models m).onNodeDeleted.1.fetchStatus
        rw [BaseNodeModel.onNodeDeleted, BaseNodeModel.setFetchStatus_fetchStatus]
        exact fun d _ => NodeFetchStatus.mem_max d
      · exact h.change (fun _ => id) (Finset.Subset.refl _) rfl
  rw [heq]
  split
  · exact hfound.removeFromKeepAlive
  · split
    · exact h
    · exact hfound

theorem removeFromKeepAlive_pendingFetchNodes :
    (w.removeFromKeepAlive nodeId).pendingFetchNodes = w.pendingFetchNodes := by
  unfold NodeServiceImpl.removeFromKeepAlive
  split <;> rfl

theorem onModelChanged_pendingFetchNodes {verb : ModelChangeVerb} :
    (w.onModelChanged nodeId verb).pendingFetchNodes = w.pendingFetchNodes := by
  unfold NodeServiceImpl.onModelChanged
  split
  · dsimp only
    rw [removeFromKeepAlive_pendingFetchNodes]
    split <;> rfl
  · split
    · rfl
    · split <;> rfl

/-- The queued fetches can be answered. -/
def AnswersQueued (w : NodeServiceImpl) (queued : List (NodeId × PendingNodeFetch)) : Prop :=
  ∀ entry ∈ queued, ∀ m, entry.2.model = some m →
    m ∈ w.frames ∧ (w.models m).nodeId = entry.1 ∧
      ∀ waiting ∈ (w.models m).fetchCallbacks, ∀ d ∈ waiting.1, d ∉ (w.models m).fetchStatus →
        d ≠ .nonHierarchicalInverseReferences ∧ (d = .childrenOnly → w.TailsOf entry.1 m)

theorem Requested.spawnPending (h : Requested queued w) (hresident : Resident w)
    (hmodel : ∀ entry ∈ queued, entry.2.model ≠ none) (hanswers : w.AnswersQueued queued) :
    Requested [] (spawnPending queued w) := by
  induction queued generalizing w with
  | nil => exact h
  | cons head rest ih =>
      obtain ⟨nodeId, pending⟩ := head
      obtain ⟨m, hm⟩ : ∃ m, pending.model = some m :=
        Option.ne_none_iff_exists'.mp (hmodel _ (List.mem_cons_self ..))
      obtain ⟨hframe, hid, hanswer⟩ := hanswers _ (List.mem_cons_self ..) m hm
      have hspawned : Resident (w.spawnFetch nodeId pending.status pending.model) := by
        rw [hm]
        exact hresident.spawnFetch hframe hid
      have hlive : ∀ k, (w.spawnFetch nodeId pending.status pending.model).Live k → w.Live k := by
        rw [hm]
        exact fun k => live_spawnFetch hframe
      obtain ⟨_, _, _, _, heq⟩ := spawnFetch_eq w nodeId pending.status pending.model
      have hmodels : (w.spawnFetch nodeId pending.status pending.model).models = w.models := by
        rw [heq]
      have htails : (w.spawnFetch nodeId pending.status pending.model).childrenTails =
          w.childrenTails := by
        rw [heq]
      rw [NodeServiceImpl.spawnPending]
      refine ih ?_ hspawned (fun entry hentry => hmodel entry (List.mem_cons_of_mem _ hentry)) ?_
      · refine Requested.discharge nodeId pending ?_ ?_
        · refine h.mono hlive ?_ ?_ ?_ ?_
          · rw [hmodels]
            exact fun _ _ _ => id
          · rw [hmodels]
            exact fun _ => Finset.Subset.refl _
          · exact fun _ _ _ hserved => Or.inr (hserved.imp_left UnderWay.spawnFetch)
          · rw [hmodels, htails]
            exact h.settling
        · intro k hk _ waiting hwaiting d hd hin
          rw [hm] at hk
          cases hk
          rw [hmodels] at hwaiting ⊢
          by_cases hfetched : d ∈ (w.models m).fetchStatus
          · exact Or.inl hfetched
          · obtain ⟨hne, htailsOf⟩ := hanswer waiting hwaiting d hd hfetched
            rw [hm]
            exact Or.inr (hresident.underWay_spawnFetch hframe hid hin hne htailsOf)
      · intro entry hentry k hk
        have hold := hanswers entry (List.mem_cons_of_mem _ hentry) k hk
        unfold TailsOf at hold ⊢
        rw [hmodels, htails, heq]
        exact hold

theorem spawnPending_pendingFetchNodes (list : List (NodeId × PendingNodeFetch)) :
    (spawnPending list w).pendingFetchNodes = w.pendingFetchNodes := by
  induction list generalizing w with
  | nil => rfl
  | cons head rest ih =>
      obtain ⟨nodeId, pending⟩ := head
      obtain ⟨_, _, _, _, heq⟩ := spawnFetch_eq w nodeId pending.status pending.model
      rw [spawnPending, ih, heq]

theorem Requested.onChannelOpened (h : Requested w.pendingFetchNodes w) (hresident : Resident w)
    (hok : w.KeepsRequests .channelOpened) (hstep : w.onChannelOpened = some w') :
    Requested w'.pendingFetchNodes w' := by
  unfold NodeServiceImpl.onChannelOpened at hstep
  obtain ⟨-, hstep⟩ := check_bind_eq_some.mp hstep
  cases hstep
  rw [spawnPending_pendingFetchNodes]
  refine Requested.spawnPending ?_ ?_ ?_ ?_
  · exact h.keep rfl (fun _ => live_takePending) rfl rfl rfl rfl
  · exact hresident.takePending
  · intro entry hentry hnone
    obtain ⟨m, hm, -⟩ := hresident.pending entry hentry
    rw [hm] at hnone
    cases hnone
  · intro entry hentry m hm
    obtain ⟨k, hk, hid⟩ := hresident.pending entry hentry
    rw [hm] at hk
    cases hk
    refine ⟨List.mem_filterMap.mpr ⟨entry, hentry, hm⟩, hid, ?_⟩
    intro waiting hwaiting d hd hmissing
    obtain ⟨hne, habandoned⟩ := hok entry hentry m hm waiting hwaiting d hd hmissing
    refine ⟨hne, fun hchildren => ?_⟩
    have hfind := hresident.find_of_nodeId (live_of_pending hentry hm) hid
    exact hresident.tailsOf hfind (habandoned hchildren)

theorem Requested.onChannelClosed (h : Requested w.pendingFetchNodes w)
    (hstep : w.onChannelClosed = some w') : Requested w'.pendingFetchNodes w' := by
  unfold NodeServiceImpl.onChannelClosed at hstep
  obtain ⟨-, hstep⟩ := check_bind_eq_some.mp hstep
  obtain ⟨-, hstep⟩ := check_bind_eq_some.mp hstep
  cases hstep
  exact h.keep rfl (fun _ => id) rfl rfl rfl rfl

end

/-! ## §5  Every run -/

theorem unwind_pendingFetchNodes (w : NodeServiceImpl) :
    w.unwind.pendingFetchNodes = w.pendingFetchNodes :=
  rfl

theorem Requested.step (h : Requested w.pendingFetchNodes w) (hresident : Resident w)
    {a : NodeServiceAction} (hen : w.enabled a) (hok : w.KeepsRequests a)
    (hstep : w.step context a = some w') : Requested w'.pendingFetchNodes w' := by
  obtain ⟨u, hrun, rfl⟩ := Option.map_eq_some_iff.mp hstep
  apply Requested.unwind
  cases a with
  | getNode nodeId =>
      cases hrun
      exact h.getNode hresident
  | startFetch nodeId status =>
      cases hrun
      exact h.startFetch hresident
  | fetch nodeId status =>
      cases hrun
      exact h.fetch hresident hok
  | resume callback =>
      cases hrun
      exact h.resume
  | nodeFetched coroutine result =>
      cases hrun
      exact h.nodeFetched hresident hen.1 hen.2
  | childrenFetched coroutine result =>
      cases hrun
      exact h.childrenFetched hresident hen
  | processFetchedNode node => exact h.processFetchedNode hen hrun
  | fetchNextChild tail =>
      cases hrun
      exact h.fetchNextChild hresident hen.1 hen.2.2.2
  | finishChildren tail =>
      cases hrun
      rw [unwind_pendingFetchNodes, finishChildren_pendingFetchNodes]
      exact h.finishChildren hen.1
  | settleChildren tail =>
      cases hrun
      have hself : tail.self ≠ none := hen.2
      exact h.settleChildren (Or.inl (h.settling tail hen.1 hself))
  | modelChanged nodeId verb =>
      cases hrun
      rw [unwind_pendingFetchNodes, onModelChanged_pendingFetchNodes]
      exact h.onModelChanged
  | channelOpened => exact h.onChannelOpened hresident hok hrun
  | channelClosed => exact h.onChannelClosed hrun

theorem requested_of_reaches
    (h : (nodeServiceMachine context).Reaches (fun w a => w.KeepsRequests a) w) :
    Resident w ∧ Requested w.pendingFetchNodes w := by
  refine h.invariant (I := fun w => Resident w ∧ Requested w.pendingFetchNodes w)
    ⟨Resident.init, Requested.init⟩ ?_
  rintro w a w' ⟨hresident, hrequested⟩ hen hok hstep
  exact ⟨hresident.step hen hstep, hrequested.step hresident hen hok hstep⟩

/-- What a callback that waits for a part of a model may rely on. -/
inductive Served (w : NodeServiceImpl) (m : ModelId) : FetchDimension → Prop
  /-- A node fetch pins the model, and its result will be applied to it. -/
  | nodeFetch {coroutine : FetchCoroutine} : coroutine ∈ w.nodeFetches →
      coroutine.pin = some m → w.findNodeModel coroutine.nodeId = some m → w.Served m .nodeOnly
  /-- The state of the model has been fetched and is being applied. -/
  | fetchedNode {node : FetchedNode} : node ∈ w.fetchedNodes → node.model = m →
      node.applied = false → w.Served m .nodeOnly
  | childrenFetch {coroutine : FetchCoroutine} : coroutine ∈ w.childrenFetches →
      coroutine.pin = some m → w.findNodeModel coroutine.nodeId = some m →
      w.Served m .childrenOnly
  /-- The children tail of the model is running. -/
  | tail {tail : ChildrenTail} : tail ∈ w.childrenTails → tail.model = m → w.Current tail →
      w.Served m .childrenOnly
  /-- The request waits for the channel to open. -/
  | queued {d : FetchDimension} : Queued w.pendingFetchNodes m d → w.Served m d

theorem UnderWay.served (h : w.UnderWay m d) (hresident : Resident w) (hm : w.Live m) :
    w.Served m d := by
  cases d with
  | nodeOnly =>
      rcases h with ⟨coroutine, hmem, hpin⟩ | ⟨node, hmem, hmodel, happlied⟩
      · exact .nodeFetch hmem hpin (hresident.find_nodeFetch hmem hpin)
      · exact .fetchedNode hmem hmodel happlied
  | childrenOnly =>
      rcases h with ⟨coroutine, hmem, hpin⟩ | ⟨tail, hmem, rfl, hcurrent⟩
      · exact .childrenFetch hmem hpin (hresident.find_childrenFetch hmem hpin)
      · exact .tail hmem rfl ⟨hm, hcurrent⟩
  | nonHierarchicalInverseReferences => exact h.elim

/-- **No lost request.** In every run that only spawns answerable requests, a
callback that waits for a part a live model misses is answered by a fetch of that
part for that model, by its children tail, or when the channel opens. -/
theorem no_lost_request
    (h : (nodeServiceMachine context).Reaches (fun w a => w.KeepsRequests a) w) (hm : w.Live m) :
    ∀ entry ∈ (w.models m).fetchCallbacks, ∀ d ∈ entry.1, d ∉ (w.models m).fetchStatus →
      w.Served m d := by
  intro entry hentry d hd hmissing
  obtain ⟨hresident, hrequested⟩ := requested_of_reaches h
  rcases hrequested.waiting m hm entry hentry d hd with hin | hunder | hqueued
  · exact absurd hin hmissing
  · exact hunder.served hresident hm
  · exact .queued hqueued

/-! ### Runs -/

/-- A context without a keep-alive window. -/
def bareContext : NodeServiceImplContext := ⟨0, .numeric 45 0⟩

theorem no_lost_request_fetch :
    ∃ w, (nodeServiceMachine bareContext).Reaches (fun w a => w.KeepsRequests a) w ∧
      w.Live 0 ∧ w.Served 0 .childrenOnly := by
  obtain ⟨w, hreaches, hp⟩ := Machine.exists_reaches_of_exec (M := nodeServiceMachine bareContext)
    (fun w a => w.KeepsRequests a)
    (p := fun w => w.Live 0 ∧ (w.models 0).fetchCallbacks = [(.nodeAndChildren, 0)] ∧
      .childrenOnly ∉ (w.models 0).fetchStatus)
    [.channelOpened, .fetch (.numeric 1 1) .nodeAndChildren] (by decide)
  obtain ⟨hm, hcallbacks, hmissing⟩ := of_decide_eq_true hp
  refine ⟨w, hreaches, hm, no_lost_request hreaches hm (.nodeAndChildren, 0) ?_ _ ?_ hmissing⟩
  · rw [hcallbacks]
    exact List.mem_singleton_self _
  · decide

/-- The tail of a browse of node 1 that has found node 2. -/
def releasedTail (remaining : List NodeId) : ChildrenTail :=
  ⟨0, 0, .numeric 1 1, [⟨⟨.numeric 3 1, true, .numeric 2 1⟩, none⟩], remaining, none, none⟩

/-- **A lost request.** A model is browsed and released while its tail runs; the
next model of the node asks for its children, and nothing will answer it. -/
theorem released_tail_loses_request :
    ∃ w, (nodeServiceMachine bareContext).Reachable w ∧ w.Live 1 ∧
      ∃ entry ∈ (w.models 1).fetchCallbacks, .childrenOnly ∈ entry.1 ∧
        .childrenOnly ∉ (w.models 1).fetchStatus ∧ ¬ w.Served 1 .childrenOnly := by
  obtain ⟨w, hreachable, hp⟩ := Machine.exists_reachable_of_exec
    (M := nodeServiceMachine bareContext)
    (p := fun w => w.Live 1 ∧ (w.models 1).fetchCallbacks = [(.nodeAndChildren, 0)] ∧
      .childrenOnly ∉ (w.models 1).fetchStatus ∧ w.childrenFetches = [] ∧
      w.childrenTails = [] ∧ w.pendingFetchNodes = [])
    [.channelOpened, .startFetch (.numeric 1 1) .childrenOnly,
      .childrenFetched ⟨.numeric 1 1, some 0⟩ (.ok [⟨⟨.numeric 3 1, true, .numeric 2 1⟩, none⟩]),
      .fetch (.numeric 1 1) .nodeAndChildren,
      .nodeFetched ⟨.numeric 1 1, some 1⟩ (.ok { nodeId := .numeric 1 1 }),
      .processFetchedNode ⟨1, [], false⟩, .processFetchedNode ⟨1, [], true⟩,
      .fetchNextChild (releasedTail [.numeric 2 1, .numeric 3 1]),
      .nodeFetched ⟨.numeric 2 1, some 2⟩ (.ok { nodeId := .numeric 2 1 }),
      .processFetchedNode ⟨2, [], false⟩, .processFetchedNode ⟨2, [], true⟩, .resume 1,
      .fetchNextChild (releasedTail [.numeric 3 1]),
      .nodeFetched ⟨.numeric 3 1, some 3⟩ (.ok { nodeId := .numeric 3 1 }),
      .processFetchedNode ⟨3, [], false⟩, .processFetchedNode ⟨3, [], true⟩, .resume 2,
      .finishChildren (releasedTail [])] (by decide)
  obtain ⟨hm, hcallbacks, hmissing, hfetches, htails, hqueued⟩ := of_decide_eq_true hp
  refine ⟨w, hreachable, hm, (.nodeAndChildren, 0), ?_, by decide, hmissing, ?_⟩
  · rw [hcallbacks]
    exact List.mem_singleton_self _
  · intro hserved
    cases hserved with
    | childrenFetch hmem _ _ =>
        rw [hfetches] at hmem
        cases hmem
    | tail hmem _ _ =>
        rw [htails] at hmem
        cases hmem
    | queued h =>
        rw [hqueued] at h
        obtain ⟨entry, hmem, -⟩ := h
        cases hmem

end NodeServiceImpl

end ScadaCommon.V3
