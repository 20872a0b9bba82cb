import ScadaCommon.NodeService.V3.NodeServiceImpl

/-!
# Resident models

A live model is the registered one of its node, so at most one model of a node
lives at a time; and a result of a fetch finds the model that the fetch pins.
This holds in every state the service reaches.

§1 holders · §2 the invariant · §3 models · §4 requests · §5 results · §6 every
step.
-/

namespace ScadaCommon.V3

open Foundation

namespace NodeServiceImpl

variable {context : NodeServiceImplContext} {w w' : NodeServiceImpl} {m k : ModelId}
  {nodeId : NodeId}

/-! ## §1  Holders -/

theorem live_iff : w.Live m ↔ m ∈ w.frames ∨ (∃ entry ∈ w.keepAliveList, entry.2 = m) ∨
    (∃ entry ∈ w.pendingFetchNodes, entry.2.model = some m) ∨
    (∃ coroutine ∈ w.nodeFetches, coroutine.pin = some m) ∨
    (∃ coroutine ∈ w.childrenFetches, coroutine.pin = some m) ∨
    (∃ node ∈ w.fetchedNodes, node.model = m) ∨
    (∃ tail ∈ w.childrenTails, tail.self = some m) ∨ ∃ call ∈ w.fetchCalls, call.model = m := by
  unfold Live holders
  simp only [List.mem_append, List.mem_map, List.mem_filterMap, or_assoc]

theorem live_of_frame (h : m ∈ w.frames) : w.Live m := by
  rw [live_iff]
  exact Or.inl h

theorem live_of_keepAlive {entry : ℕ × ModelId} (h : entry ∈ w.keepAliveList) :
    w.Live entry.2 := by
  rw [live_iff]
  exact Or.inr (Or.inl ⟨entry, h, rfl⟩)

theorem live_of_pending {entry : NodeId × PendingNodeFetch} (h : entry ∈ w.pendingFetchNodes)
    (hm : entry.2.model = some m) : w.Live m := by
  rw [live_iff]
  exact Or.inr (Or.inr (Or.inl ⟨entry, h, hm⟩))

theorem live_of_nodeFetch {coroutine : FetchCoroutine} (h : coroutine ∈ w.nodeFetches)
    (hm : coroutine.pin = some m) : w.Live m := by
  rw [live_iff]
  exact Or.inr (Or.inr (Or.inr (Or.inl ⟨coroutine, h, hm⟩)))

theorem live_of_childrenFetch {coroutine : FetchCoroutine} (h : coroutine ∈ w.childrenFetches)
    (hm : coroutine.pin = some m) : w.Live m := by
  rw [live_iff]
  exact Or.inr (Or.inr (Or.inr (Or.inr (Or.inl ⟨coroutine, h, hm⟩))))

theorem live_of_fetchedNode {node : FetchedNode} (h : node ∈ w.fetchedNodes) :
    w.Live node.model := by
  rw [live_iff]
  exact Or.inr (Or.inr (Or.inr (Or.inr (Or.inr (Or.inl ⟨node, h, rfl⟩)))))

theorem live_of_tail {tail : ChildrenTail} (h : tail ∈ w.childrenTails)
    (hm : tail.self = some m) : w.Live m := by
  rw [live_iff]
  exact Or.inr (Or.inr (Or.inr (Or.inr (Or.inr (Or.inr (Or.inl ⟨tail, h, hm⟩))))))

theorem live_of_call {call : FetchCall} (h : call ∈ w.fetchCalls) : w.Live call.model := by
  rw [live_iff]
  exact Or.inr (Or.inr (Or.inr (Or.inr (Or.inr (Or.inr (Or.inr ⟨call, h, rfl⟩))))))

/-- No model comes to life when the holders only hold live ones. -/
theorem live_mono (h : w'.Live m) (hframes : ∀ m ∈ w'.frames, w.Live m)
    (hkeep : ∀ entry ∈ w'.keepAliveList, w.Live entry.2)
    (hpending : ∀ entry ∈ w'.pendingFetchNodes, ∀ m, entry.2.model = some m → w.Live m)
    (hnode : ∀ coroutine ∈ w'.nodeFetches, ∀ m, coroutine.pin = some m → w.Live m)
    (hchildren : ∀ coroutine ∈ w'.childrenFetches, ∀ m, coroutine.pin = some m → w.Live m)
    (hfetched : ∀ node ∈ w'.fetchedNodes, w.Live node.model)
    (htail : ∀ tail ∈ w'.childrenTails, ∀ m, tail.self = some m → w.Live m)
    (hcall : ∀ call ∈ w'.fetchCalls, w.Live call.model) : w.Live m := by
  rcases live_iff.mp h with hm | ⟨entry, hmem, rfl⟩ | ⟨entry, hmem, hm⟩ | ⟨coroutine, hmem, hm⟩ |
    ⟨coroutine, hmem, hm⟩ | ⟨node, hmem, rfl⟩ | ⟨tail, hmem, hm⟩ | ⟨call, hmem, rfl⟩
  · exact hframes m hm
  · exact hkeep entry hmem
  · exact hpending entry hmem m hm
  · exact hnode coroutine hmem m hm
  · exact hchildren coroutine hmem m hm
  · exact hfetched node hmem
  · exact htail tail hmem m hm
  · exact hcall call hmem

theorem live_frames {list : List ModelId} (hlist : ∀ m ∈ list, w.Live m)
    (hk : ({ w with frames := list } : NodeServiceImpl).Live k) : w.Live k :=
  live_mono hk hlist (fun _ h => live_of_keepAlive h) (fun _ h _ => live_of_pending h)
    (fun _ h _ => live_of_nodeFetch h) (fun _ h _ => live_of_childrenFetch h)
    (fun _ h => live_of_fetchedNode h) (fun _ h _ => live_of_tail h) (fun _ h => live_of_call h)

theorem live_keepAliveList {list : List (ℕ × ModelId)} (hlist : ∀ entry ∈ list, w.Live entry.2)
    (hk : ({ w with keepAliveList := list } : NodeServiceImpl).Live k) : w.Live k :=
  live_mono hk (fun _ h => live_of_frame h) hlist (fun _ h _ => live_of_pending h)
    (fun _ h _ => live_of_nodeFetch h) (fun _ h _ => live_of_childrenFetch h)
    (fun _ h => live_of_fetchedNode h) (fun _ h _ => live_of_tail h) (fun _ h => live_of_call h)

theorem live_pendingFetchNodes {list : List (NodeId × PendingNodeFetch)}
    (hlist : ∀ entry ∈ list, ∀ m, entry.2.model = some m → w.Live m)
    (hk : ({ w with pendingFetchNodes := list } : NodeServiceImpl).Live k) : w.Live k :=
  live_mono hk (fun _ h => live_of_frame h) (fun _ h => live_of_keepAlive h) hlist
    (fun _ h _ => live_of_nodeFetch h) (fun _ h _ => live_of_childrenFetch h)
    (fun _ h => live_of_fetchedNode h) (fun _ h _ => live_of_tail h) (fun _ h => live_of_call h)

theorem live_nodeFetches {list : List FetchCoroutine}
    (hlist : ∀ coroutine ∈ list, ∀ m, coroutine.pin = some m → w.Live m)
    (hk : ({ w with nodeFetches := list } : NodeServiceImpl).Live k) : w.Live k :=
  live_mono hk (fun _ h => live_of_frame h) (fun _ h => live_of_keepAlive h)
    (fun _ h _ => live_of_pending h) hlist (fun _ h _ => live_of_childrenFetch h)
    (fun _ h => live_of_fetchedNode h) (fun _ h _ => live_of_tail h) (fun _ h => live_of_call h)

theorem live_childrenFetches {list : List FetchCoroutine}
    (hlist : ∀ coroutine ∈ list, ∀ m, coroutine.pin = some m → w.Live m)
    (hk : ({ w with childrenFetches := list } : NodeServiceImpl).Live k) : w.Live k :=
  live_mono hk (fun _ h => live_of_frame h) (fun _ h => live_of_keepAlive h)
    (fun _ h _ => live_of_pending h) (fun _ h _ => live_of_nodeFetch h) hlist
    (fun _ h => live_of_fetchedNode h) (fun _ h _ => live_of_tail h) (fun _ h => live_of_call h)

theorem live_fetchedNodes {list : List FetchedNode} (hlist : ∀ node ∈ list, w.Live node.model)
    (hk : ({ w with fetchedNodes := list } : NodeServiceImpl).Live k) : w.Live k :=
  live_mono hk (fun _ h => live_of_frame h) (fun _ h => live_of_keepAlive h)
    (fun _ h _ => live_of_pending h) (fun _ h _ => live_of_nodeFetch h)
    (fun _ h _ => live_of_childrenFetch h) hlist (fun _ h _ => live_of_tail h)
    (fun _ h => live_of_call h)

theorem live_childrenTails {list : List ChildrenTail}
    (hlist : ∀ tail ∈ list, ∀ m, tail.self = some m → w.Live m)
    (hk : ({ w with childrenTails := list } : NodeServiceImpl).Live k) : w.Live k :=
  live_mono hk (fun _ h => live_of_frame h) (fun _ h => live_of_keepAlive h)
    (fun _ h _ => live_of_pending h) (fun _ h _ => live_of_nodeFetch h)
    (fun _ h _ => live_of_childrenFetch h) (fun _ h => live_of_fetchedNode h) hlist
    (fun _ h => live_of_call h)

theorem live_fetchCalls {list : List FetchCall} (hlist : ∀ call ∈ list, w.Live call.model)
    (hk : ({ w with fetchCalls := list } : NodeServiceImpl).Live k) : w.Live k :=
  live_mono hk (fun _ h => live_of_frame h) (fun _ h => live_of_keepAlive h)
    (fun _ h _ => live_of_pending h) (fun _ h _ => live_of_nodeFetch h)
    (fun _ h _ => live_of_childrenFetch h) (fun _ h => live_of_fetchedNode h)
    (fun _ h _ => live_of_tail h) hlist

theorem findNodeModel_eq_some :
    w.findNodeModel nodeId = some m ↔ w.registry nodeId = some m ∧ w.Live m := by
  unfold findNodeModel
  rw [Option.filter_eq_some_iff, decide_eq_true_eq]

/-! ## §2  The invariant -/

/-- Live models are registered, and what is under way for a node pins, or goes
back to, a model of that node. -/
structure Resident (w : NodeServiceImpl) : Prop where
  live : ∀ m, w.Live m → m < w.nextModel ∧ w.registry (w.models m).nodeId = some m
  registry : ∀ nodeId m, w.registry nodeId = some m →
    m < w.nextModel ∧ (w.models m).nodeId = nodeId
  pending : ∀ entry ∈ w.pendingFetchNodes,
    ∃ m, entry.2.model = some m ∧ (w.models m).nodeId = entry.1
  nodeFetch : ∀ coroutine ∈ w.nodeFetches,
    ∃ m, coroutine.pin = some m ∧ (w.models m).nodeId = coroutine.nodeId
  childrenFetch : ∀ coroutine ∈ w.childrenFetches,
    ∃ m, coroutine.pin = some m ∧ (w.models m).nodeId = coroutine.nodeId
  tail : ∀ tail ∈ w.childrenTails, tail.model < w.nextModel ∧
    (w.models tail.model).nodeId = tail.nodeId ∧ ∀ m, tail.self = some m → m = tail.model
  nodeGuard : ∀ nodeId ∈ w.nodeFetchInFlight, ∃ coroutine ∈ w.nodeFetches,
    coroutine.nodeId = nodeId
  childrenGuard : ∀ nodeId ∈ w.childrenFetchInFlight,
    (∃ coroutine ∈ w.childrenFetches, coroutine.nodeId = nodeId) ∨
      ∃ tail ∈ w.childrenTails, tail.nodeId = nodeId

namespace Resident

theorem init : Resident {} where
  live := by
    intro m h
    cases h
  registry := by
    rintro nodeId m ⟨⟩
  pending := by
    rintro entry ⟨⟩
  nodeFetch := by
    rintro coroutine ⟨⟩
  childrenFetch := by
    rintro coroutine ⟨⟩
  tail := by
    rintro tail ⟨⟩
  nodeGuard := by
    rintro nodeId ⟨⟩
  childrenGuard := by
    rintro nodeId ⟨⟩

/-- A live model is found by its node. -/
theorem find (h : Resident w) (hm : w.Live m) : w.findNodeModel (w.models m).nodeId = some m :=
  findNodeModel_eq_some.mpr ⟨(h.live m hm).2, hm⟩

theorem find_of_nodeId (h : Resident w) (hm : w.Live m) (hid : (w.models m).nodeId = nodeId) :
    w.findNodeModel nodeId = some m :=
  hid ▸ h.find hm

theorem nodeId_of_find (h : Resident w) (hfind : w.findNodeModel nodeId = some m) :
    (w.models m).nodeId = nodeId :=
  (h.registry nodeId m (findNodeModel_eq_some.mp hfind).1).2

/-- **One model a node.** -/
theorem eq_of_nodeId (h : Resident w) (hm : w.Live m) (hk : w.Live k)
    (hid : (w.models m).nodeId = (w.models k).nodeId) : m = k := by
  have hfind := h.find hm
  rw [hid, h.find hk] at hfind
  exact (Option.some.inj hfind).symm

/-- A node fetch pins the model that its result is applied to. -/
theorem find_nodeFetch (h : Resident w) {coroutine : FetchCoroutine}
    (hmem : coroutine ∈ w.nodeFetches) (hpin : coroutine.pin = some m) :
    w.findNodeModel coroutine.nodeId = some m := by
  obtain ⟨k, hk, hid⟩ := h.nodeFetch coroutine hmem
  rw [hpin] at hk
  cases hk
  exact h.find_of_nodeId (live_of_nodeFetch hmem hpin) hid

theorem find_childrenFetch (h : Resident w) {coroutine : FetchCoroutine}
    (hmem : coroutine ∈ w.childrenFetches) (hpin : coroutine.pin = some m) :
    w.findNodeModel coroutine.nodeId = some m := by
  obtain ⟨k, hk, hid⟩ := h.childrenFetch coroutine hmem
  rw [hpin] at hk
  cases hk
  exact h.find_of_nodeId (live_of_childrenFetch hmem hpin) hid

/-- **Frame rule**: models keep their nodes, none comes to life, and nothing new
is under way. -/
theorem mono (h : Resident w) (hmodels : ∀ m, (w'.models m).nodeId = (w.models m).nodeId)
    (hnext : w'.nextModel = w.nextModel) (hregistry : w'.registry = w.registry)
    (hlive : ∀ m, w'.Live m → w.Live m)
    (hpending : ∀ entry ∈ w'.pendingFetchNodes, entry ∈ w.pendingFetchNodes)
    (hnode : ∀ coroutine ∈ w'.nodeFetches, coroutine ∈ w.nodeFetches)
    (hchildren : ∀ coroutine ∈ w'.childrenFetches, coroutine ∈ w.childrenFetches)
    (htail : ∀ tail ∈ w'.childrenTails, ∃ old ∈ w.childrenTails, tail.model = old.model ∧
      tail.nodeId = old.nodeId ∧ ∀ m, tail.self = some m → m = tail.model)
    (hnodeGuard : ∀ nodeId ∈ w'.nodeFetchInFlight, ∃ coroutine ∈ w'.nodeFetches,
      coroutine.nodeId = nodeId)
    (hchildrenGuard : ∀ nodeId ∈ w'.childrenFetchInFlight,
      (∃ coroutine ∈ w'.childrenFetches, coroutine.nodeId = nodeId) ∨
        ∃ tail ∈ w'.childrenTails, tail.nodeId = nodeId) : Resident w' where
  live := by
    intro m hm
    rw [hnext, hregistry, hmodels]
    exact h.live m (hlive m hm)
  registry := by
    intro nodeId m
    rw [hnext, hregistry, hmodels]
    exact h.registry nodeId m
  pending := by
    intro entry hentry
    obtain ⟨m, hm, hid⟩ := h.pending entry (hpending entry hentry)
    exact ⟨m, hm, (hmodels m).trans hid⟩
  nodeFetch := by
    intro coroutine hmem
    obtain ⟨m, hm, hid⟩ := h.nodeFetch coroutine (hnode coroutine hmem)
    exact ⟨m, hm, (hmodels m).trans hid⟩
  childrenFetch := by
    intro coroutine hmem
    obtain ⟨m, hm, hid⟩ := h.childrenFetch coroutine (hchildren coroutine hmem)
    exact ⟨m, hm, (hmodels m).trans hid⟩
  tail := by
    intro tail hmem
    obtain ⟨old, hold, hmodel, hid, hself⟩ := htail tail hmem
    obtain ⟨hlt, hid', -⟩ := h.tail old hold
    rw [hnext, hmodels, hmodel, hid]
    refine ⟨hlt, hid', ?_⟩
    rw [← hmodel]
    exact hself
  nodeGuard := hnodeGuard
  childrenGuard := hchildrenGuard

/-- The frame rule where only models, holders and callbacks change. -/
theorem keep (h : Resident w) (hmodels : ∀ m, (w'.models m).nodeId = (w.models m).nodeId)
    (hnext : w'.nextModel = w.nextModel) (hregistry : w'.registry = w.registry)
    (hlive : ∀ m, w'.Live m → w.Live m)
    (hpending : w'.pendingFetchNodes = w.pendingFetchNodes)
    (hnode : w'.nodeFetches = w.nodeFetches) (hchildren : w'.childrenFetches = w.childrenFetches)
    (htail : w'.childrenTails = w.childrenTails)
    (hnodeGuard : w'.nodeFetchInFlight = w.nodeFetchInFlight)
    (hchildrenGuard : w'.childrenFetchInFlight = w.childrenFetchInFlight) : Resident w' := by
  apply h.mono hmodels hnext hregistry hlive
  · rw [hpending]
    exact fun _ => id
  · rw [hnode]
    exact fun _ => id
  · rw [hchildren]
    exact fun _ => id
  · rw [htail]
    exact fun tail hmem => ⟨tail, hmem, rfl, rfl, (h.tail tail hmem).2.2⟩
  · rw [hnodeGuard, hnode]
    exact h.nodeGuard
  · rw [hchildrenGuard, hchildren, htail]
    exact h.childrenGuard

end Resident

/-! ## §3  Models -/

section

variable {result : NodeModelImpl × List FetchId}

@[simp] theorem change_models_self : (w.change m result).models m = result.1 :=
  Function.update_self ..

theorem change_models_of_ne (h : k ≠ m) : (w.change m result).models k = w.models k :=
  Function.update_of_ne h ..

/-- What holds of the old and the new model holds of every model after a
change. -/
theorem change_models (P : ModelId → NodeModelImpl → Prop) (h : ∀ k, P k (w.models k))
    (hm : P m result.1) (k : ModelId) : P k ((w.change m result).models k) := by
  by_cases hk : k = m
  · subst hk
    rw [change_models_self]
    exact hm
  · rw [change_models_of_ne hk]
    exact h k

theorem change_nodeId (hid : result.1.nodeId = (w.models m).nodeId) (k : ModelId) :
    ((w.change m result).models k).nodeId = (w.models k).nodeId :=
  change_models (fun k model => model.nodeId = (w.models k).nodeId) (fun _ => rfl) hid k

theorem Resident.change (h : Resident w) (hid : result.1.nodeId = (w.models m).nodeId) :
    Resident (w.change m result) :=
  h.keep (change_nodeId hid) rfl rfl (fun _ => id) rfl rfl rfl rfl rfl rfl

end

theorem live_unwind (h : w.unwind.Live k) : w.Live k :=
  live_frames (fun _ hm => absurd hm List.not_mem_nil) h

theorem Resident.unwind (h : Resident w) : Resident w.unwind := by
  refine h.keep (fun _ => rfl) rfl rfl (fun _ => live_unwind) rfl rfl rfl rfl rfl rfl

theorem live_hold (hm : w.Live m)
    (hk : ({ w with frames := m :: w.frames } : NodeServiceImpl).Live k) : w.Live k := by
  refine live_frames ?_ hk
  intro k hk
  rcases List.mem_cons.mp hk with rfl | hk
  · exact hm
  · exact live_of_frame hk

/-- A model that is found may be held. -/
theorem Resident.hold (h : Resident w) (hm : w.Live m) :
    Resident { w with frames := m :: w.frames } := by
  exact h.keep (fun _ => rfl) rfl rfl (fun _ => live_hold hm) rfl rfl rfl rfl rfl rfl

theorem releaseExcess_eq (capacity fuel : ℕ) (w : NodeServiceImpl) :
    ∃ list index, releaseExcess capacity fuel w =
        { w with keepAliveList := list, keepAliveIndex := index } ∧
      ∀ entry ∈ list, entry ∈ w.keepAliveList := by
  induction fuel generalizing w with
  | zero => exact ⟨w.keepAliveList, w.keepAliveIndex, rfl, fun _ => id⟩
  | succ fuel ih =>
      rw [releaseExcess]
      split
      · exact ⟨w.keepAliveList, w.keepAliveIndex, rfl, fun _ => id⟩
      · split
        · exact ⟨w.keepAliveList, w.keepAliveIndex, rfl, fun _ => id⟩
        · rename_i back _
          obtain ⟨list, index, heq, hlist⟩ := ih
            { w with
              keepAliveIndex := Function.update w.keepAliveIndex (w.models back.2).nodeId none
              keepAliveList := w.keepAliveList.dropLast }
          exact ⟨list, index, heq, fun entry hentry =>
            List.dropLast_subset _ (hlist entry hentry)⟩

/-- Touching a model changes the keep-alive window only, and adds nothing else
to it. -/
theorem touchKeepAlive_eq (context : NodeServiceImplContext) (w : NodeServiceImpl) (m : ModelId) :
    ∃ list index entry, touchKeepAlive context w m =
        { w with keepAliveList := list, keepAliveIndex := index, nextEntry := entry } ∧
      ∀ entry ∈ list, entry ∈ w.keepAliveList ∨ entry.2 = m := by
  unfold touchKeepAlive
  split
  · exact ⟨w.keepAliveList, w.keepAliveIndex, w.nextEntry, rfl, fun _ => Or.inl⟩
  · dsimp only
    split
    · refine ⟨_, w.keepAliveIndex, w.nextEntry, rfl, ?_⟩
      intro entry hentry
      rcases List.mem_append.mp hentry with hfront | hrest
      · exact Or.inl (List.mem_of_mem_filter hfront)
      · exact Or.inl (List.mem_of_mem_filter hrest)
    · obtain ⟨list, index, heq, hlist⟩ := releaseExcess_eq context.keepAliveCapacity
        (w.keepAliveList.length + 1)
        { w with
          keepAliveIndex :=
            Function.update w.keepAliveIndex (w.models m).nodeId (some w.nextEntry)
          keepAliveList := (w.nextEntry, m) :: w.keepAliveList
          nextEntry := w.nextEntry + 1 }
      refine ⟨list, index, _, heq, ?_⟩
      intro entry hentry
      rcases List.mem_cons.mp (hlist entry hentry) with rfl | hold
      · exact Or.inr rfl
      · exact Or.inl hold

/-- **What `GetNodeModel` does**: it finds the model or makes one, holds it, and
releases models from the keep-alive window. -/
theorem getNodeModel_eq (context : NodeServiceImplContext) (w : NodeServiceImpl)
    (hid : nodeId ≠ .null) :
    ∃ m u list index entry, w.getNodeModel context nodeId =
        (some m, { u with keepAliveList := list, keepAliveIndex := index, nextEntry := entry }) ∧
      u.keepAliveList = w.keepAliveList ∧
      (∀ entry ∈ list, entry ∈ w.keepAliveList ∨ entry.2 = m) ∧
      ((w.findNodeModel nodeId = some m ∧ u = { w with frames := m :: w.frames }) ∨
        (w.findNodeModel nodeId = none ∧ m = w.nextModel ∧ u = w.makeModel nodeId)) := by
  unfold getNodeModel
  rw [if_neg hid]
  cases hfind : w.findNodeModel nodeId with
  | some m =>
      obtain ⟨list, index, entry, heq, hlist⟩ :=
        touchKeepAlive_eq context { w with frames := m :: w.frames } m
      dsimp only
      rw [heq]
      exact ⟨m, _, list, index, entry, rfl, rfl, hlist, Or.inl ⟨rfl, rfl⟩⟩
  | none =>
      obtain ⟨list, index, entry, heq, hlist⟩ :=
        touchKeepAlive_eq context (w.makeModel nodeId) w.nextModel
      dsimp only
      rw [heq]
      exact ⟨w.nextModel, _, list, index, entry, rfl, rfl, hlist, Or.inr ⟨rfl, rfl, rfl⟩⟩

/-- The keep-alive window may hold any live models. -/
theorem Resident.keepAlive (h : Resident w) {list : List (ℕ × ModelId)}
    {index : NodeId → Option ℕ} {entry : ℕ} (hlist : ∀ entry ∈ list, w.Live entry.2) :
    Resident { w with keepAliveList := list, keepAliveIndex := index, nextEntry := entry } := by
  exact h.keep (fun _ => rfl) rfl rfl (fun _ => live_keepAliveList hlist) rfl rfl rfl rfl rfl rfl

/-- A new model is the only one that comes to life. -/
theorem live_makeModel (h : (w.makeModel nodeId).Live m) : m = w.nextModel ∨ w.Live m := by
  by_cases hm : m = w.nextModel
  · exact Or.inl hm
  · refine Or.inr ?_
    have hold : { w with frames := w.nextModel :: w.frames }.Live m := h
    rcases live_iff.mp hold with hframe | hrest
    · rcases List.mem_cons.mp hframe with rfl | hframe
      · exact absurd rfl hm
      · exact live_of_frame hframe
    · exact live_iff.mpr (Or.inr hrest)

theorem makeModel_models_of_lt (h : m < w.nextModel) : (w.makeModel nodeId).models m = w.models m :=
  Function.update_of_ne h.ne ..

@[simp] theorem makeModel_models_self :
    (w.makeModel nodeId).models w.nextModel = { nodeId } :=
  Function.update_self ..

@[simp] theorem makeModel_registry_self :
    (w.makeModel nodeId).registry nodeId = some w.nextModel :=
  Function.update_self ..

theorem makeModel_registry_of_ne {id : NodeId} (h : id ≠ nodeId) :
    (w.makeModel nodeId).registry id = w.registry id :=
  Function.update_of_ne h ..

theorem Resident.makeModel (h : Resident w) (hfind : w.findNodeModel nodeId = none) :
    Resident (w.makeModel nodeId) := by
  have hold : ∀ m, w.Live m → (w.models m).nodeId ≠ nodeId := by
    intro m hm hid
    rw [h.find_of_nodeId hm hid] at hfind
    cases hfind
  -- What pins or goes back to a model has one that is not new.
  have hkeep : ∀ m id, w.Live m → (w.models m).nodeId = id →
      ((w.makeModel nodeId).models m).nodeId = id := by
    intro m id hm hid
    rw [makeModel_models_of_lt (h.live m hm).1]
    exact hid
  constructor
  · intro m hm
    rcases live_makeModel hm with rfl | hm
    · rw [makeModel_models_self]
      exact ⟨Nat.lt_succ_self _, makeModel_registry_self⟩
    · obtain ⟨hlt, hregistered⟩ := h.live m hm
      rw [makeModel_models_of_lt hlt, makeModel_registry_of_ne (hold m hm)]
      exact ⟨hlt.trans (Nat.lt_succ_self _), hregistered⟩
  · intro id m hm
    by_cases hid : id = nodeId
    · subst hid
      rw [makeModel_registry_self] at hm
      cases hm
      rw [makeModel_models_self]
      exact ⟨Nat.lt_succ_self _, rfl⟩
    · rw [makeModel_registry_of_ne hid] at hm
      obtain ⟨hlt, hid'⟩ := h.registry id m hm
      rw [makeModel_models_of_lt hlt]
      exact ⟨hlt.trans (Nat.lt_succ_self _), hid'⟩
  · intro entry hmem
    obtain ⟨m, hm, hid⟩ := h.pending entry hmem
    exact ⟨m, hm, hkeep m _ (live_of_pending hmem hm) hid⟩
  · intro coroutine hmem
    obtain ⟨m, hm, hid⟩ := h.nodeFetch coroutine hmem
    exact ⟨m, hm, hkeep m _ (live_of_nodeFetch hmem hm) hid⟩
  · intro coroutine hmem
    obtain ⟨m, hm, hid⟩ := h.childrenFetch coroutine hmem
    exact ⟨m, hm, hkeep m _ (live_of_childrenFetch hmem hm) hid⟩
  · intro tail hmem
    obtain ⟨hlt, hid, hself⟩ := h.tail tail hmem
    rw [makeModel_models_of_lt hlt]
    exact ⟨hlt.trans (Nat.lt_succ_self _), hid, hself⟩
  · exact h.nodeGuard
  · exact h.childrenGuard

/-- The model that `GetNodeModel` returns is live, and of its node. -/
theorem Resident.getNodeModel (h : Resident w) (context : NodeServiceImplContext)
    (hid : nodeId ≠ .null) :
    ∃ m w', w.getNodeModel context nodeId = (some m, w') ∧ Resident w' ∧ m ∈ w'.frames ∧
      (w'.models m).nodeId = nodeId := by
  obtain ⟨m, u, list, index, entry, heq, hkeepAlive, hlist, hcases⟩ :=
    getNodeModel_eq context w hid
  refine ⟨m, _, heq, ?_⟩
  have hu : Resident u ∧ m ∈ u.frames ∧ (u.models m).nodeId = nodeId := by
    rcases hcases with ⟨hfind, rfl⟩ | ⟨hfind, rfl, rfl⟩
    · exact ⟨h.hold (findNodeModel_eq_some.mp hfind).2, List.mem_cons_self .., h.nodeId_of_find hfind⟩
    · exact ⟨h.makeModel hfind, List.mem_cons_self .., by rw [makeModel_models_self]⟩
  obtain ⟨hresident, hframe, hnode⟩ := hu
  refine ⟨hresident.keepAlive ?_, hframe, hnode⟩
  intro entry hentry
  rcases hlist entry hentry with hold | heq
  · exact live_of_keepAlive (hkeepAlive ▸ hold)
  · rw [heq]
    exact live_of_frame hframe

/-! ## §4  Requests -/

section

variable {status : NodeFetchStatus} {model : Option ModelId} {callback : Option FetchId}

/-- What a request queues: the entry of its node, old or new. -/
theorem mem_queueFetch {list : List (NodeId × PendingNodeFetch)}
    {entry : NodeId × PendingNodeFetch} (h : entry ∈ queueFetch nodeId status model list) :
    entry ∈ list ∨ entry = (nodeId, ⟨status, model⟩) ∨ ∃ old ∈ list, old.1 = nodeId ∧
      entry = (nodeId, ⟨old.2.status ∪ status, old.2.model <|> model⟩) := by
  induction list with
  | nil => exact Or.inr (Or.inl (List.mem_singleton.mp h))
  | cons head rest ih =>
      obtain ⟨id, pending⟩ := head
      rw [queueFetch] at h
      split at h
      · rename_i hid
        subst hid
        rcases List.mem_cons.mp h with rfl | h
        · exact Or.inr (Or.inr ⟨_, List.mem_cons_self .., rfl, rfl⟩)
        · exact Or.inl (List.mem_cons_of_mem _ h)
      · rcases List.mem_cons.mp h with rfl | h
        · exact Or.inl (List.mem_cons_self ..)
        · rcases ih h with hold | hnew | ⟨old, hold, hentry⟩
          · exact Or.inl (List.mem_cons_of_mem _ hold)
          · exact Or.inr (Or.inl hnew)
          · exact Or.inr (Or.inr ⟨old, List.mem_cons_of_mem _ hold, hentry⟩)

theorem spawnNodeFetch_eq (w : NodeServiceImpl) (nodeId : NodeId) (status : NodeFetchStatus)
    (model : Option ModelId) : ∃ guard fetches, w.spawnNodeFetch nodeId status model =
    { w with nodeFetchInFlight := guard, nodeFetches := fetches } := by
  unfold spawnNodeFetch
  split
  · exact ⟨_, _, rfl⟩
  · exact ⟨_, _, rfl⟩

theorem spawnFetch_eq (w : NodeServiceImpl) (nodeId : NodeId) (status : NodeFetchStatus)
    (model : Option ModelId) : ∃ nodeGuard childrenGuard nodeFetches childrenFetches,
    w.spawnFetch nodeId status model =
      { w with
        nodeFetchInFlight := nodeGuard
        childrenFetchInFlight := childrenGuard
        nodeFetches := nodeFetches
        childrenFetches := childrenFetches } := by
  obtain ⟨guard, fetches, heq⟩ := spawnNodeFetch_eq w nodeId status model
  unfold spawnFetch spawnChildrenFetch
  rw [heq]
  split
  · exact ⟨_, _, _, _, rfl⟩
  · exact ⟨_, _, _, _, rfl⟩

/-- **What a request changes**: what is queued and what is in flight. -/
theorem onFetchNode_eq (w : NodeServiceImpl) (nodeId : NodeId) (status : NodeFetchStatus) :
    ∃ pending nodeGuard childrenGuard nodeFetches childrenFetches,
    w.onFetchNode nodeId status =
      { w with
        pendingFetchNodes := pending
        nodeFetchInFlight := nodeGuard
        childrenFetchInFlight := childrenGuard
        nodeFetches := nodeFetches
        childrenFetches := childrenFetches } := by
  unfold onFetchNode
  split
  · exact ⟨_, _, _, _, _, rfl⟩
  · obtain ⟨nodeGuard, childrenGuard, nodeFetches, childrenFetches, heq⟩ :=
      spawnFetch_eq w nodeId status (w.findNodeModel nodeId)
    exact ⟨w.pendingFetchNodes, nodeGuard, childrenGuard, nodeFetches, childrenFetches, heq⟩

@[simp] theorem onFetchNode_models : (w.onFetchNode nodeId status).models = w.models := by
  obtain ⟨_, _, _, _, _, heq⟩ := onFetchNode_eq w nodeId status
  rw [heq]

@[simp] theorem onFetchNode_childrenTails :
    (w.onFetchNode nodeId status).childrenTails = w.childrenTails := by
  obtain ⟨_, _, _, _, _, heq⟩ := onFetchNode_eq w nodeId status
  rw [heq]

/-- `StartFetch` changes its model, by the function of the base class, the
callbacks to run, and what a request changes. -/
theorem startFetchOf_eq (w : NodeServiceImpl) (m : ModelId) (status : NodeFetchStatus)
    (callback : Option FetchId) : ∃ pending nodeGuard childrenGuard nodeFetches childrenFetches,
    w.startFetchOf m status callback =
      { w.beginFetch m status callback with
        pendingFetchNodes := pending
        nodeFetchInFlight := nodeGuard
        childrenFetchInFlight := childrenGuard
        nodeFetches := nodeFetches
        childrenFetches := childrenFetches } := by
  unfold startFetchOf
  dsimp only
  split
  · exact ⟨_, _, _, _, _, rfl⟩
  · exact onFetchNode_eq _ _ _

theorem beginFetch_nodeId (k : ModelId) :
    ((w.beginFetch m status callback).models k).nodeId = (w.models k).nodeId :=
  change_nodeId rfl k

@[simp] theorem startFetchOf_frames :
    (w.startFetchOf m status callback).frames = w.frames := by
  obtain ⟨_, _, _, _, _, heq⟩ := startFetchOf_eq w m status callback
  rw [heq]
  rfl

@[simp] theorem startFetchOf_childrenTails :
    (w.startFetchOf m status callback).childrenTails = w.childrenTails := by
  obtain ⟨_, _, _, _, _, heq⟩ := startFetchOf_eq w m status callback
  rw [heq]
  rfl

/-- A coroutine that is spawned pins a model that is held. -/
theorem live_spawnedFetch {coroutines : List FetchCoroutine} (hm : m ∈ w.frames)
    (hlive : ∀ coroutine ∈ coroutines, ∀ k, coroutine.pin = some k → w.Live k) :
    ∀ coroutine ∈ coroutines ++ [⟨nodeId, some m⟩], ∀ k, coroutine.pin = some k → w.Live k := by
  intro coroutine hmem k hk
  rcases List.mem_append.mp hmem with hold | hnew
  · exact hlive coroutine hold k hk
  · obtain rfl := List.mem_singleton.mp hnew
    cases hk
    exact live_of_frame hm

theorem live_spawnNodeFetch (hm : m ∈ w.frames)
    (hk : (w.spawnNodeFetch nodeId status (some m)).Live k) : w.Live k := by
  unfold NodeServiceImpl.spawnNodeFetch at hk
  split at hk
  · exact live_nodeFetches (live_spawnedFetch hm fun _ hmem _ => live_of_nodeFetch hmem) hk
  · exact hk

theorem live_spawnChildrenFetch (hm : m ∈ w.frames)
    (hk : (w.spawnChildrenFetch nodeId status (some m)).Live k) : w.Live k := by
  unfold NodeServiceImpl.spawnChildrenFetch at hk
  split at hk
  · exact live_childrenFetches (live_spawnedFetch hm fun _ hmem _ => live_of_childrenFetch hmem) hk
  · exact hk

section

variable (h : Resident w) (hm : m ∈ w.frames) (hid : (w.models m).nodeId = nodeId)
include h hm hid

theorem Resident.spawnNodeFetch : Resident (w.spawnNodeFetch nodeId status (some m)) := by
  have hlive : ∀ k, (w.spawnNodeFetch nodeId status (some m)).Live k → w.Live k :=
    fun k hk => live_spawnNodeFetch hm hk
  unfold NodeServiceImpl.spawnNodeFetch at hlive ⊢
  split
  · rename_i hspawn
    rw [if_pos hspawn] at hlive
    refine ⟨fun k hk => h.live k (hlive k hk), h.registry, h.pending, ?_,
      h.childrenFetch, h.tail, ?_, h.childrenGuard⟩
    · intro coroutine hmem
      rcases List.mem_append.mp hmem with hold | hnew
      · exact h.nodeFetch coroutine hold
      · obtain rfl := List.mem_singleton.mp hnew
        exact ⟨m, rfl, hid⟩
    · intro id hmem
      rcases Finset.mem_insert.mp hmem with rfl | hold
      · exact ⟨_, List.mem_append_right _ (List.mem_singleton_self _), rfl⟩
      · obtain ⟨coroutine, hcoroutine, heq⟩ := h.nodeGuard id hold
        exact ⟨coroutine, List.mem_append_left _ hcoroutine, heq⟩
  · exact h

theorem Resident.spawnChildrenFetch : Resident (w.spawnChildrenFetch nodeId status (some m)) := by
  have hlive : ∀ k, (w.spawnChildrenFetch nodeId status (some m)).Live k → w.Live k :=
    fun k hk => live_spawnChildrenFetch hm hk
  unfold NodeServiceImpl.spawnChildrenFetch at hlive ⊢
  split
  · rename_i hspawn
    rw [if_pos hspawn] at hlive
    refine ⟨fun k hk => h.live k (hlive k hk), h.registry, h.pending, h.nodeFetch,
      ?_, h.tail, h.nodeGuard, ?_⟩
    · intro coroutine hmem
      rcases List.mem_append.mp hmem with hold | hnew
      · exact h.childrenFetch coroutine hold
      · obtain rfl := List.mem_singleton.mp hnew
        exact ⟨m, rfl, hid⟩
    · intro id hmem
      rcases Finset.mem_insert.mp hmem with rfl | hold
      · exact Or.inl ⟨_, List.mem_append_right _ (List.mem_singleton_self _), rfl⟩
      · refine (h.childrenGuard id hold).imp_left ?_
        rintro ⟨coroutine, hcoroutine, heq⟩
        exact ⟨coroutine, List.mem_append_left _ hcoroutine, heq⟩
  · exact h

theorem Resident.spawnFetch : Resident (w.spawnFetch nodeId status (some m)) := by
  obtain ⟨guard, fetches, heq⟩ := spawnNodeFetch_eq w nodeId status (some m)
  apply (h.spawnNodeFetch hm hid).spawnChildrenFetch
  · rw [heq]
    exact hm
  · rw [heq]
    exact hid

/-- A queued fetch pins the model of its node. -/
theorem Resident.mem_queueFetch {entry : NodeId × PendingNodeFetch}
    (hmem : entry ∈ NodeServiceImpl.queueFetch nodeId status (some m) w.pendingFetchNodes) :
    ∃ k, entry.2.model = some k ∧ (w.models k).nodeId = entry.1 ∧ w.Live k := by
  rcases NodeServiceImpl.mem_queueFetch hmem with hold | rfl | ⟨old, hold, rfl, rfl⟩
  · obtain ⟨k, hk, hid'⟩ := h.pending entry hold
    exact ⟨k, hk, hid', live_of_pending hold hk⟩
  · exact ⟨m, rfl, hid, live_of_frame hm⟩
  · obtain ⟨k, hk, hid'⟩ := h.pending old hold
    refine ⟨k, ?_, hid', live_of_pending hold hk⟩
    show (old.2.model <|> some m) = some k
    rw [hk]
    rfl

theorem Resident.live_queueFetch (hk : ({ w with
      pendingFetchNodes := NodeServiceImpl.queueFetch nodeId status (some m)
        w.pendingFetchNodes } : NodeServiceImpl).Live k) : w.Live k := by
  refine live_pendingFetchNodes ?_ hk
  intro entry hmem k hk
  obtain ⟨k', hk', -, hlive⟩ := h.mem_queueFetch hm hid hmem
  rw [hk] at hk'
  cases hk'
  exact hlive

theorem Resident.queueFetch : Resident { w with
      pendingFetchNodes := NodeServiceImpl.queueFetch nodeId status (some m) w.pendingFetchNodes } := by
  refine ⟨fun k hk => h.live k (h.live_queueFetch hm hid hk), h.registry, ?_, h.nodeFetch,
    h.childrenFetch, h.tail, h.nodeGuard, h.childrenGuard⟩
  intro entry hmem
  obtain ⟨k, hk, hid', -⟩ := h.mem_queueFetch hm hid hmem
  exact ⟨k, hk, hid'⟩

/-- The model that asks is the one that `OnFetchNode` finds. -/
theorem Resident.onFetchNode_eq : w.onFetchNode nodeId status =
      if w.channelOpened then w.spawnFetch nodeId status (some m)
      else { w with
        pendingFetchNodes :=
          NodeServiceImpl.queueFetch nodeId status (some m) w.pendingFetchNodes } := by
  unfold NodeServiceImpl.onFetchNode
  rw [h.find_of_nodeId (live_of_frame hm) hid]
  cases w.channelOpened <;> rfl

theorem Resident.onFetchNode : Resident (w.onFetchNode nodeId status) := by
  rw [h.onFetchNode_eq hm hid]
  split
  · exact h.spawnFetch hm hid
  · exact h.queueFetch hm hid

end

theorem Resident.beginFetch (h : Resident w) : Resident (w.beginFetch m status callback) :=
  h.change rfl

theorem Resident.startFetchOf (h : Resident w) (hm : m ∈ w.frames) :
    Resident (w.startFetchOf m status callback) := by
  unfold NodeServiceImpl.startFetchOf
  dsimp only
  split
  · exact h.beginFetch
  · exact h.beginFetch.onFetchNode hm (beginFetch_nodeId m)

theorem Resident.getNodeModelForRead (h : Resident w) (context : NodeServiceImplContext)
    (hid : nodeId ≠ .null) :
    ∃ m w', w.getNodeModelForRead context nodeId = (some m, w') ∧ Resident w' ∧ m ∈ w'.frames := by
  obtain ⟨m, w₁, heq, hresident, hframe, -⟩ := h.getNodeModel context hid
  unfold NodeServiceImpl.getNodeModelForRead
  rw [heq]
  exact ⟨m, _, rfl, hresident.startFetchOf hframe, by rw [startFetchOf_frames]; exact hframe⟩

theorem getNodeModel_null : w.getNodeModel context .null = (none, w) :=
  if_pos rfl

theorem getNodeModelForRead_null : w.getNodeModelForRead context .null = (none, w) := by
  unfold NodeServiceImpl.getNodeModelForRead
  rw [getNodeModel_null]

theorem Resident.getNode (h : Resident w) : Resident (w.getNode context nodeId) := by
  unfold NodeServiceImpl.getNode
  by_cases hid : nodeId = .null
  · subst hid
    rw [getNodeModelForRead_null]
    exact h
  · obtain ⟨m, w', heq, hresident, -⟩ := h.getNodeModelForRead context hid
    rw [heq]
    exact hresident

theorem Resident.startFetch (h : Resident w) : Resident (w.startFetch context nodeId status) := by
  unfold NodeServiceImpl.startFetch
  by_cases hid : nodeId = .null
  · subst hid
    rw [getNodeModel_null]
    exact h
  · obtain ⟨m, w', heq, hresident, hframe, -⟩ := h.getNodeModel context hid
    rw [heq]
    exact hresident.startFetchOf hframe

theorem live_callFetch {call : FetchCall} {nextFetch : FetchId} (hm : call.model ∈ w.frames)
    (hk : ({ w with
      fetchCalls := w.fetchCalls ++ [call]
      nextFetch := nextFetch } : NodeServiceImpl).Live k) : w.Live k := by
  refine live_fetchCalls ?_ hk
  intro call hmem
  rcases List.mem_append.mp hmem with hold | hnew
  · exact live_of_call hold
  · obtain rfl := List.mem_singleton.mp hnew
    exact live_of_frame hm

theorem Resident.awaitFetch (h : Resident w) (hm : m ∈ w.frames) :
    Resident (w.awaitFetch m status) := by
  unfold NodeServiceImpl.awaitFetch
  exact Resident.startFetchOf
    (h.keep (fun _ => rfl) rfl rfl (fun _ => live_callFetch hm) rfl rfl rfl rfl rfl rfl) hm

theorem Resident.fetch (h : Resident w) : Resident (w.fetch context nodeId status).2 := by
  unfold NodeServiceImpl.fetch
  by_cases hid : nodeId = .null
  · subst hid
    rw [getNodeModelForRead_null]
    exact h
  · obtain ⟨m, w', heq, hresident, hframe⟩ := h.getNodeModelForRead context hid
    rw [heq]
    exact hresident.awaitFetch hframe

end

/-! ## §5  Results -/

section

variable {status : Status} {state : NodeState}

theorem Resident.processFetchError (h : Resident w) :
    Resident (w.processFetchError nodeId status) := by
  unfold NodeServiceImpl.processFetchError
  split
  · exact h.change rfl
  · exact h

/-- Live models may be worked on. -/
theorem Resident.fetchedNodes (h : Resident w) {list : List FetchedNode}
    (hlist : ∀ node ∈ list, w.Live node.model) : Resident { w with fetchedNodes := list } := by
  exact h.keep (fun _ => rfl) rfl rfl (fun _ => live_fetchedNodes hlist) rfl rfl rfl rfl rfl rfl

theorem Resident.beginFetchedNode (h : Resident w) :
    Resident (w.beginFetchedNode context state) := by
  unfold NodeServiceImpl.beginFetchedNode
  split
  · rename_i m hfind
    dsimp only
    refine Resident.fetchedNodes (h.change rfl) ?_
    intro node hmem
    rcases List.mem_append.mp hmem with hold | hnew
    · exact live_of_fetchedNode (w := w) hold
    · obtain rfl := List.mem_singleton.mp hnew
      exact (findNodeModel_eq_some.mp hfind).2
  · exact h

/-- A coroutine that comes back holds its pin. -/
theorem live_nodeFetchDone {coroutine : FetchCoroutine} (hmem : coroutine ∈ w.nodeFetches)
    {guard : Finset NodeId}
    (hk : ({ w with
      nodeFetchInFlight := guard
      frames := coroutine.pin.toList
      nodeFetches := w.nodeFetches.erase coroutine } : NodeServiceImpl).Live k) : w.Live k := by
  have hpin : ∀ m ∈ coroutine.pin.toList, w.Live m :=
    fun _ hm => live_of_nodeFetch hmem (Option.mem_toList.mp hm)
  refine live_frames hpin (live_nodeFetches ?_ hk)
  exact fun other hother m hm =>
    live_of_nodeFetch (w := { w with frames := coroutine.pin.toList })
      (List.mem_of_mem_erase hother) hm

theorem live_childrenFetchDone {coroutine : FetchCoroutine} (hmem : coroutine ∈ w.childrenFetches)
    {guard : Finset NodeId}
    (hk : ({ w with
      childrenFetchInFlight := guard
      frames := coroutine.pin.toList
      childrenFetches := w.childrenFetches.erase coroutine } : NodeServiceImpl).Live k) :
    w.Live k := by
  have hpin : ∀ m ∈ coroutine.pin.toList, w.Live m :=
    fun _ hm => live_of_childrenFetch hmem (Option.mem_toList.mp hm)
  refine live_frames hpin (live_childrenFetches ?_ hk)
  exact fun other hother m hm =>
    live_of_childrenFetch (w := { w with frames := coroutine.pin.toList })
      (List.mem_of_mem_erase hother) hm

/-- The node coroutine that comes back leaves its guard. -/
theorem Resident.nodeFetchDone (h : Resident w) {coroutine : FetchCoroutine}
    (hmem : coroutine ∈ w.nodeFetches) :
    Resident { w with
      nodeFetchInFlight := w.nodeFetchInFlight.erase coroutine.nodeId
      frames := coroutine.pin.toList
      nodeFetches := w.nodeFetches.erase coroutine } := by
  refine h.mono (fun _ => rfl) rfl rfl (fun _ => live_nodeFetchDone hmem) (fun _ => id)
    (fun _ => List.mem_of_mem_erase) (fun _ => id)
    (fun tail htail => ⟨tail, htail, rfl, rfl, (h.tail tail htail).2.2⟩) ?_ h.childrenGuard
  intro id hid
  obtain ⟨hne, hin⟩ := Finset.mem_erase.mp hid
  obtain ⟨other, hother, rfl⟩ := h.nodeGuard id hin
  refine ⟨other, (List.mem_erase_of_ne ?_).mpr hother, rfl⟩
  rintro rfl
  exact hne rfl

theorem Resident.nodeFetched (h : Resident w) {coroutine : FetchCoroutine}
    (hmem : coroutine ∈ w.nodeFetches) {result : Except Status NodeState} :
    Resident (w.nodeFetched context coroutine result) := by
  unfold NodeServiceImpl.nodeFetched
  dsimp only
  split
  · exact h.nodeFetchDone hmem
  · exact (h.nodeFetchDone hmem).beginFetchedNode
  · exact (h.nodeFetchDone hmem).processFetchError

theorem Resident.pushMirror (h : Resident w) {reference : ReferenceDescription} :
    Resident (w.pushMirror m reference) := by
  unfold NodeServiceImpl.pushMirror
  dsimp only
  split
  · exact h
  · split
    · rename_i target _
      obtain ⟨nodeState, heq⟩ := NodeModelImpl.pushReference_eq
        (reference.mirror (w.models m).nodeId) (w.models target)
      refine h.change ?_
      rw [heq]
    · exact h

@[simp] theorem pushMirror_fetchedNodes {reference : ReferenceDescription} :
    (w.pushMirror m reference).fetchedNodes = w.fetchedNodes := by
  unfold NodeServiceImpl.pushMirror
  dsimp only
  split
  · rfl
  · split <;> rfl

theorem pushMirror_live {reference : ReferenceDescription} :
    (w.pushMirror m reference).Live k ↔ w.Live k := by
  unfold NodeServiceImpl.pushMirror
  dsimp only
  split
  · exact Iff.rfl
  · split <;> exact Iff.rfl

theorem Resident.processFetchedNode (h : Resident w) {node : FetchedNode}
    (hmem : node ∈ w.fetchedNodes) (hstep : w.processFetchedNode node = some w') :
    Resident w' := by
  have hlive := live_of_fetchedNode hmem
  have hrest : ∀ other ∈ w.fetchedNodes.erase node, w.Live other.model :=
    fun _ hother => live_of_fetchedNode (List.mem_of_mem_erase hother)
  unfold NodeServiceImpl.processFetchedNode at hstep
  dsimp only at hstep
  split at hstep
  · cases hstep
    apply h.pushMirror.fetchedNodes
    intro other hother
    rw [pushMirror_live]
    rcases List.mem_cons.mp hother with rfl | hother
    · exact hlive
    · exact hrest other hother
  · obtain ⟨result, happly, hresult⟩ := Option.bind_eq_some_iff.mp hstep
    cases hresult
    refine Resident.fetchedNodes (h.change (NodeModelImpl.applyState_eq_some happly).1) ?_
    intro other hother
    rcases List.mem_cons.mp hother with rfl | hother
    · exact hlive
    · exact hrest other hother
  · cases hstep
    exact Resident.fetchedNodes (h.change rfl) hrest

theorem live_onChildrenFetched {references : List ReferenceDescription}
    (hk : (w.onChildrenFetched m references).Live k) : w.Live k := by
  unfold NodeServiceImpl.onChildrenFetched at hk
  refine live_childrenTails ?_ hk
  intro tail hmem k hk
  rcases List.mem_append.mp hmem with hold | hnew
  · exact live_of_tail hold hk
  · obtain rfl := List.mem_singleton.mp hnew
    cases hk

theorem Resident.onChildrenFetched (h : Resident w) (hm : w.Live m)
    (references : List ReferenceDescription) : Resident (w.onChildrenFetched m references) := by
  unfold NodeServiceImpl.onChildrenFetched
  have hchange : Resident (w.change m ((w.models m).beginChildren w.nextRequest, [])) :=
    h.change rfl
  have hid : ((w.change m ((w.models m).beginChildren w.nextRequest, [])).models m).nodeId =
      (w.models m).nodeId := change_nodeId rfl m
  refine ⟨?_, hchange.registry, hchange.pending, hchange.nodeFetch, hchange.childrenFetch, ?_,
    hchange.nodeGuard, ?_⟩
  · exact fun k hk => hchange.live k (live_onChildrenFetched (w := w) hk)
  · intro tail hmem
    rcases List.mem_append.mp hmem with hold | hnew
    · exact hchange.tail tail hold
    · obtain rfl := List.mem_singleton.mp hnew
      refine ⟨(h.live m hm).1, hid, ?_⟩
      rintro k ⟨⟩
  · intro id hin
    refine (hchange.childrenGuard id hin).imp_right ?_
    rintro ⟨tail, htail, heq⟩
    exact ⟨tail, List.mem_append_left _ htail, heq⟩

/-- The children coroutine that comes back holds its pin; here it leaves its
guard too. -/
theorem Resident.childrenFetchDone (h : Resident w) {coroutine : FetchCoroutine}
    (hmem : coroutine ∈ w.childrenFetches) :
    Resident { w with
      childrenFetchInFlight := w.childrenFetchInFlight.erase coroutine.nodeId
      frames := coroutine.pin.toList
      childrenFetches := w.childrenFetches.erase coroutine } := by
  refine h.mono (fun _ => rfl) rfl rfl (fun _ => live_childrenFetchDone hmem) (fun _ => id)
    (fun _ => id)
    (fun _ => List.mem_of_mem_erase)
    (fun tail htail => ⟨tail, htail, rfl, rfl, (h.tail tail htail).2.2⟩) h.nodeGuard ?_
  intro id hid
  obtain ⟨hne, hin⟩ := Finset.mem_erase.mp hid
  refine (h.childrenGuard id hin).imp_left ?_
  rintro ⟨other, hother, rfl⟩
  refine ⟨other, (List.mem_erase_of_ne ?_).mpr hother, rfl⟩
  rintro rfl
  exact hne rfl

theorem Resident.withChildrenGuard (h : Resident w) {guard : Finset NodeId}
    (hguard : ∀ nodeId ∈ guard, (∃ coroutine ∈ w.childrenFetches, coroutine.nodeId = nodeId) ∨
      ∃ tail ∈ w.childrenTails, tail.nodeId = nodeId) :
    Resident { w with childrenFetchInFlight := guard } :=
  ⟨h.live, h.registry, h.pending, h.nodeFetch, h.childrenFetch, h.tail, h.nodeGuard, hguard⟩

theorem Resident.childrenFetched (h : Resident w) {coroutine : FetchCoroutine}
    (hmem : coroutine ∈ w.childrenFetches) {result : Except Status (List ReferenceDescription)} :
    Resident (w.childrenFetched coroutine result) := by
  have hdone := h.childrenFetchDone hmem
  unfold NodeServiceImpl.childrenFetched
  dsimp only
  split
  · exact hdone
  · split
    · -- The tail takes the guard over.
      rename_i references _ _ m hfind
      have hlive := (findNodeModel_eq_some.mp hfind).2
      have hid : (w.models m).nodeId = coroutine.nodeId := hdone.nodeId_of_find hfind
      have hchildren := hdone.onChildrenFetched hlive references
      refine hchildren.withChildrenGuard ?_
      intro id hin
      by_cases heq : id = coroutine.nodeId
      · subst heq
        exact Or.inr ⟨_, List.mem_append_right _ (List.mem_singleton_self _), hid⟩
      · exact hchildren.childrenGuard id (Finset.mem_erase.mpr ⟨heq, hin⟩)
    · exact hdone
  · exact hdone.processFetchError

theorem live_replaceTail {tail tail' : ChildrenTail} (hlive : ∀ m, tail'.self = some m → w.Live m)
    (hk : ({ w with
      childrenTails := tail' :: w.childrenTails.erase tail } : NodeServiceImpl).Live k) :
    w.Live k := by
  refine live_childrenTails ?_ hk
  intro other hother m hm
  rcases List.mem_cons.mp hother with rfl | hother
  · exact hlive m hm
  · exact live_of_tail (List.mem_of_mem_erase hother) hm

/-- A tail goes on as a tail of the same model and node. -/
theorem Resident.replaceTail (h : Resident w) {tail tail' : ChildrenTail}
    (hmem : tail ∈ w.childrenTails) (hmodel : tail'.model = tail.model)
    (hid : tail'.nodeId = tail.nodeId) (hself : ∀ m, tail'.self = some m → m = tail.model)
    (hlive : ∀ m, tail'.self = some m → w.Live m) :
    Resident { w with childrenTails := tail' :: w.childrenTails.erase tail } := by
  refine h.mono (fun _ => rfl) rfl rfl (fun _ => live_replaceTail hlive) (fun _ => id)
    (fun _ => id) (fun _ => id) ?_ h.nodeGuard ?_
  · intro other hother
    rcases List.mem_cons.mp hother with rfl | hother
    · exact ⟨tail, hmem, hmodel, hid, hmodel ▸ hself⟩
    · have hold := List.mem_of_mem_erase hother
      exact ⟨other, hold, rfl, rfl, (h.tail other hold).2.2⟩
  · intro id hin
    refine (h.childrenGuard id hin).imp_right ?_
    rintro ⟨other, hother, rfl⟩
    by_cases heq : other = tail
    · subst heq
      exact ⟨tail', List.mem_cons_self .., hid⟩
    · exact ⟨other, List.mem_cons_of_mem _ ((List.mem_erase_of_ne heq).mpr hother), rfl⟩

theorem live_settleChildren {tail : ChildrenTail} (hk : (w.settleChildren tail).Live k) :
    w.Live k :=
  live_childrenTails (fun _ hother _ => live_of_tail (List.mem_of_mem_erase hother)) hk

theorem Resident.settleChildren (h : Resident w) {tail : ChildrenTail} :
    Resident (w.settleChildren tail) := by
  refine h.mono (fun _ => rfl) rfl rfl (fun _ => live_settleChildren) (fun _ => id) (fun _ => id)
    (fun _ => id) ?_ h.nodeGuard ?_
  · intro other hother
    have hold := List.mem_of_mem_erase hother
    exact ⟨other, hold, rfl, rfl, (h.tail other hold).2.2⟩
  · intro id hin
    obtain ⟨hne, hin⟩ := Finset.mem_erase.mp hin
    refine (h.childrenGuard id hin).imp_right ?_
    rintro ⟨other, hother, rfl⟩
    refine ⟨other, (List.mem_erase_of_ne ?_).mpr hother, rfl⟩
    rintro rfl
    exact hne rfl

theorem Resident.finishChildren (h : Resident w) {tail : ChildrenTail}
    (hmem : tail ∈ w.childrenTails) : Resident (w.finishChildren tail) := by
  unfold NodeServiceImpl.finishChildren
  split
  · rename_i hcurrent
    have hchange : Resident (w.change tail.model
        ((w.models tail.model).applyChildren tail.references)) := h.change rfl
    refine hchange.replaceTail hmem rfl rfl ?_ ?_
    · rintro m ⟨⟩
      rfl
    · rintro m ⟨⟩
      exact hcurrent.1
  · exact h.settleChildren

/-- Resuming a tail changes what it waits for. -/
theorem mem_resume_childrenTails {callback : FetchId} {tail : ChildrenTail}
    (h : tail ∈ (w.resume callback).childrenTails) :
    ∃ old ∈ w.childrenTails, ∃ waiting, tail = { old with waiting } := by
  obtain ⟨old, hold, rfl⟩ := List.mem_map.mp h
  refine ⟨old, hold, ?_⟩
  split
  · exact ⟨none, rfl⟩
  · exact ⟨old.waiting, rfl⟩

theorem live_resume {callback : FetchId} (hk : (w.resume callback).Live k) : w.Live k := by
  have htails : ∀ tail ∈ (w.resume callback).childrenTails, ∀ m, tail.self = some m →
      w.Live m := by
    intro tail hmem m hm
    obtain ⟨old, hold, waiting, rfl⟩ := mem_resume_childrenTails hmem
    exact live_of_tail hold hm
  refine live_childrenTails htails (live_fetchCalls ?_ hk)
  exact fun call hmem => live_of_call (w := { w with
    childrenTails := (w.resume callback).childrenTails }) (List.mem_of_mem_filter hmem)

theorem Resident.resume (h : Resident w) {callback : FetchId} : Resident (w.resume callback) := by
  refine h.mono (fun _ => rfl) rfl rfl (fun _ => live_resume) (fun _ => id) (fun _ => id)
    (fun _ => id) ?_ h.nodeGuard ?_
  · intro tail hmem
    obtain ⟨old, hold, waiting, rfl⟩ := mem_resume_childrenTails hmem
    exact ⟨old, hold, rfl, rfl, (h.tail old hold).2.2⟩
  · intro id hin
    refine (h.childrenGuard id hin).imp_right ?_
    rintro ⟨tail, hmem, rfl⟩
    refine ⟨_, List.mem_map_of_mem hmem, ?_⟩
    split <;> rfl

end

theorem getNode_childrenTails :
    (w.getNode context nodeId).childrenTails = w.childrenTails := by
  unfold getNode getNodeModelForRead
  by_cases hid : nodeId = .null
  · subst hid
    rw [getNodeModel_null]
  · obtain ⟨m, u, list, index, entry, heq, -, -, hcases⟩ := getNodeModel_eq context w hid
    rw [heq]
    dsimp only
    rw [startFetchOf_childrenTails]
    rcases hcases with ⟨-, rfl⟩ | ⟨-, -, rfl⟩
    · rfl
    · rfl

theorem fetch_childrenTails {status : NodeFetchStatus} :
    (w.fetch context nodeId status).2.childrenTails = w.childrenTails := by
  have hget : (w.getNode context nodeId).childrenTails = w.childrenTails :=
    getNode_childrenTails
  unfold getNode at hget
  unfold fetch
  split
  · rename_i m w' heq
    rw [heq] at hget
    dsimp only
    unfold awaitFetch
    dsimp only
    rw [startFetchOf_childrenTails]
    exact hget
  · rename_i w' heq
    rw [heq] at hget
    exact hget

theorem Resident.fetchNextChild (h : Resident w) {tail : ChildrenTail}
    (hmem : tail ∈ w.childrenTails) (hself : tail.self = none) :
    Resident (w.fetchNextChild context tail) := by
  unfold NodeServiceImpl.fetchNextChild
  split
  · exact h
  · rename_i nodeId remaining _
    have hfetch : Resident ((w.getNode context nodeId).fetch context nodeId .nodeOnly).2 :=
      h.getNode.fetch
    refine hfetch.replaceTail ?_ rfl rfl ?_ ?_
    · rw [fetch_childrenTails, getNode_childrenTails]
      exact hmem
    · intro m hm
      rw [hself] at hm
      cases hm
    · intro m hm
      rw [hself] at hm
      cases hm

/-! ## §6  Every step -/

theorem Resident.removeFromKeepAlive (h : Resident w) :
    Resident (w.removeFromKeepAlive nodeId) := by
  unfold NodeServiceImpl.removeFromKeepAlive
  split
  · exact h.keepAlive fun _ hmem => live_of_keepAlive (List.mem_of_mem_filter hmem)
  · exact h

theorem onModelChanged_nodeId (model : NodeModelImpl) (verb : ModelChangeVerb) :
    (model.onModelChanged verb).1.nodeId = model.nodeId := by
  unfold NodeModelImpl.onModelChanged
  split <;> rfl

/-- At most the node itself is told, and a deleted node is not kept alive. -/
theorem exists_onModelChanged (w : NodeServiceImpl) (nodeId : NodeId) (verb : ModelChangeVerb) :
    ∃ told, (told = w ∨ ∃ m, w.findNodeModel nodeId = some m ∧
        told = w.change m ((w.models m).onModelChanged verb)) ∧
      w.onModelChanged nodeId verb =
        if verb.nodeDeleted then told.removeFromKeepAlive nodeId
        else if verb.nodeAdded then w else told := by
  unfold NodeServiceImpl.onModelChanged
  cases hfind : w.findNodeModel nodeId with
  | none => exact ⟨w, .inl rfl, rfl⟩
  | some m => exact ⟨_, .inr ⟨m, rfl, rfl⟩, rfl⟩

theorem Resident.onModelChanged (h : Resident w) {verb : ModelChangeVerb} :
    Resident (w.onModelChanged nodeId verb) := by
  obtain ⟨told, hcases, heq⟩ := exists_onModelChanged w nodeId verb
  have hfound : Resident told := by
    rcases hcases with rfl | ⟨m, -, rfl⟩
    · exact h
    · exact h.change (onModelChanged_nodeId _ _)
  rw [heq]
  split
  · exact hfound.removeFromKeepAlive
  · split
    · exact h
    · exact hfound

theorem Resident.spawnPending (list : List (NodeId × PendingNodeFetch)) (h : Resident w)
    (hlist : ∀ entry ∈ list, ∃ m ∈ w.frames, entry.2.model = some m ∧
      (w.models m).nodeId = entry.1) : Resident (spawnPending list w) := by
  induction list generalizing w with
  | nil => exact h
  | cons entry rest ih =>
      obtain ⟨nodeId, pending⟩ := entry
      obtain ⟨m, hm, hmodel, hid⟩ := hlist _ (List.mem_cons_self ..)
      obtain ⟨_, _, _, _, heq⟩ := spawnFetch_eq w nodeId pending.status pending.model
      rw [NodeServiceImpl.spawnPending]
      apply ih
      · change pending.model = some m at hmodel
        rw [hmodel]
        exact h.spawnFetch hm hid
      · rw [heq]
        exact fun entry hentry => hlist entry (List.mem_cons_of_mem _ hentry)

/-- The queued fetches are on the stack while they are spawned. -/
theorem live_takePending (hk : ({ w with
      channelOpened := true
      pendingFetchNodes := []
      frames := w.pendingFetchNodes.filterMap (·.2.model) } : NodeServiceImpl).Live k) :
    w.Live k := by
  have hframes : ∀ m ∈ w.pendingFetchNodes.filterMap (·.2.model), w.Live m := by
    intro m hm
    obtain ⟨entry, hentry, heq⟩ := List.mem_filterMap.mp hm
    exact live_of_pending hentry heq
  exact live_frames hframes
    (live_pendingFetchNodes (fun _ hmem => absurd hmem List.not_mem_nil) hk)

theorem Resident.takePending (h : Resident w) :
    Resident { w with
      channelOpened := true
      pendingFetchNodes := []
      frames := w.pendingFetchNodes.filterMap (·.2.model) } :=
  h.mono (fun _ => rfl) rfl rfl (fun _ => live_takePending)
    (fun _ hmem => absurd hmem List.not_mem_nil) (fun _ => id) (fun _ => id)
    (fun tail htail => ⟨tail, htail, rfl, rfl, (h.tail tail htail).2.2⟩) h.nodeGuard
    h.childrenGuard

theorem Resident.onChannelOpened (h : Resident w) (hstep : w.onChannelOpened = some w') :
    Resident w' := by
  unfold NodeServiceImpl.onChannelOpened at hstep
  obtain ⟨-, hstep⟩ := check_bind_eq_some.mp hstep
  cases hstep
  apply Resident.spawnPending
  · exact h.takePending
  · intro entry hentry
    obtain ⟨m, hm, hid⟩ := h.pending entry hentry
    exact ⟨m, List.mem_filterMap.mpr ⟨entry, hentry, hm⟩, hm, hid⟩

theorem Resident.onChannelClosed (h : Resident w) (hstep : w.onChannelClosed = some w') :
    Resident w' := by
  unfold NodeServiceImpl.onChannelClosed at hstep
  obtain ⟨-, hstep⟩ := check_bind_eq_some.mp hstep
  obtain ⟨-, hstep⟩ := check_bind_eq_some.mp hstep
  cases hstep
  exact h.keep (fun _ => rfl) rfl rfl (fun _ => id) rfl rfl rfl rfl rfl rfl

theorem Resident.step (h : Resident w) {a : NodeServiceAction} (hen : w.enabled a)
    (hstep : w.step context a = some w') : Resident w' := by
  obtain ⟨u, hrun, rfl⟩ := Option.map_eq_some_iff.mp hstep
  apply Resident.unwind
  cases a with
  | getNode nodeId =>
      cases hrun
      exact h.getNode
  | startFetch nodeId status =>
      cases hrun
      exact h.startFetch
  | fetch nodeId status =>
      cases hrun
      exact h.fetch
  | resume callback =>
      cases hrun
      exact h.resume
  | nodeFetched coroutine result =>
      cases hrun
      exact h.nodeFetched hen.1
  | childrenFetched coroutine result =>
      cases hrun
      exact h.childrenFetched hen
  | processFetchedNode node => exact h.processFetchedNode hen hrun
  | fetchNextChild tail =>
      cases hrun
      exact h.fetchNextChild hen.1 hen.2.2.2
  | finishChildren tail =>
      cases hrun
      exact h.finishChildren hen.1
  | settleChildren tail =>
      cases hrun
      exact h.settleChildren
  | modelChanged nodeId verb =>
      cases hrun
      exact h.onModelChanged
  | channelOpened => exact h.onChannelOpened hrun
  | channelClosed => exact h.onChannelClosed hrun

/-- **Residency.** In every reachable state live models are registered, one a
node, and results come back to the models that their fetches pin. -/
theorem resident_of_reachable (h : (nodeServiceMachine context).Reachable w) : Resident w :=
  h.invariant Resident.init fun _ _ _ hresident hen _ hstep => hresident.step hen hstep

end NodeServiceImpl

end ScadaCommon.V3
