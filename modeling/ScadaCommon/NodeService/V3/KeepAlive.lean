import ScadaCommon.Foundation.RecencyWindows
import ScadaCommon.NodeService.V3.Residency

/-!
# The keep-alive window

`GetNodeModel` puts the model of a node in front of the keep-alive list; the models at the
back leave it when it is over the capacity, and the model of a deleted node leaves it too. A
model that nothing holds any more is destroyed, and its destructor looks for it in the
registry. Destructors run in steps of their own here, at any time after the last holder has
gone, so that they come between any two functions of the service.

§1 destructors · §2 the window · §3 what changes it · §4 what does not · §5 steps · §6 every
run.
-/

namespace ScadaCommon.V3

open Foundation Foundation.RecencyWindow

namespace NodeServiceImpl

variable {context : NodeServiceImplContext} {w w' : NodeServiceImpl} {m k : ModelId}
  {nodeId : NodeId} {events : List (WindowEvent NodeId)} {capacity : ℕ}

/-! ## §1  Destructors -/

/-- `~NodeModelImpl`: erases the entry of its node if that is expired, which it is not if it
has been replaced by one of a fresh model. -/
def destroy (w : NodeServiceImpl) (m : ModelId) : NodeServiceImpl :=
  let nodeId := (w.models m).nodeId
  match w.registry nodeId with
  | some registered =>
      if w.Live registered then w
      else { w with registry := Function.update w.registry nodeId none }
  | none => w

theorem destroy_eq (w : NodeServiceImpl) (m : ModelId) :
    ∃ registry, w.destroy m = { w with registry } := by
  unfold destroy
  dsimp only
  split
  · split
    · exact ⟨_, rfl⟩
    · exact ⟨_, rfl⟩
  · exact ⟨_, rfl⟩

/-- **What a destructor does**: of the entry of its node it leaves what is found. -/
theorem destroy_registry (w : NodeServiceImpl) (m : ModelId) (nodeId : NodeId) :
    (w.destroy m).registry nodeId =
      if nodeId = (w.models m).nodeId then w.findNodeModel nodeId else w.registry nodeId := by
  unfold destroy findNodeModel
  dsimp only
  by_cases hid : nodeId = (w.models m).nodeId
  · subst hid
    rw [if_pos rfl]
    cases hregistry : w.registry (w.models m).nodeId with
    | none => exact hregistry
    | some registered =>
        by_cases hlive : w.Live registered
        · simp [hlive, hregistry, Option.filter_some]
        · simp [hlive, Option.filter_some]
  · rw [if_neg hid]
    split
    · split
      · rfl
      · exact Function.update_of_ne hid ..
    · rfl

/-- A destructor adds no entry. -/
theorem registry_of_destroy (h : (w.destroy m).registry nodeId = some k) :
    w.registry nodeId = some k := by
  rw [destroy_registry] at h
  split at h
  · exact (findNodeModel_eq_some.mp h).1
  · exact h

/-- **The entry of a live model stays**, also where it is one of the destroyed model's node. -/
theorem destroy_registry_of_live (hregistry : w.registry nodeId = some k) (hlive : w.Live k) :
    (w.destroy m).registry nodeId = some k := by
  rw [destroy_registry]
  split
  · exact findNodeModel_eq_some.mpr ⟨hregistry, hlive⟩
  · exact hregistry

theorem Resident.destroy (h : Resident w) (m : ModelId) : Resident (w.destroy m) := by
  obtain ⟨registry, heq⟩ := destroy_eq w m
  have hold : ∀ nodeId k, registry nodeId = some k → w.registry nodeId = some k := by
    intro nodeId k hk
    apply registry_of_destroy (m := m)
    rw [heq]
    exact hk
  have hnew : ∀ nodeId k, w.registry nodeId = some k → w.Live k → registry nodeId = some k := by
    intro nodeId k hregistry hlive
    have hkeep := destroy_registry_of_live (m := m) hregistry hlive
    rw [heq] at hkeep
    exact hkeep
  rw [heq]
  refine ⟨?_, ?_, h.pending, h.nodeFetch, h.childrenFetch, h.tail, h.nodeGuard, h.childrenGuard⟩
  · intro k hk
    obtain ⟨hlt, hregistry⟩ := h.live k hk
    exact ⟨hlt, hnew _ k hregistry hk⟩
  · exact fun nodeId k hk => h.registry nodeId k (hold nodeId k hk)

/-! ## §2  The window -/

/-- The nodes of the models in the list. -/
def keepAliveIds (w : NodeServiceImpl) : List NodeId :=
  w.keepAliveList.map fun entry => (w.models entry.2).nodeId

/-- The list is indexed by nodes, its addresses are used, and its nodes are the window of
what was used last. -/
structure Windowed (capacity : ℕ) (events : List (WindowEvent NodeId)) (w : NodeServiceImpl) :
    Prop where
  indexed : Indexed (fun m => (w.models m).nodeId) w.keepAliveList w.keepAliveIndex
  fresh : ∀ entry ∈ w.keepAliveList, entry.1 < w.nextEntry
  ids : w.keepAliveIds = window capacity events

/-- The same list and index, of models of the same nodes. -/
structure SameWindow (w w' : NodeServiceImpl) : Prop where
  list : w'.keepAliveList = w.keepAliveList
  index : w'.keepAliveIndex = w.keepAliveIndex
  entry : w'.nextEntry = w.nextEntry
  nodeId : ∀ m, (w'.models m).nodeId = (w.models m).nodeId

theorem SameWindow.rfl : SameWindow w w :=
  ⟨Eq.refl _, Eq.refl _, Eq.refl _, fun _ => Eq.refl _⟩

theorem SameWindow.trans {u : NodeServiceImpl} (h : SameWindow w u) (h' : SameWindow u w') :
    SameWindow w w' where
  list := h'.list.trans h.list
  index := h'.index.trans h.index
  entry := h'.entry.trans h.entry
  nodeId := fun m => (h'.nodeId m).trans (h.nodeId m)

namespace Windowed

theorem init : Windowed capacity [] {} where
  indexed := Indexed.nil
  fresh := by
    rintro entry ⟨⟩
  ids := rfl

/-- The list and the index are left as they are, and listed models keep their nodes. -/
theorem keep (h : Windowed capacity events w) (hlist : w'.keepAliveList = w.keepAliveList)
    (hindex : w'.keepAliveIndex = w.keepAliveIndex) (hentry : w'.nextEntry = w.nextEntry)
    (hnodeId : ∀ entry ∈ w.keepAliveList,
      (w'.models entry.2).nodeId = (w.models entry.2).nodeId) :
    Windowed capacity events w' where
  indexed := by
    rw [hlist, hindex]
    exact h.indexed.congr hnodeId
  fresh := by
    rw [hlist, hentry]
    exact h.fresh
  ids := by
    rw [← h.ids]
    unfold keepAliveIds
    rw [hlist]
    exact List.map_congr_left hnodeId

theorem same (h : Windowed capacity events w) (hsame : SameWindow w w') :
    Windowed capacity events w' :=
  h.keep hsame.list hsame.index hsame.entry fun entry _ => hsame.nodeId entry.2

theorem length_ids (w : NodeServiceImpl) : w.keepAliveIds.length = w.keepAliveList.length :=
  List.length_map ..

theorem length_le (h : Windowed capacity events w) : w.keepAliveList.length ≤ capacity := by
  rw [← length_ids, h.ids]
  exact (recent_window capacity events).length

end Windowed

/-! ## §3  What changes it -/

/-- The loop leaves the front of the list, and the index of it. -/
theorem releaseExcess_spec (capacity fuel : ℕ)
    (h : Indexed (fun m => (w.models m).nodeId) w.keepAliveList w.keepAliveIndex)
    (hfuel : w.keepAliveList.length ≤ capacity + fuel) :
    ∃ index, releaseExcess capacity fuel w =
        { w with
          keepAliveIndex := index
          keepAliveList := w.keepAliveList.take capacity } ∧
      Indexed (fun m => (w.models m).nodeId) (w.keepAliveList.take capacity) index := by
  induction fuel generalizing w with
  | zero =>
      rw [Nat.add_zero] at hfuel
      rw [List.take_of_length_le hfuel]
      exact ⟨w.keepAliveIndex, rfl, h⟩
  | succ fuel ih =>
      rw [releaseExcess]
      by_cases hle : w.keepAliveList.length ≤ capacity
      · rw [if_pos hle, List.take_of_length_le hle]
        exact ⟨w.keepAliveIndex, rfl, h⟩
      · rw [if_neg hle]
        cases hlast : w.keepAliveList.getLast? with
        | none =>
            rw [List.getLast?_eq_none_iff] at hlast
            rw [hlast] at hle
            exact absurd (Nat.zero_le _) hle
        | some back =>
            obtain ⟨index, heq, hindexed⟩ := ih (w := { w with
                keepAliveIndex := Function.update w.keepAliveIndex (w.models back.2).nodeId none
                keepAliveList := w.keepAliveList.dropLast })
              (h.dropLast hlast) (by rw [List.length_dropLast]; omega)
            have htake : w.keepAliveList.dropLast.take capacity =
                w.keepAliveList.take capacity := by
              rw [List.dropLast_eq_take, List.take_take]
              congr 1
              omega
            dsimp only at heq hindexed ⊢
            rw [htake] at heq hindexed
            exact ⟨index, heq, hindexed⟩

/-- **Touching.** The model that is touched comes to the front, in the node of the list that
is indexed if there is one. -/
theorem Windowed.touchKeepAlive (h : Windowed context.keepAliveCapacity events w) (m : ModelId) :
    Windowed context.keepAliveCapacity (.used (w.models m).nodeId :: events)
      (touchKeepAlive context w m) := by
  have hlength := h.length_le
  unfold NodeServiceImpl.touchKeepAlive
  split
  · -- Without a capacity the window is empty.
    rename_i hzero
    rw [hzero] at hlength
    have hnil := List.eq_nil_of_length_eq_zero (Nat.le_zero.mp hlength)
    refine ⟨h.indexed, h.fresh, ?_⟩
    unfold keepAliveIds window use
    rw [hnil, hzero]
    rfl
  · dsimp only
    cases hindex : w.keepAliveIndex (w.models m).nodeId with
    | some entry =>
        obtain ⟨k, hmem, hid⟩ := (h.indexed.entry _ _).mp hindex
        have hids : (w.models m).nodeId ∈ w.keepAliveIds :=
          h.indexed.key_mem_iff.mpr ⟨entry, hindex⟩
        refine ⟨h.indexed.splice, ?_, ?_⟩
        · intro other hother
          rcases List.mem_append.mp hother with hfront | hrest
          · exact h.fresh other (List.mem_of_mem_filter hfront)
          · exact h.fresh other (List.mem_of_mem_filter hrest)
        · show List.map _ _ = use _ _ _
          rw [h.indexed.keys_splice hmem, ← h.ids,
            use_of_mem hids (by rw [length_ids]; exact hlength), hid]
          rfl
    | none =>
        have hids : (w.models m).nodeId ∉ w.keepAliveIds := h.indexed.key_notMem hindex
        have hcons := h.indexed.cons hindex fun entry hentry => (h.fresh entry hentry).ne
        obtain ⟨index, heq, hindexed⟩ := releaseExcess_spec (w := { w with
            keepAliveIndex :=
              Function.update w.keepAliveIndex (w.models m).nodeId (some w.nextEntry)
            keepAliveList := (w.nextEntry, m) :: w.keepAliveList
            nextEntry := w.nextEntry + 1 })
          context.keepAliveCapacity (w.keepAliveList.length + 1) hcons
          (by rw [List.length_cons]; omega)
        rw [heq]
        refine ⟨hindexed, ?_, ?_⟩
        · intro entry hentry
          rcases List.mem_cons.mp (List.mem_of_mem_take hentry) with rfl | hold
          · exact Nat.lt_succ_self _
          · exact (h.fresh entry hold).trans (Nat.lt_succ_self _)
        · show List.map _ _ = use _ _ _
          rw [← h.ids, use_of_notMem hids, List.map_take]
          rfl

theorem Windowed.removeFromKeepAlive (h : Windowed capacity events w) (nodeId : NodeId) :
    Windowed capacity (.withdrawn nodeId :: events) (w.removeFromKeepAlive nodeId) := by
  unfold NodeServiceImpl.removeFromKeepAlive
  cases hindex : w.keepAliveIndex nodeId with
  | some entry =>
      obtain ⟨k, hmem, rfl⟩ := (h.indexed.entry _ _).mp hindex
      refine ⟨h.indexed.without hmem, fun other hother => h.fresh other
        (List.mem_of_mem_filter hother), ?_⟩
      show List.map _ _ = List.erase _ _
      rw [h.indexed.keys_without hmem, ← h.ids]
      rfl
  | none =>
      have hids : nodeId ∉ w.keepAliveIds := h.indexed.key_notMem hindex
      refine ⟨h.indexed, h.fresh, ?_⟩
      show _ = List.erase _ _
      rw [← h.ids, List.erase_of_not_mem hids]

/-- What `GetNodeModel` uses of the window. -/
def touches (nodeId : NodeId) : List (WindowEvent NodeId) :=
  if nodeId = .null then [] else [.used nodeId]

theorem Windowed.getNodeModel (h : Windowed context.keepAliveCapacity events w)
    (hresident : Resident w) (nodeId : NodeId) :
    Windowed context.keepAliveCapacity (touches nodeId ++ events)
      (w.getNodeModel context nodeId).2 := by
  unfold NodeServiceImpl.getNodeModel touches
  by_cases hid : nodeId = .null
  · rw [if_pos hid, if_pos hid]
    exact h
  · rw [if_neg hid, if_neg hid]
    cases hfind : w.findNodeModel nodeId with
    | some m =>
        have hhold : Windowed context.keepAliveCapacity events
            { w with frames := m :: w.frames } := h.keep rfl rfl rfl fun _ _ => rfl
        have htouch := hhold.touchKeepAlive m
        rw [show (w.models m).nodeId = nodeId from hresident.nodeId_of_find hfind] at htouch
        exact htouch
    | none =>
        have hmake : Windowed context.keepAliveCapacity events (w.makeModel nodeId) := by
          refine h.keep rfl rfl rfl ?_
          intro entry hentry
          rw [makeModel_models_of_lt (hresident.live _ (live_of_keepAlive hentry)).1]
        have htouch := hmake.touchKeepAlive w.nextModel
        rw [makeModel_models_self] at htouch
        exact htouch

/-! ## §4  What does not -/

section

variable {status : NodeFetchStatus} {callback : Option FetchId}

theorem sameWindow_change {result : NodeModelImpl × List FetchId}
    (hid : result.1.nodeId = (w.models m).nodeId) : SameWindow w (w.change m result) :=
  ⟨rfl, rfl, rfl, change_nodeId hid⟩

theorem sameWindow_startFetchOf : SameWindow w (w.startFetchOf m status callback) := by
  obtain ⟨_, _, _, _, _, heq⟩ := startFetchOf_eq w m status callback
  rw [heq]
  exact ⟨rfl, rfl, rfl, beginFetch_nodeId⟩

theorem sameWindow_awaitFetch : SameWindow w (w.awaitFetch m status) := by
  unfold awaitFetch
  apply SameWindow.trans _ sameWindow_startFetchOf
  exact ⟨rfl, rfl, rfl, fun _ => rfl⟩

theorem sameWindow_spawnPending (list : List (NodeId × PendingNodeFetch)) :
    SameWindow w (spawnPending list w) := by
  induction list generalizing w with
  | nil => exact SameWindow.rfl
  | cons head rest ih =>
      obtain ⟨nodeId, pending⟩ := head
      rw [spawnPending]
      apply SameWindow.trans _ ih
      obtain ⟨_, _, _, _, heq⟩ := spawnFetch_eq w nodeId pending.status pending.model
      rw [heq]
      exact ⟨rfl, rfl, rfl, fun _ => rfl⟩

end

theorem sameWindow_processFetchError {status : Status} :
    SameWindow w (w.processFetchError nodeId status) := by
  unfold processFetchError
  split
  · exact sameWindow_change rfl
  · exact SameWindow.rfl

theorem sameWindow_beginFetchedNode {state : NodeState} :
    SameWindow w (w.beginFetchedNode context state) := by
  unfold beginFetchedNode
  split
  · rename_i m _
    exact ⟨rfl, rfl, rfl, change_nodeId rfl⟩
  · exact SameWindow.rfl

theorem sameWindow_nodeFetched {coroutine : FetchCoroutine} {result : Except Status NodeState} :
    SameWindow w (w.nodeFetched context coroutine result) := by
  have hdone : SameWindow w { w with
      nodeFetchInFlight := w.nodeFetchInFlight.erase coroutine.nodeId
      frames := coroutine.pin.toList
      nodeFetches := w.nodeFetches.erase coroutine } := ⟨rfl, rfl, rfl, fun _ => rfl⟩
  unfold nodeFetched
  dsimp only
  split
  · exact hdone
  · exact hdone.trans sameWindow_beginFetchedNode
  · exact hdone.trans sameWindow_processFetchError

theorem sameWindow_childrenFetched {coroutine : FetchCoroutine}
    {result : Except Status (List ReferenceDescription)} :
    SameWindow w (w.childrenFetched coroutine result) := by
  have hdone : SameWindow w { w with
      childrenFetchInFlight := w.childrenFetchInFlight.erase coroutine.nodeId
      frames := coroutine.pin.toList
      childrenFetches := w.childrenFetches.erase coroutine } := ⟨rfl, rfl, rfl, fun _ => rfl⟩
  unfold childrenFetched
  dsimp only
  split
  · exact hdone
  · split
    · exact ⟨rfl, rfl, rfl, change_nodeId rfl⟩
    · exact hdone
  · exact hdone.trans sameWindow_processFetchError

theorem sameWindow_pushMirror {reference : ReferenceDescription} :
    SameWindow w (w.pushMirror m reference) := by
  unfold pushMirror
  dsimp only
  split
  · exact SameWindow.rfl
  · split
    · rename_i target _
      apply sameWindow_change
      obtain ⟨nodeState, heq⟩ := NodeModelImpl.pushReference_eq
        (reference.mirror (w.models m).nodeId) (w.models target)
      rw [heq]
    · exact SameWindow.rfl

theorem sameWindow_processFetchedNode {node : FetchedNode}
    (hstep : w.processFetchedNode node = some w') : SameWindow w w' := by
  unfold processFetchedNode at hstep
  dsimp only at hstep
  split at hstep
  · cases hstep
    apply SameWindow.trans sameWindow_pushMirror
    exact ⟨rfl, rfl, rfl, fun _ => rfl⟩
  · obtain ⟨result, happly, hresult⟩ := Option.bind_eq_some_iff.mp hstep
    cases hresult
    exact ⟨rfl, rfl, rfl, change_nodeId (NodeModelImpl.applyState_eq_some happly).1⟩
  · cases hstep
    exact ⟨rfl, rfl, rfl, change_nodeId rfl⟩

theorem sameWindow_finishChildren {tail : ChildrenTail} :
    SameWindow w (w.finishChildren tail) := by
  unfold finishChildren
  split
  · exact ⟨rfl, rfl, rfl, change_nodeId rfl⟩
  · exact ⟨rfl, rfl, rfl, fun _ => rfl⟩

/-! ## §5  Steps -/

/-- What an action uses of the window, and what it withdraws from it, the last one first. -/
def windowEvents : NodeServiceAction → List (WindowEvent NodeId)
  | .getNode nodeId => touches nodeId
  | .startFetch nodeId _ => touches nodeId
  | .fetch nodeId _ => touches nodeId
  | .fetchNextChild tail =>
      match tail.remaining with
      | [] => []
      | nodeId :: _ => touches nodeId ++ touches nodeId
  | .modelChanged nodeId verb => if verb.nodeDeleted then [.withdrawn nodeId] else []
  | _ => []

section

variable {status : NodeFetchStatus} (h : Windowed context.keepAliveCapacity events w)
  (hresident : Resident w) (nodeId : NodeId)
include h hresident

theorem Windowed.getNodeModelForRead :
    Windowed context.keepAliveCapacity (touches nodeId ++ events)
      (w.getNodeModelForRead context nodeId).2 := by
  have hget := h.getNodeModel hresident nodeId
  unfold NodeServiceImpl.getNodeModelForRead
  split
  · rename_i m u heq
    rw [heq] at hget
    exact hget.same sameWindow_startFetchOf
  · rename_i u heq
    rw [heq] at hget
    exact hget

theorem Windowed.startFetch :
    Windowed context.keepAliveCapacity (touches nodeId ++ events)
      (w.startFetch context nodeId status) := by
  have hget := h.getNodeModel hresident nodeId
  unfold NodeServiceImpl.startFetch
  split
  · rename_i m u heq
    rw [heq] at hget
    exact hget.same sameWindow_startFetchOf
  · rename_i u heq
    rw [heq] at hget
    exact hget

theorem Windowed.fetch (status : NodeFetchStatus) :
    Windowed context.keepAliveCapacity (touches nodeId ++ events)
      (w.fetch context nodeId status).2 := by
  have hget := h.getNodeModelForRead hresident nodeId
  unfold NodeServiceImpl.fetch
  split
  · rename_i m u heq
    rw [heq] at hget
    exact hget.same sameWindow_awaitFetch
  · rename_i u heq
    rw [heq] at hget
    exact hget

end

theorem Windowed.fetchNextChild (h : Windowed context.keepAliveCapacity events w)
    (hresident : Resident w) (tail : ChildrenTail) :
    Windowed context.keepAliveCapacity (windowEvents (.fetchNextChild tail) ++ events)
      (w.fetchNextChild context tail) := by
  unfold NodeServiceImpl.fetchNextChild
  split
  · rename_i hremaining
    have hevents : windowEvents (.fetchNextChild tail) = [] := by
      simp [windowEvents, hremaining]
    rw [hevents]
    exact h
  · rename_i nodeId remaining hremaining
    have hevents : windowEvents (.fetchNextChild tail) = touches nodeId ++ touches nodeId := by
      simp [windowEvents, hremaining]
    rw [hevents, List.append_assoc]
    have hget := h.getNodeModelForRead hresident nodeId
    have hgot : Resident (w.getNode context nodeId) := hresident.getNode
    have hfetch := hget.fetch hgot nodeId .nodeOnly
    exact hfetch.keep rfl rfl rfl fun _ _ => rfl

theorem Windowed.onModelChanged (h : Windowed capacity events w) (nodeId : NodeId)
    (verb : ModelChangeVerb) :
    Windowed capacity (windowEvents (.modelChanged nodeId verb) ++ events)
      (w.onModelChanged nodeId verb) := by
  obtain ⟨told, hcases, heq⟩ := exists_onModelChanged w nodeId verb
  have hfound : SameWindow w told := by
    rcases hcases with rfl | ⟨m, -, rfl⟩
    · exact SameWindow.rfl
    · exact sameWindow_change (onModelChanged_nodeId _ _)
  show Windowed capacity ((if verb.nodeDeleted then [.withdrawn nodeId] else []) ++ events) _
  rw [heq]
  by_cases hdeleted : verb.nodeDeleted = true
  · rw [if_pos hdeleted, if_pos hdeleted]
    exact (h.same hfound).removeFromKeepAlive nodeId
  · rw [if_neg hdeleted, if_neg hdeleted]
    split
    · exact h
    · exact h.same hfound

theorem Windowed.step (h : Windowed context.keepAliveCapacity events w) (hresident : Resident w)
    {a : NodeServiceAction} (hstep : w.step context a = some w') :
    Windowed context.keepAliveCapacity (windowEvents a ++ events) w' := by
  obtain ⟨u, hrun, rfl⟩ := Option.map_eq_some_iff.mp hstep
  suffices hu : Windowed context.keepAliveCapacity (windowEvents a ++ events) u from
    hu.keep rfl rfl rfl fun _ _ => rfl
  cases a with
  | getNode nodeId =>
      cases hrun
      exact h.getNodeModelForRead hresident nodeId
  | startFetch nodeId status =>
      cases hrun
      exact h.startFetch hresident nodeId
  | fetch nodeId status =>
      cases hrun
      exact h.fetch hresident nodeId status
  | resume callback =>
      cases hrun
      exact h.same ⟨rfl, rfl, rfl, fun _ => rfl⟩
  | nodeFetched coroutine result =>
      cases hrun
      exact h.same sameWindow_nodeFetched
  | childrenFetched coroutine result =>
      cases hrun
      exact h.same sameWindow_childrenFetched
  | processFetchedNode node => exact h.same (sameWindow_processFetchedNode hrun)
  | fetchNextChild tail =>
      cases hrun
      exact h.fetchNextChild hresident tail
  | finishChildren tail =>
      cases hrun
      exact h.same sameWindow_finishChildren
  | settleChildren tail =>
      cases hrun
      exact h.same ⟨rfl, rfl, rfl, fun _ => rfl⟩
  | modelChanged nodeId verb =>
      cases hrun
      exact h.onModelChanged nodeId verb
  | channelOpened =>
      obtain ⟨-, hopened⟩ := check_bind_eq_some.mp hrun
      cases hopened
      apply h.same
      apply SameWindow.trans _ (sameWindow_spawnPending w.pendingFetchNodes)
      exact ⟨rfl, rfl, rfl, fun _ => rfl⟩
  | channelClosed =>
      obtain ⟨-, hclosed⟩ := check_bind_eq_some.mp hrun
      obtain ⟨-, hclosed⟩ := check_bind_eq_some.mp hclosed
      cases hclosed
      exact h.same ⟨rfl, rfl, rfl, fun _ => rfl⟩

theorem Windowed.destroy (h : Windowed capacity events w) (m : ModelId) :
    Windowed capacity events (w.destroy m) := by
  obtain ⟨registry, heq⟩ := destroy_eq w m
  rw [heq]
  exact h.keep rfl rfl rfl fun _ _ => rfl

end NodeServiceImpl

/-! ## §6  Every run -/

/-- The service with what was used of its window and withdrawn from it, the last one first. -/
structure KeepAliveService where
  service : NodeServiceImpl := {}
  events : List (WindowEvent NodeId) := []

inductive KeepAliveAction where
  | service (a : NodeServiceAction)
  | destroyed (m : ModelId)

namespace KeepAliveService

def enabled (v : KeepAliveService) : KeepAliveAction → Prop
  | .service a => v.service.enabled a
  | .destroyed m => m < v.service.nextModel ∧ ¬ v.service.Live m

instance (v : KeepAliveService) (a : KeepAliveAction) : Decidable (v.enabled a) := by
  unfold enabled
  split <;> infer_instance

def step (context : NodeServiceImplContext) (v : KeepAliveService) :
    KeepAliveAction → Option KeepAliveService
  | .service a =>
      (v.service.step context a).map (⟨·, NodeServiceImpl.windowEvents a ++ v.events⟩)
  | .destroyed m => some { v with service := v.service.destroy m }

end KeepAliveService

def keepAliveMachine (context : NodeServiceImplContext) :
    Machine KeepAliveService KeepAliveAction :=
  ⟨{}, KeepAliveService.enabled, KeepAliveService.step context⟩

instance (context : NodeServiceImplContext) (v : KeepAliveService) (a : KeepAliveAction) :
    Decidable ((keepAliveMachine context).enabled v a) :=
  inferInstanceAs (Decidable (v.enabled a))

namespace KeepAliveService

variable {context : NodeServiceImplContext} {v v' : KeepAliveService}

/-- What a keep-alive window of a capacity is. -/
structure KeepsAlive (capacity : ℕ) (v : KeepAliveService) : Prop where
  /-- The index has the address of the list node of each listed model, by its node. -/
  index : ∀ nodeId address, v.service.keepAliveIndex nodeId = some address ↔
    ∃ m, (address, m) ∈ v.service.keepAliveList ∧ (v.service.models m).nodeId = nodeId
  addresses : (v.service.keepAliveList.map (·.1)).Nodup
  ids : v.service.keepAliveIds.Nodup
  length : v.service.keepAliveList.length ≤ capacity
  /-- What was used later comes first. -/
  order : v.service.keepAliveIds.Pairwise fun a b =>
    (uses v.events).idxOf a < (uses v.events).idxOf b
  used : ∀ nodeId ∈ v.service.keepAliveIds, nodeId ∈ uses v.events
  /-- The list has lost what was withdrawn and what was over the capacity, and nothing else. -/
  window : v.service.keepAliveIds = window capacity v.events
  registry : ∀ entry ∈ v.service.keepAliveList, v.service.Live entry.2 ∧
    v.service.registry (v.service.models entry.2).nodeId = some entry.2

/-- The invariant of runs. -/
structure Inv (context : NodeServiceImplContext) (v : KeepAliveService) : Prop where
  resident : v.service.Resident
  windowed : v.service.Windowed context.keepAliveCapacity v.events

theorem Inv.step (h : Inv context v) {a : KeepAliveAction} (hen : v.enabled a)
    (hstep : v.step context a = some v') : Inv context v' := by
  cases a with
  | service a =>
      obtain ⟨w', hservice, rfl⟩ := Option.map_eq_some_iff.mp hstep
      exact ⟨h.resident.step hen hservice, h.windowed.step h.resident hservice⟩
  | destroyed m =>
      cases hstep
      exact ⟨h.resident.destroy m, h.windowed.destroy m⟩

theorem inv_of_reachable (h : (keepAliveMachine context).Reachable v) : Inv context v :=
  h.invariant ⟨NodeServiceImpl.Resident.init, NodeServiceImpl.Windowed.init⟩
    fun _ _ _ hinv hen _ hstep => hinv.step hen hstep

theorem Inv.keepsAlive (h : Inv context v) : KeepsAlive context.keepAliveCapacity v where
  index := h.windowed.indexed.entry
  addresses := h.windowed.indexed.addresses
  ids := h.windowed.indexed.keys_nodup
  length := h.windowed.length_le
  order := by
    rw [h.windowed.ids]
    exact (recent_window _ _).order
  used := by
    rw [h.windowed.ids]
    exact (recent_window _ _).mem
  window := h.windowed.ids
  registry := by
    intro entry hentry
    have hlive := NodeServiceImpl.live_of_keepAlive hentry
    exact ⟨hlive, (h.resident.live entry.2 hlive).2⟩

/-- **The keep-alive window.** In every reachable state, whatever the capacity, the index
has each listed model in its own place, the list is a window of what was used last, and the
registry has the listed models; and the destructor of a model leaves the entries of all live
models, such as a newer one of the same node. -/
theorem window_is_kept_alive (h : (keepAliveMachine context).Reachable v) :
    KeepsAlive context.keepAliveCapacity v ∧
      ∀ m v', v.enabled (.destroyed m) → v.step context (.destroyed m) = some v' →
        ∀ nodeId k, v.service.registry nodeId = some k → v.service.Live k →
          v'.service.registry nodeId = some k := by
  refine ⟨(inv_of_reachable h).keepsAlive, ?_⟩
  rintro m v' - hstep nodeId k hregistry hlive
  cases hstep
  exact NodeServiceImpl.destroy_registry_of_live hregistry hlive

/-- A window of one: the second model of a node is in it, and registered, when the destructor
of the first one runs. -/
theorem window_is_kept_alive_late :
    ∃ v v', (keepAliveMachine ⟨1, .numeric 45 0⟩).Reachable v ∧ KeepsAlive 1 v ∧
      v.service.keepAliveIds = [.numeric 1 1] ∧ v.service.registry (.numeric 1 1) = some 2 ∧
      v.step ⟨1, .numeric 45 0⟩ (.destroyed 0) = some v' ∧
      v'.service.registry (.numeric 1 1) = some 2 := by
  obtain ⟨v, hreachable, hp⟩ := Machine.exists_reachable_of_exec
    (M := keepAliveMachine ⟨1, .numeric 45 0⟩)
    (p := fun v => v.service.keepAliveIds = [.numeric 1 1] ∧
      v.service.registry (.numeric 1 1) = some 2 ∧ v.service.Live 2 ∧ v.enabled (.destroyed 0))
    [.service .channelOpened, .service (.getNode (.numeric 1 1)),
      .service (.nodeFetched ⟨.numeric 1 1, some 0⟩ (.error .badWrongNodeId)),
      .service (.getNode (.numeric 2 1)), .service (.getNode (.numeric 1 1))] (by decide)
  obtain ⟨hids, hregistry, hlive, hen⟩ := of_decide_eq_true hp
  obtain ⟨hkeeps, hdestroyed⟩ := window_is_kept_alive hreachable
  exact ⟨v, _, hreachable, hkeeps, hids, hregistry, rfl,
    hdestroyed 0 _ hen rfl (.numeric 1 1) 2 hregistry hlive⟩

end KeepAliveService

end ScadaCommon.V3
