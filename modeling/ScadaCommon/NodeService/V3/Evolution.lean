import ScadaCommon.NodeService.V3.Residency

/-!
# What steps change of models

A view of models says what of them is looked at: their statuses, or their
references. Requests make models and change what is awaited of them, which no
view here looks at; so a view changes only where a function changes it.

§1 views · §2 requests.
-/

namespace ScadaCommon.V3

open Foundation

namespace NodeServiceImpl

variable {α : Type*} {view : NodeModelImpl → α} {context : NodeServiceImplContext}
  {w w' u : NodeServiceImpl} {m k : ModelId} {nodeId : NodeId} {f g : ModelId → α → α}

/-! ## §1  Views -/

/-- What is seen of the models that exist changes by `f`, and what the registry
has new is newer than they are. -/
structure Evolves (view : NodeModelImpl → α) (f : ModelId → α → α) (w w' : NodeServiceImpl) :
    Prop where
  next : w.nextModel ≤ w'.nextModel
  registry : ∀ nodeId m, w'.registry nodeId = some m →
    w.registry nodeId = some m ∨ w.nextModel ≤ m ∧ nodeId ≠ .null
  seen : ∀ m < w.nextModel, view (w'.models m) = f m (view (w.models m))
  fresh : ∀ m, w.nextModel ≤ m → m < w'.nextModel → ∃ nodeId, view (w'.models m) = view { nodeId }

/-- Nothing that is seen changes. -/
abbrev Keeps (view : NodeModelImpl → α) (w w' : NodeServiceImpl) : Prop :=
  Evolves view (fun _ => id) w w'

/-- `StartFetch` changes nothing that is seen. -/
def IgnoresRequests (view : NodeModelImpl → α) : Prop :=
  ∀ (model : NodeModelImpl) (requestedStatus : NodeFetchStatus) (callback : Option FetchId),
    view (model.withBase ((model.startFetch requestedStatus callback).1,
      (model.startFetch requestedStatus callback).2.1)).1 = view model

namespace Evolves

theorem keep (hmodels : w'.models = w.models) (hnext : w'.nextModel = w.nextModel)
    (hregistry : w'.registry = w.registry) : Keeps view w w' where
  next := hnext.ge
  registry := by
    rw [hregistry]
    exact fun _ _ => Or.inl
  seen := by
    rw [hmodels]
    exact fun _ _ => rfl
  fresh := by
    rw [hnext]
    exact fun m hm hlt => absurd hlt hm.not_gt

theorem refl (w : NodeServiceImpl) : Keeps view w w := keep rfl rfl rfl

/-- Nothing that is seen changes after a change. -/
theorem keeps (h : Evolves view f w u) (h' : Keeps view u w') : Evolves view f w w' where
  next := h.next.trans h'.next
  registry := by
    intro id m hm
    rcases h'.registry id m hm with hold | ⟨hnew, hid⟩
    · exact h.registry id m hold
    · exact Or.inr ⟨h.next.trans hnew, hid⟩
  seen := by
    intro m hm
    rw [h'.seen m (hm.trans_le h.next), h.seen m hm]
    rfl
  fresh := by
    intro m hm hlt
    by_cases hu : m < u.nextModel
    · rw [h'.seen m hu]
      exact h.fresh m hm hu
    · exact h'.fresh m (not_lt.mp hu) hlt

/-- A change of what has the same models. -/
theorem after (h : Evolves view f u w') (hmodels : u.models = w.models)
    (hnext : u.nextModel = w.nextModel) (hregistry : u.registry = w.registry) :
    Evolves view f w w' where
  next := hnext ▸ h.next
  registry := by
    rw [← hregistry, ← hnext]
    exact h.registry
  seen := by
    rw [← hmodels, ← hnext]
    exact h.seen
  fresh := by
    rw [← hnext]
    exact h.fresh

theorem congr (h : Evolves view f w w') (hfg : ∀ m < w.nextModel, f m = g m) :
    Evolves view g w w' where
  next := h.next
  registry := h.registry
  seen := by
    intro m hm
    rw [h.seen m hm, hfg m hm]
  fresh := h.fresh

/-- A model is replaced. -/
theorem change {result : NodeModelImpl × List FetchId}
    (hm : view result.1 = f m (view (w.models m))) (hrest : ∀ k, k ≠ m → f k = id) :
    Evolves view f w (w.change m result) where
  next := le_rfl
  registry := fun _ _ => Or.inl
  seen := by
    intro k _
    by_cases hk : k = m
    · subst hk
      rw [change_models_self, hm]
    · rw [change_models_of_ne hk, hrest k hk]
      rfl
  fresh := fun k hk hlt => absurd hlt hk.not_gt

theorem changeKeep {result : NodeModelImpl × List FetchId}
    (hm : view result.1 = view (w.models m)) : Keeps view w (w.change m result) :=
  change hm fun _ _ => rfl

theorem makeModel (hid : nodeId ≠ .null) : Keeps view w (w.makeModel nodeId) where
  next := Nat.le_succ _
  registry := by
    intro id m hm
    by_cases heq : id = nodeId
    · subst heq
      rw [makeModel_registry_self] at hm
      cases hm
      exact Or.inr ⟨le_rfl, hid⟩
    · rw [makeModel_registry_of_ne heq] at hm
      exact Or.inl hm
  seen := by
    intro m hm
    rw [makeModel_models_of_lt hm]
    rfl
  fresh := by
    intro m hm hlt
    obtain rfl : m = w.nextModel := le_antisymm (Nat.lt_succ_iff.mp hlt) hm
    exact ⟨nodeId, by rw [makeModel_models_self]⟩

end Evolves

section

variable {status : NodeFetchStatus} {callback : Option FetchId}

theorem keeps_getNodeModel (context : NodeServiceImplContext) (w : NodeServiceImpl)
    (hid : nodeId ≠ .null) :
    ∃ m w', w.getNodeModel context nodeId = (some m, w') ∧ Keeps view w w' := by
  obtain ⟨m, u, list, index, entry, heq, -, -, hcases⟩ := getNodeModel_eq context w hid
  refine ⟨m, _, heq, ?_⟩
  rcases hcases with ⟨-, rfl⟩ | ⟨-, -, rfl⟩
  · exact Evolves.keep rfl rfl rfl
  · exact (Evolves.makeModel hid).keeps (Evolves.keep rfl rfl rfl)

theorem keeps_startFetchOf (hview : IgnoresRequests view) :
    Keeps view w (w.startFetchOf m status callback) := by
  obtain ⟨_, _, _, _, _, heq⟩ := startFetchOf_eq w m status callback
  rw [heq]
  have hbegin : Keeps view w (w.beginFetch m status callback) := by
    apply Evolves.changeKeep
    exact hview _ _ _
  exact hbegin.keeps (Evolves.keep rfl rfl rfl)

theorem keeps_getNodeModelForRead (hview : IgnoresRequests view)
    (context : NodeServiceImplContext) (w : NodeServiceImpl) (hid : nodeId ≠ .null) :
    ∃ m w', w.getNodeModelForRead context nodeId = (some m, w') ∧ Keeps view w w' := by
  obtain ⟨m, w', heq, hkeeps⟩ := keeps_getNodeModel context w hid
  unfold getNodeModelForRead
  rw [heq]
  exact ⟨m, _, rfl, hkeeps.keeps (keeps_startFetchOf hview)⟩

theorem keeps_getNode (hview : IgnoresRequests view) :
    Keeps view w (w.getNode context nodeId) := by
  unfold getNode
  by_cases hid : nodeId = .null
  · subst hid
    rw [getNodeModelForRead_null]
    exact Evolves.refl w
  · obtain ⟨m, w', heq, hkeeps⟩ := keeps_getNodeModelForRead hview context w hid
    rw [heq]
    exact hkeeps

theorem keeps_startFetch (hview : IgnoresRequests view) :
    Keeps view w (w.startFetch context nodeId status) := by
  unfold startFetch
  by_cases hid : nodeId = .null
  · subst hid
    rw [getNodeModel_null]
    exact Evolves.refl w
  · obtain ⟨m, w', heq, hkeeps⟩ := keeps_getNodeModel context w hid
    rw [heq]
    exact hkeeps.keeps (keeps_startFetchOf hview)

theorem keeps_fetch (hview : IgnoresRequests view) :
    Keeps view w (w.fetch context nodeId status).2 := by
  unfold fetch
  by_cases hid : nodeId = .null
  · subst hid
    rw [getNodeModelForRead_null]
    exact Evolves.refl w
  · obtain ⟨m, w', heq, hkeeps⟩ := keeps_getNodeModelForRead hview context w hid
    rw [heq]
    have hwaiting : Keeps view w' { w' with
        fetchCalls := w'.fetchCalls ++ [⟨w'.nextFetch, m⟩]
        nextFetch := w'.nextFetch + 1 } := Evolves.keep rfl rfl rfl
    exact (hkeeps.keeps hwaiting).keeps (keeps_startFetchOf hview)

theorem keeps_fetchNextChild (hview : IgnoresRequests view) {tail : ChildrenTail} :
    Keeps view w (w.fetchNextChild context tail) := by
  unfold fetchNextChild
  split
  · exact Evolves.refl w
  · rename_i nodeId remaining _
    have hget : Keeps view w (w.getNode context nodeId) := keeps_getNode hview
    have hfetch : Keeps view (w.getNode context nodeId)
        ((w.getNode context nodeId).fetch context nodeId .nodeOnly).2 := keeps_fetch hview
    exact (hget.keeps hfetch).keeps (Evolves.keep rfl rfl rfl)

theorem keeps_spawnPending (list : List (NodeId × PendingNodeFetch)) :
    Keeps view w (spawnPending list w) := by
  induction list generalizing w with
  | nil => exact Evolves.refl w
  | cons head rest ih =>
      obtain ⟨nodeId, pending⟩ := head
      obtain ⟨_, _, _, _, heq⟩ := spawnFetch_eq w nodeId pending.status pending.model
      rw [spawnPending]
      have hspawn : Keeps view w (w.spawnFetch nodeId pending.status pending.model) := by
        rw [heq]
        exact Evolves.keep rfl rfl rfl
      exact hspawn.keeps ih

theorem keeps_removeFromKeepAlive : Keeps view w (w.removeFromKeepAlive nodeId) := by
  unfold removeFromKeepAlive
  split
  · exact Evolves.keep rfl rfl rfl
  · exact Evolves.refl w

end

end NodeServiceImpl

end ScadaCommon.V3
