import ScadaCommon.Foundation.Deliveries
import ScadaCommon.NodeService.V3.SingleEdges

/-!
# Inverse references

The references of a fetched node replace what its model had and are pushed, the
other way round, into the models of its neighbours. A batch of node fetches that
complete one after the other is a row of such deliveries: a model ends with what
it reported and with the inverses that the completions after its own pushed.

§1 edges · §2 a batch · §3 pushing · §4 one completion · §5 all orders.
-/

namespace ScadaCommon.V3

open Foundation

namespace NodeServiceImpl

variable {context : NodeServiceImplContext} {w v v' : NodeServiceImpl} {m k : ModelId}
  {batch remaining : List ModelId} {S T : ModelId → Set Edge}
  {reference : ReferenceDescription} {references : List ReferenceDescription}

/-! ## §1  Edges -/

/-- The reference set of a model. -/
def edges (w : NodeServiceImpl) (m : ModelId) : Set Edge :=
  {edge | edge ∈ (w.models m).references.map (·.toEdge)}

instance (w : NodeServiceImpl) (m : ModelId) (edge : Edge) : Decidable (edge ∈ w.edges m) :=
  inferInstanceAs (Decidable (edge ∈ (w.models m).references.map (·.toEdge)))

/-- The references of a state that a node fetch delivers. -/
def fetchedReferences (context : NodeServiceImplContext) (state : NodeState) :
    List ReferenceDescription :=
  (state.withInverseReferences context.hasSubtype).references

/-- What a node that is fetched has for a neighbour. -/
def inverses (w : NodeServiceImpl) (m : ModelId) (references : List ReferenceDescription)
    (k : ModelId) : Set Edge :=
  {edge | ∃ reference ∈ references, reference.nodeId = (w.models k).nodeId ∧
    edge = (reference.mirror (w.models m).nodeId).toEdge}

/-- The fetches of a batch as deliveries: a model's own are what its fetch reports
and its children. -/
def deliveries (context : NodeServiceImplContext) (w : NodeServiceImpl)
    (state : ModelId → NodeState) : Deliveries ModelId Edge where
  own m := {edge | edge ∈
    (fetchedReferences context (state m) ++ (w.models m).childReferences).map (·.toEdge)}
  push m k := w.inverses m (fetchedReferences context (state m)) k

theorem edges_pushReference (model : NodeModelImpl) (mirror : ReferenceDescription) (edge : Edge) :
    edge ∈ (model.pushReference mirror).references.map (·.toEdge) ↔
      edge ∈ model.references.map (·.toEdge) ∨ edge = mirror.toEdge := by
  unfold NodeModelImpl.pushReference
  split
  · rename_i hhas
    refine ⟨Or.inl, fun h => h.elim id ?_⟩
    rintro rfl
    exact NodeModelImpl.hasReference_iff.mp hhas
  · show edge ∈ ((model.nodeState.references ++ [mirror]) ++ model.childReferences).map _ ↔
      edge ∈ (model.nodeState.references ++ model.childReferences).map _ ∨ _
    simp only [List.map_append, List.mem_append, List.map_cons, List.map_nil, List.mem_singleton]
    exact or_right_comm

/-! ## §2  A batch -/

/-- Held by something that outlives the fetches in flight. -/
def Held (w : NodeServiceImpl) (m : ModelId) : Prop :=
  ({ w with frames := [], nodeFetches := [], fetchedNodes := [] } : NodeServiceImpl).Live m

theorem Held.live (h : w.Held m) : w.Live m :=
  live_mono h (fun _ hm => absurd hm List.not_mem_nil) (fun _ hmem => live_of_keepAlive hmem)
    (fun _ hmem _ => live_of_pending hmem) (fun _ hm => absurd hm List.not_mem_nil)
    (fun _ hmem _ => live_of_childrenFetch hmem) (fun _ hm => absurd hm List.not_mem_nil)
    (fun _ hmem _ => live_of_tail hmem) (fun _ hmem => live_of_call hmem)

/-- In the middle of a batch: its models are resident and hold given edges, and
the fetches that remain are in flight. -/
structure Progress (w : NodeServiceImpl) (batch : List ModelId) (S : ModelId → Set Edge)
    (remaining : List ModelId) (v : NodeServiceImpl) : Prop where
  nodeId : ∀ k, (v.models k).nodeId = (w.models k).nodeId
  children : ∀ k, (v.models k).childReferences = (w.models k).childReferences
  registry : v.registry = w.registry
  held : ∀ m ∈ batch, v.Held m
  fetches : ∀ m ∈ remaining, ⟨(w.models m).nodeId, some m⟩ ∈ v.nodeFetches
  edges : ∀ m ∈ batch, ∀ edge, edge ∈ v.edges m ↔ edge ∈ S m

namespace Progress

theorem congr (h : Progress w batch S remaining v)
    (hST : ∀ m ∈ batch, ∀ edge, edge ∈ S m ↔ edge ∈ T m) : Progress w batch T remaining v where
  nodeId := h.nodeId
  children := h.children
  registry := h.registry
  held := h.held
  fetches := h.fetches
  edges := fun m hm edge => (h.edges m hm edge).trans (hST m hm edge)

/-- A model changes, and what is pushed to it is known. -/
theorem change (h : Progress w batch S remaining v) {result : NodeModelImpl × List FetchId}
    (hid : result.1.nodeId = (v.models m).nodeId)
    (hchildren : result.1.childReferences = (v.models m).childReferences)
    (hedges : m ∈ batch → ∀ edge, edge ∈ result.1.references.map (·.toEdge) ↔ edge ∈ T m)
    (hrest : ∀ k ∈ batch, k ≠ m → ∀ edge, edge ∈ S k ↔ edge ∈ T k) :
    Progress w batch T remaining (v.change m result) where
  nodeId := fun k => (change_nodeId hid k).trans (h.nodeId k)
  children := fun k => (change_models
    (fun k model => model.childReferences = (v.models k).childReferences) (fun _ => rfl)
    hchildren k).trans (h.children k)
  registry := h.registry
  held := h.held
  fetches := h.fetches
  edges := by
    intro k hk edge
    by_cases heq : k = m
    · subst heq
      unfold NodeServiceImpl.edges
      rw [change_models_self]
      exact hedges hk edge
    · rw [← hrest k hk heq edge, ← h.edges k hk edge]
      unfold NodeServiceImpl.edges
      rw [change_models_of_ne heq]

/-- Only what is being applied changes. -/
theorem fetchedNodes (h : Progress w batch S remaining v) (list : List FetchedNode)
    (frames : List ModelId) :
    Progress w batch S remaining { v with fetchedNodes := list, frames } :=
  ⟨h.nodeId, h.children, h.registry, h.held, h.fetches, h.edges⟩

/-- The model of a batch that is found under a node. -/
theorem find_iff (h : Progress w batch S remaining v) (hresident : Resident w)
    (hbatch : ∀ m ∈ batch, w.Held m) (hm : m ∈ batch) {nodeId : NodeId} :
    v.findNodeModel nodeId = some m ↔ nodeId = (w.models m).nodeId := by
  rw [findNodeModel_eq_some, h.registry]
  constructor
  · rintro ⟨hregistered, -⟩
    exact (hresident.registry nodeId m hregistered).2.symm
  · rintro rfl
    exact ⟨(hresident.live m (hbatch m hm).live).2, (h.held m hm).live⟩

end Progress

/-! ## §3  Pushing -/

theorem mem_inverses_singleton {edge : Edge} : edge ∈ w.inverses m [reference] k ↔
    reference.nodeId = (w.models k).nodeId ∧
      edge = (reference.mirror (w.models m).nodeId).toEdge := by
  constructor
  · rintro ⟨other, hmem, hid, hedge⟩
    obtain rfl := List.mem_singleton.mp hmem
    exact ⟨hid, hedge⟩
  · exact fun ⟨hid, hedge⟩ => ⟨reference, List.mem_singleton_self _, hid, hedge⟩

theorem mem_inverses_cons {edge : Edge} : edge ∈ w.inverses m (reference :: references) k ↔
    edge ∈ w.inverses m [reference] k ∨ edge ∈ w.inverses m references k := by
  constructor
  · rintro ⟨other, hmem, hid, hedge⟩
    rcases List.mem_cons.mp hmem with rfl | hmem
    · exact Or.inl (mem_inverses_singleton.mpr ⟨hid, hedge⟩)
    · exact Or.inr ⟨other, hmem, hid, hedge⟩
  · rintro (hhead | ⟨other, hmem, hid, hedge⟩)
    · obtain ⟨hid, hedge⟩ := mem_inverses_singleton.mp hhead
      exact ⟨reference, List.mem_cons_self .., hid, hedge⟩
    · exact ⟨other, List.mem_cons_of_mem _ hmem, hid, hedge⟩

/-- The sets of a batch when references of a node have been pushed. -/
def pushed (w : NodeServiceImpl) (S : ModelId → Set Edge) (m : ModelId)
    (references : List ReferenceDescription) : ModelId → Set Edge :=
  fun k => if k = m then S k else S k ∪ w.inverses m references k

theorem mem_pushed_of_ne {edge : Edge} (h : k ≠ m) : edge ∈ w.pushed S m references k ↔
    edge ∈ S k ∨ edge ∈ w.inverses m references k := by
  unfold pushed
  rw [if_neg h]
  rfl

theorem pushed_self : w.pushed S m references m = S m :=
  if_pos rfl

theorem mem_pushed_cons {edge : Edge} : edge ∈ w.pushed S m (reference :: references) k ↔
    edge ∈ w.pushed (w.pushed S m [reference]) m references k := by
  by_cases h : k = m
  · subst h
    rw [pushed_self, pushed_self, pushed_self]
  · rw [mem_pushed_of_ne h, mem_pushed_of_ne h, mem_pushed_of_ne h, mem_inverses_cons, or_assoc]

/-- A reference reaches the model of its target, when that is resident. -/
theorem Progress.pushMirror (h : Progress w batch S remaining v) (hresident : Resident w)
    (hbatch : ∀ m ∈ batch, w.Held m) (hm : m ∈ batch) :
    Progress w batch (w.pushed S m [reference]) remaining (v.pushMirror m reference) := by
  -- Where nothing of the batch is found, nothing is pushed.
  have hmiss : ∀ k ∈ batch, (k ≠ m → reference.nodeId ≠ (w.models k).nodeId) → ∀ edge,
      edge ∈ S k ↔ edge ∈ w.pushed S m [reference] k := by
    intro k hk hne edge
    by_cases heq : k = m
    · subst heq
      rw [pushed_self]
    · rw [mem_pushed_of_ne heq, mem_inverses_singleton]
      exact ⟨Or.inl, fun hin => hin.resolve_right fun hpush => hne heq hpush.1⟩
  have hnode := h.nodeId m
  unfold NodeServiceImpl.pushMirror
  dsimp only
  rw [hnode]
  split
  -- A reference of the node to itself gets no inverse.
  · rename_i hself
    refine h.congr fun k hk => hmiss k hk fun hne hid => hne ?_
    exact hresident.eq_of_nodeId (hbatch k hk).live (hbatch m hm).live (hid.symm.trans hself)
  · rename_i hself
    split
    · rename_i target hfind
      obtain ⟨nodeState, hpush⟩ := NodeModelImpl.pushReference_eq
        (reference.mirror (w.models m).nodeId) (v.models target)
      refine h.change ?_ ?_ ?_ ?_
      · rw [hpush]
      · rw [hpush]
      · intro htarget edge
        have hid := (h.find_iff hresident hbatch htarget).mp hfind
        have hne : target ≠ m := by
          rintro rfl
          exact hself hid
        rw [edges_pushReference, mem_pushed_of_ne hne, mem_inverses_singleton,
          ← h.edges target htarget edge]
        exact or_congr_right ⟨fun hedge => ⟨hid, hedge⟩, fun hedge => hedge.2⟩
      · intro k hk hne
        refine hmiss k hk fun _ hid => hne ?_
        have hfound := (h.find_iff hresident hbatch hk).mpr hid
        exact Option.some.inj (hfound.symm.trans hfind)
    · rename_i hnone
      refine h.congr fun k hk => hmiss k hk fun _ hid => ?_
      have hfound := (h.find_iff hresident hbatch hk).mpr hid
      rw [hnone] at hfound
      cases hfound

/-! ## §4  One completion -/

/-- A model changes in what is not its references. -/
theorem Progress.changeBase (h : Progress w batch S remaining v)
    {result : NodeModelImpl × List FetchId}
    (hid : result.1.nodeId = (v.models m).nodeId)
    (hlists : result.1.referenceLists = (v.models m).referenceLists) :
    Progress w batch S remaining (v.change m result) := by
  have hstate : result.1.nodeState.references = (v.models m).nodeState.references :=
    congrArg Prod.fst hlists
  have hchildren : result.1.childReferences = (v.models m).childReferences :=
    congrArg Prod.snd hlists
  refine h.change hid hchildren ?_ fun _ _ _ _ => Iff.rfl
  intro hm edge
  rw [← h.edges m hm edge]
  unfold NodeServiceImpl.edges NodeModelImpl.references
  rw [hstate, hchildren]
  exact Iff.rfl

theorem pushMirror_callbackLockCount :
    ((v.pushMirror m reference).models k).callbackLockCount = (v.models k).callbackLockCount := by
  unfold pushMirror
  dsimp only
  split
  · rfl
  · split
    · rename_i target _
      obtain ⟨nodeState, hpush⟩ := NodeModelImpl.pushReference_eq
        (reference.mirror (v.models m).nodeId) (v.models target)
      rw [hpush]
      exact change_models
        (fun k model => model.callbackLockCount = (v.models k).callbackLockCount) (fun _ => rfl)
        rfl k
    · rfl

theorem beginFetchedNode_of_find (context : NodeServiceImplContext) {state : NodeState}
    (hfind : v.findNodeModel state.nodeId = some m) :
    v.beginFetchedNode context state =
      { v.change m ((v.models m).receiveState context.hasSubtype state, []) with
        fetchedNodes := v.fetchedNodes ++ [⟨m, fetchedReferences context state, false⟩] } := by
  unfold beginFetchedNode
  rw [hfind]
  rfl

/-- A node fetch of the batch comes back. -/
theorem Progress.nodeFetched (context : NodeServiceImplContext)
    (h : Progress w batch S (m :: remaining) v) (hresident : Resident w)
    (hbatch : ∀ m ∈ batch, w.Held m) (hm : m ∈ batch) (hnot : m ∉ remaining) {state : NodeState}
    (hstate : state.nodeId = (w.models m).nodeId) :
    ∃ v', (nodeServiceMachine context).step v
        (.nodeFetched ⟨(w.models m).nodeId, some m⟩ (.ok state)) = some v' ∧
      Progress w batch (fun k => if k = m then
        {edge | edge ∈ (fetchedReferences context state ++
          (w.models m).childReferences).map (·.toEdge)} else S k) remaining v' ∧
      ⟨m, fetchedReferences context state, false⟩ ∈ v'.fetchedNodes ∧
      0 < (v'.models m).callbackLockCount := by
  -- The models of a batch are apart, so the other fetches stay in flight.
  have hdone : Progress w batch S remaining { v with
      nodeFetchInFlight := v.nodeFetchInFlight.erase (w.models m).nodeId
      frames := [m]
      nodeFetches := v.nodeFetches.erase ⟨(w.models m).nodeId, some m⟩ } := by
    refine ⟨h.nodeId, h.children, h.registry, h.held, ?_, h.edges⟩
    intro k hk
    refine (List.mem_erase_of_ne ?_).mpr (h.fetches k (List.mem_cons_of_mem _ hk))
    rintro heq
    cases congrArg FetchCoroutine.pin heq
    exact hnot hk
  have hfind := (hdone.find_iff hresident hbatch hm).mpr hstate
  have hstep : (nodeServiceMachine context).step v
      (.nodeFetched ⟨(w.models m).nodeId, some m⟩ (.ok state)) =
      some (unwind (beginFetchedNode context { v with
        nodeFetchInFlight := v.nodeFetchInFlight.erase (w.models m).nodeId
        frames := [m]
        nodeFetches := v.nodeFetches.erase ⟨(w.models m).nodeId, some m⟩ } state)) := rfl
  rw [beginFetchedNode_of_find context hfind] at hstep
  refine ⟨_, hstep, Progress.fetchedNodes (hdone.change rfl rfl ?_ ?_) _ _,
    List.mem_append_right _ (List.mem_singleton_self _), ?_⟩
  · intro _ edge
    rw [if_pos rfl]
    show edge ∈ (fetchedReferences context state ++ (v.models m).childReferences).map _ ↔ _
    rw [h.children m]
    exact Iff.rfl
  · intro k _ hne edge
    rw [if_neg hne]
  · show 0 < ((v.change m ((v.models m).receiveState context.hasSubtype state, [])).models
      m).callbackLockCount
    rw [change_models_self]
    exact Nat.succ_pos _

/-- The references of the node are pushed one after the other, and then the state
is applied. -/
theorem Progress.processReferences (context : NodeServiceImplContext)
    (h : Progress w batch S remaining v) (hresident : Resident w)
    (hbatch : ∀ m ∈ batch, w.Held m) (hm : m ∈ batch)
    (hmem : ⟨m, references, false⟩ ∈ v.fetchedNodes)
    (hlock : 0 < (v.models m).callbackLockCount) :
    ∃ v', (nodeServiceMachine context).exec (fun _ _ => True) v
        (references.tails.map fun rest => .processFetchedNode ⟨m, rest, false⟩) = some v' ∧
      Progress w batch (w.pushed S m references) remaining v' ∧
      ⟨m, [], true⟩ ∈ v'.fetchedNodes := by
  -- The induction is on the references that are left, one step for each.
  induction references generalizing v S with
  | nil =>
      obtain ⟨result, happly⟩ := NodeModelImpl.exists_applyState hlock
      have hstep : (nodeServiceMachine context).step v (.processFetchedNode ⟨m, [], false⟩) =
          some (unwind { v.change m result with
            fetchedNodes := ⟨m, [], true⟩ :: v.fetchedNodes.erase ⟨m, [], false⟩ }) := by
        show (v.processFetchedNode ⟨m, [], false⟩).map unwind = _
        unfold processFetchedNode
        dsimp only
        rw [happly]
        rfl
      refine ⟨_, (Machine.exec_cons hmem trivial hstep).trans rfl, ?_, List.mem_cons_self ..⟩
      have hbase : Progress w batch S remaining (v.change m result) :=
        h.changeBase (NodeModelImpl.applyState_eq_some happly).1
          (NodeModelImpl.applyState_referenceLists happly)
      refine Progress.fetchedNodes (hbase.congr ?_) _ _
      intro k _ edge
      by_cases heq : k = m
      · subst heq
        rw [pushed_self]
      · rw [mem_pushed_of_ne heq]
        refine ⟨Or.inl, fun hin => hin.resolve_right ?_⟩
        rintro ⟨_, hnil, -⟩
        cases hnil
  | cons reference rest ih =>
      have hstep : (nodeServiceMachine context).step v
          (.processFetchedNode ⟨m, reference :: rest, false⟩) =
          some (unwind { v.pushMirror m reference with
            fetchedNodes := ⟨m, rest, false⟩ ::
              v.fetchedNodes.erase ⟨m, reference :: rest, false⟩ }) := rfl
      have hpush : Progress w batch (w.pushed S m [reference]) remaining
          (unwind { v.pushMirror m reference with
            fetchedNodes := ⟨m, rest, false⟩ ::
              v.fetchedNodes.erase ⟨m, reference :: rest, false⟩ }) :=
        (h.pushMirror hresident hbatch hm).fetchedNodes _ _
      have hlock' : 0 < (((v.pushMirror m reference)).models m).callbackLockCount := by
        rw [pushMirror_callbackLockCount]
        exact hlock
      obtain ⟨v', hexec, hprogress, happlied⟩ := ih hpush (List.mem_cons_self ..) hlock'
      refine ⟨v', ?_, hprogress.congr fun k _ edge => mem_pushed_cons.symm, happlied⟩
      rw [List.tails_cons, List.map_cons, Machine.exec_cons hmem trivial hstep]
      exact hexec

/-- The steps in which a node fetch of a model completes. -/
def completionOfFetch (context : NodeServiceImplContext) (w : NodeServiceImpl)
    (state : ModelId → NodeState) (m : ModelId) : List NodeServiceAction :=
  .nodeFetched ⟨(w.models m).nodeId, some m⟩ (.ok (state m)) ::
    (((fetchedReferences context (state m)).tails.map fun rest =>
      .processFetchedNode ⟨m, rest, false⟩) ++ [.processFetchedNode ⟨m, [], true⟩])

/-- **One completion** is one delivery. -/
theorem Progress.completes (context : NodeServiceImplContext)
    (h : Progress w batch S (m :: remaining) v) (hresident : Resident w)
    (hbatch : ∀ m ∈ batch, w.Held m) (hm : m ∈ batch) (hnot : m ∉ remaining)
    {state : ModelId → NodeState} (hstate : (state m).nodeId = (w.models m).nodeId) :
    ∃ v', (nodeServiceMachine context).exec (fun _ _ => True) v
        (completionOfFetch context w state m) = some v' ∧
      Progress w batch ((deliveries context w state).deliver S m) remaining v' := by
  -- Three parts: the fetch comes back, its references are pushed, it is completed.
  obtain ⟨v₁, hstep, hfetched, hmem, hlock⟩ :=
    h.nodeFetched context hresident hbatch hm hnot hstate
  obtain ⟨v₂, hexec, hpushed, happlied⟩ :=
    hfetched.processReferences context hresident hbatch hm hmem hlock
  have hen : (nodeServiceMachine context).enabled v
      (.nodeFetched ⟨(w.models m).nodeId, some m⟩ (.ok (state m))) := by
    refine ⟨h.fetches m (List.mem_cons_self ..), ?_⟩
    rintro _ ⟨⟩
    exact hstate
  have hlast : (nodeServiceMachine context).step v₂ (.processFetchedNode ⟨m, [], true⟩) =
      some (unwind { v₂.change m (v₂.models m).completeFetch with
        fetchedNodes := v₂.fetchedNodes.erase ⟨m, [], true⟩ }) := rfl
  have hcompleted : Progress w batch _ remaining (v₂.change m (v₂.models m).completeFetch) :=
    hpushed.changeBase rfl rfl
  refine ⟨_, ?_, (hcompleted.congr ?_).fetchedNodes (v₂.fetchedNodes.erase ⟨m, [], true⟩) []⟩
  · unfold completionOfFetch
    rw [Machine.exec_cons hen trivial hstep, Machine.exec_append hexec,
      Machine.exec_cons happlied trivial hlast]
    rfl
  · intro k _ edge
    unfold Deliveries.deliver pushed
    by_cases heq : k = m
    · rw [if_pos heq, if_pos heq]
      dsimp only
      rw [if_pos heq]
      exact Iff.rfl
    · rw [if_neg heq, if_neg heq]
      dsimp only
      rw [if_neg heq]
      exact Iff.rfl

/-! ## §5  All orders -/

/-- The completions of a batch in an order. -/
def completeInOrder (context : NodeServiceImplContext) (w : NodeServiceImpl)
    (state : ModelId → NodeState) (order : List ModelId) : Option NodeServiceImpl :=
  (nodeServiceMachine context).exec (fun _ _ => True) w
    (order.flatMap (completionOfFetch context w state))

theorem Progress.completeAll (context : NodeServiceImplContext) {order : List ModelId}
    (h : Progress w batch S order v)
    (hresident : Resident w) (hbatch : ∀ m ∈ batch, w.Held m) (horder : ∀ m ∈ order, m ∈ batch)
    (hnodup : order.Nodup) {state : ModelId → NodeState}
    (hstate : ∀ m ∈ batch, (state m).nodeId = (w.models m).nodeId) :
    ∃ v', (nodeServiceMachine context).exec (fun _ _ => True) v
        (order.flatMap (completionOfFetch context w state)) = some v' ∧
      Progress w batch ((deliveries context w state).deliverAll S order) [] v' := by
  induction order generalizing v S with
  | nil => exact ⟨v, rfl, h⟩
  | cons m rest ih =>
      obtain ⟨hnot, hrest⟩ := List.nodup_cons.mp hnodup
      have hm := horder m (List.mem_cons_self ..)
      obtain ⟨v₁, hexec, hnext⟩ :=
        h.completes context hresident hbatch hm hnot (hstate m hm)
      obtain ⟨v', hrun, hall⟩ :=
        ih hnext (fun k hk => horder k (List.mem_cons_of_mem _ hk)) hrest
      refine ⟨v', ?_, hall⟩
      rw [List.flatMap_cons, Machine.exec_append hexec]
      exact hrun

/-- A batch of node fetches: their models are resident, and the fetches are in
flight with given results. -/
structure Batch (w : NodeServiceImpl) (batch : List ModelId) (state : ModelId → NodeState) :
    Prop where
  nodup : batch.Nodup
  held : ∀ m ∈ batch, w.Held m
  fetches : ∀ m ∈ batch, ⟨(w.models m).nodeId, some m⟩ ∈ w.nodeFetches
  state : ∀ m ∈ batch, (state m).nodeId = (w.models m).nodeId

theorem Batch.edges {state : ModelId → NodeState} (h : Batch w batch state)
    (hresident : Resident w) (context : NodeServiceImplContext) {order : List ModelId}
    (horder : order.Perm batch) : ∃ w', w.completeInOrder context state order = some w' ∧
      ∀ m ∈ batch, w'.edges m = (deliveries context w state).deliverAll w.edges order m := by
  have hinit : Progress w batch w.edges order w :=
    ⟨fun _ => rfl, fun _ => rfl, rfl, h.held, fun m hm => h.fetches m (horder.mem_iff.mp hm),
      fun _ _ _ => Iff.rfl⟩
  obtain ⟨w', hexec, hall⟩ := hinit.completeAll context hresident h.held
    (fun m hm => horder.mem_iff.mp hm) (horder.nodup_iff.mpr h.nodup) h.state
  exact ⟨w', hexec, fun m hm => Set.ext (hall.edges m hm)⟩

/-- **Inverse references.** Every order of the completions of a batch runs, and
leaves each model with its own references, its children and the inverses that the
completions after its own pushed. All orders agree exactly when each model has
itself, of its own or its children, what the others push into it. -/
theorem inverse_references (h : (nodeServiceMachine context).Reachable w)
    {state : ModelId → NodeState} (hbatch : Batch w batch state) :
    (∀ order : List ModelId, order.Perm batch →
      ∃ w', w.completeInOrder context state order = some w' ∧
        ∀ before m after, order = before ++ m :: after → ∀ edge, edge ∈ w'.edges m ↔
          edge ∈ (deliveries context w state).own m ∨
            ∃ k ∈ after, edge ∈ (deliveries context w state).push k m) ∧
    ((∀ (order order' : List ModelId) (w₁ w₂ : NodeServiceImpl), order.Perm batch →
        order'.Perm batch → w.completeInOrder context state order = some w₁ →
        w.completeInOrder context state order' = some w₂ →
        ∀ m ∈ batch, w₁.edges m = w₂.edges m) ↔
      ∀ m ∈ batch, ∀ k ∈ batch, m ≠ k →
        (deliveries context w state).push k m ⊆ (deliveries context w state).own m) := by
  have hresident := resident_of_reachable h
  refine ⟨?_, ?_⟩
  · intro order horder
    obtain ⟨w', hexec, hedges⟩ := hbatch.edges hresident context horder
    refine ⟨w', hexec, ?_⟩
    rintro before m after rfl edge
    have hm : m ∈ batch := horder.mem_iff.mp (List.mem_append_right _ (List.mem_cons_self ..))
    have hsplit := (List.nodup_append.mp (horder.nodup_iff.mpr hbatch.nodup)).2.1
    rw [hedges m hm]
    exact Deliveries.mem_deliverAll _ before (List.nodup_cons.mp hsplit).1
  · rw [← (deliveries context w state).deliverAll_comm_iff (S := w.edges) hbatch.nodup]
    constructor
    · intro hall order order' horder horder' m hm
      obtain ⟨w₁, hexec₁, hedges₁⟩ := hbatch.edges hresident context horder
      obtain ⟨w₂, hexec₂, hedges₂⟩ := hbatch.edges hresident context horder'
      rw [← hedges₁ m hm, ← hedges₂ m hm]
      exact hall order order' w₁ w₂ horder horder' hexec₁ hexec₂ m hm
    · intro hall order order' w₁ w₂ horder horder' hexec₁ hexec₂ m hm
      obtain ⟨w₁', hexec₁', hedges₁⟩ := hbatch.edges hresident context horder
      obtain ⟨w₂', hexec₂', hedges₂⟩ := hbatch.edges hresident context horder'
      rw [hexec₁] at hexec₁'
      rw [hexec₂] at hexec₂'
      cases hexec₁'
      cases hexec₂'
      rw [hedges₁ m hm, hedges₂ m hm]
      exact hall order order' horder horder' m hm

instance (w : NodeServiceImpl) (m : ModelId) : Decidable (w.Held m) :=
  inferInstanceAs (Decidable (Live _ _))

/-- Node 2 refers to node 1. -/
def referringState (m : ModelId) : NodeState :=
  if m = 0 then { nodeId := .numeric 1 1 }
  else { nodeId := .numeric 2 1, references := [⟨⟨.numeric 3 1, true, .numeric 1 1⟩, none⟩] }

/-- A batch of two node fetches in flight. -/
theorem batch_of_fetches {w : NodeServiceImpl} (hheld : ∀ m ∈ [0, 1], w.Held m)
    (hfetches : ∀ m ∈ [0, 1], ⟨(w.models m).nodeId, some m⟩ ∈ w.nodeFetches)
    (hfirst : (w.models 0).nodeId = .numeric 1 1) (hsecond : (w.models 1).nodeId = .numeric 2 1) :
    Batch w [0, 1] referringState := by
  refine ⟨by decide, hheld, hfetches, ?_⟩
  intro m hm
  rcases List.mem_cons.mp hm with rfl | hm
  · rw [hfirst]
    rfl
  · obtain rfl := List.mem_singleton.mp hm
    rw [hsecond]
    rfl

/-- Node 2 completes last, and node 1 has the inverse reference. -/
theorem inverse_references_pushed :
    ∃ w w', (nodeServiceMachine ⟨8, .numeric 45 0⟩).Reachable w ∧
      w.completeInOrder ⟨8, .numeric 45 0⟩ referringState [0, 1] = some w' ∧
      ⟨.numeric 3 1, false, .numeric 2 1⟩ ∈ w'.edges 0 := by
  obtain ⟨w, hreachable, hp⟩ := Machine.exists_reachable_of_exec
    (M := nodeServiceMachine ⟨8, .numeric 45 0⟩)
    (p := fun w => (∀ m ∈ [0, 1], w.Held m) ∧
      (∀ m ∈ [0, 1], ⟨(w.models m).nodeId, some m⟩ ∈ w.nodeFetches) ∧
      (w.models 0).nodeId = .numeric 1 1 ∧ (w.models 1).nodeId = .numeric 2 1)
    [.channelOpened, .getNode (.numeric 1 1), .getNode (.numeric 2 1)] (by decide)
  obtain ⟨hheld, hfetches, hfirst, hsecond⟩ := of_decide_eq_true hp
  have hbatch := batch_of_fetches hheld hfetches hfirst hsecond
  obtain ⟨w', hexec, hedges⟩ := (inverse_references hreachable hbatch).1 [0, 1] (.refl _)
  refine ⟨w, w', hreachable, hexec, (hedges [] 0 [1] rfl _).mpr (Or.inr ⟨1, by decide, ?_⟩)⟩
  refine ⟨⟨⟨.numeric 3 1, true, .numeric 1 1⟩, none⟩, by decide, hfirst.symm, ?_⟩
  rw [hsecond]
  rfl

/-- **A lost inverse reference.** When node 2 completes first, the state of node 1
replaces the reference that was pushed into it. -/
theorem inverse_reference_lost :
    ∃ w w₁ w₂, (nodeServiceMachine ⟨8, .numeric 45 0⟩).Reachable w ∧
      Batch w [0, 1] referringState ∧
      w.completeInOrder ⟨8, .numeric 45 0⟩ referringState [0, 1] = some w₁ ∧
      w.completeInOrder ⟨8, .numeric 45 0⟩ referringState [1, 0] = some w₂ ∧
      ⟨.numeric 3 1, false, .numeric 2 1⟩ ∈ w₁.edges 0 ∧
      ⟨.numeric 3 1, false, .numeric 2 1⟩ ∉ w₂.edges 0 := by
  obtain ⟨w, hreachable, hp⟩ := Machine.exists_reachable_of_exec
    (M := nodeServiceMachine ⟨8, .numeric 45 0⟩)
    (p := fun w => ((∀ m ∈ [0, 1], w.Held m) ∧
      (∀ m ∈ [0, 1], ⟨(w.models m).nodeId, some m⟩ ∈ w.nodeFetches) ∧
      (w.models 0).nodeId = .numeric 1 1 ∧ (w.models 1).nodeId = .numeric 2 1) ∧
      ((w.completeInOrder ⟨8, .numeric 45 0⟩ referringState [0, 1]).any fun w₁ =>
        ⟨.numeric 3 1, false, .numeric 2 1⟩ ∈ w₁.edges 0) = true ∧
      ((w.completeInOrder ⟨8, .numeric 45 0⟩ referringState [1, 0]).any fun w₂ =>
        ⟨.numeric 3 1, false, .numeric 2 1⟩ ∉ w₂.edges 0) = true)
    [.channelOpened, .getNode (.numeric 1 1), .getNode (.numeric 2 1)] (by decide)
  obtain ⟨⟨hheld, hfetches, hfirst, hsecond⟩, hpushed, hlost⟩ := of_decide_eq_true hp
  obtain ⟨w₁, hexec₁, hin⟩ := (Option.any_eq_true _ _).mp hpushed
  obtain ⟨w₂, hexec₂, hnot⟩ := (Option.any_eq_true _ _).mp hlost
  exact ⟨w, w₁, w₂, hreachable, batch_of_fetches hheld hfetches hfirst hsecond, hexec₁, hexec₂,
    of_decide_eq_true hin, of_decide_eq_true hnot⟩

end NodeServiceImpl

end ScadaCommon.V3
