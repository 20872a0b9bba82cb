import ScadaCommon.NodeService.V3.Completions

/-!
# Tombstones

The deletion of a node tombstones its resident model: its status is
`Bad_WrongNodeId`, everything of it counts as fetched, and it has no children. A
fetch that was in flight then still completes on the model, and three of the four
ways to complete undo a part of this. What a model that is made after the last
holder of the tombstone has gone starts from is fresh in any case.

§1 tombstones · §2 fresh models · §3 every run.
-/

namespace ScadaCommon.V3

open Foundation

/-! ## §1  Tombstones -/

/-- What has been fetched of a model whose node has been deleted. -/
def tombstone : Fetched := ⟨.badWrongNodeId, .max, []⟩

/-- The completions that leave a tombstone as it is. -/
def Completion.KeepsTombstone : Completion → Prop
  | .node (.ok _) => False
  | .node (.error status) => status = .badWrongNodeId
  | .children (.ok references) => references = []
  | .children (.error status) => status = .badWrongNodeId
  | .deleted => True

instance (completion : Completion) : Decidable completion.KeepsTombstone := by
  unfold Completion.KeepsTombstone
  split <;> infer_instance

theorem apply_tombstone_iff (completion : Completion) :
    completion.apply tombstone = tombstone ↔ completion.KeepsTombstone := by
  unfold Completion.KeepsTombstone Completion.apply
  split
  · constructor
    · intro h
      cases congrArg Fetched.status h
    · exact False.elim
  · constructor
    · exact fun h => congrArg Fetched.status h
    · rintro rfl
      rfl
  · constructor
    · exact fun h => congrArg Fetched.childReferences h
    · rintro rfl
      have hmax : NodeFetchStatus.max ∪ .childrenOnly = .max := by decide
      exact congrArg (Fetched.mk .badWrongNodeId · []) hmax
  · constructor
    · exact fun h => congrArg Fetched.status h
    · rintro rfl
      rfl
  · exact iff_of_true rfl trivial

namespace NodeServiceImpl

variable {context : NodeServiceImplContext} {w w₀ w₁ w' : NodeServiceImpl} {m k : ModelId}
  {nodeId : NodeId}

/-- A step that completes nothing for a model but what leaves its tombstone. -/
def KeepsTombstone (w : NodeServiceImpl) (m : ModelId) (a : NodeServiceAction) : Prop :=
  ∀ completion ∈ w.completionOf m a, completion.KeepsTombstone

instance (w : NodeServiceImpl) (m : ModelId) (a : NodeServiceAction) :
    Decidable (w.KeepsTombstone m a) :=
  inferInstanceAs (Decidable (∀ completion ∈ w.completionOf m a, _))

/-- **Steps.** A step leaves a tombstone exactly when what it completes does. -/
theorem Resident.tombstone_iff (h : Resident w) {a : NodeServiceAction} (hen : w.enabled a)
    (hstep : w.step context a = some w') (hm : m < w.nextModel)
    (htombstone : (w.models m).fetched = tombstone) :
    (w'.models m).fetched = tombstone ↔ w.KeepsTombstone m a := by
  rw [(h.evolves hen hstep).seen m hm, htombstone]
  unfold fetchedBy KeepsTombstone
  cases w.completionOf m a with
  | none => exact iff_of_true rfl fun _ hnone => absurd hnone (by simp)
  | some completion =>
      show completion.apply tombstone = tombstone ↔ _
      rw [apply_tombstone_iff]
      constructor
      · rintro h _ ⟨⟩
        exact h
      · exact fun h => h completion rfl

/-- A deletion tombstones the model that it finds. -/
theorem Resident.tombstone_of_deleted (h : Resident w) {verb : ModelChangeVerb}
    (hfind : w.findNodeModel nodeId = some m) (hdeleted : verb.nodeDeleted = true)
    (hstep : w.step context (.modelChanged nodeId verb) = some w') :
    (w'.models m).fetched = tombstone := by
  have hm : m < w.nextModel := (h.live m (findNodeModel_eq_some.mp hfind).2).1
  have hsome : w.completionOf m (.modelChanged nodeId verb) = some .deleted :=
    if_pos ⟨hdeleted, hfind⟩
  rw [(h.evolves (a := .modelChanged nodeId verb) trivial hstep).seen m hm,
    fetchedBy_of_some hsome]
  rfl

/-! ## §2  Fresh models -/

/-- The models of a node are a given one and such as are newer than a number. -/
def NewOr (nodeId : NodeId) (m : ModelId) (next : ℕ) (w : NodeServiceImpl) : Prop :=
  next ≤ w.nextModel ∧ ∀ k, w.registry nodeId = some k → k = m ∨ next ≤ k

theorem NewOr.evolves {next : ℕ} {f : ModelId → Fetched → Fetched}
    (h : NewOr nodeId m next w) (hevolves : Evolves NodeModelImpl.fetched f w w') : NewOr nodeId m next w' := by
  refine ⟨h.1.trans hevolves.next, ?_⟩
  intro k hk
  rcases hevolves.registry nodeId k hk with hold | ⟨hnew, -⟩
  · exact h.2 k hold
  · exact Or.inr (h.1.trans hnew)

/-- No model is registered under the null node. -/
theorem registry_null (h : (nodeServiceMachine context).Reachable w) :
    w.registry .null = none := by
  have hinv : Resident w ∧ w.registry .null = none := by
    refine h.invariant (I := fun w => Resident w ∧ w.registry .null = none)
      ⟨Resident.init, rfl⟩ ?_
    rintro w a w' ⟨hresident, hnull⟩ hen - hstep
    refine ⟨hresident.step hen hstep, ?_⟩
    rw [Option.eq_none_iff_forall_ne_some]
    intro k hk
    rcases (hresident.evolves hen hstep).registry .null k hk with hold | ⟨-, hne⟩
    · rw [hnull] at hold
      cases hold
    · exact hne rfl
  exact hinv.2

/-- **Fresh models.** Without a live model of its node, `GetNode` returns a new
one. -/
theorem getNodeModelForRead_fresh (context : NodeServiceImplContext) (hid : nodeId ≠ .null)
    (hfind : w.findNodeModel nodeId = none) :
    ∃ w', w.getNodeModelForRead context nodeId = (some w.nextModel, w') ∧
      (w'.models w.nextModel).fetched = ⟨.good, .none, []⟩ ∧
      (w'.models w.nextModel).nodeState = {} := by
  obtain ⟨m, u, list, index, entry, heq, -, -, hcases⟩ := getNodeModel_eq context w hid
  rcases hcases with ⟨hsome, -⟩ | ⟨-, rfl, rfl⟩
  · rw [hfind] at hsome
    cases hsome
  · unfold getNodeModelForRead
    rw [heq]
    refine ⟨_, rfl, ?_, ?_⟩
    · refine ((keeps_startFetchOf fetched_ignoresRequests).seen w.nextModel (Nat.lt_succ_self _)).trans ?_
      show ((w.makeModel nodeId).models w.nextModel).fetched = _
      rw [makeModel_models_self]
      rfl
    · obtain ⟨_, _, _, _, _, hstart⟩ := startFetchOf_eq { w.makeModel nodeId with
        keepAliveList := list, keepAliveIndex := index, nextEntry := entry } w.nextModel
        .nodeOnly none
      rw [hstart]
      unfold beginFetch
      dsimp only
      rw [change_models_self]
      show ((w.makeModel nodeId).models w.nextModel).nodeState = _
      rw [makeModel_models_self]

theorem registry_of_modelChanged {verb : ModelChangeVerb}
    (hstep : w.step context (.modelChanged nodeId verb) = some w') : w'.registry = w.registry := by
  obtain ⟨u, hrun, rfl⟩ := Option.map_eq_some_iff.mp hstep
  cases hrun
  show (w.onModelChanged nodeId verb).registry = w.registry
  unfold onModelChanged
  split
  · unfold removeFromKeepAlive
    dsimp only
    split <;> split <;> rfl
  · split
    · rfl
    · split <;> rfl

/-- The live model of a node is the one that `GetNode` returns. -/
theorem getNodeModelForRead_of_find (context : NodeServiceImplContext)
    (hfind : w.findNodeModel nodeId = some k) (hid : nodeId ≠ .null) :
    ∃ w', w.getNodeModelForRead context nodeId = (some k, w') := by
  unfold getNodeModelForRead getNodeModel
  rw [if_neg hid, hfind]
  exact ⟨_, rfl⟩

/-! ## §3  Every run -/

/-- **Tombstones.** From the deletion of a node on, its model stays tombstoned in
every run whose steps leave tombstones, and no other run leaves it so; and in
every run, once the model is gone, `GetNode` returns one made after the deletion,
a fresh one if it has to make it. -/
theorem tombstone_permanent (h : (nodeServiceMachine context).Reachable w₀)
    {verb : ModelChangeVerb} (hfind : w₀.findNodeModel nodeId = some m)
    (hdeleted : verb.nodeDeleted = true)
    (hstep : w₀.step context (.modelChanged nodeId verb) = some w₁) :
    (∀ w, (nodeServiceMachine context).ReachesFrom (fun w a => w.KeepsTombstone m a) w₁ w →
      (w.models m).fetched = tombstone ∧
        ∀ a w', (nodeServiceMachine context).enabled w a → w.step context a = some w' →
          ((w'.models m).fetched = tombstone ↔ w.KeepsTombstone m a)) ∧
    ∀ w, (nodeServiceMachine context).ReachesFrom (fun _ _ => True) w₁ w → ¬ w.Live m →
      ∃ k w', w.getNodeModelForRead context nodeId = (some k, w') ∧ w₁.nextModel ≤ k ∧
        (w.findNodeModel nodeId = none → (w'.models k).fetched = ⟨.good, .none, []⟩ ∧
          (w'.models k).nodeState = {}) := by
  have hresident := resident_of_reachable h
  have hm := (hresident.live m (findNodeModel_eq_some.mp hfind).2).1
  have hresident₁ : Resident w₁ := hresident.step (a := .modelChanged nodeId verb) trivial hstep
  have hevolves := hresident.evolves (a := .modelChanged nodeId verb) trivial hstep
  have hm₁ : m < w₁.nextModel := hm.trans_le hevolves.next
  refine ⟨?_, ?_⟩
  · intro w hrun
    have hinv : Resident w ∧ m < w.nextModel ∧ (w.models m).fetched = tombstone := by
      refine hrun.invariant
        (I := fun w => Resident w ∧ m < w.nextModel ∧ (w.models m).fetched = tombstone)
        ⟨hresident₁, hm₁, hresident.tombstone_of_deleted hfind hdeleted hstep⟩ ?_
      rintro u a u' ⟨hu, hlt, htombstone⟩ hen hok hs
      exact ⟨hu.step hen hs, hlt.trans_le (hu.evolves hen hs).next,
        (hu.tombstone_iff hen hs hlt htombstone).mpr hok⟩
    exact ⟨hinv.2.2, fun a w' hen hs => hinv.1.tombstone_iff hen hs hinv.2.1 hinv.2.2⟩
  · intro w hrun hgone
    have hid : nodeId ≠ .null := by
      rintro rfl
      have hregistered := (findNodeModel_eq_some.mp hfind).1
      rw [registry_null h] at hregistered
      cases hregistered
    have hinv : Resident w ∧ NewOr nodeId m w₁.nextModel w := by
      refine hrun.invariant (I := fun w => Resident w ∧ NewOr nodeId m w₁.nextModel w)
        ⟨hresident₁, le_rfl, fun k hk => Or.inl ?_⟩ ?_
      · rw [registry_of_modelChanged hstep] at hk
        exact Option.some.inj (hk.symm.trans (findNodeModel_eq_some.mp hfind).1)
      · rintro u a u' ⟨hu, hnew⟩ hen - hs
        exact ⟨hu.step hen hs, hnew.evolves (hu.evolves hen hs)⟩
    obtain ⟨hu, hnext, hnew⟩ := hinv
    cases hlive : w.findNodeModel nodeId with
    | none =>
        obtain ⟨w', heq, hfetched, hstate⟩ := getNodeModelForRead_fresh context hid hlive
        exact ⟨_, w', heq, hnext, fun _ => ⟨hfetched, hstate⟩⟩
    | some k =>
        -- The live model of the node is another one, made after the deletion.
        obtain ⟨hregistered, hk⟩ := findNodeModel_eq_some.mp hlive
        obtain ⟨w', heq⟩ := getNodeModelForRead_of_find context hlive hid
        refine ⟨k, w', heq, ?_, fun hnone => by cases hnone⟩
        rcases hnew k hregistered with rfl | hnew
        · exact absurd hk hgone
        · exact hnew

/-- The fetch in flight at the deletion fails because the node is gone. The tombstone
stays, its last holder releases it, and `GetNode` makes a fresh model. -/
theorem tombstone_permanent_deleted :
    ∃ w₀ w₁ w, (nodeServiceMachine ⟨0, .numeric 45 0⟩).Reachable w₀ ∧
      w₀.step ⟨0, .numeric 45 0⟩ (.modelChanged (.numeric 1 1) ⟨false, true⟩) = some w₁ ∧
      (nodeServiceMachine ⟨0, .numeric 45 0⟩).ReachesFrom
        (fun w a => w.KeepsTombstone 0 a) w₁ w ∧
      w₁.Live 0 ∧ (w.models 0).fetched = tombstone ∧ ¬ w.Live 0 ∧
      ∃ k w', w.getNodeModelForRead ⟨0, .numeric 45 0⟩ (.numeric 1 1) = (some k, w') ∧
        w₁.nextModel ≤ k ∧ (w'.models k).fetched = ⟨.good, .none, []⟩ := by
  obtain ⟨w₀, hreachable, hp⟩ := Machine.exists_reachable_of_exec
    (M := nodeServiceMachine ⟨0, .numeric 45 0⟩)
    (p := fun w => w.findNodeModel (.numeric 1 1) = some 0 ∧
      ((w.step ⟨0, .numeric 45 0⟩ (.modelChanged (.numeric 1 1) ⟨false, true⟩)).any fun w₁ =>
        w₁.Live 0 ∧ ((nodeServiceMachine ⟨0, .numeric 45 0⟩).exec
          (fun w a => w.KeepsTombstone 0 a) w₁
          [.nodeFetched ⟨.numeric 1 1, some 0⟩ (.error .badWrongNodeId)]).any fun w =>
            ¬ w.Live 0 ∧ w.findNodeModel (.numeric 1 1) = none) = true)
    [.channelOpened, .getNode (.numeric 1 1)] (by decide)
  obtain ⟨hfind, hrest⟩ := of_decide_eq_true hp
  obtain ⟨w₁, hstep, hrest⟩ := (Option.any_eq_true _ _).mp hrest
  obtain ⟨hlive, hrest⟩ := of_decide_eq_true hrest
  obtain ⟨w, hexec, hrest⟩ := (Option.any_eq_true _ _).mp hrest
  obtain ⟨hgone, hnone⟩ := of_decide_eq_true hrest
  have hrun := Machine.ReachesFrom.refl.exec hexec
  obtain ⟨hstays, hfresh⟩ := tombstone_permanent hreachable hfind rfl hstep
  obtain ⟨k, w', hget, hnew, hmade⟩ := hfresh w (hrun.mono fun _ _ _ => trivial) hgone
  exact ⟨w₀, w₁, w, hreachable, hstep, hrun, hlive, (hstays w hrun).1, hgone, k, w', hget, hnew,
    (hmade hnone).1⟩

/-- **A tombstone that turns Good.** The node fetch that was in flight at the
deletion is applied to the tombstoned model. -/
theorem fetched_state_revives_tombstone :
    ∃ w, (nodeServiceMachine ⟨0, .numeric 45 0⟩).Reachable w ∧
      w.findNodeModel (.numeric 1 1) = some 0 ∧ ∃ w₁,
        w.step ⟨0, .numeric 45 0⟩ (.modelChanged (.numeric 1 1) ⟨false, true⟩) = some w₁ ∧
        ∃ w', (nodeServiceMachine ⟨0, .numeric 45 0⟩).ReachesFrom (fun _ _ => True) w₁ w' ∧
          w'.Live 0 ∧ (w'.models 0).status = .good := by
  obtain ⟨w, hreachable, hp⟩ := Machine.exists_reachable_of_exec
    (M := nodeServiceMachine ⟨0, .numeric 45 0⟩)
    (p := fun w => w.findNodeModel (.numeric 1 1) = some 0 ∧
      ((w.step ⟨0, .numeric 45 0⟩ (.modelChanged (.numeric 1 1) ⟨false, true⟩)).any fun w₁ =>
        ((nodeServiceMachine ⟨0, .numeric 45 0⟩).exec (fun _ _ => True) w₁
          [.nodeFetched ⟨.numeric 1 1, some 0⟩ (.ok { nodeId := .numeric 1 1 }),
            .processFetchedNode ⟨0, [], false⟩]).any fun w' =>
          w'.Live 0 ∧ (w'.models 0).status = .good) = true)
    [.channelOpened, .getNode (.numeric 1 1)] (by decide)
  obtain ⟨hfind, hrest⟩ := of_decide_eq_true hp
  obtain ⟨w₁, hstep, hrest⟩ := (Option.any_eq_true _ _).mp hrest
  obtain ⟨w', hexec, hrest⟩ := (Option.any_eq_true _ _).mp hrest
  obtain ⟨hlive, hgood⟩ := of_decide_eq_true hrest
  exact ⟨w, hreachable, hfind, w₁, hstep, w', Machine.ReachesFrom.refl.exec hexec, hlive, hgood⟩

end NodeServiceImpl

end ScadaCommon.V3
