import ScadaCommon.NodeService.V3.Evolution
import ScadaCommon.NodeService.V3.ServiceNodeFetcher

/-!
# Single edges

Consumers see the references of a model and those of its children as one list,
in which no edge should occur twice. What a neighbour pushes is checked, and the
children take over the edges they share with the references; what a fetcher
delivers is not checked against the children, nor are the children among
themselves.

§1 models · §2 fetched states · §3 the invariant · §4 every run.
-/

namespace ScadaCommon.V3

open Foundation

/-! ## §1  Models -/

/-- No edge occurs twice. -/
def DistinctEdges (references : List ReferenceDescription) : Prop :=
  (references.map (·.toEdge)).Nodup

instance (references : List ReferenceDescription) : Decidable (DistinctEdges references) :=
  inferInstanceAs (Decidable (List.Nodup _))

theorem isSameReference_iff {a b : ReferenceDescription} :
    IsSameReference a b ↔ a.toEdge = b.toEdge := by
  obtain ⟨⟨aType, aForward, aNode⟩, aFields⟩ := a
  obtain ⟨⟨bType, bForward, bNode⟩, bFields⟩ := b
  show aType = bType ∧ aForward = bForward ∧ aNode = bNode ↔ Edge.mk _ _ _ = Edge.mk _ _ _
  rw [Edge.mk.injEq]

theorem any_isSameReference {reference : ReferenceDescription}
    {references : List ReferenceDescription} :
    references.any (IsSameReference reference ·) = true ↔
      reference.toEdge ∈ references.map (·.toEdge) := by
  rw [List.any_eq_true, List.mem_map]
  constructor
  · rintro ⟨other, hmem, hsame⟩
    exact ⟨other, hmem, (isSameReference_iff.mp (of_decide_eq_true hsame)).symm⟩
  · rintro ⟨other, hmem, heq⟩
    exact ⟨other, hmem, decide_eq_true (isSameReference_iff.mpr heq.symm)⟩

theorem distinctEdges_append {references others : List ReferenceDescription} :
    DistinctEdges (references ++ others) ↔ DistinctEdges references ∧ DistinctEdges others ∧
      ∀ edge ∈ references.map (·.toEdge), edge ∉ others.map (·.toEdge) := by
  unfold DistinctEdges
  rw [List.map_append, List.nodup_append']
  rfl

namespace NodeModelImpl

/-- The references that consumers see. -/
def references (model : NodeModelImpl) : List ReferenceDescription :=
  model.nodeState.references ++ model.childReferences

/-- The two lists. -/
def referenceLists (model : NodeModelImpl) :
    List ReferenceDescription × List ReferenceDescription :=
  (model.nodeState.references, model.childReferences)

def SingleEdges (model : NodeModelImpl) : Prop := DistinctEdges model.references

variable {model : NodeModelImpl}

theorem singleEdges_iff : model.SingleEdges ↔
    DistinctEdges (model.referenceLists.1 ++ model.referenceLists.2) := Iff.rfl

theorem hasReference_iff {reference : ReferenceDescription} :
    model.hasReference reference = true ↔
      reference.toEdge ∈ model.references.map (·.toEdge) := by
  unfold hasReference references
  rw [Bool.or_eq_true, any_isSameReference, any_isSameReference, List.map_append, List.mem_append]

/-- **Mirrors** are pushed where they are new. -/
theorem SingleEdges.pushReference (h : model.SingleEdges) (mirror : ReferenceDescription) :
    (model.pushReference mirror).SingleEdges := by
  unfold NodeModelImpl.pushReference
  split
  · exact h
  · rename_i hnew
    rw [hasReference_iff] at hnew
    obtain ⟨hstate, hchildren, hapart⟩ := distinctEdges_append.mp h
    unfold NodeModelImpl.references at hnew
    rw [List.map_append, List.mem_append, not_or] at hnew
    have hlast : DistinctEdges (model.nodeState.references ++ [mirror]) := by
      refine distinctEdges_append.mpr ⟨hstate, List.nodup_singleton _, ?_⟩
      intro edge hedge hmirror
      obtain rfl := List.mem_singleton.mp hmirror
      exact hnew.1 hedge
    refine distinctEdges_append.mpr ⟨hlast, hchildren, ?_⟩
    intro edge hedge
    rw [List.map_append, List.mem_append] at hedge
    rcases hedge with hold | hmirror
    · exact hapart edge hold
    · obtain rfl := List.mem_singleton.mp hmirror
      exact hnew.2

/-- **Children** take their edges over from the references. -/
theorem SingleEdges.applyChildren_iff (h : model.SingleEdges)
    (references : List ReferenceDescription) :
    (model.applyChildren references).1.SingleEdges ↔ DistinctEdges references := by
  obtain ⟨hstate, -, -⟩ := distinctEdges_append.mp h
  show DistinctEdges (model.nodeState.references.filter (fun reference =>
    !references.any (IsSameReference reference ·)) ++ references) ↔ _
  rw [distinctEdges_append]
  refine ⟨fun hall => hall.2.1, fun hchildren => ⟨?_, hchildren, ?_⟩⟩
  · exact hstate.sublist (List.filter_sublist.map _)
  · intro edge hedge hchild
    obtain ⟨reference, hmem, rfl⟩ := List.mem_map.mp hedge
    have hnot := (List.mem_filter.mp hmem).2
    rw [Bool.not_eq_true', ← Bool.not_eq_true, any_isSameReference] at hnot
    exact hnot hchild

theorem applyState_referenceLists {result : NodeModelImpl × List FetchId}
    (h : model.applyState = some result) : result.1.referenceLists = model.referenceLists := by
  unfold applyState at h
  obtain ⟨-, hresult⟩ := check_bind_eq_some.mp h
  cases hresult
  rfl

end NodeModelImpl

/-! ## §2  Fetched states -/

/-- A new edge at the end keeps edges distinct. -/
theorem distinctEdges_concat (references : List ReferenceDescription)
    (reference : ReferenceDescription)
    (hnew : reference.toEdge ∉ references.map (·.toEdge)) :
    DistinctEdges (references ++ [reference]) ↔ DistinctEdges references := by
  rw [distinctEdges_append]
  refine ⟨fun h => h.1, fun h => ⟨h, List.nodup_singleton _, ?_⟩⟩
  intro edge hedge hlast
  obtain rfl := List.mem_singleton.mp hlast
  exact hnew hedge

/-- **Fetched states**: parent and supertype add no edge twice. -/
theorem ServiceNodeFetcher.WellFetched.distinctEdges_iff {fetcher : ServiceNodeFetcher}
    {nodeId : NodeId} {nodeState : NodeState} (h : fetcher.WellFetched nodeId nodeState) :
    DistinctEdges (nodeState.withInverseReferences fetcher.hasSubtype).references ↔
      DistinctEdges nodeState.references := by
  have hinverse : ∀ edge : Edge, edge.forward = false →
      edge ∉ nodeState.references.map (·.toEdge) := by
    intro edge hedge hmem
    obtain ⟨reference, hreference, rfl⟩ := List.mem_map.mp hmem
    rw [h.forward reference hreference] at hedge
    cases hedge
  unfold NodeState.withInverseReferences
  dsimp only
  by_cases hparent : nodeState.parentId ≠ .null
  · rw [if_pos hparent]
    have hwith := distinctEdges_concat nodeState.references {
      referenceTypeId := nodeState.referenceTypeId
      forward := false
      nodeId := nodeState.parentId } (hinverse _ rfl)
    split
    · rw [distinctEdges_concat _ _ ?_, hwith]
      rw [List.map_append, List.mem_append, not_or]
      refine ⟨hinverse _ rfl, ?_⟩
      intro hmem
      have heq := List.mem_singleton.mp hmem
      exact h.parent hparent (congrArg Edge.referenceTypeId heq).symm
    · exact hwith
  · rw [if_neg hparent]
    split
    · exact distinctEdges_concat _ _ (hinverse _ rfl)
    · exact Iff.rfl

/-- So only the server's own references can repeat an edge of a fetched state. -/
theorem ServiceNodeFetcher.distinctEdges_fetchNode {fetcher : ServiceNodeFetcher} {nodeId : NodeId}
    {browseResult : Except Status (List BrowseResult)} {nodeState : NodeState}
    (h : fetcher.fetchNode nodeId browseResult = .ok nodeState) :
    DistinctEdges (nodeState.withInverseReferences fetcher.hasSubtype).references ↔
      DistinctEdges nodeState.references :=
  (wellFetched_fetchNode h).distinctEdges_iff

/-! ## §3  The invariant -/

namespace NodeServiceImpl

variable {context : NodeServiceImplContext} {w w' : NodeServiceImpl} {m k : ModelId}
  {nodeId : NodeId}

/-- The edges of every model that has been made are single. -/
def Single (w : NodeServiceImpl) : Prop :=
  ∀ m < w.nextModel, (w.models m).SingleEdges

/-- What a fetcher delivers brings no edge that is there already. -/
def KeepsSingleEdges (context : NodeServiceImplContext) (w : NodeServiceImpl) :
    NodeServiceAction → Prop
  | .nodeFetched coroutine (.ok state) =>
      ∀ m ∈ coroutine.pin, DistinctEdges
        ((state.withInverseReferences context.hasSubtype).references ++
          (w.models m).childReferences)
  | .finishChildren tail => w.Current tail → DistinctEdges tail.references
  | _ => True

instance (context : NodeServiceImplContext) (w : NodeServiceImpl) (a : NodeServiceAction) :
    Decidable (w.KeepsSingleEdges context a) := by
  apply NodeServiceAction.casesOn (motive := fun a => Decidable (w.KeepsSingleEdges context a)) a
  case nodeFetched =>
    intro coroutine result
    apply Except.casesOn
      (motive := fun result => Decidable (w.KeepsSingleEdges context (.nodeFetched coroutine result)))
      result <;>
      intros <;> unfold KeepsSingleEdges <;> infer_instance
  all_goals
    intros
    unfold KeepsSingleEdges
    infer_instance

theorem referenceLists_ignoresRequests : IgnoresRequests NodeModelImpl.referenceLists :=
  fun _ _ _ => rfl

namespace Single

theorem keeps (h : Single w) (hkeeps : Keeps NodeModelImpl.referenceLists w w') : Single w' := by
  intro m hm
  rw [NodeModelImpl.singleEdges_iff]
  by_cases hlt : m < w.nextModel
  · rw [hkeeps.seen m hlt]
    exact h m hlt
  · obtain ⟨nodeId, hfresh⟩ := hkeeps.fresh m (not_lt.mp hlt) hm
    rw [hfresh]
    exact List.nodup_nil

theorem change (h : Single w) {result : NodeModelImpl × List FetchId}
    (hm : result.1.SingleEdges) : Single (w.change m result) := by
  intro k hk
  by_cases heq : k = m
  · subst heq
    rw [change_models_self]
    exact hm
  · rw [change_models_of_ne heq]
    exact h k hk

end Single

theorem keeps_processFetchError_references {status : Status} :
    Keeps NodeModelImpl.referenceLists w (w.processFetchError nodeId status) := by
  unfold processFetchError
  split
  · exact Evolves.changeKeep rfl
  · exact Evolves.refl w

theorem Single.pushMirror (h : Single w) (hresident : Resident w)
    {reference : ReferenceDescription} : Single (w.pushMirror m reference) := by
  unfold NodeServiceImpl.pushMirror
  dsimp only
  split
  · exact h
  · split
    · rename_i target hfind
      have hlt := (hresident.live target (findNodeModel_eq_some.mp hfind).2).1
      exact h.change ((h target hlt).pushReference _)
    · exact h

theorem Single.nodeFetched_iff (h : Single w) (hresident : Resident w)
    {coroutine : FetchCoroutine} (hmem : coroutine ∈ w.nodeFetches)
    {result : Except Status NodeState}
    (hresult : ∀ state ∈ result.toOption, state.nodeId = coroutine.nodeId) :
    Single (w.nodeFetched context coroutine result) ↔
      w.KeepsSingleEdges context (.nodeFetched coroutine result) := by
  obtain ⟨m, hpin, hid⟩ := hresident.nodeFetch coroutine hmem
  have hlt := (hresident.live m (live_of_nodeFetch hmem hpin)).1
  have hfind : NodeServiceImpl.findNodeModel { w with
      nodeFetchInFlight := w.nodeFetchInFlight.erase coroutine.nodeId
      frames := coroutine.pin.toList
      nodeFetches := w.nodeFetches.erase coroutine } coroutine.nodeId = some m :=
    (hresident.nodeFetchDone hmem).find_of_nodeId (live_of_frame (Option.mem_toList.mpr hpin)) hid
  unfold NodeServiceImpl.nodeFetched KeepsSingleEdges
  rw [hpin] at hfind ⊢
  cases result with
  | error status =>
      refine iff_of_true (h.keeps ?_) trivial
      exact keeps_processFetchError_references.after rfl rfl rfl
  | ok state =>
      -- Only the model that the coroutine pins is changed.
      have hstate : state.nodeId = coroutine.nodeId := hresult state rfl
      dsimp only
      unfold NodeServiceImpl.beginFetchedNode
      rw [hstate, hfind]
      constructor
      · intro hsingle k hk
        have hk' : coroutine.pin = some k := hk
        rw [hpin] at hk'
        cases hk'
        have hm := hsingle m hlt
        dsimp only at hm
        rw [change_models_self] at hm
        exact hm
      · intro hdistinct
        refine Single.change h ?_
        exact hdistinct m hpin

theorem Single.processFetchedNode (h : Single w) (hresident : Resident w) {node : FetchedNode}
    (hmem : node ∈ w.fetchedNodes) (hstep : w.processFetchedNode node = some w') : Single w' := by
  have hlt := (hresident.live node.model (live_of_fetchedNode hmem)).1
  unfold NodeServiceImpl.processFetchedNode at hstep
  dsimp only at hstep
  split at hstep
  · cases hstep
    exact h.pushMirror hresident
  · obtain ⟨result, happly, hresult⟩ := Option.bind_eq_some_iff.mp hstep
    cases hresult
    refine Single.change h ?_
    rw [NodeModelImpl.singleEdges_iff, NodeModelImpl.applyState_referenceLists happly]
    exact h node.model hlt
  · cases hstep
    exact Single.change h (h node.model hlt)

theorem Single.finishChildren_iff (h : Single w) (hresident : Resident w) {tail : ChildrenTail}
    (hmem : tail ∈ w.childrenTails) :
    Single (w.finishChildren tail) ↔ w.KeepsSingleEdges context (.finishChildren tail) := by
  have hlt := (hresident.tail tail hmem).1
  unfold NodeServiceImpl.finishChildren KeepsSingleEdges
  split
  · rename_i hcurrent
    have happly := (h tail.model hlt).applyChildren_iff tail.references
    constructor
    · intro hsingle _
      have hm := hsingle tail.model hlt
      dsimp only at hm
      rw [change_models_self] at hm
      exact happly.mp hm
    · intro hdistinct
      exact Single.change h (happly.mpr (hdistinct hcurrent))
  · rename_i hcurrent
    exact iff_of_true h fun hnot => absurd hnot hcurrent

theorem Single.onModelChanged (h : Single w) (hresident : Resident w) {verb : ModelChangeVerb} :
    Single (w.onModelChanged nodeId verb) := by
  obtain ⟨told, hcases, heq⟩ := exists_onModelChanged w nodeId verb
  have hfound : Single told := by
    rcases hcases with rfl | ⟨m, hfind, rfl⟩
    · exact h
    · have hm := h m (hresident.live m (findNodeModel_eq_some.mp hfind).2).1
      refine h.change ?_
      unfold NodeModelImpl.onModelChanged
      split
      · -- Without children the references are left.
        exact distinctEdges_append.mpr
          ⟨(distinctEdges_append.mp hm).1, List.nodup_nil, fun _ _ => List.not_mem_nil⟩
      · exact hm
  rw [heq]
  split
  · exact hfound.keeps keeps_removeFromKeepAlive
  · split
    · exact h
    · exact hfound

theorem Single.childrenFetched (h : Single w) (hresident : Resident w)
    {coroutine : FetchCoroutine} (hmem : coroutine ∈ w.childrenFetches)
    {result : Except Status (List ReferenceDescription)} :
    Single (w.childrenFetched coroutine result) := by
  unfold NodeServiceImpl.childrenFetched
  dsimp only
  split
  · exact h
  · split
    · exact Single.change h (h _ (hresident.childrenFetchDone hmem |>.live _
        (findNodeModel_eq_some.mp (by assumption)).2).1)
    · exact h
  · exact h.keeps (keeps_processFetchError_references.after rfl rfl rfl)

/-! ## §4  Every run -/

/-- **Steps.** Edges stay single exactly in the steps whose deliveries bring no
edge twice. -/
theorem Single.step_iff (h : Single w) (hresident : Resident w) {a : NodeServiceAction}
    (hen : w.enabled a) (hstep : w.step context a = some w') :
    Single w' ↔ w.KeepsSingleEdges context a := by
  obtain ⟨u, hrun, rfl⟩ := Option.map_eq_some_iff.mp hstep
  change Single u ↔ _
  have hignores := referenceLists_ignoresRequests
  -- Two actions bring whole lists; a mirror is pushed only where it is new.
  cases a with
  | getNode nodeId =>
      cases hrun
      exact iff_of_true (h.keeps (keeps_getNode hignores)) trivial
  | startFetch nodeId status =>
      cases hrun
      exact iff_of_true (h.keeps (keeps_startFetch hignores)) trivial
  | fetch nodeId status =>
      cases hrun
      exact iff_of_true (h.keeps (keeps_fetch hignores)) trivial
  | resume callback =>
      cases hrun
      exact iff_of_true h trivial
  | nodeFetched coroutine result =>
      cases hrun
      exact h.nodeFetched_iff hresident hen.1 hen.2
  | childrenFetched coroutine result =>
      cases hrun
      exact iff_of_true (h.childrenFetched hresident hen) trivial
  | processFetchedNode node =>
      exact iff_of_true (h.processFetchedNode hresident hen hrun) trivial
  | fetchNextChild tail =>
      cases hrun
      exact iff_of_true (h.keeps (keeps_fetchNextChild hignores)) trivial
  | finishChildren tail =>
      cases hrun
      exact h.finishChildren_iff hresident hen.1
  | settleChildren tail =>
      cases hrun
      exact iff_of_true h trivial
  | modelChanged nodeId verb =>
      cases hrun
      exact iff_of_true (h.onModelChanged hresident) trivial
  | channelOpened =>
      obtain ⟨-, hopened⟩ := check_bind_eq_some.mp hrun
      cases hopened
      refine iff_of_true (h.keeps ?_) trivial
      exact Evolves.after (keeps_spawnPending w.pendingFetchNodes) rfl rfl rfl
  | channelClosed =>
      obtain ⟨-, hclosed⟩ := check_bind_eq_some.mp hrun
      obtain ⟨-, hclosed⟩ := check_bind_eq_some.mp hclosed
      cases hclosed
      exact iff_of_true h trivial

/-- **Single edges.** In every run whose deliveries bring no edge twice, no edge
of any resident model occurs twice; a step that brings one ends this. -/
theorem single_edges
    (h : (nodeServiceMachine context).Reaches (fun w a => w.KeepsSingleEdges context a) w) :
    (∀ m, w.Live m → (w.models m).SingleEdges) ∧
      ∀ a w', (nodeServiceMachine context).enabled w a → w.step context a = some w' →
        ((∀ m < w'.nextModel, (w'.models m).SingleEdges) ↔ w.KeepsSingleEdges context a) := by
  have hinv : Resident w ∧ Single w := by
    refine h.invariant (I := fun w => Resident w ∧ Single w)
      ⟨Resident.init, fun m hm => absurd hm (Nat.not_lt_zero m)⟩ ?_
    rintro u a u' ⟨hresident, hsingle⟩ hen hok hstep
    exact ⟨hresident.step hen hstep, (hsingle.step_iff hresident hen hstep).mpr hok⟩
  obtain ⟨hresident, hsingle⟩ := hinv
  refine ⟨fun m hm => hsingle m (hresident.live m hm).1, ?_⟩
  exact fun a w' hen hstep => hsingle.step_iff hresident hen hstep

instance (model : NodeModelImpl) : Decidable model.SingleEdges :=
  inferInstanceAs (Decidable (DistinctEdges _))

/-- The tail of a browse of node 1 whose child is node 2. -/
def childTail (remaining : List NodeId) : ChildrenTail :=
  ⟨0, 0, .numeric 1 1, [⟨⟨.numeric 3 1, true, .numeric 2 1⟩, none⟩], remaining, none, none⟩

/-- A node is fetched with its parent and its child, the child pushes a reference of
its own, and the children take the edge to it over. -/
theorem single_edges_fetched :
    ∃ w, (nodeServiceMachine ⟨8, .numeric 45 0⟩).Reaches
        (fun w a => w.KeepsSingleEdges ⟨8, .numeric 45 0⟩ a) w ∧
      (w.models 0).nodeState.references =
        [⟨⟨.numeric 3 1, false, .numeric 9 1⟩, none⟩, ⟨⟨.numeric 5 1, false, .numeric 2 1⟩, none⟩] ∧
      (w.models 0).childReferences = [⟨⟨.numeric 3 1, true, .numeric 2 1⟩, none⟩] ∧
      (w.models 0).SingleEdges := by
  obtain ⟨w, hreaches, hp⟩ := Machine.exists_reaches_of_exec
    (M := nodeServiceMachine ⟨8, .numeric 45 0⟩)
    (fun w a => w.KeepsSingleEdges ⟨8, .numeric 45 0⟩ a)
    (p := fun w => w.Live 0 ∧ (w.models 0).nodeState.references =
        [⟨⟨.numeric 3 1, false, .numeric 9 1⟩, none⟩, ⟨⟨.numeric 5 1, false, .numeric 2 1⟩, none⟩] ∧
      (w.models 0).childReferences = [⟨⟨.numeric 3 1, true, .numeric 2 1⟩, none⟩])
    [.channelOpened, .getNode (.numeric 1 1), .startFetch (.numeric 1 1) .childrenOnly,
      .nodeFetched ⟨.numeric 1 1, some 0⟩ (.ok {
        nodeId := .numeric 1 1
        parentId := .numeric 9 1
        referenceTypeId := .numeric 3 1
        references := [⟨⟨.numeric 3 1, true, .numeric 2 1⟩, none⟩] }),
      .processFetchedNode ⟨0, [⟨⟨.numeric 3 1, true, .numeric 2 1⟩, none⟩,
        ⟨⟨.numeric 3 1, false, .numeric 9 1⟩, none⟩], false⟩,
      .processFetchedNode ⟨0, [⟨⟨.numeric 3 1, false, .numeric 9 1⟩, none⟩], false⟩,
      .processFetchedNode ⟨0, [], false⟩, .processFetchedNode ⟨0, [], true⟩,
      .childrenFetched ⟨.numeric 1 1, some 0⟩ (ServiceNodeFetcher.fetchChildren (.ok [{
        references := [⟨⟨.numeric 3 1, true, .numeric 2 1⟩, none⟩] }])),
      .fetchNextChild (childTail [.numeric 2 1, .numeric 3 1]),
      .nodeFetched ⟨.numeric 2 1, some 1⟩ (.ok {
        nodeId := .numeric 2 1
        references := [⟨⟨.numeric 5 1, true, .numeric 1 1⟩, none⟩] }),
      .processFetchedNode ⟨1, [⟨⟨.numeric 5 1, true, .numeric 1 1⟩, none⟩], false⟩,
      .processFetchedNode ⟨1, [], false⟩, .processFetchedNode ⟨1, [], true⟩, .resume 0,
      .fetchNextChild (childTail [.numeric 3 1]),
      .nodeFetched ⟨.numeric 3 1, some 2⟩ (.error (.bad 1)), .resume 1,
      .finishChildren (childTail [])]
    (by decide +kernel)
  obtain ⟨hlive, hreferences, hchildren⟩ := of_decide_eq_true hp
  exact ⟨w, hreaches, hreferences, hchildren, (single_edges hreaches).1 0 hlive⟩

/-- The tail of a browse of node 1 that reports node 2 twice. -/
def repeatingTail (remaining : List NodeId) : ChildrenTail :=
  ⟨0, 0, .numeric 1 1, [⟨⟨.numeric 3 1, true, .numeric 2 1⟩, none⟩,
    ⟨⟨.numeric 3 1, true, .numeric 2 1⟩, none⟩], remaining, none, none⟩

/-- **A child listed twice.** A server repeats a reference in its answer to the
browse of the children, and the model has the child twice. -/
theorem repeated_child_listed_twice :
    ∃ w, (nodeServiceMachine ⟨8, .numeric 45 0⟩).Reachable w ∧ w.Live 0 ∧
      ¬ (w.models 0).SingleEdges := by
  obtain ⟨w, hreachable, hp⟩ := Machine.exists_reachable_of_exec
    (M := nodeServiceMachine ⟨8, .numeric 45 0⟩)
    (p := fun w => w.Live 0 ∧ ¬ (w.models 0).SingleEdges)
    [.channelOpened, .startFetch (.numeric 1 1) .childrenOnly,
      .childrenFetched ⟨.numeric 1 1, some 0⟩ (ServiceNodeFetcher.fetchChildren (.ok [{
        references := [⟨⟨.numeric 3 1, true, .numeric 2 1⟩, none⟩,
          ⟨⟨.numeric 3 1, true, .numeric 2 1⟩, none⟩] }])),
      .fetchNextChild (repeatingTail [.numeric 2 1, .numeric 3 1, .numeric 2 1, .numeric 3 1]),
      .nodeFetched ⟨.numeric 2 1, some 1⟩ (.error (.bad 1)), .resume 0,
      .fetchNextChild (repeatingTail [.numeric 3 1, .numeric 2 1, .numeric 3 1]),
      .nodeFetched ⟨.numeric 3 1, some 2⟩ (.error (.bad 1)), .resume 1,
      .fetchNextChild (repeatingTail [.numeric 2 1, .numeric 3 1]), .resume 2,
      .fetchNextChild (repeatingTail [.numeric 3 1]), .resume 3,
      .finishChildren (repeatingTail [])] (by decide)
  obtain ⟨hlive, hsingle⟩ := of_decide_eq_true hp
  exact ⟨w, hreachable, hlive, hsingle⟩

end NodeServiceImpl

end ScadaCommon.V3
