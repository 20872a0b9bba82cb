import ScadaCommon.NodeService.V3.Completions

/-!
# The order of a node and a children completion

A node fetch and a children fetch of one model may complete in either order. A
success of the children keeps the status it finds; every other outcome overwrites
it, so that the last one wins.

§1 outcomes · §2 both orders.
-/

namespace ScadaCommon.V3

open Foundation

/-! ## §1  Outcomes -/

/-- The status that an outcome reports. -/
def outcomeStatus {α : Type*} : Except Status α → Status
  | .ok _ => .good
  | .error status => status

/-- What a node completion makes of the two statuses. -/
theorem Completion.apply_node (result : Except Status Unit) (fetched : Fetched) :
    ((Completion.node result).apply fetched).status = outcomeStatus result := by
  cases result with
  | ok _ => rfl
  | error status => rfl

theorem Completion.apply_children_error (status : Status) (fetched : Fetched) :
    (Completion.children (.error status)).apply fetched =
      { fetched with status, fetchStatus := .max } := rfl

theorem max_union (status : NodeFetchStatus) : NodeFetchStatus.max ∪ status = .max :=
  Finset.union_eq_left.mpr fun d _ => NodeFetchStatus.mem_max d

/-- Both orders end with the same fetch status. -/
theorem fetchStatus_comm (node : Except Status Unit)
    (children : Except Status (List ReferenceDescription)) (fetched : Fetched) :
    ((Completion.children children).apply ((Completion.node node).apply fetched)).fetchStatus =
      ((Completion.node node).apply ((Completion.children children).apply fetched)).fetchStatus := by
  cases node with
  | ok _ =>
      cases children with
      | ok references => exact Finset.union_right_comm _ _ _
      | error status => exact (max_union _).symm
  | error status =>
      cases children with
      | ok references => exact max_union _
      | error status' => rfl

/-- They end with the same status when the children succeed or both outcomes
report one status. -/
theorem status_comm_iff (node : Except Status Unit)
    (children : Except Status (List ReferenceDescription)) (fetched : Fetched) :
    ((Completion.children children).apply ((Completion.node node).apply fetched)).status =
        ((Completion.node node).apply ((Completion.children children).apply fetched)).status ↔
      (∃ references, children = .ok references) ∨ outcomeStatus node = outcomeStatus children := by
  rw [Completion.apply_node]
  cases children with
  | ok references =>
      refine iff_of_true ?_ (Or.inl ⟨references, rfl⟩)
      exact Completion.apply_node node fetched
  | error status =>
      rw [Completion.apply_children_error]
      constructor
      · exact fun h => Or.inr h.symm
      · rintro (⟨references, ⟨⟩⟩ | h)
        exact h.symm

/-! ## §2  Both orders -/

namespace NodeServiceImpl

variable {context : NodeServiceImplContext} {w w₁ w₂ : NodeServiceImpl} {m : ModelId}
  {node : Except Status Unit} {children : Except Status (List ReferenceDescription)}

/-- **Both orders.** Two runs in which one node fetch and one children fetch of a
live model complete, in either order and with the same outcomes, agree on its
status and its fetch status exactly when the children succeed or both outcomes
report the same status. -/
theorem completion_order_iff (h : (nodeServiceMachine context).Reachable w) (hm : w.Live m)
    (h₁ : Completes context m w [.node node, .children children] w₁)
    (h₂ : Completes context m w [.children children, .node node] w₂) :
    ((w₁.models m).status, (w₁.models m).fetchStatus) =
        ((w₂.models m).status, (w₂.models m).fetchStatus) ↔
      (∃ references, children = .ok references) ∨ outcomeStatus node = outcomeStatus children := by
  have hresident := resident_of_reachable h
  have hlt := (hresident.live m hm).1
  have hfetched₁ := h₁.fetched hresident hlt
  have hfetched₂ := h₂.fetched hresident hlt
  have hstatus₁ := congrArg Fetched.status hfetched₁
  have hstatus₂ := congrArg Fetched.status hfetched₂
  have hmask₁ := congrArg Fetched.fetchStatus hfetched₁
  have hmask₂ := congrArg Fetched.fetchStatus hfetched₂
  change (w₁.models m).status = _ at hstatus₁
  change (w₂.models m).status = _ at hstatus₂
  change (w₁.models m).fetchStatus = _ at hmask₁
  change (w₂.models m).fetchStatus = _ at hmask₂
  rw [Prod.mk.injEq, hstatus₁, hstatus₂, hmask₁, hmask₂, ← status_comm_iff node children]
  exact and_iff_left (fetchStatus_comm node children _)

/-- A fetch of node 1 with the two ways its fetches may complete. -/
theorem completion_order_iff_empty :
    ∃ w w₁ w₂, (nodeServiceMachine ⟨1, .numeric 45 0⟩).Reachable w ∧ w.Live 0 ∧
      Completes ⟨1, .numeric 45 0⟩ 0 w [.node (.ok ()), .children (.ok [])] w₁ ∧
      Completes ⟨1, .numeric 45 0⟩ 0 w [.children (.ok []), .node (.ok ())] w₂ ∧
      ((w₁.models 0).status, (w₁.models 0).fetchStatus) =
        ((w₂.models 0).status, (w₂.models 0).fetchStatus) := by
  obtain ⟨w, hreachable, hp⟩ := Machine.exists_reachable_of_exec
    (M := nodeServiceMachine ⟨1, .numeric 45 0⟩)
    (p := fun w => w.Live 0 ∧
      ((execCompletions ⟨1, .numeric 45 0⟩ 0 w
        [.nodeFetched ⟨.numeric 1 1, some 0⟩ (.ok { nodeId := .numeric 1 1 }),
          .processFetchedNode ⟨0, [], false⟩, .processFetchedNode ⟨0, [], true⟩,
          .childrenFetched ⟨.numeric 1 1, some 0⟩ (.ok []),
          .finishChildren ⟨0, 0, .numeric 1 1, [], [], none, none⟩]).any
        (·.1 = [.node (.ok ()), .children (.ok [])])) = true ∧
      ((execCompletions ⟨1, .numeric 45 0⟩ 0 w
        [.childrenFetched ⟨.numeric 1 1, some 0⟩ (.ok []),
          .finishChildren ⟨0, 0, .numeric 1 1, [], [], none, none⟩,
          .nodeFetched ⟨.numeric 1 1, some 0⟩ (.ok { nodeId := .numeric 1 1 }),
          .processFetchedNode ⟨0, [], false⟩]).any
        (·.1 = [.children (.ok []), .node (.ok ())])) = true)
    [.channelOpened, .startFetch (.numeric 1 1) .nodeAndChildren] (by decide)
  obtain ⟨hlive, hfirst, hsecond⟩ := of_decide_eq_true hp
  obtain ⟨⟨_, w₁⟩, hexec₁, heq₁⟩ := (Option.any_eq_true _ _).mp hfirst
  obtain ⟨⟨_, w₂⟩, hexec₂, heq₂⟩ := (Option.any_eq_true _ _).mp hsecond
  obtain rfl := of_decide_eq_true heq₁
  obtain rfl := of_decide_eq_true heq₂
  have h₁ := Completes.refl.exec hexec₁
  have h₂ := Completes.refl.exec hexec₂
  exact ⟨w, w₁, w₂, hreachable, hlive, h₁, h₂,
    (completion_order_iff hreachable hlive h₁ h₂).mpr (Or.inl ⟨[], rfl⟩)⟩

/-- **A children error that a state hides.** The children fetch fails: the model
ends with its status when it is the last to complete, and Good otherwise. -/
theorem state_hides_children_error :
    ∃ w w₁ w₂, (nodeServiceMachine ⟨1, .numeric 45 0⟩).Reachable w ∧ w.Live 0 ∧
      Completes ⟨1, .numeric 45 0⟩ 0 w [.node (.ok ()), .children (.error (.bad 1))] w₁ ∧
      Completes ⟨1, .numeric 45 0⟩ 0 w [.children (.error (.bad 1)), .node (.ok ())] w₂ ∧
      (w₁.models 0).status = .bad 1 ∧ (w₂.models 0).status = .good := by
  obtain ⟨w, hreachable, hp⟩ := Machine.exists_reachable_of_exec
    (M := nodeServiceMachine ⟨1, .numeric 45 0⟩)
    (p := fun w => w.Live 0 ∧
      ((execCompletions ⟨1, .numeric 45 0⟩ 0 w
        [.nodeFetched ⟨.numeric 1 1, some 0⟩ (.ok { nodeId := .numeric 1 1 }),
          .processFetchedNode ⟨0, [], false⟩, .processFetchedNode ⟨0, [], true⟩,
          .childrenFetched ⟨.numeric 1 1, some 0⟩ (.error (.bad 1))]).any fun result =>
        result.1 = [.node (.ok ()), .children (.error (.bad 1))] ∧
          (result.2.models 0).status = .bad 1) = true ∧
      ((execCompletions ⟨1, .numeric 45 0⟩ 0 w
        [.childrenFetched ⟨.numeric 1 1, some 0⟩ (.error (.bad 1)),
          .nodeFetched ⟨.numeric 1 1, some 0⟩ (.ok { nodeId := .numeric 1 1 }),
          .processFetchedNode ⟨0, [], false⟩, .processFetchedNode ⟨0, [], true⟩]).any fun result =>
        result.1 = [.children (.error (.bad 1)), .node (.ok ())] ∧
          (result.2.models 0).status = .good) = true)
    [.channelOpened, .startFetch (.numeric 1 1) .nodeAndChildren] (by decide)
  obtain ⟨hlive, hfirst, hsecond⟩ := of_decide_eq_true hp
  obtain ⟨⟨_, w₁⟩, hexec₁, heq₁⟩ := (Option.any_eq_true _ _).mp hfirst
  obtain ⟨⟨_, w₂⟩, hexec₂, heq₂⟩ := (Option.any_eq_true _ _).mp hsecond
  obtain ⟨rfl, hbad⟩ := of_decide_eq_true heq₁
  obtain ⟨rfl, hgood⟩ := of_decide_eq_true heq₂
  exact ⟨w, w₁, w₂, hreachable, hlive, Completes.refl.exec hexec₁, Completes.refl.exec hexec₂,
    hbad, hgood⟩

end NodeServiceImpl

end ScadaCommon.V3
