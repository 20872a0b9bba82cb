import ScadaCommon.NodeService.NodeFetcherImpl

/-!
# What an answer does

The fetcher keeps its graph, its queue and its nodes consistent. An answer is applied
to the nodes whose fetch it belongs to. Other nodes are told what they are children or
dependencies of, and are put into the queue; nothing that was fetched of them is
touched.

§1 sound fetchers · §2 what is left alone · §3 scheduling · §4 attributes · §5
references · §6 whole answers.
-/

namespace ScadaCommon.NodeFetcherImpl

open Foundation
open AddressSpace (NodeState NodeAttributes ReferenceDescription)
open NodeFetchStatus (Includes)

variable {V : Type} {f f' f₁ f₂ : NodeFetcherImpl V} {id m : NodeId} {n n' : FetchingNode V}
  {current : Set NodeId}

/-! ## §1  Sound fetchers -/

/-- A node is in the queue or its fetch has started, and it has no attributes unless
it has. -/
structure NodeSound (queue : List NodeId) (id : NodeId) (n : FetchingNode V) : Prop where
  pending : n.pending = true ↔ id ∈ queue
  waiting : n.pending = true →
    n.fetchStarted = .none ∧ FetchDimension.nodeOnly ∈ n.pendingStatus
  started : n.attributesFetched = true → n.fetchStarted ≠ .none
  nodeOnly : n.fetchStarted ≠ .none → FetchDimension.nodeOnly ∈ n.fetchStarted

structure Sound (f : NodeFetcherImpl V) : Prop where
  linked : f.fetchingNodes.Linked
  nonnull : f.node .null = none
  nodes : ∀ id n, f.node id = some n → NodeSound f.pendingQueue id n
  queued : ∀ id ∈ f.pendingQueue, ∃ n, f.node id = some n
  nodup : f.pendingQueue.Nodup

theorem Sound.ne_null (h : f.Sound) (hn : f.node id = some n) : id ≠ .null := by
  rintro rfl
  rw [h.nonnull] at hn
  cases hn

theorem includes_nodeOnly {status : NodeFetchStatus} :
    Includes status .nodeOnly ↔ FetchDimension.nodeOnly ∈ status := by
  rw [NodeFetchStatus.includes_iff, NodeFetchStatus.nodeOnly, Finset.singleton_subset_iff]

/-- The control state beside the nodes and the queue. -/
structure SameControl (f f' : NodeFetcherImpl V) : Prop where
  runningRequestCount : f'.runningRequestCount = f.runningRequestCount
  processingResponse : f'.processingResponse = f.processingResponse
  drainingPendingQueue : f'.drainingPendingQueue = f.drainingPendingQueue

theorem SameControl.refl (f : NodeFetcherImpl V) : SameControl f f := ⟨rfl, rfl, rfl⟩

theorem SameControl.trans (h : SameControl f f₁) (h' : SameControl f₁ f₂) : SameControl f f₂ :=
  ⟨h'.1.trans h.1, h'.2.trans h.2, h'.3.trans h.3⟩

/-- Writing a node, and possibly the queue. -/
theorem Sound.write (h : f.Sound) (hn : f.node id = some n)
    (hlinks : FetchingNodeGraph.SameLinks n n') {queue : List NodeId}
    (hnode : NodeSound queue id n') (hqueue : ∀ m ≠ id, m ∈ queue ↔ m ∈ f.pendingQueue)
    (hnodup : queue.Nodup) :
    Sound { f with fetchingNodes := f.fetchingNodes.write id n', pendingQueue := queue } := by
  have hnodes : ∀ m, (f.fetchingNodes.write id n').node m = if m = id then some n' else f.node m :=
    fun m => FetchingNodeGraph.node_write
  refine ⟨h.linked.write hn hlinks, ?_, ?_, ?_, hnodup⟩
  · refine (hnodes .null).trans ?_
    rw [if_neg (h.ne_null hn).symm, h.nonnull]
  · intro m n₁ hn₁
    have hn₁ := (hnodes m).symm.trans hn₁
    split at hn₁
    · rename_i heq
      cases hn₁
      rw [heq]
      exact hnode
    · rename_i hne
      have hsound := h.nodes m n₁ hn₁
      exact ⟨hsound.pending.trans (hqueue m hne).symm, hsound.waiting, hsound.started,
        hsound.nodeOnly⟩
  · intro m hm
    by_cases heq : m = id
    · exact ⟨n', (hnodes m).trans (if_pos heq)⟩
    · obtain ⟨n₁, hn₁⟩ := h.queued m ((hqueue m heq).mp hm)
      exact ⟨n₁, (hnodes m).trans ((if_neg heq).trans hn₁)⟩

/-- What is no link and no mark is content. -/
theorem eq_of_content {β : Type} (view : FetchingNode V → β) (hview : ∀ n, view n.content = view n)
    (h : n'.content = n.content) : view n' = view n := by
  rw [← hview n', ← hview n, h]

theorem NodeSound.of_content {queue : List NodeId} (h : NodeSound queue id n)
    (hcontent : n'.content = n.content) : NodeSound queue id n' := by
  have hpending : n'.pending = n.pending := eq_of_content (·.pending) (fun _ => rfl) hcontent
  have hstatus : n'.pendingStatus = n.pendingStatus :=
    eq_of_content (·.pendingStatus) (fun _ => rfl) hcontent
  have hstarted : n'.fetchStarted = n.fetchStarted :=
    eq_of_content (·.fetchStarted) (fun _ => rfl) hcontent
  have hattributes : n'.attributesFetched = n.attributesFetched :=
    eq_of_content (·.attributesFetched) (fun _ => rfl) hcontent
  refine ⟨?_, ?_, ?_, ?_⟩
  · rw [hpending]
    exact h.pending
  · rw [hpending, hstarted, hstatus]
    exact h.waiting
  · rw [hattributes, hstarted]
    exact h.started
  · rw [hstarted]
    exact h.nodeOnly

/-- Links and marks are written, and nodes taken out. -/
theorem Sound.restrict (h : f.Sound) {g' : FetchingNodeGraph V} {queue : List NodeId}
    (hlinked : g'.Linked)
    (hkept : ∀ m n', g'.node m = some n' → ∃ n, f.node m = some n ∧ n'.content = n.content)
    (hqueue : ∀ m n', g'.node m = some n' → (m ∈ queue ↔ m ∈ f.pendingQueue))
    (hqueued : ∀ m ∈ queue, ∃ n', g'.node m = some n') (hnodup : queue.Nodup) :
    Sound { f with fetchingNodes := g', pendingQueue := queue } := by
  refine ⟨hlinked, ?_, ?_, hqueued, hnodup⟩
  · cases hnull : g'.node .null with
    | none => exact hnull
    | some n' =>
        obtain ⟨n, hn, -⟩ := hkept .null n' hnull
        rw [h.nonnull] at hn
        cases hn
  · intro m n' hn'
    obtain ⟨n, hn, hcontent⟩ := hkept m n' hn'
    have hsound := (h.nodes m n hn).of_content hcontent
    exact ⟨hsound.pending.trans (hqueue m n' hn').symm, hsound.waiting, hsound.started,
      hsound.nodeOnly⟩

theorem node_of_edit {change : FetchingNode V → FetchingNode V} (hn : f.node id = some n) :
    f.edit id change =
      some { f with fetchingNodes := f.fetchingNodes.write id (change n) } := by
  rw [edit, hn]
  rfl

/-! ## §2  What is left alone -/

/-- What the answer to another fetch leaves alone of a node. -/
structure Bystander (n n' : FetchingNode V) : Prop where
  attributesFetched : n'.attributesFetched = n.attributesFetched
  referencesFetched : n'.referencesFetched = n.referencesFetched
  status : n'.status = n.status
  attributes : n'.nodeState.attributes = n.nodeState.attributes
  references : n'.nodeState.references = n.nodeState.references
  supertypeId : n'.nodeState.supertypeId = n.nodeState.supertypeId

theorem Bystander.refl (n : FetchingNode V) : Bystander n n := ⟨rfl, rfl, rfl, rfl, rfl, rfl⟩

theorem Bystander.trans {n'' : FetchingNode V} (h : Bystander n n') (h' : Bystander n' n'') :
    Bystander n n'' :=
  ⟨h'.1.trans h.1, h'.2.trans h.2, h'.3.trans h.3, h'.4.trans h.4, h'.5.trans h.5, h'.6.trans h.6⟩

theorem Bystander.of_content (h : n'.content = n.content) : Bystander n n' := by
  have hattributes : n'.attributesFetched = n.attributesFetched :=
    eq_of_content (·.attributesFetched) (fun _ => rfl) h
  have hreferences : n'.referencesFetched = n.referencesFetched :=
    eq_of_content (·.referencesFetched) (fun _ => rfl) h
  have hstatus : n'.status = n.status := eq_of_content (·.status) (fun _ => rfl) h
  have hstate : n'.nodeState = n.nodeState := eq_of_content (·.nodeState) (fun _ => rfl) h
  exact ⟨hattributes, hreferences, hstatus, by rw [hstate], by rw [hstate], by rw [hstate]⟩

/-- The nodes that an answer to a request is for. -/
def currentNodes (f : NodeFetcherImpl V) (requestId : ℕ) : Set NodeId :=
  {id | ∃ n, f.node id = some n ∧ n.fetchStarted ≠ .none ∧ n.fetchRequestId = requestId}

/-- Whose fetch it is, and whether it has started, is not touched; of the nodes that are
not current only some are written, and of them only what does not come from their
fetch. -/
structure Effect (current touched : Set NodeId) (f f' : NodeFetcherImpl V) : Prop where
  control : SameControl f f'
  kept : ∀ m n, f.node m = some n → ∃ n', f'.node m = some n' ∧
    n'.fetchStarted = n.fetchStarted ∧ n'.fetchRequestId = n.fetchRequestId ∧
    (m ∉ current → Bystander n n')
  fresh : ∀ m n', f.node m = none → f'.node m = some n' → n'.fetchStarted = .none
  links : ∀ a d, d ∈ f.fetchingNodes.dependsOf a → d ∈ f'.fetchingNodes.dependsOf a
  others : ∀ m, m ∉ current → m ∉ touched → f'.node m = f.node m

namespace Effect

variable {touched touched' : Set NodeId}

theorem refl (current : Set NodeId) (f : NodeFetcherImpl V) : Effect current ∅ f f :=
  ⟨SameControl.refl f, fun _ n hn => ⟨n, hn, rfl, rfl, fun _ => Bystander.refl n⟩,
    fun _ _ hnone hn => (by rw [hnone] at hn; cases hn), fun _ _ hd => hd, fun _ _ _ => rfl⟩

/-- The current nodes need not be among those that are written. -/
theorem mono (h : Effect current touched f f') (hsub : ∀ m ∈ touched, m ∉ current → m ∈ touched') :
    Effect current touched' f f' :=
  ⟨h.control, h.kept, h.fresh, h.links,
    fun m hm hnot => h.others m hm fun hmem => hnot (hsub m hmem hm)⟩

theorem trans (h : Effect current touched f f₁) (h' : Effect current touched' f₁ f₂) :
    Effect current (touched ∪ touched') f f₂ := by
  refine ⟨h.control.trans h'.control, ?_, ?_, fun a d hd => h'.links a d (h.links a d hd), ?_⟩
  · intro m n hn
    obtain ⟨n₁, hn₁, hstarted₁, hrequest₁, hbystander₁⟩ := h.kept m n hn
    obtain ⟨n₂, hn₂, hstarted₂, hrequest₂, hbystander₂⟩ := h'.kept m n₁ hn₁
    exact ⟨n₂, hn₂, hstarted₂.trans hstarted₁, hrequest₂.trans hrequest₁,
      fun hm => (hbystander₁ hm).trans (hbystander₂ hm)⟩
  · intro m n' hnone hn'
    cases hmid : f₁.node m with
    | none => exact h'.fresh m n' hmid hn'
    | some n₁ =>
        obtain ⟨n₂, hn₂, hstarted, -⟩ := h'.kept m n₁ hmid
        rw [hn'] at hn₂
        cases hn₂
        exact hstarted.trans (h.fresh m n₁ hnone hmid)
  · intro m hm hnot
    rw [Set.mem_union, not_or] at hnot
    exact (h'.others m hm hnot.2).trans (h.others m hm hnot.1)

end Effect

/-- The nodes that a current one depends on. -/
def namedBy (current : Set NodeId) (f : NodeFetcherImpl V) : Set NodeId :=
  {m | ∃ a ∈ current, m ∈ f.fetchingNodes.dependsOf a}

/-- **What an answer may do**: beside the current nodes it writes those that they
depend on. -/
abbrev Follows (current : Set NodeId) (f f' : NodeFetcherImpl V) : Prop :=
  Effect current (namedBy current f') f f'

theorem Follows.trans (h : Follows current f f₁) (h' : Follows current f₁ f₂) :
    Follows current f f₂ := by
  refine (Effect.trans h h').mono ?_
  rintro m (⟨a, ha, hm⟩ | hm) -
  · exact ⟨a, ha, h'.links a m hm⟩
  · exact hm

/-- Among what is written there are only current nodes and those that they depend on. -/
theorem Effect.follows {touched : Set NodeId} (h : Effect current touched f f')
    (hsub : ∀ m ∈ touched, m ∈ current ∨ m ∈ namedBy current f') : Follows current f f' :=
  h.mono fun m hm hnot => (hsub m hm).resolve_left hnot

theorem Follows.refl (current : Set NodeId) (f : NodeFetcherImpl V) : Follows current f f :=
  (Effect.refl current f).mono nofun

theorem Effect.exists_node {touched : Set NodeId} (h : Effect current touched f f')
    (hn : ∃ n, f.node m = some n) : ∃ n', f'.node m = some n' := by
  obtain ⟨n, hn⟩ := hn
  obtain ⟨n', hn', -⟩ := h.kept m n hn
  exact ⟨n', hn'⟩

/-- The same nodes are current throughout. -/
theorem Effect.currentNodes_eq {touched : Set NodeId} {requestId : ℕ}
    (h : Effect current touched f f') : f'.currentNodes requestId = f.currentNodes requestId := by
  ext m
  constructor
  · rintro ⟨n', hn', hstarted', hrequest'⟩
    cases hn : f.node m with
    | none => exact absurd (h.fresh m n' hn hn') hstarted'
    | some n =>
        obtain ⟨n₁, hn₁, hstarted, hrequest, -⟩ := h.kept m n hn
        rw [hn'] at hn₁
        cases hn₁
        exact ⟨n, hn, hstarted ▸ hstarted', hrequest ▸ hrequest'⟩
  · rintro ⟨n, hn, hstarted, hrequest⟩
    obtain ⟨n', hn', hstarted', hrequest', -⟩ := h.kept m n hn
    exact ⟨n', hn', hstarted' ▸ hstarted, hrequest' ▸ hrequest⟩

/-- An answer is being applied: no check fails, and the fetcher stays sound. -/
def Applies (current : Set NodeId) (f : NodeFetcherImpl V) (r : Option (NodeFetcherImpl V)) :
    Prop :=
  ∃ f', r = some f' ∧ f'.Sound ∧ Follows current f f'

/-- No check fails if and only if a condition holds. -/
structure AppliesIff (ok : Prop) (current : Set NodeId) (f : NodeFetcherImpl V)
    (r : Option (NodeFetcherImpl V)) : Prop where
  applies : ok → Applies current f r
  fails : ¬ ok → r = none

theorem Applies.refl (h : f.Sound) : Applies current f (some f) :=
  ⟨f, rfl, h, Follows.refl current f⟩

theorem Applies.after {r : Option (NodeFetcherImpl V)} (h : Applies current f₁ r)
    (hfollows : Follows current f f₁) : Applies current f r := by
  obtain ⟨f', hr, hf', hrest⟩ := h
  exact ⟨f', hr, hf', hfollows.trans hrest⟩

theorem AppliesIff.after {ok : Prop} {r : Option (NodeFetcherImpl V)}
    (h : AppliesIff ok current f₁ r) (hfollows : Follows current f f₁) :
    AppliesIff ok current f r :=
  ⟨fun hok => (h.applies hok).after hfollows, h.fails⟩

theorem AppliesIff.congr {ok ok' : Prop} {r : Option (NodeFetcherImpl V)}
    (h : AppliesIff ok current f r) (hok : ok' ↔ ok) : AppliesIff ok' current f r :=
  ⟨fun hok' => h.applies (hok.mp hok'), fun hnot => h.fails fun hok' => hnot (hok.mpr hok')⟩

theorem AppliesIff.of_applies {ok : Prop} {r : Option (NodeFetcherImpl V)}
    (h : Applies current f r) (hok : ok) : AppliesIff ok current f r :=
  ⟨fun _ => h, fun hnot => absurd hok hnot⟩

/-- **Item after item**: what is known of the fetcher while an answer is applied is
known throughout. -/
theorem foldlM_appliesIff {α : Type} {apply : NodeFetcherImpl V → α → Option (NodeFetcherImpl V)}
    (ok : α → Prop) (known : NodeFetcherImpl V → Prop)
    (hknown : ∀ f f', Follows current f f' → known f → known f') {items : List α}
    (hitems : ∀ item ∈ items, ∀ f : NodeFetcherImpl V, f.Sound → known f →
      AppliesIff (ok item) current f (apply f item))
    (h : f.Sound) (hf : known f) :
    AppliesIff (∀ item ∈ items, ok item) current f (items.foldlM apply f) := by
  induction items generalizing f with
  | nil => exact AppliesIff.of_applies (Applies.refl h) nofun
  | cons item items ih =>
      have hitem := hitems item (List.mem_cons_self) f h hf
      have hrest : ∀ item ∈ items, ∀ f : NodeFetcherImpl V, f.Sound → known f →
          AppliesIff (ok item) current f (apply f item) :=
        fun item hmem => hitems item (List.mem_cons_of_mem _ hmem)
      rw [List.foldlM_cons, List.forall_mem_cons]
      constructor
      · rintro ⟨hok, hall⟩
        obtain ⟨f₁, hf₁, h₁, hfollows⟩ := hitem.applies hok
        rw [hf₁]
        exact ((ih hrest h₁ (hknown f f₁ hfollows hf)).applies hall).after hfollows
      · intro hnot
        by_cases hok : ok item
        · obtain ⟨f₁, hf₁, h₁, hfollows⟩ := hitem.applies hok
          rw [hf₁]
          exact (ih hrest h₁ (hknown f f₁ hfollows hf)).fails fun hall => hnot ⟨hok, hall⟩
        · rw [hitem.fails hok]
          rfl

/-- Writing one node. -/
theorem Effect.write (hn : f.node id = some n) (hlinks : FetchingNodeGraph.SameLinks n n')
    (hstarted : n'.fetchStarted = n.fetchStarted) (hrequest : n'.fetchRequestId = n.fetchRequestId)
    (hbystander : id ∉ current → Bystander n n') (queue : List NodeId) :
    Effect current {id} f
      { f with fetchingNodes := f.fetchingNodes.write id n', pendingQueue := queue } := by
  have hnodes : ∀ m, (f.fetchingNodes.write id n').node m = if m = id then some n' else f.node m :=
    fun m => FetchingNodeGraph.node_write
  refine ⟨⟨rfl, rfl, rfl⟩, ?_, ?_, ?_, ?_⟩
  · intro m n₁ hn₁
    by_cases heq : m = id
    · rw [heq, hn] at hn₁
      cases hn₁
      exact ⟨n', (hnodes m).trans (if_pos heq), hstarted, hrequest, fun hm => hbystander (heq ▸ hm)⟩
    · exact ⟨n₁, (hnodes m).trans ((if_neg heq).trans hn₁), rfl, rfl, fun _ => Bystander.refl n₁⟩
  · intro m n₁ hnone hn₁
    have hn₁ := (hnodes m).symm.trans hn₁
    split at hn₁
    · rename_i heq
      rw [heq, hn] at hnone
      cases hnone
    · rw [hnone] at hn₁
      cases hn₁
  · intro a d hd
    show d ∈ (f.fetchingNodes.write id n').dependsOf a
    rw [FetchingNodeGraph.dependsOf_write]
    split
    · rename_i heq
      rw [hlinks.dependsOf]
      rwa [heq, FetchingNodeGraph.dependsOf_eq hn] at hd
    · exact hd
  · intro m _ hnot
    exact (hnodes m).trans (if_neg hnot)

/-! ## §3  Scheduling -/

theorem write_write (g : FetchingNodeGraph V) (n n' : FetchingNode V) :
    (g.write id n).write id n' = g.write id n' := by
  show { g with fetchingNodes := (g.fetchingNodes.insert id n).insert id n' } = _
  rw [AList.insert_insert]
  rfl

/-- A node that is to be fetched, in the queue. -/
def awaited (n : FetchingNode V) (pendingSequence : ℕ) (status : NodeFetchStatus) (force : Bool) :
    FetchingNode V :=
  let n := if n.fetchStarted ≠ .none then restarted n else n
  { n with
    force := n.force || force
    pendingStatus := n.pendingStatus ∪ status
    pendingSequence
    pending := true }

/-- Its fetch goes on. -/
def Skipped (n : FetchingNode V) (status : NodeFetchStatus) (force : Bool) : Prop :=
  n.fetchStarted ≠ .none ∧ Includes n.fetchStarted status ∧ force = false

instance (n : FetchingNode V) (status : NodeFetchStatus) (force : Bool) :
    Decidable (Skipped n status force) := inferInstanceAs (Decidable (_ ∧ _ ∧ _))

/-- The queue with a node in it. -/
def queuedWith (f : NodeFetcherImpl V) (id : NodeId) : List NodeId :=
  if id ∈ f.pendingQueue then f.pendingQueue else f.pendingQueue ++ [id]

theorem mem_queuedWith : m ∈ f.queuedWith id ↔ m ∈ f.pendingQueue ∨ m = id := by
  unfold queuedWith
  split
  · rename_i hmem
    exact ⟨Or.inl, Or.rec (fun h => h) fun heq => heq ▸ hmem⟩
  · simp

theorem nodup_queuedWith (h : f.pendingQueue.Nodup) (id : NodeId) : (f.queuedWith id).Nodup := by
  unfold queuedWith
  split
  · exact h
  · rename_i hmem
    rw [List.nodup_append_comm]
    exact List.nodup_cons.mpr ⟨hmem, h⟩

variable {status : NodeFetchStatus} {pendingSequence : ℕ} {force : Bool}

theorem awaited_sameLinks :
    FetchingNodeGraph.SameLinks n (awaited n pendingSequence status force) := by
  unfold awaited
  split <;> exact ⟨rfl, rfl, rfl, rfl⟩

/-- A node that was just written is put into the queue. -/
theorem push_eq (hpending : n.pending = true ↔ id ∈ f.pendingQueue) :
    push { f with fetchingNodes := f.fetchingNodes.write id n } id =
      some { f with
        fetchingNodes := f.fetchingNodes.write id { n with pending := true }
        pendingQueue := f.queuedWith id } := by
  have hn : node { f with fetchingNodes := f.fetchingNodes.write id n } id = some n :=
    FetchingNodeGraph.node_write.trans (if_pos rfl)
  rw [push, hn]
  cases hp : n.pending with
  | true =>
      have hmem : id ∈ f.pendingQueue := hpending.mp hp
      have hsame : { n with pending := true } = n := by
        rw [← hp]
      simp only [Option.bind_eq_bind, Option.bind_some, hp, if_true, check_of hmem, hsame,
        queuedWith, if_pos hmem]
      rfl
  | false =>
      have hmem : id ∉ f.pendingQueue := by
        intro hmem
        rw [hpending.mpr hmem] at hp
        cases hp
      simp only [Option.bind_eq_bind, Option.bind_some, hp, Bool.false_eq_true, if_false,
        check_of hmem, queuedWith, if_neg hmem]
      rw [node_of_edit hn]
      simp only [Option.bind_some, write_write]
      rfl

theorem fetchNode_eq (h : f.Sound) (hn : f.node id = some n)
    (hstatus : Includes status .nodeOnly) :
    f.fetchNode id pendingSequence status force =
      if Skipped n status force then some (f, false)
      else some ({ f with
        fetchingNodes := f.fetchingNodes.write id (awaited n pendingSequence status force)
        pendingQueue := f.queuedWith id }, true) := by
  have hpending : ∀ n' : FetchingNode V, n'.pending = n.pending →
      (n'.pending = true ↔ id ∈ f.pendingQueue) :=
    fun n' heq => heq ▸ (h.nodes id n hn).pending
  rw [fetchNode, check_of hstatus, hn]
  simp only [Option.bind_eq_bind, Option.bind_some]
  rw [node_of_edit hn]
  simp only [Option.bind_some]
  rw [push_eq (hpending _ (by split <;> rfl))]
  rfl

theorem awaited_nodeSound (h : f.Sound) (hn : f.node id = some n)
    (hstatus : Includes status .nodeOnly) :
    NodeSound (f.queuedWith id) id (awaited n pendingSequence status force) := by
  have hmem : FetchDimension.nodeOnly ∈ n.pendingStatus ∪ status :=
    Finset.mem_union_right _ (includes_nodeOnly.mp hstatus)
  have hqueue : id ∈ f.queuedWith id := mem_queuedWith.mpr (Or.inr rfl)
  unfold awaited
  split
  · exact ⟨⟨fun _ => hqueue, fun _ => rfl⟩, fun _ => ⟨rfl, hmem⟩, nofun, fun hne => absurd rfl hne⟩
  · rename_i hstarted
    rw [not_not] at hstarted
    refine ⟨⟨fun _ => hqueue, fun _ => rfl⟩, fun _ => ⟨hstarted, hmem⟩, ?_,
      fun hne => absurd hstarted hne⟩
    intro hattributes
    exact absurd hstarted ((h.nodes id n hn).started hattributes)

variable (pendingSequence force) in
/-- **`FetchNode`** puts the node into the queue, or leaves all as it is. -/
theorem fetchNode_spec (h : f.Sound) (hn : f.node id = some n)
    (hstatus : Includes status .nodeOnly) :
    ∃ f' scheduled, f.fetchNode id pendingSequence status force = some (f', scheduled) ∧
      f'.Sound ∧ SameControl f f' ∧ (scheduled = false → f'.pendingQueue = f.pendingQueue) ∧
      ∀ m, (f.node m).isSome → (f'.node m).isSome := by
  rw [fetchNode_eq h hn hstatus]
  split
  · exact ⟨f, false, rfl, h, SameControl.refl f, fun _ => rfl, fun _ hm => hm⟩
  · refine ⟨_, true, rfl, ?_, ⟨rfl, rfl, rfl⟩, nofun, ?_⟩
    · refine h.write hn awaited_sameLinks (awaited_nodeSound h hn hstatus) ?_
        (nodup_queuedWith h.nodup id)
      intro m hne
      rw [mem_queuedWith, or_iff_left hne]
    · intro m hm
      show (FetchingNodeGraph.node _ m).isSome
      rw [FetchingNodeGraph.node_write]
      split
      · rfl
      · exact hm

variable (current) in
/-- A node that another one depends on is in the queue unless its fetch goes on. -/
theorem schedule_spec (h : f.Sound) (hn : f.node id = some n) (pendingSequence : ℕ) :
    ∃ f', f.schedule id pendingSequence = some f' ∧ f'.Sound ∧ Effect current {id} f f' := by
  have hsound := h.nodes id n hn
  have hnodeOnly : Includes .nodeOnly .nodeOnly := NodeFetchStatus.includes_iff.mpr subset_rfl
  rw [schedule, fetchNode_eq h hn hnodeOnly]
  split
  · exact ⟨f, rfl, h, (Effect.refl current f).mono nofun⟩
  · rename_i hskipped
    -- The fetch of a node includes the node itself.
    have hstarted : n.fetchStarted = .none := by
      by_contra hne
      exact hskipped ⟨hne, includes_nodeOnly.mpr (hsound.nodeOnly hne), rfl⟩
    have hawaited : awaited n pendingSequence .nodeOnly false =
        { n with
          force := n.force || false
          pendingStatus := n.pendingStatus ∪ .nodeOnly
          pendingSequence
          pending := true } := by
      simp [awaited, hstarted]
    refine ⟨_, rfl, ?_, ?_⟩
    · refine h.write hn awaited_sameLinks (awaited_nodeSound h hn hnodeOnly) ?_
        (nodup_queuedWith h.nodup id)
      intro m hne
      rw [mem_queuedWith, or_iff_left hne]
    · refine Effect.write hn awaited_sameLinks ?_ ?_ ?_ _ <;> rw [hawaited]
      exact fun _ => ⟨rfl, rfl, rfl, rfl, rfl, rfl⟩

/-! ## §4  Attributes -/

/-- What is written of a node while an answer is applied. -/
structure Rewrites (current : Prop) (n n' : FetchingNode V) : Prop where
  links : FetchingNodeGraph.SameLinks n n'
  pending : n'.pending = n.pending
  pendingStatus : n'.pendingStatus = n.pendingStatus
  fetchStarted : n'.fetchStarted = n.fetchStarted
  fetchRequestId : n'.fetchRequestId = n.fetchRequestId
  attributesFetched : n'.attributesFetched = true →
    n.attributesFetched = true ∨ n.fetchStarted ≠ .none
  bystander : ¬ current → Bystander n n'

theorem NodeSound.rewrites {queue : List NodeId} {p : Prop} (h : NodeSound queue id n)
    (hwrites : Rewrites p n n') : NodeSound queue id n' := by
  refine ⟨?_, ?_, ?_, ?_⟩
  · rw [hwrites.pending]
    exact h.pending
  · rw [hwrites.pending, hwrites.fetchStarted, hwrites.pendingStatus]
    exact h.waiting
  · intro hattributes
    rw [hwrites.fetchStarted]
    rcases hwrites.attributesFetched hattributes with hfetched | hstarted
    · exact h.started hfetched
    · exact hstarted
  · rw [hwrites.fetchStarted]
    exact h.nodeOnly

variable (current) in
/-- **Fields of a node are written.** -/
theorem edit_spec (h : f.Sound) (hn : f.node id = some n)
    (change : FetchingNode V → FetchingNode V) (hchange : Rewrites (id ∈ current) n (change n)) :
    ∃ f', f.edit id change = some f' ∧ f'.Sound ∧ f'.node id = some (change n) ∧
      Effect current {id} f f' := by
  refine ⟨_, node_of_edit hn, ?_, FetchingNodeGraph.node_write.trans (if_pos rfl), ?_⟩
  · exact h.write hn hchange.links ((h.nodes id n hn).rewrites hchange) (fun _ _ => Iff.rfl) h.nodup
  · exact Effect.write hn hchange.links hchange.fetchStarted hchange.fetchRequestId
      hchange.bystander f.pendingQueue

variable (current) in
/-- A node that is not there joins, its fetch not started. -/
theorem addNode_spec (h : f.Sound) (hid : id ≠ .null) :
    ∃ f' n, f.addNode id = some f' ∧ f'.Sound ∧ f'.node id = some n ∧
      Effect current {id} f f' := by
  have hadd : ∃ g', f.fetchingNodes.addNode id = some g' := by
    rw [FetchingNodeGraph.addNode, check_of hid]
    exact ⟨_, rfl⟩
  obtain ⟨g', hg'⟩ := hadd
  have heq : f.addNode id = some { f with fetchingNodes := g' } := by
    rw [addNode, hg']
    rfl
  obtain ⟨-, ⟨⟨n, hn⟩, rfl⟩ | ⟨hnone, rfl⟩⟩ := FetchingNodeGraph.addNode_eq_some hg'
  · exact ⟨f, n, heq, h, hn, (Effect.refl current f).mono nofun⟩
  · have hnodes : ∀ m, (f.fetchingNodes.write id { nodeState := { nodeId := id } }).node m =
        if m = id then some { nodeState := { nodeId := id } } else f.node m :=
      fun m => FetchingNodeGraph.node_write
    have hunqueued : id ∉ f.pendingQueue := by
      intro hmem
      obtain ⟨n, hn⟩ := h.queued id hmem
      rw [show f.node id = none from hnone] at hn
      cases hn
    refine ⟨_, _, heq, ?_, (hnodes id).trans (if_pos rfl), ⟨rfl, rfl, rfl⟩, ?_, ?_, ?_, ?_⟩
    · refine ⟨h.linked.addNode hg', ?_, ?_, ?_, h.nodup⟩
      · refine (hnodes .null).trans ?_
        rw [if_neg hid.symm, h.nonnull]
      · intro m n hn
        have hn := (hnodes m).symm.trans hn
        split at hn
        · rename_i heq
          cases hn
          rw [heq]
          exact ⟨⟨nofun, fun hmem => absurd hmem hunqueued⟩, nofun, nofun,
            fun hstarted => absurd rfl hstarted⟩
        · exact h.nodes m n hn
      · intro m hm
        obtain ⟨n, hn⟩ := h.queued m hm
        have hne : m ≠ id := by
          rintro rfl
          exact hunqueued hm
        exact ⟨n, (hnodes m).trans ((if_neg hne).trans hn)⟩
    · intro m n hn
      have hne : m ≠ id := by
        rintro rfl
        rw [show f.node m = none from hnone] at hn
        cases hn
      exact ⟨n, (hnodes m).trans ((if_neg hne).trans hn), rfl, rfl, fun _ => Bystander.refl n⟩
    · intro m n' hm hn'
      have hn' := (hnodes m).symm.trans hn'
      split at hn'
      · cases hn'
        rfl
      · rw [hm] at hn'
        cases hn'
    · intro a d hd
      show d ∈ FetchingNodeGraph.dependsOf _ a
      rw [FetchingNodeGraph.dependsOf_write]
      split
      · rename_i heq
        obtain ⟨n, hn⟩ := FetchingNodeGraph.exists_node_of_mem_dependsOf hd
        rw [heq, hnone] at hn
        cases hn
      · exact hd
    · intro m _ hne
      exact (hnodes m).trans (if_neg hne)

variable (current) in
/-- **A dependency is added** between two nodes of the graph. -/
theorem addDependency_spec (h : f.Sound) {fromId : NodeId} {fromNode : FetchingNode V}
    (hn : f.node id = some n) (hfrom : f.node fromId = some fromNode) (hne : id ≠ fromId) :
    ∃ f', f.addDependency id fromId = some f' ∧ f'.Sound ∧ Effect current {id, fromId} f f' ∧
      fromId ∈ f'.fetchingNodes.dependsOf id := by
  have hcontent := FetchingNodeGraph.content_joined hn hfrom
  have hlist := FetchingNodeGraph.mem_dependsOf_joined hn hfrom hne
  refine ⟨{ f with fetchingNodes := f.fetchingNodes.joined id n fromId fromNode }, ?_, ?_, ?_,
    (hlist id fromId).mpr (Or.inr ⟨rfl, rfl⟩)⟩
  · rw [addDependency, FetchingNodeGraph.addDependency_eq_joined hn hfrom hne]
    rfl
  · refine h.restrict (h.linked.joined hn hfrom hne) ?_ (fun _ _ _ => Iff.rfl) ?_ h.nodup
    · intro m n' hn'
      have hm := hcontent m
      rw [hn', Option.map_some] at hm
      obtain ⟨n₁, hn₁, heq⟩ := Option.map_eq_some_iff.mp hm.symm
      exact ⟨n₁, hn₁, heq.symm⟩
    · intro m hm
      obtain ⟨n₁, hn₁⟩ := h.queued m hm
      have hm := hcontent m
      rw [show f.fetchingNodes.node m = some n₁ from hn₁, Option.map_some] at hm
      obtain ⟨n', hn', -⟩ := Option.map_eq_some_iff.mp hm
      exact ⟨n', hn'⟩
  · refine ⟨⟨rfl, rfl, rfl⟩, ?_, ?_, fun a d hd => (hlist a d).mpr (Or.inl hd), ?_⟩
    · intro m n₁ hn₁
      have hm := hcontent m
      rw [show f.fetchingNodes.node m = some n₁ from hn₁, Option.map_some] at hm
      obtain ⟨n', hn', heq⟩ := Option.map_eq_some_iff.mp hm
      have hstarted : n'.fetchStarted = n₁.fetchStarted :=
        eq_of_content (·.fetchStarted) (fun _ => rfl) heq
      have hrequest : n'.fetchRequestId = n₁.fetchRequestId :=
        eq_of_content (·.fetchRequestId) (fun _ => rfl) heq
      exact ⟨n', hn', hstarted, hrequest, fun _ => Bystander.of_content heq⟩
    · intro m n' hnone hn'
      have hm := hcontent m
      rw [show f.fetchingNodes.node m = none from hnone,
        show FetchingNodeGraph.node _ m = some n' from hn'] at hm
      cases hm
    · intro m _ hnot
      rw [Set.mem_insert_iff, Set.mem_singleton_iff, not_or] at hnot
      refine (FetchingNodeGraph.node_joined m).trans ?_
      rw [if_neg hnot.1, if_neg hnot.2]
      rfl

theorem rewrites_force (n : FetchingNode V) (p : Prop) (force : Bool) :
    Rewrites p n { n with force := n.force || force } :=
  ⟨⟨rfl, rfl, rfl, rfl⟩, rfl, rfl, rfl, rfl, Or.inl, fun _ => ⟨rfl, rfl, rfl, rfl, rfl, rfl⟩⟩

/-- **`ValidateDependency`** of a current node. -/
theorem validateDependency_applies (validator : NodeId → Bool) (h : f.Sound) (hn : f.node id = some n)
    (hcurrent : id ∈ current) (fromId : NodeId) :
    Applies current f (f.validateDependency validator id fromId) := by
  unfold validateDependency
  split
  · exact Applies.refl h
  rename_i hnull
  rw [hn]
  simp only [Option.bind_eq_bind, Option.bind_some]
  split
  · exact Applies.refl h
  rename_i hself
  split
  · exact Applies.refl h
  have hne : id ≠ fromId := by
    rwa [h.linked.nodeId id n hn] at hself
  obtain ⟨f₁, fromNode, hf₁, h₁, hfrom₁, he₁⟩ := addNode_spec current h hnull
  obtain ⟨n₁, hn₁, -⟩ := he₁.kept id n hn
  obtain ⟨f₂, hf₂, h₂, hfrom₂, he₂⟩ := edit_spec current h₁ hfrom₁
    (fun fromNode => { fromNode with force := fromNode.force || n.force })
    (rewrites_force fromNode _ n.force)
  obtain ⟨n₂, hn₂, -⟩ := he₂.kept id n₁ hn₁
  obtain ⟨f₃, hf₃, h₃, he₃, hdepends⟩ := addDependency_spec current h₂ hn₂ hfrom₂ hne
  obtain ⟨fromNode₃, hfrom₃, -⟩ := he₃.kept fromId _ hfrom₂
  obtain ⟨f₄, hf₄, h₄, he₄⟩ :=
    schedule_spec current h₃ hfrom₃ fromNode₃.pendingSequence
  rw [hf₁]
  simp only [Option.bind_some, if_neg hne.symm, hf₂, hf₃, hfrom₃, hf₄]
  refine ⟨f₄, rfl, h₄, (((he₁.trans he₂).trans he₃).trans he₄).follows ?_⟩
  have hnamed : fromId ∈ namedBy current f₄ := ⟨id, hcurrent, he₄.links id fromId hdepends⟩
  rintro m (((rfl | rfl) | rfl | rfl) | rfl)
  · exact Or.inr hnamed
  · exact Or.inr hnamed
  · exact Or.inl hcurrent
  · exact Or.inr hnamed
  · exact Or.inr hnamed

variable {values : FetchedValues V} {validator : NodeId → Bool} {requestId : ℕ}

section

variable (h : f.Sound) (hn : f.node id = some n) (hcurrent : id ∈ current)
include h hn hcurrent

/-- Any fields of a current node. -/
theorem edit_applies (change : FetchingNode V → FetchingNode V)
    (hchange : Rewrites (id ∈ current) n (change n)) :
    Applies current f (f.edit id change) := by
  obtain ⟨f', hf', h', -, heffect⟩ := edit_spec current h hn change hchange
  refine ⟨f', hf', h', heffect.follows ?_⟩
  rintro m rfl
  exact Or.inl hcurrent

theorem setStatus_applies (status : Status) : Applies current f (f.setStatus id status) :=
  edit_applies h hn hcurrent _
    ⟨⟨rfl, rfl, rfl, rfl⟩, rfl, rfl, rfl, rfl, Or.inl, fun hnot => absurd hcurrent hnot⟩

theorem editState_applies (change : NodeState V → NodeState V)
    (hchange : (change n.nodeState).nodeId = n.nodeState.nodeId) :
    Applies current f (f.editState id change) :=
  edit_applies h hn hcurrent _
    ⟨⟨rfl, rfl, rfl, hchange⟩, rfl, rfl, rfl, rfl, Or.inl, fun hnot => absurd hcurrent hnot⟩

theorem editAttributes_applies (change : NodeAttributes V → NodeAttributes V) :
    Applies current f (f.editAttributes id change) :=
  editState_applies h hn hcurrent _ rfl

theorem setFetchedAttribute_applies (attributeId : AttributeId) (value : V) :
    Applies current f (f.setFetchedAttribute values validator id attributeId value) := by
  unfold setFetchedAttribute
  split
  · split
    · exact setStatus_applies h hn hcurrent _
    · exact editState_applies h hn hcurrent _ rfl
  · split
    · exact setStatus_applies h hn hcurrent _
    · exact editAttributes_applies h hn hcurrent _
  · split
    · exact setStatus_applies h hn hcurrent _
    · exact editAttributes_applies h hn hcurrent _
  · split
    · exact setStatus_applies h hn hcurrent _
    · rename_i dataType _
      obtain ⟨f₁, hf₁, h₁, hfollows⟩ := editAttributes_applies h hn hcurrent
        fun attributes => { attributes with dataType }
      obtain ⟨n₁, hn₁, -⟩ := hfollows.kept id n hn
      rw [hf₁]
      exact (validateDependency_applies validator h₁ hn₁ hcurrent dataType).after hfollows
  · exact editAttributes_applies h hn hcurrent _

end

theorem answered_eq (hid : id ≠ .null) :
    f.answered requestId id = some ((f.node id).filter fun n =>
      n.fetchStarted ≠ .none ∧ n.fetchRequestId = requestId) := by
  rw [answered, FetchingNodeGraph.findNode, check_of hid]
  rfl

theorem mem_currentNodes_iff :
    id ∈ f.currentNodes requestId ↔ ∃ n, (f.node id).filter (fun n =>
      n.fetchStarted ≠ .none ∧ n.fetchRequestId = requestId) = some n := by
  constructor
  · rintro ⟨n, hn, hstarted, hrequest⟩
    exact ⟨n, by simp [hn, hstarted, hrequest]⟩
  · rintro ⟨n, hn⟩
    obtain ⟨hn, hfilter⟩ := Option.filter_eq_some_iff.mp hn
    exact ⟨n, hn, by simpa using hfilter⟩

/-- The node of an answer, where it is current. -/
theorem answered_cases (hid : id ≠ .null) :
    (∃ n, f.answered requestId id = some (some n) ∧ f.node id = some n ∧
      n.fetchStarted ≠ .none ∧ id ∈ f.currentNodes requestId) ∨
    f.answered requestId id = some none ∧ id ∉ f.currentNodes requestId := by
  rw [answered_eq hid]
  cases hanswered : (f.node id).filter fun n =>
      n.fetchStarted ≠ .none ∧ n.fetchRequestId = requestId with
  | some n =>
      have hcurrent := mem_currentNodes_iff.mpr ⟨n, hanswered⟩
      obtain ⟨hn, hfilter⟩ := Option.filter_eq_some_iff.mp hanswered
      have hstarted : n.fetchStarted ≠ .none ∧ n.fetchRequestId = requestId := by
        simpa using hfilter
      exact Or.inl ⟨n, rfl, hn, hstarted.1, hcurrent⟩
  | none =>
      refine Or.inr ⟨rfl, fun hcurrent => ?_⟩
      obtain ⟨n, hn⟩ := mem_currentNodes_iff.mp hcurrent
      rw [hanswered] at hn
      cases hn

/-- **`ApplyReadResult`** fails no check. -/
theorem applyReadResult_applies (h : f.Sound) {readId : ReadValueId}
    (hid : readId.nodeId ≠ .null) (result : ReadResult V) :
    Applies (f.currentNodes requestId) f
      (f.applyReadResult values validator requestId readId result) := by
  rw [applyReadResult]
  rcases answered_cases hid with ⟨n, hanswered, hn, hstarted, hcurrent⟩ | ⟨hanswered, -⟩
  · rw [hanswered]
    obtain ⟨f₁, hf₁, h₁, hfollows⟩ := edit_applies h hn hcurrent
      (fun n => { n with attributesFetched := true })
      ⟨⟨rfl, rfl, rfl, rfl⟩, rfl, rfl, rfl, rfl, fun _ => Or.inr hstarted,
        fun hnot => absurd hcurrent hnot⟩
    obtain ⟨n₁, hn₁, -⟩ := hfollows.kept _ n hn
    simp only [Option.bind_eq_bind, Option.bind_some, hf₁]
    refine Applies.after ?_ hfollows
    split
    · split
      · exact setStatus_applies h₁ hn₁ hcurrent _
      · exact Applies.refl h₁
    · exact setFetchedAttribute_applies h₁ hn₁ hcurrent _ _
  · rw [hanswered]
    exact Applies.refl h

/-! ## §5  References -/

/-- A description as `GetFetchReferences` makes them. -/
def Issued (V : Type) (description : BrowseDescription) : Prop :=
  description.nodeId ≠ .null ∧ ∃ n : FetchingNode V, description ∈ getFetchReferences n

/-- **The references that fail a check**: any in the inverse browse for references that
are not hierarchical, and a child that is the node itself. -/
def Refused (description : BrowseDescription) (reference : ReferenceDescription) : Prop :=
  reference.referenceTypeId ≠ .null ∧ reference.nodeId ≠ .null ∧
    (description.direction = .inverse ∧
        description.referenceTypeId = StandardId.nonHierarchicalReferences ∨
      description.direction = .forward ∧ description.referenceTypeId = StandardId.aggregates ∧
        reference.forward = true ∧ reference.referenceTypeId ≠ StandardId.hasSubtype ∧
        reference.nodeId = description.nodeId)

instance (description : BrowseDescription) (reference : ReferenceDescription) :
    Decidable (Refused description reference) := inferInstanceAs (Decidable (_ ∧ _ ∧ _))

/-- The four browses. -/
theorem mem_getFetchReferences {description : BrowseDescription}
    (h : description ∈ getFetchReferences n) :
    description = ⟨n.nodeState.nodeId, .forward, StandardId.aggregates⟩ ∨
      description = ⟨n.nodeState.nodeId, .forward, StandardId.nonHierarchicalReferences⟩ ∨
      description = ⟨n.nodeState.nodeId, .inverse, StandardId.nonHierarchicalReferences⟩ ∨
      description = ⟨n.nodeState.nodeId, .inverse, StandardId.hierarchicalReferences⟩ := by
  simp only [getFetchReferences, List.mem_append] at h
  rcases h with ((h | h) | h) | h <;> split at h <;> simp_all

variable {description : BrowseDescription} {reference : ReferenceDescription}

section

variable (h : f.Sound) (hn : f.node id = some n) (hcurrent : id ∈ current)
include h hn hcurrent

/-- The parent or the supertype, in answer to the browse for them. -/
theorem addInverseReference_applies (hinverse : isInverseReference description.referenceTypeId) :
    Applies current f (f.addInverseReference validator id description reference) := by
  rw [addInverseReference, check_of hinverse]
  simp only [Option.bind_eq_bind, Option.bind_some]
  split
  · exact Applies.refl h
  · obtain ⟨f₁, hf₁, h₁, hfollows⟩ := editState_applies h hn hcurrent
      (fun state =>
        if reference.referenceTypeId = StandardId.hasSubtype then
          { state with supertypeId := reference.nodeId }
        else
          { state with
            parentId := reference.nodeId
            referenceTypeId := reference.referenceTypeId })
      (by split <;> rfl)
    obtain ⟨n₁, hn₁, -⟩ := hfollows.kept _ n hn
    rw [hf₁]
    exact (validateDependency_applies validator h₁ hn₁ hcurrent _).after hfollows

theorem addForwardReference_applies
    (htype : description.referenceTypeId = StandardId.nonHierarchicalReferences) :
    Applies current f (f.addForwardReference validator id description reference) := by
  rw [addForwardReference, check_of htype]
  simp only [Option.bind_eq_bind, Option.bind_some]
  split
  · exact Applies.refl h
  · obtain ⟨f₁, hf₁, h₁, hfollows⟩ := editState_applies h hn hcurrent
      (fun state =>
        if reference.referenceTypeId = StandardId.hasTypeDefinition then
          { state with typeDefinitionId := reference.nodeId }
        else if reference ∈ state.references then state
        else { state with references := state.references ++ [reference] })
      (by split; rfl; split <;> rfl)
    obtain ⟨n₁, hn₁, -⟩ := hfollows.kept _ n hn
    rw [hf₁]
    exact (validateDependency_applies validator h₁ hn₁ hcurrent _).after hfollows

end

theorem rewrites_toldParent (child : FetchingNode V) (p : Prop) (parentId : NodeId)
    (force : Bool) : Rewrites p child (toldParent reference parentId force child) :=
  ⟨⟨rfl, rfl, rfl, rfl⟩, rfl, rfl, rfl, rfl, Or.inl, fun _ => ⟨rfl, rfl, rfl, rfl, rfl, rfl⟩⟩

theorem rewrites_toldProperty (child : FetchingNode V) (p : Prop) (isDeclaration : Bool) :
    Rewrites p child (toldProperty isDeclaration child) :=
  ⟨⟨rfl, rfl, rfl, rfl⟩, rfl, rfl, rfl, rfl, Or.inl, fun _ => ⟨rfl, rfl, rfl, rfl, rfl, rfl⟩⟩

theorem tellChild_spec (h : f.Sound) (hn : f.node id = some n) (hcurrent : id ∈ current)
    (hchild : reference.nodeId ≠ .null) :
    ∃ f' child, f.tellChild validator id description reference = some f' ∧ f'.Sound ∧
      f'.node reference.nodeId = some child ∧
      Effect current (insert reference.nodeId (namedBy current f')) f f' := by
  obtain ⟨f₁, child₁, hf₁, h₁, hchild₁, he₁⟩ := addNode_spec current h hchild
  obtain ⟨n₁, hn₁, -⟩ := he₁.kept id n hn
  obtain ⟨f₂, hf₂, h₂, hchild₂, he₂⟩ := edit_spec current h₁ hchild₁
    (toldParent reference description.nodeId n₁.force) (rewrites_toldParent child₁ _ _ _)
  obtain ⟨n₂, hn₂, -⟩ := he₂.kept id n₁ hn₁
  rw [tellChild, hf₁]
  simp only [Option.bind_eq_bind, Option.bind_some, hn₁, hf₂]
  split
  · obtain ⟨f₃, hf₃, h₃, hchild₃, he₃⟩ := edit_spec current h₂ hchild₂
      (toldProperty n₁.nodeState.nodeClass.isTypeDefinition) (rewrites_toldProperty _ _ _)
    obtain ⟨n₃, hn₃, -⟩ := he₃.kept id n₂ hn₂
    obtain ⟨f₄, hf₄, h₄, he₄⟩ :=
      validateDependency_applies validator h₃ hn₃ hcurrent StandardId.propertyType
    obtain ⟨child₄, hchild₄, -⟩ := he₄.kept _ _ hchild₃
    rw [hf₃]
    refine ⟨f₄, child₄, hf₄, h₄, hchild₄, (((he₁.trans he₂).trans he₃).trans he₄).mono ?_⟩
    rintro m (((rfl | rfl) | rfl) | hm) -
    · exact Or.inl rfl
    · exact Or.inl rfl
    · exact Or.inl rfl
    · exact Or.inr hm
  · refine ⟨f₂, _, rfl, h₂, hchild₂, (he₁.trans he₂).mono ?_⟩
    rintro m (rfl | rfl) -
    · exact Or.inl rfl
    · exact Or.inl rfl

/-- **A child** is linked to its parent unless it is the parent itself. -/
theorem addChild_appliesIff (h : f.Sound) (hn : f.node id = some n) (hcurrent : id ∈ current)
    (hchild : reference.nodeId ≠ .null) :
    AppliesIff (¬ (reference.forward = true ∧ reference.referenceTypeId ≠ StandardId.hasSubtype ∧
      reference.nodeId = id)) current f (f.addChild validator id description reference) := by
  unfold addChild
  split
  · rename_i hskipped
    refine AppliesIff.of_applies (Applies.refl h) ?_
    rintro ⟨hforward, htype, -⟩
    rcases hskipped with hskipped | hskipped
    · rw [hforward] at hskipped
      cases hskipped
    · exact htype hskipped
  · rename_i hchildren
    rw [not_or, Bool.not_eq_false] at hchildren
    obtain ⟨f₁, child₁, hf₁, h₁, hchild₁, he₁⟩ := tellChild_spec h hn hcurrent hchild
    obtain ⟨n₁, hn₁, -⟩ := he₁.kept id n hn
    simp only [Option.bind_eq_bind]
    rw [hf₁, Option.bind_some]
    constructor
    · intro hself
      have hne : reference.nodeId ≠ id := fun heq => hself ⟨hchildren.1, hchildren.2, heq⟩
      obtain ⟨f₂, hf₂, h₂, he₂, -⟩ := addDependency_spec current h₁ hchild₁ hn₁ hne
      obtain ⟨n₂, hn₂, -⟩ := he₂.kept id n₁ hn₁
      obtain ⟨child₂, hchild₂, -⟩ := he₂.kept _ child₁ hchild₁
      obtain ⟨f₃, hf₃, h₃, he₃, hdepends⟩ := addDependency_spec current h₂ hn₂ hchild₂ hne.symm
      obtain ⟨n₃, hn₃, -⟩ := he₃.kept id n₂ hn₂
      obtain ⟨child₃, hchild₃, -⟩ := he₃.kept _ child₂ hchild₂
      obtain ⟨f₄, hf₄, h₄, he₄⟩ := schedule_spec current h₃ hchild₃ n₃.pendingSequence
      rw [hf₂, Option.bind_some, hf₃, Option.bind_some, hn₃, Option.bind_some]
      refine ⟨f₄, hf₄, h₄, (((he₁.trans he₂).trans he₃).trans he₄).follows ?_⟩
      have hnamed : reference.nodeId ∈ namedBy current f₄ :=
        ⟨id, hcurrent, he₄.links id _ hdepends⟩
      rintro m ((((rfl | ⟨a, ha, hm⟩) | rfl | rfl) | rfl | rfl) | rfl)
      · exact Or.inr hnamed
      · exact Or.inr ⟨a, ha, he₄.links a m (he₃.links a m (he₂.links a m hm))⟩
      · exact Or.inr hnamed
      · exact Or.inl hcurrent
      · exact Or.inl hcurrent
      · exact Or.inr hnamed
      · exact Or.inr hnamed
    · intro hself
      obtain ⟨-, -, heq⟩ := not_not.mp hself
      -- `AddDependency` checks that the nodes differ.
      have hfails : f₁.addDependency reference.nodeId id = none := by
        rw [addDependency, FetchingNodeGraph.addDependency, heq]
        simp [check]
      rw [hfails]
      rfl

/-- **`AddFetchedReference`** in answer to a browse that was issued. -/
theorem addFetchedReference_appliesIff (h : f.Sound) (hn : f.node description.nodeId = some n)
    (hcurrent : description.nodeId ∈ current) (hissued : Issued V description) :
    AppliesIff (¬ Refused description reference) current f
      (f.addFetchedReference validator description.nodeId description reference) := by
  unfold addFetchedReference
  split
  · rename_i hnull
    refine AppliesIff.of_applies (setStatus_applies h hn hcurrent _) ?_
    rintro ⟨htype, hnode, -⟩
    exact hnull.elim htype hnode
  · rename_i hnull
    rw [not_or] at hnull
    obtain ⟨f₁, hf₁, h₁, hfollows⟩ :=
      validateDependency_applies validator h hn hcurrent reference.referenceTypeId
    obtain ⟨n₁, hn₁, -⟩ := hfollows.kept _ n hn
    rw [hf₁]
    refine AppliesIff.after ?_ hfollows
    obtain ⟨-, issuer, hissued⟩ := hissued
    rcases mem_getFetchReferences hissued with heq | heq | heq | heq
    all_goals
      have hdirection := congrArg BrowseDescription.direction heq
      have htype := congrArg BrowseDescription.referenceTypeId heq
      simp only at hdirection htype
      simp only [Option.bind_eq_bind, Option.bind_some, hdirection, htype]
    · rw [if_pos trivial]
      refine (addChild_appliesIff h₁ hn₁ hcurrent hnull.2).congr ?_
      simp [Refused, hdirection, htype, hnull]
    · rw [if_neg (by decide)]
      refine AppliesIff.of_applies (addForwardReference_applies h₁ hn₁ hcurrent htype) ?_
      rintro ⟨-, -, ⟨hinverse, -⟩ | ⟨-, haggregates, -⟩⟩
      · rw [hdirection] at hinverse
        cases hinverse
      · rw [htype] at haggregates
        exact absurd haggregates (by decide)
    · -- The check on the description fails.
      have hrefused : Refused description reference :=
        ⟨hnull.1, hnull.2, Or.inl ⟨hdirection, htype⟩⟩
      have hnot : ¬ isInverseReference description.referenceTypeId := by
        rw [htype]
        decide
      refine ⟨fun hok => absurd hrefused hok, fun _ => ?_⟩
      rw [addInverseReference, check, if_neg hnot]
      rfl
    · have hinverse : isInverseReference description.referenceTypeId := Or.inl htype
      refine AppliesIff.of_applies (addInverseReference_applies h₁ hn₁ hcurrent hinverse) ?_
      rintro ⟨-, -, ⟨-, hnonHierarchical⟩ | ⟨hforward, -⟩⟩
      · rw [htype] at hnonHierarchical
        exact absurd hnonHierarchical (by decide)
      · rw [hdirection] at hforward
        cases hforward

/-! ## §6  Whole answers -/

/-- **`ApplyBrowseResult`** in answer to a browse that was issued. -/
theorem applyBrowseResult_appliesIff (h : f.Sound) (hissued : Issued V description)
    (result : BrowseResult) :
    AppliesIff (description.nodeId ∈ f.currentNodes requestId → ¬ result.statusCode.IsBad →
        ∀ reference ∈ result.references, ¬ Refused description reference)
      (f.currentNodes requestId) f
      (f.applyBrowseResult validator requestId description result) := by
  rw [applyBrowseResult]
  rcases answered_cases hissued.1 with ⟨n, hanswered, hn, hstarted, hcurrent⟩ | ⟨hanswered, hnot⟩
  · rw [hanswered]
    obtain ⟨f₁, hf₁, h₁, hfollows⟩ := edit_applies h hn hcurrent
      (fun n => { n with referencesFetched := true })
      ⟨⟨rfl, rfl, rfl, rfl⟩, rfl, rfl, rfl, rfl, Or.inl, fun hnot => absurd hcurrent hnot⟩
    obtain ⟨n₁, hn₁, -⟩ := hfollows.kept _ n hn
    simp only [Option.bind_eq_bind, Option.bind_some, hf₁]
    refine AppliesIff.after ?_ hfollows
    split
    · rename_i hbad
      exact AppliesIff.of_applies (setStatus_applies h₁ hn₁ hcurrent _)
        fun _ hgood => absurd hbad hgood
    · rename_i hgood
      refine (foldlM_appliesIff (¬ Refused description ·)
        (fun f => ∃ n, f.node description.nodeId = some n)
        (fun _ _ hfollows => hfollows.exists_node) (fun _ _ _ h ⟨n, hn⟩ =>
        addFetchedReference_appliesIff h hn hcurrent hissued) h₁ ⟨n₁, hn₁⟩).congr ?_
      exact ⟨fun hok => hok hcurrent hgood, fun hok _ _ => hok⟩
  · rw [hanswered]
    exact AppliesIff.of_applies (Applies.refl h) fun hcurrent => absurd hcurrent hnot

theorem mem_of_mem_pairs {α β : Type} {reply : Reply α} {failed : Status → α} {items : List β}
    {pair : β × α} (h : pair ∈ reply.pairs failed items) : pair.1 ∈ items := by
  unfold Reply.pairs at h
  split at h
  · obtain ⟨item, hitem, rfl⟩ := List.mem_map.mp h
    exact hitem
  · exact (List.of_mem_zip h).1

/-- **The results of a read** fail no check. -/
theorem applyReadResults_applies (h : f.Sound) (nullVariant : V) {readIds : List ReadValueId}
    (hids : ∀ readId ∈ readIds, readId.nodeId ≠ .null) (reply : Reply (ReadResult V)) :
    Applies (f.currentNodes requestId) f
      (f.applyReadResults values nullVariant validator requestId readIds reply) := by
  refine (foldlM_appliesIff (fun _ => True) (currentNodes · requestId = f.currentNodes requestId)
    (fun _ _ hfollows heq => hfollows.currentNodes_eq.trans heq) ?_ h rfl).applies fun _ _ => trivial
  intro pair hpair f₁ h₁ heq
  rw [← heq]
  exact AppliesIff.of_applies
    (applyReadResult_applies h₁ (hids pair.1 (mem_of_mem_pairs hpair)) pair.2) trivial

/-- **The references of an answer that are applied are not refused**. -/
def Accepts (f : NodeFetcherImpl V) (requestId : ℕ) (descriptions : List BrowseDescription)
    (reply : Reply BrowseResult) : Prop :=
  ∀ pair ∈ reply.pairs (fun status => ⟨status, []⟩) descriptions,
    pair.1.nodeId ∈ f.currentNodes requestId → ¬ pair.2.statusCode.IsBad →
      ∀ reference ∈ pair.2.references, ¬ Refused pair.1 reference

/-- **The results of a browse.** -/
theorem applyBrowseResults_appliesIff (h : f.Sound) {descriptions : List BrowseDescription}
    (hissued : ∀ description ∈ descriptions, Issued V description) (reply : Reply BrowseResult) :
    AppliesIff (f.Accepts requestId descriptions reply) (f.currentNodes requestId) f
      (f.applyBrowseResults validator requestId descriptions reply) := by
  refine foldlM_appliesIff _ (currentNodes · requestId = f.currentNodes requestId)
    (fun _ _ hfollows heq => hfollows.currentNodes_eq.trans heq) ?_ h rfl
  intro pair hpair f₁ h₁ heq
  rw [← heq]
  exact applyBrowseResult_appliesIff h₁ (hissued pair.1 (mem_of_mem_pairs hpair)) pair.2

end ScadaCommon.NodeFetcherImpl
