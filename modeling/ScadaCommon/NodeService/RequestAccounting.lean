import Mathlib.Data.List.Perm.Subperm
import ScadaCommon.NodeService.FetcherAnswers

/-!
# Requests and answers

Over every interleaving of calls and answers the fetcher counts its requests, leaves no
node in the queue while nothing is under way, and applies an answer to the nodes that it
is for.

§1 calls · §2 batches · §3 the invariant · §4 its steps · §5 every run.
-/

namespace ScadaCommon.NodeFetcherImpl

open Foundation
open AddressSpace (ReferenceDescription)
open NodeFetchStatus (Includes)

variable {V : Type} {f f' f₁ f₂ : NodeFetcherImpl V} {id m : NodeId} {n n' : FetchingNode V}

/-! ## §1  Calls -/

/-- **`Fetch`.** -/
theorem fetch_spec (h : f.Sound) (hid : id ≠ .null) {status : NodeFetchStatus}
    (hstatus : Includes status .nodeOnly) (force : Bool) :
    ∃ f' scheduled, f.fetch id status force = some (f', scheduled) ∧ f'.Sound ∧
      SameControl f f' ∧ (scheduled = false → f'.pendingQueue = f.pendingQueue) ∧
      ∀ m, (f.node m).isSome → (f'.node m).isSome := by
  obtain ⟨f₁, n, hf₁, h₁, hn, heffect⟩ := addNode_spec ∅ h hid
  have hqueue : f₁.pendingQueue = f.pendingQueue := by
    obtain ⟨g, -, rfl⟩ := Option.map_eq_some_iff.mp hf₁
    rfl
  have hnext : Sound { f₁ with nextPendingSequence := (f₁.nextPendingSequence + 1) % 2 ^ 32 } :=
    ⟨h₁.linked, h₁.nonnull, h₁.nodes, h₁.queued, h₁.nodup⟩
  obtain ⟨f₂, scheduled, hf₂, h₂, hcontrol, hskipped, hkept⟩ :=
    fetchNode_spec f₁.nextPendingSequence force hnext hn hstatus
  have hcontrol : SameControl f₁ f₂ := ⟨hcontrol.1, hcontrol.2, hcontrol.3⟩
  refine ⟨f₂, scheduled, ?_, h₂, heffect.control.trans hcontrol,
    fun hs => (hskipped hs).trans hqueue, fun m hm => hkept m ?_⟩
  · rw [fetch, check_of hid, check_of hstatus, hf₁]
    exact hf₂
  · rw [Option.isSome_iff_exists] at hm ⊢
    exact heffect.exists_node hm

/-- Complete nodes have been started, and are not in the queue. -/
theorem Sound.complete (h : f.Sound) (hcomplete : f.fetchingNodes.Complete id) :
    id ∉ f.pendingQueue ∧ ∀ n, f.node id = some n → n.fetchStarted ≠ .none := by
  obtain ⟨n, hn, hfetched⟩ := hcomplete.self
  have hsound := h.nodes id n hn
  rw [FetchingNode.fetched, Bool.and_eq_true] at hfetched
  have hstarted := hsound.started hfetched.1
  constructor
  · intro hmem
    exact hstarted (hsound.waiting (hsound.pending.mpr hmem)).1
  · intro n' hn'
    rw [show f.node id = some n from hn] at hn'
    cases hn'
    exact hstarted

/-- **`NotifyFetchedNodes`.** -/
theorem notifyFetchedNodes_spec (h : f.Sound) :
    ∃ f' notified, f.notifyFetchedNodes = some (f', notified) ∧ f'.Sound ∧ SameControl f f' := by
  obtain ⟨hruns, hresult⟩ := FetchingNodeGraph.getFetchedNodes_spec h.linked
  obtain ⟨⟨g, result⟩, hg⟩ := hruns.mpr fun id n hn hcomplete => (h.complete hcomplete).2 n hn
  obtain ⟨hlinked, hreduced, -⟩ := hresult g result hg
  refine ⟨{ f with fetchingNodes := g }, _, by rw [notifyFetchedNodes, hg]; rfl, ?_, ⟨rfl, rfl, rfl⟩⟩
  refine h.restrict hlinked ?_ (fun _ _ _ => Iff.rfl) ?_ h.nodup
  · intro m n' hn'
    have hm : m ∉ {id | f.fetchingNodes.Complete id} := by
      intro hm
      rw [hreduced.missing m hm] at hn'
      cases hn'
    have hkept := hreduced.kept m hm
    rw [hn', Option.map_some] at hkept
    obtain ⟨n, hn, hcontent⟩ := Option.map_eq_some_iff.mp hkept.symm
    exact ⟨n, hn, hcontent.symm⟩
  · intro m hm
    obtain ⟨n, hn⟩ := h.queued m hm
    obtain ⟨n', hn', -⟩ := hreduced.exists_node (fun hcomplete => (h.complete hcomplete).1 hm) hn
    exact ⟨n', hn'⟩

theorem Sound.unqueued (h : f.Sound) (hn : f.node id = some n) :
    Sound { f with
      fetchingNodes := f.fetchingNodes.write id { n with pending := false }
      pendingQueue := f.pendingQueue.erase id } := by
  have hsound := h.nodes id n hn
  have hnot : id ∉ f.pendingQueue.erase id := h.nodup.not_mem_erase
  have hnode : NodeSound (f.pendingQueue.erase id) id { n with pending := false } :=
    ⟨⟨nofun, fun hmem => absurd hmem hnot⟩, nofun, hsound.started, hsound.nodeOnly⟩
  have hlinks : FetchingNodeGraph.SameLinks n { n with pending := false } :=
    ⟨rfl, rfl, rfl, rfl⟩
  exact h.write hn hlinks hnode (fun m hne => List.mem_erase_of_ne hne) (h.nodup.erase id)

theorem eraseFromQueue_spec (h : f.Sound) (hn : f.node id = some n) :
    ∃ f', f.eraseFromQueue id = some f' ∧ f'.Sound ∧ SameControl f f' ∧ id ∉ f'.pendingQueue := by
  have hsound := h.nodes id n hn
  rw [eraseFromQueue, hn]
  simp only [Option.bind_eq_bind, Option.bind_some]
  split
  · rename_i hpending
    rw [check_of (hsound.pending.mp hpending), node_of_edit hn]
    exact ⟨_, rfl, h.unqueued hn, ⟨rfl, rfl, rfl⟩, h.nodup.not_mem_erase⟩
  · rename_i hpending
    have hnot : id ∉ f.pendingQueue := fun hmem => hpending (hsound.pending.mpr hmem)
    rw [check_of hnot]
    exact ⟨f, rfl, h, SameControl.refl f, hnot⟩

/-- **`Cancel`.** -/
theorem cancel_spec (h : f.Sound) (hid : id ≠ .null) :
    ∃ r, f.cancel id = some r ∧ ∀ f' notified, r = some (f', notified) →
      f'.Sound ∧ SameControl f f' := by
  rw [cancel, FetchingNodeGraph.findNode, check_of hid]
  simp only [Option.bind_eq_bind, Option.bind_some]
  cases hn : f.node id with
  | none =>
      rw [show f.fetchingNodes.node id = none from hn]
      refine ⟨none, rfl, fun f' notified hr => ?_⟩
      cases hr
  | some n =>
      rw [show f.fetchingNodes.node id = some n from hn]
      obtain ⟨f₁, hf₁, h₁, hcontrol₁, hunqueued⟩ := eraseFromQueue_spec h hn
      obtain ⟨g, hg, hlinked, hnodes⟩ := FetchingNodeGraph.removeNode_spec h₁.linked id
      have h₂ : Sound { f₁ with fetchingNodes := g } := by
        refine h₁.restrict hlinked ?_ (fun _ _ _ => Iff.rfl) ?_ h₁.nodup
        · intro m n' hn'
          rw [hnodes] at hn'
          split at hn'
          · cases hn'
          · obtain ⟨n, hn, heq⟩ := Option.map_eq_some_iff.mp hn'
            refine ⟨n, hn, ?_⟩
            rw [← heq]
            rfl
        · intro m hm
          obtain ⟨n', hn'⟩ := h₁.queued m hm
          have hne : m ≠ id := by
            rintro rfl
            exact hunqueued hm
          refine ⟨n'.without id, ?_⟩
          rw [hnodes, if_neg hne, show f₁.fetchingNodes.node m = some n' from hn', Option.map_some]
      obtain ⟨f₃, notified, hf₃, h₃, hcontrol₃⟩ := notifyFetchedNodes_spec h₂
      simp only [pure, Option.bind_some, hf₁, hg, hf₃]
      refine ⟨_, rfl, ?_⟩
      rintro f' b ⟨rfl, rfl⟩
      exact ⟨h₃, hcontrol₁.trans ⟨hcontrol₃.1, hcontrol₃.2, hcontrol₃.3⟩⟩

/-- **`OnReadResult` and `OnBrowseResult`**, whatever is applied. -/
theorem onResult_spec {ok : Prop} {current : Set NodeId}
    (apply : NodeFetcherImpl V → Option (NodeFetcherImpl V)) (hidle : f.processingResponse = false)
    (hcount : 0 < f.runningRequestCount)
    (happly : AppliesIff ok current { f with processingResponse := true }
      (apply { f with processingResponse := true })) :
    ((∃ r, f.onResult apply = some r) ↔ ok) ∧
      ∀ f' notified, f.onResult apply = some (f', notified) → f'.Sound ∧
        f'.runningRequestCount = f.runningRequestCount - 1 ∧ f'.processingResponse = false ∧
        f'.drainingPendingQueue = f.drainingPendingQueue := by
  rw [onResult, check_of hidle]
  simp only [Option.bind_eq_bind, Option.bind_some]
  by_cases hok : ok
  · obtain ⟨f₁, hf₁, h₁, hfollows⟩ := happly.applies hok
    have hrunning : f₁.runningRequestCount = f.runningRequestCount :=
      hfollows.control.runningRequestCount
    have h₂ : Sound { f₁ with
        processingResponse := false
        runningRequestCount := f₁.runningRequestCount - 1 } :=
      ⟨h₁.linked, h₁.nonnull, h₁.nodes, h₁.queued, h₁.nodup⟩
    obtain ⟨f₂, b, hf₂, h₃, hcontrol⟩ := notifyFetchedNodes_spec h₂
    rw [hf₁, Option.bind_some, check_of (hrunning ▸ hcount), Option.bind_some, hf₂]
    refine ⟨iff_of_true ⟨_, rfl⟩ hok, ?_⟩
    rintro f' notified ⟨rfl, rfl⟩
    refine ⟨h₃, ?_, hcontrol.processingResponse, ?_⟩
    · exact hcontrol.runningRequestCount.trans (congrArg (· - 1) hrunning)
    · exact hcontrol.drainingPendingQueue.trans hfollows.control.drainingPendingQueue
  · rw [happly.fails hok]
    constructor
    · refine iff_of_false ?_ hok
      rintro ⟨r, hr⟩
      cases hr
    · intro f' notified hr
      cases hr

/-! ## §2  Batches -/

/-- The nodes stay, and so does the queue. -/
structure Keeps (f f' : NodeFetcherImpl V) : Prop where
  sound : f'.Sound
  control : SameControl f f'
  pendingQueue : f'.pendingQueue = f.pendingQueue
  nodes : ∀ m, (f.node m).isSome → (f'.node m).isSome

theorem Keeps.refl (h : f.Sound) : Keeps f f := ⟨h, SameControl.refl f, rfl, fun _ hm => hm⟩

theorem Keeps.trans (h : Keeps f f₁) (h' : Keeps f₁ f₂) : Keeps f f₂ :=
  ⟨h'.sound, h.control.trans h'.control, h'.pendingQueue.trans h.pendingQueue,
    fun m hm => h'.nodes m (h.nodes m hm)⟩

theorem isSome_node_write (hm : (f.node m).isSome) :
    ((f.fetchingNodes.write id n).node m).isSome := by
  rw [FetchingNodeGraph.node_write]
  split
  · rfl
  · exact hm

theorem edit_keeps (h : f.Sound) (hn : f.node id = some n)
    (change : FetchingNode V → FetchingNode V)
    (hlinks : FetchingNodeGraph.SameLinks n (change n))
    (hnode : NodeSound f.pendingQueue id (change n)) :
    ∃ f', f.edit id change = some f' ∧ Keeps f f' :=
  ⟨_, node_of_edit hn, h.write hn hlinks hnode (fun _ _ => Iff.rfl) h.nodup, ⟨rfl, rfl, rfl⟩, rfl,
    fun _ hm => isSome_node_write hm⟩

/-- A node of the queue is started. -/
theorem popNode_spec (h : f.Sound) (hid : id ∈ f.pendingQueue) :
    ∃ f', f.popNode id = some f' ∧ f'.Sound ∧ SameControl f f' ∧
      f'.pendingQueue = f.pendingQueue.erase id ∧ ∀ m, (f.node m).isSome → (f'.node m).isSome := by
  obtain ⟨n, hn⟩ := h.queued id hid
  have hsound := h.nodes id n hn
  have hpending := hsound.pending.mpr hid
  obtain ⟨hstarted, hstatus⟩ := hsound.waiting hpending
  have hwanted : n.pendingStatus ≠ .none := by
    intro heq
    rw [heq] at hstatus
    exact absurd hstatus (Finset.notMem_empty _)
  have hn₁ : node { f with
      fetchingNodes := f.fetchingNodes.write id { n with pending := false }
      pendingQueue := f.pendingQueue.erase id } id = some { n with pending := false } :=
    FetchingNodeGraph.node_write.trans (if_pos rfl)
  obtain ⟨f', hf', hkeeps⟩ := edit_keeps (h.unqueued hn) hn₁
    (fun node => { node with fetchStarted := node.pendingStatus }) ⟨rfl, rfl, rfl, rfl⟩
    ⟨⟨nofun, fun hmem => absurd hmem h.nodup.not_mem_erase⟩, nofun, fun _ => hwanted,
      fun _ => hstatus⟩
  refine ⟨f', ?_, hkeeps.sound, ⟨hkeeps.control.1, hkeeps.control.2, hkeeps.control.3⟩,
    hkeeps.pendingQueue, fun m hm => hkeeps.nodes m (isSome_node_write hm)⟩
  rw [popNode, hn]
  simp only [Option.bind_eq_bind, Option.bind_some]
  rw [check_of hpending, check_of hstarted, check_of hwanted, node_of_edit hn]
  exact hf'

theorem popNodes_spec {nodes : List NodeId} (h : f.Sound) (hnodup : nodes.Nodup)
    (hqueue : ∀ id ∈ nodes, id ∈ f.pendingQueue) :
    ∃ f', nodes.foldlM popNode f = some f' ∧ f'.Sound ∧ SameControl f f' ∧
      ∀ m, (f.node m).isSome → (f'.node m).isSome := by
  induction nodes generalizing f with
  | nil => exact ⟨f, rfl, h, SameControl.refl f, fun _ hm => hm⟩
  | cons id nodes ih =>
      obtain ⟨hnot, hnodup⟩ := List.nodup_cons.mp hnodup
      obtain ⟨f₁, hf₁, h₁, hcontrol₁, hqueue₁, hkept₁⟩ := popNode_spec h (hqueue id List.mem_cons_self)
      have hrest : ∀ m ∈ nodes, m ∈ f₁.pendingQueue := by
        intro m hm
        have hne : m ≠ id := by
          rintro rfl
          exact hnot hm
        rw [hqueue₁, List.mem_erase_of_ne hne]
        exact hqueue m (List.mem_cons_of_mem _ hm)
      obtain ⟨f₂, hf₂, h₂, hcontrol₂, hkept₂⟩ := ih h₁ hnodup hrest
      refine ⟨f₂, ?_, h₂, hcontrol₁.trans hcontrol₂, fun m hm => hkept₂ m (hkept₁ m hm)⟩
      rw [List.foldlM_cons, hf₁]
      exact hf₂

/-- A loop over nodes of the graph that edits them. -/
theorem foldlM_keeps {σ : Type} (fetcher : σ → NodeFetcherImpl V) (P : σ → Prop)
    (apply : σ → NodeId → Option σ) {nodes : List NodeId}
    (happly : ∀ id s n, (fetcher s).Sound → (fetcher s).node id = some n → P s →
      ∃ s', apply s id = some s' ∧ Keeps (fetcher s) (fetcher s') ∧ P s')
    {s : σ} (h : (fetcher s).Sound) (hnodes : ∀ id ∈ nodes, ((fetcher s).node id).isSome)
    (hs : P s) :
    ∃ s', nodes.foldlM apply s = some s' ∧ Keeps (fetcher s) (fetcher s') ∧ P s' := by
  induction nodes generalizing s with
  | nil => exact ⟨s, rfl, Keeps.refl h, hs⟩
  | cons id nodes ih =>
      obtain ⟨n, hn⟩ := Option.isSome_iff_exists.mp (hnodes id List.mem_cons_self)
      obtain ⟨s₁, hs₁, hkeeps₁, hP₁⟩ := happly id s n h hn hs
      obtain ⟨s₂, hs₂, hkeeps₂, hP₂⟩ := ih hkeeps₁.sound
        (fun id hid => hkeeps₁.nodes id (hnodes id (List.mem_cons_of_mem _ hid))) hP₁
      refine ⟨s₂, ?_, hkeeps₁.trans hkeeps₂, hP₂⟩
      rw [List.foldlM_cons, hs₁]
      exact hs₂

theorem getFetchAttributes_nodeId {readId : ReadValueId} (h : readId ∈ getFetchAttributes n) :
    readId.nodeId = n.nodeState.nodeId := by
  simp only [getFetchAttributes, List.mem_append, List.mem_cons, List.not_mem_nil, or_false] at h
  rcases h with (((rfl | rfl) | h) | rfl) | h
  · rfl
  · rfl
  · split at h <;> simp_all
  · rfl
  · split at h <;> simp_all

theorem getFetchReferences_nodeId {description : BrowseDescription}
    (h : description ∈ getFetchReferences n) : description.nodeId = n.nodeState.nodeId := by
  rcases mem_getFetchReferences h with heq | heq | heq | heq <;> rw [heq]

/-- The attributes of a node are always read. -/
@[simp] theorem getFetchAttributes_isEmpty (n : FetchingNode V) :
    (getFetchAttributes n).isEmpty = false := by
  simp [getFetchAttributes]

/-- Every node of a batch is edited, and something of it is collected. -/
theorem foldlM_collect {α : Type} (P : α → Prop) (change : FetchingNode V → FetchingNode V)
    (items : FetchingNode V → List α)
    (hlinks : ∀ n, FetchingNodeGraph.SameLinks n (change n))
    (hnode : ∀ queue id n, NodeSound queue id n → NodeSound queue id (change n))
    (hitems : ∀ n : FetchingNode V, n.nodeState.nodeId ≠ .null → ∀ item ∈ items n, P item)
    (h : f.Sound) {nodes : List NodeId} (hnodes : ∀ id ∈ nodes, (f.node id).isSome) :
    ∃ f' collected, nodes.foldlM (fun (f, collected) id => do
        let node ← f.node id
        let f ← f.edit id change
        return (f, collected ++ items node)) (f, []) = some (f', collected) ∧
      Keeps f f' ∧ ∀ item ∈ collected, P item := by
  have hloop := foldlM_keeps Prod.fst (fun s => ∀ item ∈ s.2, P item)
    (fun (f, collected) id => do
      let node ← f.node id
      let f ← f.edit id change
      return (f, collected ++ items node))
    (by
      rintro id ⟨f, collected⟩ n h hn hcollected
      obtain ⟨f', hf', hkeeps⟩ := edit_keeps h hn change (hlinks n) (hnode _ id n (h.nodes id n hn))
      refine ⟨(f', collected ++ items n), ?_, hkeeps, ?_⟩
      · simp only at hn hf'
        simp only [hn, Option.bind_eq_bind, Option.bind_some, hf']
        rfl
      · intro item hmem
        rcases List.mem_append.mp hmem with hmem | hmem
        · exact hcollected item hmem
        · refine hitems n ?_ item hmem
          rw [h.linked.nodeId id n hn]
          exact h.ne_null hn)
    (s := (f, [])) h hnodes nofun
  obtain ⟨⟨f', collected⟩, hrun, hkeeps, hcollected⟩ := hloop
  exact ⟨f', collected, hrun, hkeeps, hcollected⟩

/-- **A batch is begun.** -/
theorem beginBatch_spec (h : f.Sound) {nodes : List NodeId}
    (hnodes : ∀ id ∈ nodes, (f.node id).isSome) :
    ∃ f' requestId readIds, f.beginBatch nodes = some (f', requestId, readIds) ∧ f'.Sound ∧
      f'.runningRequestCount = f.runningRequestCount + kPrimitiveRequestCount ∧
      f'.processingResponse = f.processingResponse ∧
      f'.drainingPendingQueue = f.drainingPendingQueue ∧
      (∀ m, (f.node m).isSome → (f'.node m).isSome) ∧
      ∀ readId ∈ readIds, readId.nodeId ≠ .null := by
  have hmarked := foldlM_keeps (fun f => f) (fun _ => True)
    (fun g id => g.edit id fun node => { node with fetchRequestId := f.nextRequestId })
    (by
      intro id g n h hn _
      have hsound := h.nodes id n hn
      obtain ⟨g', hg', hkeeps⟩ := edit_keeps h hn
        (fun n => { n with fetchRequestId := f.nextRequestId })
        ⟨rfl, rfl, rfl, rfl⟩ ⟨hsound.pending, hsound.waiting, hsound.started, hsound.nodeOnly⟩
      exact ⟨g', hg', hkeeps, trivial⟩)
    (s := { f.makeRequestId.2 with
      runningRequestCount := f.runningRequestCount + kPrimitiveRequestCount })
    ⟨h.linked, h.nonnull, h.nodes, h.queued, h.nodup⟩ hnodes trivial
  obtain ⟨f₂, hf₂, hkeeps₂, -⟩ := hmarked
  obtain ⟨f₃, readIds, hf₃, hkeeps₃, hids⟩ := foldlM_collect (fun readId => readId.nodeId ≠ .null)
    (fun n : FetchingNode V => { n with attributesFetched := (getFetchAttributes n).isEmpty })
    getFetchAttributes (fun _ => ⟨rfl, rfl, rfl, rfl⟩)
    (fun _ _ n h => ⟨h.pending, h.waiting, by simp, h.nodeOnly⟩)
    (fun n hid readId hmem => getFetchAttributes_nodeId hmem ▸ hid) hkeeps₂.sound
    fun id hid => hkeeps₂.nodes id (hnodes id hid)
  refine ⟨f₃, f.nextRequestId, readIds, ?_, hkeeps₃.sound, ?_, ?_, ?_, ?_, hids⟩
  · unfold beginBatch
    simp only [makeRequestId] at hf₂ ⊢
    rw [hf₂]
    simp only [Option.bind_eq_bind, Option.bind_some] at hf₃ ⊢
    rw [hf₃]
    rfl
  · exact hkeeps₃.control.1.trans hkeeps₂.control.1
  · exact hkeeps₃.control.2.trans hkeeps₂.control.2
  · exact hkeeps₃.control.3.trans hkeeps₂.control.3
  · exact fun m hm => hkeeps₃.nodes m (hkeeps₂.nodes m hm)

/-- **The references of a batch are collected.** -/
theorem collectReferences_spec (h : f.Sound) {nodes : List NodeId}
    (hnodes : ∀ id ∈ nodes, (f.node id).isSome) :
    ∃ f' descriptions, f.collectReferences nodes = some (f', descriptions) ∧ Keeps f f' ∧
      ∀ description ∈ descriptions, Issued V description :=
  foldlM_collect (Issued V)
    (fun n => { n with referencesFetched := (getFetchReferences n).isEmpty })
    getFetchReferences (fun _ => ⟨rfl, rfl, rfl, rfl⟩)
    (fun _ _ _ h => ⟨h.pending, h.waiting, h.started, h.nodeOnly⟩)
    (fun n hid _ hmem => ⟨getFetchReferences_nodeId hmem ▸ hid, n, hmem⟩) h hnodes

/-! ## §3  The invariant -/

namespace Frame

/-- A browse is still to be made, with its batch already counted. -/
def browses : Frame → Bool
  | .references _ _ | .dangling => true
  | _ => false

def drains : Frame → Bool
  | .drain => true
  | _ => false

def request : Frame → Option Request
  | .spawned request => some request
  | _ => none

@[simp] theorem browses_checked (f : NodeFetcherImpl V) (frame : Frame) :
    (frame.checked f).browses = frame.browses := by
  unfold checked
  split
  · split <;> rfl
  · rfl

@[simp] theorem drains_checked (f : NodeFetcherImpl V) (frame : Frame) :
    (frame.checked f).drains = frame.drains := by
  unfold checked
  split
  · split <;> rfl
  · rfl

@[simp] theorem request_checked (f : NodeFetcherImpl V) (frame : Frame) :
    (frame.checked f).request = frame.request := by
  unfold checked
  split
  · split <;> rfl
  · rfl

end Frame

def Request.requestId : Request → ℕ
  | .read requestId _ | .browse requestId _ => requestId

/-- What a request asks for are nodes of the fetcher. -/
def Request.Issued (V : Type) : Request → Prop
  | .read _ readIds => ∀ readId ∈ readIds, readId.nodeId ≠ .null
  | .browse _ descriptions => ∀ description ∈ descriptions, NodeFetcherImpl.Issued V description

namespace Surroundings

structure Inv (s : Surroundings V) : Prop where
  sound : s.fetcher.Sound
  idle : s.fetcher.processingResponse = false
  /-- Two requests a batch, of which the browse may not have been made yet. -/
  count : s.fetcher.runningRequestCount = s.outstanding.length + s.stack.countP Frame.browses
  bound : s.fetcher.runningRequestCount ≤ kMaxParallelRequestCount
  drains : s.stack.countP Frame.drains = s.fetcher.drainingPendingQueue.toNat
  /-- Somebody will look at the queue. -/
  queue : s.fetcher.pendingQueue ≠ [] → ¬ HasBatch s.fetcher ∨ Frame.drain ∈ s.stack ∨
    Frame.fetchPendingNodes ∈ s.stack
  nodes : ∀ requestId nodes, Frame.references requestId nodes ∈ s.stack →
    ∀ id ∈ nodes, (s.fetcher.node id).isSome
  issued : ∀ request ∈ s.outstanding, request.Issued V
  spawned : List.Subperm (s.stack.filterMap Frame.request) s.outstanding

theorem Inv.init : Inv ({} : Surroundings V) where
  sound := ⟨FetchingNodeGraph.Linked.init, rfl, fun _ _ h => (nomatch h), nofun, List.nodup_nil⟩
  idle := rfl
  count := rfl
  bound := Nat.zero_le _
  drains := rfl
  queue := fun h => absurd rfl h
  nodes := fun _ _ h => nomatch h
  issued := nofun
  spawned := List.Subperm.refl _

/-- **After the handler is told**: whatever the stack was. -/
theorem Inv.notified {s : Surroundings V} {stack : List Frame} {f' : NodeFetcherImpl V}
    (hsound : f'.Sound) (hidle : f'.processingResponse = false)
    (hcount : f'.runningRequestCount = s.outstanding.length + stack.countP Frame.browses)
    (hbound : f'.runningRequestCount ≤ kMaxParallelRequestCount)
    (hdrains : stack.countP Frame.drains = f'.drainingPendingQueue.toNat)
    (hissued : ∀ request ∈ s.outstanding, request.Issued V)
    (hspawned : List.Subperm (stack.filterMap Frame.request) s.outstanding) (told : Bool) :
    Inv (s.notified stack (f', told)) := by
  have hbrowses : Frame.browses ∘ Frame.checked f' = Frame.browses :=
    funext (Frame.browses_checked f')
  have hdrain : Frame.drains ∘ Frame.checked f' = Frame.drains :=
    funext (Frame.drains_checked f')
  have hrequest : Frame.request ∘ Frame.checked f' = Frame.request :=
    funext (Frame.request_checked f')
  refine ⟨hsound, hidle, ?_, hbound, ?_, ?_, ?_, hissued, ?_⟩
  · simp only [Surroundings.notified]
    rw [hcount, List.countP_append, List.countP_map, hbrowses]
    cases told <;> simp [Frame.browses]
  · simp only [Surroundings.notified]
    rw [← hdrains, List.countP_append, List.countP_map, hdrain]
    cases told <;> simp [Frame.drains]
  · intro _
    refine Or.inr (Or.inr (List.mem_append_left _ ?_))
    cases told <;> simp
  · intro requestId nodes hmem
    have hmem : Frame.references requestId nodes ∈ stack.map (Frame.checked f') := by
      refine (List.mem_append.mp hmem).resolve_left ?_
      cases told <;> simp
    obtain ⟨frame, -, hframe⟩ := List.mem_map.mp hmem
    -- Only a batch whose nodes are all there is left as it is.
    unfold Frame.checked at hframe
    split at hframe
    · split at hframe
      · rename_i hall
        cases hframe
        exact hall
      · cases hframe
    · rename_i hother
      exact absurd hframe (hother requestId nodes)
  · simp only [Surroundings.notified]
    rw [List.filterMap_append, List.filterMap_map, hrequest]
    cases told <;> exact hspawned

/-! ## §4  Its steps -/

/-- No reference that is applied is refused. -/
def Accepted (f : NodeFetcherImpl V) (request : Request) (answer : Answer V) : Prop :=
  match request, answer with
  | .browse requestId descriptions, .browse reply => f.Accepts requestId descriptions reply
  | _, _ => True

/-- What the callers and the services are to keep to: ids are not null, a fetch includes
the node itself, no reference is refused, and no node of a batch goes away before its
references are collected. -/
def Ok (s : Surroundings V) : Action V → Prop
  | .fetch id status _ => id ≠ .null ∧ Includes status .nodeOnly
  | .cancel id => id ≠ .null
  | .complete request answer _ => Accepted s.fetcher request answer
  | .inline answer _ =>
      ∀ request, s.spawnedRequest = some request → Accepted s.fetcher request answer
  | .advance _ => s.stack.head? ≠ some .dangling
  | .handlerReturns => True
  | .suspend => True

variable {values : FetchedValues V} {nullVariant : V} {validator : NodeId → Bool}
  {s s' : Surroundings V} {request : Request} {answer : Answer V}

variable (values nullVariant validator answer) in
/-- **An answer** fails no check if and only if no reference that is applied is refused. -/
theorem applyAnswer_appliesIff (h : f.Sound) (hissued : request.Issued V) :
    AppliesIff (Accepted f request answer) (f.currentNodes request.requestId) f
      (applyAnswer values nullVariant validator f request answer) := by
  cases request with
  | read requestId readIds =>
      cases answer with
      | read reply =>
          exact AppliesIff.of_applies (applyReadResults_applies h nullVariant hissued reply) trivial
      | browse reply => exact AppliesIff.of_applies (Applies.refl h) trivial
  | browse requestId descriptions =>
      cases answer with
      | read reply => exact AppliesIff.of_applies (Applies.refl h) trivial
      | browse reply => exact applyBrowseResults_appliesIff h hissued reply

variable (values nullVariant validator answer) in
theorem onAnswer_spec (h : Inv s) (hmem : request ∈ s.outstanding) :
    ((∃ r, onAnswer values nullVariant s.fetcher request answer validator = some r) ↔
        Accepted s.fetcher request answer) ∧
      ∀ f' told, onAnswer values nullVariant s.fetcher request answer validator = some (f', told) →
        f'.Sound ∧ f'.runningRequestCount = s.fetcher.runningRequestCount - 1 ∧
        f'.processingResponse = false ∧
        f'.drainingPendingQueue = s.fetcher.drainingPendingQueue := by
  have hcount : 0 < s.fetcher.runningRequestCount := by
    have hpos := List.length_pos_of_mem hmem
    have hcount := h.count
    omega
  have hsound : Sound { s.fetcher with processingResponse := true } :=
    ⟨h.sound.linked, h.sound.nonnull, h.sound.nodes, h.sound.queued, h.sound.nodup⟩
  exact onResult_spec _ h.idle hcount (applyAnswer_appliesIff values nullVariant validator answer hsound (h.issued request hmem))

theorem Inv.fetch (h : Inv s) (id : NodeId) (status : NodeFetchStatus) (force : Bool) :
    (Ok s (.fetch id status force) →
      ∃ s', step values nullVariant s (.fetch id status force) = some s' ∧ Inv s') ∧
    (¬ Ok s (.fetch id status force) →
      step values nullVariant s (.fetch id status force) = none) := by
  constructor
  · rintro ⟨hid, hstatus⟩
    obtain ⟨f', scheduled, hf', hsound, hcontrol, hskipped, hkept⟩ :=
      fetch_spec h.sound hid hstatus force
    refine ⟨{ s with
      fetcher := f'
      stack := if scheduled then .fetchPendingNodes :: s.stack else s.stack }, ?_, hsound,
      hcontrol.2.trans h.idle, ?_, ?_, ?_, ?_, ?_, h.issued, ?_⟩
    · rw [step, hf']
      rfl
    · simp only
      rw [hcontrol.1, h.count]
      cases scheduled <;> simp [Frame.browses]
    · exact hcontrol.1.trans_le h.bound
    · simp only
      rw [hcontrol.3, ← h.drains]
      cases scheduled <;> simp [Frame.drains]
    · cases scheduled with
      | true => exact fun _ => Or.inr (Or.inr List.mem_cons_self)
      | false =>
          intro hqueue
          have hqueue : s.fetcher.pendingQueue ≠ [] := hskipped rfl ▸ hqueue
          simpa [HasBatch, hskipped rfl, hcontrol.1] using h.queue hqueue
    · intro requestId nodes hmem id hid
      refine hkept id (h.nodes requestId nodes ?_ id hid)
      cases scheduled <;> simpa using hmem
    · cases scheduled <;> exact h.spawned
  · intro hnot
    rw [step, NodeFetcherImpl.fetch]
    by_cases hid : id ≠ .null
    · have hstatus : ¬ Includes status .nodeOnly := fun hstatus => hnot ⟨hid, hstatus⟩
      rw [check_of hid, check, if_neg hstatus]
      rfl
    · rw [check, if_neg hid]
      rfl

theorem Inv.cancel (h : Inv s) (id : NodeId) :
    (Ok s (.cancel id) → ∃ s', step values nullVariant s (.cancel id) = some s' ∧ Inv s') ∧
    (¬ Ok s (.cancel id) → step values nullVariant s (.cancel id) = none) := by
  constructor
  · intro hid
    obtain ⟨r, hr, hresult⟩ := cancel_spec h.sound hid
    rw [step, hr]
    cases r with
    | none => exact ⟨s, rfl, h⟩
    | some r =>
        obtain ⟨hsound, hcontrol⟩ := hresult r.1 r.2 rfl
        refine ⟨_, rfl, Inv.notified hsound (hcontrol.2.trans h.idle) ?_ (hcontrol.1.trans_le h.bound)
          ?_ h.issued h.spawned r.2⟩
        · exact hcontrol.1.trans h.count
        · rw [hcontrol.3]
          exact h.drains
  · intro hid
    have hid : ¬ id ≠ .null := hid
    rw [step, NodeFetcherImpl.cancel, FetchingNodeGraph.findNode, check, if_neg hid]
    rfl

theorem Inv.drain_mem (h : Inv s) (hdraining : s.fetcher.drainingPendingQueue = true) :
    Frame.drain ∈ s.stack := by
  have hpos : 0 < s.stack.countP Frame.drains := by
    rw [h.drains, hdraining]
    exact Nat.one_pos
  obtain ⟨frame, hmem, hframe⟩ := List.countP_pos_iff.mp hpos
  cases frame <;> first | exact hmem | cases hframe

/-- What neither counts nor looks at the queue is done with. -/
theorem Inv.pop {frame : Frame} {stack : List Frame} (h : Inv s) (hstack : s.stack = frame :: stack)
    (hbrowses : frame.browses = false) (hdrains : frame.drains = false)
    (hqueue : frame = .fetchPendingNodes → s.fetcher.drainingPendingQueue = true) :
    Inv { s with stack } := by
  have hdrain : Frame.drain ∈ s.stack → Frame.drain ∈ stack := by
    intro hmem
    rw [hstack] at hmem
    refine (List.mem_cons.mp hmem).resolve_left ?_
    rintro rfl
    cases hdrains
  refine ⟨h.sound, h.idle, ?_, h.bound, ?_, ?_, ?_, h.issued, ?_⟩
  · rw [h.count, hstack, List.countP_cons_of_neg (by simp [hbrowses])]
  · rw [← h.drains, hstack, List.countP_cons_of_neg (by simp [hdrains])]
  · intro hne
    rcases h.queue hne with hbatch | hmem | hmem
    · exact Or.inl hbatch
    · exact Or.inr (Or.inl (hdrain hmem))
    · rw [hstack] at hmem
      rcases List.mem_cons.mp hmem with heq | hmem
      · exact Or.inr (Or.inl (hdrain (h.drain_mem (hqueue heq.symm))))
      · exact Or.inr (Or.inr hmem)
  · intro requestId nodes hmem
    refine h.nodes requestId nodes ?_
    rw [hstack]
    exact List.mem_cons_of_mem _ hmem
  · have hspawned := h.spawned
    rw [hstack] at hspawned
    exact ((List.sublist_cons_self frame stack).filterMap _).subperm.trans hspawned

theorem stack_of_spawnedRequest (h : s.spawnedRequest = some request) :
    ∃ stack, s.stack = .spawned request :: stack := by
  unfold spawnedRequest at h
  split at h
  · rename_i request' stack heq
    cases h
    exact ⟨stack, heq⟩
  · cases h

/-- An answer comes in, the rest of the stack being given. -/
theorem Inv.answered {stack : List Frame} (h : Inv s) (hmem : request ∈ s.outstanding)
    (hbrowses : stack.countP Frame.browses = s.stack.countP Frame.browses)
    (hdrains : stack.countP Frame.drains = s.stack.countP Frame.drains)
    (hspawned : List.Subperm (stack.filterMap Frame.request) (s.outstanding.erase request))
    {f' : NodeFetcherImpl V} {told : Bool}
    (hrun : onAnswer values nullVariant s.fetcher request answer validator = some (f', told)) :
    Inv (Surroundings.notified { s with outstanding := s.outstanding.erase request } stack (f', told)) := by
  obtain ⟨hsound, hrunning, hidle, hdraining⟩ := 
    (onAnswer_spec values nullVariant validator answer h hmem).2 f' told hrun
  have hpos := List.length_pos_of_mem hmem
  refine Inv.notified hsound hidle ?_ ?_ ?_ ?_ hspawned told
  · simp only
    rw [hrunning, h.count, hbrowses, List.length_erase_of_mem hmem]
    omega
  · rw [hrunning]
    exact (Nat.sub_le _ _).trans h.bound
  · rw [hdrains, h.drains, hdraining]
  · exact fun r hr => h.issued r (List.mem_of_mem_erase hr)

theorem Inv.complete (h : Inv s) (hen : Enabled s (.complete request answer validator)) :
    (Ok s (.complete request answer validator) →
      ∃ s', step values nullVariant s (.complete request answer validator) = some s' ∧ Inv s') ∧
    (¬ Ok s (.complete request answer validator) →
      step values nullVariant s (.complete request answer validator) = none) := by
  obtain ⟨hstack, hmem, -⟩ := hen
  have hiff := (onAnswer_spec values nullVariant validator answer h hmem).1
  constructor
  · intro hok
    obtain ⟨⟨f', told⟩, hrun⟩ := hiff.mpr hok
    refine ⟨_, by rw [step, hrun]; rfl, h.answered hmem rfl rfl ?_ hrun⟩
    rw [hstack]
    exact List.nil_subperm
  · intro hnot
    rw [step, Option.eq_none_iff_forall_ne_some.mpr fun r hr => hnot (hiff.mp ⟨r, hr⟩)]
    rfl

theorem Inv.inline (h : Inv s) (hen : Enabled s (.inline answer validator)) :
    (Ok s (.inline answer validator) →
      ∃ s', step values nullVariant s (.inline answer validator) = some s' ∧ Inv s') ∧
    (¬ Ok s (.inline answer validator) →
      step values nullVariant s (.inline answer validator) = none) := by
  obtain ⟨request, hrequest, -⟩ := (Option.any_eq_true _ _).mp hen
  obtain ⟨stack, hstack⟩ := stack_of_spawnedRequest hrequest
  have hrequests : List.Subperm (request :: stack.filterMap Frame.request) s.outstanding := by
    have hspawned := h.spawned
    rwa [hstack] at hspawned
  have hmem : request ∈ s.outstanding := hrequests.subset List.mem_cons_self
  have hok : Ok s (.inline answer validator) ↔ Accepted s.fetcher request answer := by
    simp [Ok, spawnedRequest, hstack]
  have hiff := (onAnswer_spec values nullVariant validator answer h hmem).1
  rw [hok]
  constructor
  · intro haccepted
    obtain ⟨⟨f', told⟩, hrun⟩ := hiff.mpr haccepted
    refine ⟨_, by rw [step, hstack]; simp only; rw [hrun]; rfl, h.answered hmem ?_ ?_ ?_ hrun⟩
    · rw [hstack]
      rfl
    · rw [hstack]
      rfl
    · simpa using hrequests.erase request
  · intro hnot
    rw [step, hstack]
    simp only
    rw [Option.eq_none_iff_forall_ne_some.mpr fun r hr => hnot (hiff.mp ⟨r, hr⟩)]
    rfl

theorem Inv.fetchPendingNodes {stack : List Frame} (h : Inv s)
    (hstack : s.stack = .fetchPendingNodes :: stack) (nodes : List NodeId) :
    ∃ s', s.advance nodes = some s' ∧ Inv s' := by
  unfold advance
  rw [hstack]
  simp only
  split
  · rename_i hguard
    have hdraining : s.fetcher.drainingPendingQueue = true := by
      rw [h.idle] at hguard
      exact hguard.resolve_left nofun
    exact ⟨_, rfl, h.pop hstack rfl rfl fun _ => hdraining⟩
  · rename_i hguard
    rw [not_or, Bool.not_eq_true, Bool.not_eq_true] at hguard
    have hcount := h.count
    have hdrains := h.drains
    have hspawned := h.spawned
    rw [hstack] at hcount hdrains hspawned
    simp only [List.countP_cons, Frame.browses, Frame.drains, Bool.false_eq_true, if_false,
      Nat.add_zero] at hcount hdrains
    refine ⟨_, rfl, ⟨h.sound.linked, h.sound.nonnull, h.sound.nodes, h.sound.queued,
      h.sound.nodup⟩, h.idle, hcount, h.bound, ?_, ?_, ?_, h.issued, hspawned⟩
    · simp only
      simp [List.countP_cons, Frame.drains, hdrains, hguard.2]
    · exact fun _ => Or.inr (Or.inl List.mem_cons_self)
    · intro requestId nodes hmem
      refine h.nodes requestId nodes ?_
      rw [hstack]
      simpa using hmem

theorem Inv.drain {stack : List Frame} {nodes : List NodeId} (h : Inv s)
    (hstack : s.stack = .drain :: stack)
    (hbatch : HasBatch s.fetcher → IsBatch s.fetcher nodes) :
    ∃ s', s.advance nodes = some s' ∧ Inv s' := by
  have hcount := h.count
  have hdrains := h.drains
  have hspawned := h.spawned
  rw [hstack] at hcount hdrains hspawned
  simp only [List.countP_cons, Frame.browses, Frame.drains, Bool.false_eq_true, if_true, if_false,
    Nat.add_zero] at hcount hdrains
  unfold advance
  rw [hstack]
  simp only
  split
  · rename_i hhas
    obtain ⟨hnodup, hqueue, -⟩ := hbatch hhas
    obtain ⟨f₁, hf₁, h₁, hcontrol₁, hkept₁⟩ := popNodes_spec h.sound hnodup hqueue
    have hnodes : ∀ id ∈ nodes, (f₁.node id).isSome := by
      intro id hid
      refine hkept₁ id (Option.isSome_iff_exists.mpr ?_)
      exact h.sound.queued id (hqueue id hid)
    obtain ⟨f₂, requestId, readIds, hf₂, h₂, hrunning₂, hidle₂, hdraining₂, hkept₂, hids⟩ :=
      beginBatch_spec h₁ hnodes
    have hrunning : f₂.runningRequestCount = s.fetcher.runningRequestCount + 2 :=
      hrunning₂.trans (congrArg (· + 2) hcontrol₁.1)
    rw [hf₁]
    simp only [Option.bind_eq_bind, Option.bind_some, hf₂]
    refine ⟨_, rfl, h₂, hidle₂.trans (hcontrol₁.2.trans h.idle), ?_, ?_, ?_, ?_, ?_, ?_, ?_⟩
    · simp only
      rw [hrunning, hcount]
      simp only [List.countP_cons, Frame.browses, Bool.false_eq_true, if_true, if_false,
        List.length_append, List.length_cons, List.length_nil]
      omega
    · exact hrunning ▸ hhas.2
    · simp only
      rw [hdraining₂, hcontrol₁.3, ← hdrains]
      simp [List.countP_cons, Frame.drains]
    · exact fun _ => Or.inr (Or.inl (by simp))
    · intro requestId' nodes' hmem id hid
      simp only [List.mem_cons, reduceCtorEq, false_or, Frame.references.injEq] at hmem
      rcases hmem with ⟨-, rfl⟩ | hmem
      · exact hkept₂ id (hnodes id hid)
      · refine hkept₂ id (hkept₁ id (h.nodes requestId' nodes' ?_ id hid))
        rw [hstack]
        exact List.mem_cons_of_mem _ hmem
    · intro request hmem
      rcases List.mem_append.mp hmem with hmem | hmem
      · exact h.issued request hmem
      · rw [List.mem_singleton.mp hmem]
        exact hids
    · exact ((List.subperm_cons _).mpr hspawned).trans
        (List.perm_append_singleton _ _).symm.subperm
  · rename_i hno
    refine ⟨_, rfl, ⟨h.sound.linked, h.sound.nonnull, h.sound.nodes, h.sound.queued,
      h.sound.nodup⟩, h.idle, hcount, h.bound, ?_, fun _ => Or.inl hno, ?_, h.issued, hspawned⟩
    · have hone := Bool.toNat_le s.fetcher.drainingPendingQueue
      show stack.countP Frame.drains = 0
      omega
    · intro requestId nodes hmem
      refine h.nodes requestId nodes ?_
      rw [hstack]
      exact List.mem_cons_of_mem _ hmem

theorem Inv.references {requestId : ℕ} {batch : List NodeId} {stack : List Frame} (h : Inv s)
    (hstack : s.stack = .references requestId batch :: stack) (nodes : List NodeId) :
    ∃ s', s.advance nodes = some s' ∧ Inv s' := by
  have hcount := h.count
  have hdrains := h.drains
  have hspawned := h.spawned
  have hbatch : ∀ id ∈ batch, (s.fetcher.node id).isSome := by
    refine h.nodes requestId batch ?_
    rw [hstack]
    exact List.mem_cons_self
  rw [hstack] at hcount hdrains hspawned
  simp only [List.countP_cons, Frame.browses, Frame.drains, Bool.false_eq_true, if_true, if_false,
    Nat.add_zero] at hcount hdrains
  have hspawned : List.Subperm (stack.filterMap Frame.request) s.outstanding := hspawned
  obtain ⟨f₁, descriptions, hf₁, hkeeps, hissued⟩ := collectReferences_spec h.sound hbatch
  have hrunning : f₁.runningRequestCount = s.fetcher.runningRequestCount := hkeeps.control.1
  have hidle : f₁.processingResponse = false := hkeeps.control.2.trans h.idle
  have hdraining : f₁.drainingPendingQueue = s.fetcher.drainingPendingQueue := hkeeps.control.3
  unfold advance
  rw [hstack]
  simp only [hf₁, Option.bind_eq_bind, Option.bind_some]
  split
  · -- Nothing to browse: the answer is there at once.
    have hsound : Sound { f₁ with processingResponse := true } :=
      ⟨hkeeps.sound.linked, hkeeps.sound.nonnull, hkeeps.sound.nodes, hkeeps.sound.queued,
        hkeeps.sound.nodup⟩
    have happlies : AppliesIff True ∅ { f₁ with processingResponse := true }
        (applyBrowseResults (fun _ => true) requestId { f₁ with processingResponse := true } []
          (.results [])) :=
      AppliesIff.of_applies (Applies.refl hsound) trivial
    obtain ⟨hruns, hresult⟩ := onResult_spec
      (applyBrowseResults (fun _ => true) requestId · [] (.results [])) hidle (by omega) happlies
    obtain ⟨⟨f₂, told⟩, hf₂⟩ := hruns.mpr trivial
    obtain ⟨hsound₂, hrunning₂, hidle₂, hdraining₂⟩ := hresult f₂ told hf₂
    rw [hf₂]
    refine ⟨_, rfl, Inv.notified hsound₂ hidle₂ ?_ ?_ ?_ h.issued hspawned told⟩
    · omega
    · exact (hrunning₂.trans_le (Nat.sub_le _ _)).trans (hrunning.trans_le h.bound)
    · rw [hdraining₂, hdraining]
      exact hdrains
  · refine ⟨_, rfl, hkeeps.sound, hidle, ?_, hrunning.trans_le h.bound, ?_, ?_, ?_, ?_, ?_⟩
    · simp only [List.countP_cons, Frame.browses, Bool.false_eq_true, if_false,
        List.length_append, List.length_cons, List.length_nil]
      omega
    · simp only [List.countP_cons, Frame.drains, Bool.false_eq_true, if_false, Nat.add_zero]
      rw [hdraining]
      exact hdrains
    · intro hqueue
      have hqueue : s.fetcher.pendingQueue ≠ [] := hkeeps.pendingQueue ▸ hqueue
      have hlooks := h.queue hqueue
      simp only [HasBatch, hstack, List.mem_cons, reduceCtorEq, false_or] at hlooks ⊢
      rwa [hkeeps.pendingQueue, hrunning]
    · intro requestId' nodes' hmem id hid
      refine hkeeps.nodes id (h.nodes requestId' nodes' ?_ id hid)
      rw [hstack]
      simp only [List.mem_cons, reduceCtorEq, false_or] at hmem
      exact List.mem_cons_of_mem _ hmem
    · intro request hmem
      rcases List.mem_append.mp hmem with hmem | hmem
      · exact h.issued request hmem
      · rw [List.mem_singleton.mp hmem]
        exact hissued
    · exact ((List.subperm_cons _).mpr hspawned).trans
        (List.perm_append_singleton _ _).symm.subperm

variable (values nullVariant) in
/-- **A step** fails no check if and only if the callers and the services keep to what
they are to, and it keeps the invariant. -/
theorem Inv.step_iff (h : Inv s) {action : Action V} (hen : Enabled s action) :
    (Ok s action → ∃ s', step values nullVariant s action = some s' ∧ Inv s') ∧
    (¬ Ok s action → step values nullVariant s action = none) := by
  cases action with
  | fetch id status force => exact h.fetch id status force
  | cancel id => exact h.cancel id
  | complete request answer validator => exact h.complete hen
  | inline answer validator => exact h.inline hen
  | handlerReturns =>
      refine ⟨fun _ => ?_, fun hnot => absurd trivial hnot⟩
      have hhandler : s.stack.head? = some .handler := hen
      obtain ⟨stack, hstack⟩ : ∃ stack, s.stack = .handler :: stack := by
        cases hs : s.stack with
        | nil =>
            rw [hs] at hhandler
            cases hhandler
        | cons frame stack =>
            rw [hs] at hhandler
            cases hhandler
            exact ⟨stack, rfl⟩
      refine ⟨_, rfl, ?_⟩
      rw [hstack]
      exact h.pop hstack rfl rfl nofun
  | suspend =>
      refine ⟨fun _ => ?_, fun hnot => absurd trivial hnot⟩
      obtain ⟨request, hrequest⟩ := Option.isSome_iff_exists.mp hen
      obtain ⟨stack, hstack⟩ := stack_of_spawnedRequest hrequest
      refine ⟨_, rfl, ?_⟩
      rw [hstack]
      exact h.pop hstack rfl rfl nofun
  | advance nodes =>
      unfold Enabled at hen
      simp only at hen
      split at hen
      · rename_i stack hstack
        exact ⟨fun _ => h.fetchPendingNodes hstack nodes, fun hnot => by simp [Ok, hstack] at hnot⟩
      · rename_i stack hstack
        exact ⟨fun _ => h.drain hstack hen, fun hnot => by simp [Ok, hstack] at hnot⟩
      · rename_i requestId batch stack hstack
        exact ⟨fun _ => h.references hstack nodes, fun hnot => by simp [Ok, hstack] at hnot⟩
      · rename_i stack hstack
        refine ⟨fun hok => by simp [Ok, hstack] at hok, fun _ => ?_⟩
        rw [step, advance, hstack]
      · exact hen.elim

/-! ## §5  Every run -/

theorem Inv.reachable (h : (machine values nullVariant).Reachable s) : Inv s := by
  refine Machine.ReachesFrom.invariant Inv.init ?_ h
  intro t action t' ht hen _ hstep
  obtain ⟨hruns, hfails⟩ := ht.step_iff values nullVariant hen
  by_cases hok : Ok t action
  · obtain ⟨t₁, hstep₁, ht₁⟩ := hruns hok
    rw [show step values nullVariant t action = some t' from hstep] at hstep₁
    cases hstep₁
    exact ht₁
  · rw [show step values nullVariant t action = some t' from hstep] at hfails
    cases hfails hok

/-- **Requests are accounted for**, in every state that a run reaches. The count is that
of the requests under way and of the browses that are about to be made, at most five;
a node waits in the queue only while a request is under way; a step fails no check if
the callers and the services keep to what they are to; and an answer is applied to the
nodes whose fetch it belongs to, others being told no more than what they are to
those. -/
theorem request_accounting (values : FetchedValues V) (nullVariant : V) (s : Surroundings V)
    (h : (machine values nullVariant).Reachable s) :
    s.fetcher.runningRequestCount = s.outstanding.length + s.stack.countP Frame.browses ∧
      s.fetcher.runningRequestCount ≤ kMaxParallelRequestCount ∧
      (s.stack = [] → s.fetcher.pendingQueue ≠ [] → s.outstanding ≠ []) ∧
      (∀ action, Enabled s action → Ok s action →
        ∃ s', step values nullVariant s action = some s') ∧
      ∀ request ∈ s.outstanding, ∀ answer validator f',
        applyAnswer values nullVariant validator s.fetcher request answer = some f' →
          Follows (s.fetcher.currentNodes request.requestId) s.fetcher f' := by
  have hinv := Inv.reachable h
  refine ⟨hinv.count, hinv.bound, ?_, ?_, ?_⟩
  · intro hstack hqueue hnone
    have hcount := hinv.count
    have hlooks := hinv.queue hqueue
    rw [hstack, hnone] at hcount
    rw [hstack] at hlooks
    have hfull : ¬ HasBatch s.fetcher := by simpa using hlooks
    exact hfull ⟨hqueue, by rw [hcount]; decide⟩
  · intro action hen hok
    obtain ⟨s', hs', -⟩ := (hinv.step_iff values nullVariant hen).1 hok
    exact ⟨s', hs'⟩
  · intro request hmem answer validator f' hf'
    have hanswer := applyAnswer_appliesIff values nullVariant validator answer hinv.sound (hinv.issued request hmem)
    by_cases hok : Accepted s.fetcher request answer
    · obtain ⟨f₁, hf₁, -, hfollows⟩ := hanswer.applies hok
      rw [hf'] at hf₁
      cases hf₁
      exact hfollows
    · rw [hanswer.fails hok] at hf'
      cases hf'

instance (values : FetchedValues V) (nullVariant : V) (s : Surroundings V) (action : Action V) :
    Decidable ((machine values nullVariant).enabled s action) :=
  inferInstanceAs (Decidable (Enabled s action))

/-- Values that nothing can be got from. -/
def noValues : FetchedValues Unit where
  nodeClass _ := none
  qualifiedName _ := none
  emptyName _ := true
  localizedText _ := none
  nodeId _ := none

/-- A node is fetched, and neither request is answered yet. -/
def fetchOne (id : NodeId) (status : NodeFetchStatus) : List (Action Unit) :=
  [.fetch id status false, .advance [], .advance [id], .suspend, .advance [], .suspend, .advance []]

def readOf (requestId : ℕ) (id : NodeId) : Request :=
  .read requestId [⟨id, .browseName⟩, ⟨id, .displayName⟩, ⟨id, .nodeClass⟩, ⟨id, .dataType⟩]

/-- The browse of a node whose parent is not known. -/
def browseOf (requestId : ℕ) (id : NodeId) : Request :=
  .browse requestId [⟨id, .forward, StandardId.aggregates⟩,
    ⟨id, .forward, StandardId.nonHierarchicalReferences⟩,
    ⟨id, .inverse, StandardId.hierarchicalReferences⟩]

def childAnswer (childId : NodeId) : Answer Unit :=
  .browse (.results [⟨.good, [⟨StandardId.hasProperty, true, childId⟩]⟩, ⟨.good, []⟩, ⟨.good, []⟩])

/-- Two nodes are under way; the first one is fetched anew, which it has to wait for until
the second one has been read. The browse of its first fetch is not answered yet. -/
def fetchAnew : List (Action Unit) :=
  fetchOne (.numeric 1 0) .nodeOnly ++ fetchOne (.numeric 2 0) .nodeOnly ++
    [.fetch (.numeric 1 0) .nodeOnly true, .advance [], .advance [],
      .complete (readOf 2 (.numeric 2 0)) (.read (.error .unspecified)) (fun _ => true),
      .advance [], .advance [.numeric 1 0], .suspend, .advance [], .suspend, .advance []]

/-- The answer to the superseded browse has the node as its own child. -/
theorem request_accounting_one :
    ∃ s, (machine noValues ()).exec (fun _ _ => True) {} (fetchAnew ++
          [.complete (browseOf 1 (.numeric 1 0)) (childAnswer (.numeric 1 0)) (fun _ => true),
            .advance [], .advance []]) = some s ∧
      s.outstanding = [readOf 1 (.numeric 1 0), browseOf 2 (.numeric 2 0),
        readOf 3 (.numeric 1 0), browseOf 3 (.numeric 1 0)] ∧
      s.fetcher.runningRequestCount = s.outstanding.length + s.stack.countP Frame.browses ∧
      s.fetcher.runningRequestCount ≤ kMaxParallelRequestCount ∧
      (s.stack = [] → s.fetcher.pendingQueue ≠ [] → s.outstanding ≠ []) ∧
      (∀ action, Enabled s action → Ok s action →
        ∃ s', step noValues () s action = some s') ∧
      ∀ request ∈ s.outstanding, ∀ answer validator f',
        applyAnswer noValues () validator s.fetcher request answer = some f' →
          Follows (s.fetcher.currentNodes request.requestId) s.fetcher f' := by
  have hruns : ((machine noValues ()).exec (fun _ _ => True) {} (fetchAnew ++
      [.complete (browseOf 1 (.numeric 1 0)) (childAnswer (.numeric 1 0)) (fun _ => true),
        .advance [], .advance []])).any (fun s =>
          s.outstanding = [readOf 1 (.numeric 1 0), browseOf 2 (.numeric 2 0),
            readOf 3 (.numeric 1 0), browseOf 3 (.numeric 1 0)]) = true := by
    decide +kernel
  obtain ⟨s, hs, houtstanding⟩ := (Option.any_eq_true _ _).mp hruns
  exact ⟨s, hs, of_decide_eq_true houtstanding,
    request_accounting noValues () s (Machine.ReachesFrom.refl.exec hs)⟩

/-- Two nodes are under way, and the first one has the second one as a child. -/
def tellsAnother (s : Surroundings Unit) : Bool :=
  browseOf 1 (.numeric 1 0) ∈ s.outstanding ∧
    ((applyAnswer noValues () (fun _ => true) s.fetcher (browseOf 1 (.numeric 1 0))
        (childAnswer (.numeric 2 0))).any fun f' =>
      (f'.node (.numeric 2 0)).any fun n' => (s.fetcher.node (.numeric 2 0)).any fun n =>
        n.fetchStarted ≠ .none ∧ n.fetchRequestId ≠ 1 ∧
          n'.nodeState.parentId ≠ n.nodeState.parentId)

/-- A child whose own fetch is under way is told its parent. -/
theorem child_of_another_fetch :
    ∃ s, (machine noValues ()).Reachable s ∧ ∃ request ∈ s.outstanding, ∃ answer validator f',
      applyAnswer noValues () validator s.fetcher request answer = some f' ∧
        ∃ m n n', s.fetcher.node m = some n ∧ n.fetchStarted ≠ .none ∧
          n.fetchRequestId ≠ request.requestId ∧ f'.node m = some n' ∧
            n'.nodeState.parentId ≠ n.nodeState.parentId := by
  have hrun : ((machine noValues ()).exec (fun _ _ => True) {}
      (fetchOne (.numeric 1 0) .nodeOnly ++ fetchOne (.numeric 2 0) .nodeOnly)).any
        tellsAnother = true := by
    decide +kernel
  obtain ⟨s, hs, htells⟩ := Machine.exists_reachable_of_exec _ hrun
  simp only [tellsAnother, decide_eq_true_eq, Option.any_eq_true] at htells
  obtain ⟨hmem, f', hf', n', hn', n, hn, hstarted, hrequest, hparent⟩ := htells
  exact ⟨s, hs, _, hmem, _, _, f', hf', _, n, n', hn, hstarted, hrequest, hn', hparent⟩

/-- **Which answers fail a check**: those with a reference, for a node whose fetch they
belong to, that answers the inverse browse for references that are not hierarchical, or
that makes a node its own child. -/
theorem answer_checks_iff (values : FetchedValues V) (nullVariant : V) (s : Surroundings V)
    (h : (machine values nullVariant).Reachable s) (request : Request)
    (hmem : request ∈ s.outstanding) (answer : Answer V) (validator : NodeId → Bool) :
    (∃ r, onAnswer values nullVariant s.fetcher request answer validator = some r) ↔
      Accepted s.fetcher request answer :=
  (onAnswer_spec values nullVariant validator answer (Inv.reachable h) hmem).1

/-- An answer that names a target of a reference that is not hierarchical. -/
def targetAnswer : Answer Unit :=
  .browse (.results [⟨.good, []⟩, ⟨.good, []⟩,
    ⟨.good, [⟨StandardId.hasTypeDefinition, false, .numeric 2 0⟩]⟩, ⟨.good, []⟩])

/-- A node that is its own child is accepted from its superseded browse, and not from its
current one; another child is. -/
theorem answer_checks_iff_one :
    ∃ s, (machine noValues ()).exec (fun _ _ => True) {} fetchAnew = some s ∧
      browseOf 1 (.numeric 1 0) ∈ s.outstanding ∧ browseOf 3 (.numeric 1 0) ∈ s.outstanding ∧
      Accepted s.fetcher (browseOf 1 (.numeric 1 0)) (childAnswer (.numeric 1 0)) ∧
      ¬ Accepted s.fetcher (browseOf 3 (.numeric 1 0)) (childAnswer (.numeric 1 0)) ∧
      Accepted s.fetcher (browseOf 3 (.numeric 1 0)) (childAnswer (.numeric 2 0)) := by
  have hruns : ((machine noValues ()).exec (fun _ _ => True) {} fetchAnew).any (fun s =>
      browseOf 1 (.numeric 1 0) ∈ s.outstanding ∧ browseOf 3 (.numeric 1 0) ∈ s.outstanding ∧
        (onAnswer noValues () s.fetcher (browseOf 1 (.numeric 1 0)) (childAnswer (.numeric 1 0))
          (fun _ => true)).isSome ∧
        (onAnswer noValues () s.fetcher (browseOf 3 (.numeric 1 0)) (childAnswer (.numeric 1 0))
          (fun _ => true)).isNone ∧
        (onAnswer noValues () s.fetcher (browseOf 3 (.numeric 1 0)) (childAnswer (.numeric 2 0))
          (fun _ => true)).isSome) = true := by
    decide +kernel
  obtain ⟨s, hs, hmem⟩ := (Option.any_eq_true _ _).mp hruns
  obtain ⟨hsuperseded, hcurrent, happlied, hrefused, hother⟩ := of_decide_eq_true hmem
  have hiff := answer_checks_iff noValues () s (Machine.ReachesFrom.refl.exec hs)
  refine ⟨s, hs, hsuperseded, hcurrent, ?_, ?_, ?_⟩
  · exact (hiff _ hsuperseded _ _).mp (Option.isSome_iff_exists.mp happlied)
  · intro hok
    obtain ⟨r, hr⟩ := (hiff _ hcurrent _ (fun _ => true)).mpr hok
    rw [Option.isNone_iff_eq_none, hr] at hrefused
    cases hrefused
  · exact (hiff _ hcurrent _ _).mp (Option.isSome_iff_exists.mp hother)

theorem fails_check_of_exec (actions : List (Action Unit)) {answer : Answer Unit}
    (hrun : ((machine noValues ()).exec (fun _ _ => True) {} actions).any (fun s =>
      s.outstanding.any fun request => answer.Answers request ∧
        (onAnswer noValues () s.fetcher request answer (fun _ => true)).isNone) = true) :
    ∃ s, (machine noValues ()).Reachable s ∧ ∃ request ∈ s.outstanding,
      answer.Answers request ∧
        onAnswer noValues () s.fetcher request answer (fun _ => true) = none := by
  obtain ⟨s, hs, hany⟩ := Machine.exists_reachable_of_exec _ hrun
  obtain ⟨request, hmem, hfails⟩ := List.any_eq_true.mp hany
  rw [decide_eq_true_eq, Option.isNone_iff_eq_none] at hfails
  exact ⟨s, hs, request, hmem, hfails⟩

/-- A node that is its own child, and a reference in answer to the inverse browse, fail
checks. -/
theorem answers_that_fail_checks :
    (∃ s, (machine noValues ()).Reachable s ∧ ∃ request ∈ s.outstanding,
        (childAnswer (.numeric 1 0)).Answers request ∧
          onAnswer noValues () s.fetcher request (childAnswer (.numeric 1 0)) (fun _ => true) =
            none) ∧
      ∃ s, (machine noValues ()).Reachable s ∧ ∃ request ∈ s.outstanding,
        targetAnswer.Answers request ∧
          onAnswer noValues () s.fetcher request targetAnswer (fun _ => true) = none :=
  ⟨fails_check_of_exec (fetchOne (.numeric 1 0) .nodeOnly) (by decide +kernel),
    fails_check_of_exec (fetchOne (.numeric 1 0) .max) (by decide +kernel)⟩

end Surroundings

end ScadaCommon.NodeFetcherImpl
