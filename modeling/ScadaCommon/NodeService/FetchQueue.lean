import Mathlib.Data.Prod.Lex
import ScadaCommon.Foundation.Heaps
import ScadaCommon.NodeService.NodeFetcherImpl

/-!
# The queue of pending nodes

`FetchQueue` is a heap of pointers to nodes. A node is before another one by its pending
sequence, which is kept in the node, and then by the order in which they were pushed.
`FetchNode` writes the pending sequence of a node that may be in the queue, and the heap is
not told.

§1 the queue · §2 the fetcher · §3 what is queued · §4 the order · §5 runs.
-/

namespace ScadaCommon

open Foundation Heap
open NodeFetchStatus (Includes)

/-- `FetchQueue::Node`. -/
structure QueuedNode where
  sequence : ℕ
  node : NodeId
deriving DecidableEq

/-- With the nodes that it may point to. -/
structure FetchQueue (V : Type) where
  nodes : NodeId → FetchingNode V
  queue : Array QueuedNode := #[]
  nextSequence : ℕ := 0

namespace FetchQueue

variable {V : Type}

/-! ## §1  The queue -/

def write (q : FetchQueue V) (id : NodeId) (node : FetchingNode V) : FetchQueue V :=
  { q with nodes := Function.update q.nodes id node }

def key (q : FetchQueue V) (entry : QueuedNode) : ℕ ×ₗ ℕ :=
  toLex ((q.nodes entry.node).pendingSequence, entry.sequence)

def find (q : FetchQueue V) (id : NodeId) : Option ℕ :=
  q.queue.findIdx? fun entry => entry.node = id

/-- `top`, which an empty queue does not have. -/
def top (q : FetchQueue V) : Option QueuedNode := q.queue[0]?

def setPending (q : FetchQueue V) (id : NodeId) (pending : Bool) : FetchQueue V :=
  q.write id { q.nodes id with pending }

/-- `emplace_back` and `push_heap`. -/
def emplace (q : FetchQueue V) (id : NodeId) : FetchQueue V :=
  { q with
    queue := pushHeap q.key (q.queue.push ⟨q.nextSequence, id⟩)
    nextSequence := (q.nextSequence + 1) % 2 ^ 32 }

/-- `pop_heap` and `pop_back`. -/
def popFront (q : FetchQueue V) : FetchQueue V :=
  { q with queue := (popHeap q.key q.queue).pop }

/-- The last entry takes the place of another one before it is erased. -/
def eraseAt (q : FetchQueue V) (i : ℕ) : FetchQueue V :=
  { q with queue := makeHeap q.key (q.queue.swapIfInBounds i (q.queue.size - 1)).pop }

def push (q : FetchQueue V) (id : NodeId) : Option (FetchQueue V) := do
  if (q.nodes id).pending then
    check (q.find id ≠ none)
    return q
  else
    check (q.find id = none)
    return (q.setPending id true).emplace id

def pop (q : FetchQueue V) : Option (FetchQueue V) := do
  let top ← q.top
  check ((q.nodes top.node).pending = true)
  return (q.setPending top.node false).popFront

def erase (q : FetchQueue V) (id : NodeId) : Option (FetchQueue V) := do
  if (q.nodes id).pending then
    let i ← q.find id
    return (q.eraseAt i).setPending id false
  else
    check (q.find id = none)
    return q

def count (q : FetchQueue V) (id : NodeId) : Option ℕ := do
  check ((q.nodes id).pending = true ↔ q.find id ≠ none)
  return if (q.nodes id).pending then 1 else 0

/-! ## §2  The fetcher -/

/-- `FetchNode` returns at once. -/
def Fetching (q : FetchQueue V) (id : NodeId) (status : NodeFetchStatus) (force : Bool) : Prop :=
  (q.nodes id).fetchStarted ≠ .none ∧ Includes (q.nodes id).fetchStarted status ∧ force = false

instance (q : FetchQueue V) (id : NodeId) (status : NodeFetchStatus) (force : Bool) :
    Decidable (q.Fetching id status force) :=
  inferInstanceAs (Decidable (_ ∧ _ ∧ _))

/-- A node as it is requested. -/
def requested (node : FetchingNode V) (pendingSequence : ℕ) (status : NodeFetchStatus)
    (force : Bool) : FetchingNode V :=
  let node := if node.fetchStarted ≠ .none then NodeFetcherImpl.restarted node else node
  { node with
    force := node.force || force
    pendingStatus := node.pendingStatus ∪ status
    pendingSequence }

/-- `NodeFetcherImpl::FetchNode` up to the call of `FetchPendingNodes`. -/
def fetchNode (q : FetchQueue V) (id : NodeId) (pendingSequence : ℕ) (status : NodeFetchStatus)
    (force : Bool) : Option (FetchQueue V) := do
  check (Includes status .nodeOnly)
  if q.Fetching id status force then return q
  else (q.write id (requested (q.nodes id) pendingSequence status force)).push id

/-- What is done to the queue and its nodes. -/
inductive Call (V : Type) where
  | push (id : NodeId)
  | pop
  | erase (id : NodeId)
  | fetchNode (id : NodeId) (pendingSequence : ℕ) (status : NodeFetchStatus) (force : Bool)
  /-- The fetcher writes a node. -/
  | write (id : NodeId) (node : FetchingNode V)

def call (q : FetchQueue V) : Call V → Option (FetchQueue V)
  | .push id => q.push id
  | .pop => q.pop
  | .erase id => q.erase id
  | .fetchNode id pendingSequence status force => q.fetchNode id pendingSequence status force
  | .write id node => some (q.write id node)

/-- What the fetcher keeps to: it pops from a queue with nodes, fetches nodes, and leaves
to the queue and to `FetchNode` what is theirs. -/
def Called (q : FetchQueue V) : Call V → Prop
  | .pop => q.queue ≠ #[]
  | .fetchNode _ _ status _ => Includes status .nodeOnly
  | .write id node =>
      node.pending = (q.nodes id).pending ∧
        (node.pending = true → node.pendingSequence = (q.nodes id).pendingSequence)
  | _ => True

instance (q : FetchQueue V) (c : Call V) : Decidable (q.Called c) :=
  match c with
  | .push _ | .erase _ => isTrue trivial
  | .pop => inferInstanceAs (Decidable (_ ≠ _))
  | .fetchNode _ _ _ _ => inferInstanceAs (Decidable (Includes _ _))
  | .write _ _ => inferInstanceAs (Decidable (_ ∧ _))

def machine (states : NodeId → AddressSpace.NodeState V) :
    Machine (FetchQueue V) (Call V) where
  init := { nodes := fun id => { nodeState := states id } }
  enabled := Called
  step := call

instance (states : NodeId → AddressSpace.NodeState V) (q : FetchQueue V) (c : Call V) :
    Decidable ((machine states).enabled q c) :=
  inferInstanceAs (Decidable (q.Called c))

/-! ## §3  What is queued -/

/-- The nodes in the queue. -/
def ids (q : FetchQueue V) : List NodeId := q.queue.toList.map (·.node)

/-- A node is pending when it is queued, once. -/
structure Queued (q : FetchQueue V) : Prop where
  pending : ∀ id, (q.nodes id).pending = true ↔ id ∈ q.ids
  nodup : q.ids.Nodup

variable {q q' : FetchQueue V} {id : NodeId}

theorem find_eq_none_iff : q.find id = none ↔ id ∉ q.ids := by
  unfold find ids
  rw [Array.findIdx?_eq_none_iff]
  simp

theorem find_ne_none_iff : q.find id ≠ none ↔ id ∈ q.ids := by
  rw [Ne, find_eq_none_iff, not_not]

theorem getElem?_of_find_eq_some {i : ℕ} (h : q.find id = some i) :
    ∃ entry, q.queue[i]? = some entry ∧ entry.node = id := by
  unfold find at h
  obtain ⟨hi, hnode, -⟩ := Array.findIdx?_eq_some_iff_getElem.mp h
  exact ⟨q.queue[i], Array.getElem?_eq_getElem hi, by simpa using hnode⟩

theorem nodes_write (node : FetchingNode V) (other : NodeId) :
    (q.write id node).nodes other = if other = id then node else q.nodes other :=
  Function.update_apply q.nodes id node other

theorem pending_setPending (pending : Bool) (other : NodeId) :
    ((q.setPending id pending).nodes other).pending =
      if other = id then pending else (q.nodes other).pending := by
  unfold setPending
  rw [nodes_write]
  split <;> rfl

/-- A key is one of the sequence of the node alone. -/
theorem key_write {node : FetchingNode V}
    (h : node.pendingSequence = (q.nodes id).pendingSequence) : (q.write id node).key = q.key := by
  funext entry
  unfold key
  rw [nodes_write]
  split
  · rename_i hid
    rw [h, hid]
  · rfl

theorem key_setPending (pending : Bool) : (q.setPending id pending).key = q.key :=
  key_write rfl

theorem ids_perm {v w : Array QueuedNode} (h : v.Perm w) :
    (v.toList.map (·.node)).Perm (w.toList.map (·.node)) :=
  h.toList.map _

theorem Queued.added (h : Queued q) (hid : id ∉ q.ids) (hids : q'.ids.Perm (q.ids ++ [id]))
    (hnodes : ∀ other, (q'.nodes other).pending =
      if other = id then true else (q.nodes other).pending) : Queued q' := by
  constructor
  · intro other
    rw [hnodes, hids.mem_iff, List.mem_append, List.mem_singleton]
    split
    · rename_i heq
      exact iff_of_true rfl (.inr heq)
    · rename_i hne
      rw [h.pending]
      simp [hne]
  · rw [hids.nodup_iff, List.nodup_append_comm]
    exact List.nodup_cons.mpr ⟨hid, h.nodup⟩

theorem Queued.removed (h : Queued q) (hids : (q'.ids ++ [id]).Perm q.ids)
    (hnodes : ∀ other, (q'.nodes other).pending =
      if other = id then false else (q.nodes other).pending) : Queued q' := by
  have hnodup : (q'.ids ++ [id]).Nodup := hids.nodup_iff.mpr h.nodup
  rw [List.nodup_append_comm, List.singleton_append, List.nodup_cons] at hnodup
  constructor
  · intro other
    rw [hnodes]
    split
    · rename_i heq
      rw [heq]
      exact iff_of_false Bool.false_ne_true hnodup.1
    · rename_i hne
      rw [h.pending, ← hids.mem_iff, List.mem_append, List.mem_singleton]
      simp [hne]
  · exact hnodup.2

/-! ## §4  The order -/

/-- The queue is a heap by the keys of its nodes. -/
abbrev Ordered (q : FetchQueue V) : Prop := IsHeap q.key q.queue

/-- Nodes are pending when they are queued, and then a heap stays one. -/
def Follows (q q' : FetchQueue V) : Prop := q'.Queued ∧ (q.Ordered → q'.Ordered)

theorem push_of_pending (h : Queued q) (hpending : (q.nodes id).pending = true) :
    q.push id = some q := by
  have hfind := find_ne_none_iff.mpr ((h.pending id).mp hpending)
  simp [push, check, hpending, hfind]

theorem push_of_not_pending (h : Queued q) (hpending : (q.nodes id).pending = false) :
    q.push id = some ((q.setPending id true).emplace id) := by
  have hfind : q.find id = none := by
    rw [find_eq_none_iff, ← h.pending, hpending]
    exact Bool.false_ne_true
  simp [push, check, hpending, hfind]

theorem follows_emplace (h : Queued q) (hpending : (q.nodes id).pending = false) :
    q.Follows ((q.setPending id true).emplace id) := by
  have hid : id ∉ q.ids := by
    rw [← h.pending, hpending]
    exact Bool.false_ne_true
  constructor
  · apply h.added hid
    · have hperm := ids_perm (pushHeap_perm (q.setPending id true).key
        (q.queue.push ⟨q.nextSequence, id⟩))
      rw [Array.toList_push, List.map_append] at hperm
      exact hperm
    · exact pending_setPending true
  · intro hordered
    show IsHeap (q.setPending id true).key (pushHeap (q.setPending id true).key _)
    rw [key_setPending]
    exact isHeap_pushHeap hordered

theorem pop_spec (h : Queued q) (hne : q.queue ≠ #[]) :
    ∃ q', q.pop = some q' ∧ q.Follows q' := by
  have hsize : 0 < q.queue.size := Array.size_pos_iff.mpr hne
  have htop := Array.getElem?_eq_getElem hsize
  generalize q.queue[0] = top at htop
  have hmem : top.node ∈ q.ids :=
    List.mem_map_of_mem (Array.mem_toList_iff.mpr (Array.mem_of_getElem? htop))
  have hpending := (h.pending top.node).mpr hmem
  refine ⟨(q.setPending top.node false).popFront, ?_, ?_, ?_⟩
  · simp [pop, FetchQueue.top, htop, check, hpending]
  · refine h.removed ?_ (pending_setPending false)
    have hperm := ids_perm (pop_popHeap_perm (q.setPending top.node false).key htop)
    rw [Array.toList_push, List.map_append] at hperm
    exact hperm
  · intro hordered
    show IsHeap (q.setPending top.node false).key
      (popHeap (q.setPending top.node false).key q.queue).pop
    rw [key_setPending]
    exact isHeap_pop_popHeap hordered

theorem erase_spec (h : Queued q) (id : NodeId) :
    ∃ q', q.erase id = some q' ∧ q.Follows q' := by
  cases hpending : (q.nodes id).pending with
  | false =>
      have hfind : q.find id = none := by
        rw [find_eq_none_iff, ← h.pending, hpending]
        exact Bool.false_ne_true
      refine ⟨q, ?_, h, fun hordered => hordered⟩
      simp [erase, check, hpending, hfind]
  | true =>
      obtain ⟨i, hi⟩ := Option.ne_none_iff_exists'.mp
        (find_ne_none_iff.mpr ((h.pending id).mp hpending))
      obtain ⟨entry, hentry, hnode⟩ := getElem?_of_find_eq_some hi
      have hsize : i < q.queue.size := (Array.getElem?_eq_some_iff.mp hentry).1
      refine ⟨(q.eraseAt i).setPending id false, ?_, ?_, ?_⟩
      · simp [erase, hpending, hi]
      · refine h.removed ?_ (pending_setPending false)
        -- The entry is the last one before it is erased.
        have hlast : (q.queue.swapIfInBounds i (q.queue.size - 1))[
            (q.queue.swapIfInBounds i (q.queue.size - 1)).size - 1]? = some entry := by
          rw [Array.size_swapIfInBounds, getElem?_swapIfInBounds hsize (by omega),
            Equiv.swap_apply_right, hentry]
        have hperm := ids_perm ((((makeHeap_perm q.key _).push entry).trans
          (.of_eq (push_pop_eq hlast))).trans (swapIfInBounds_perm _ _ _))
        rw [Array.toList_push, List.map_append] at hperm
        rw [← hnode]
        exact hperm
      · intro _
        show IsHeap ((q.eraseAt i).setPending id false).key _
        rw [key_setPending]
        exact isHeap_makeHeap _

/-- Queued entries are one for each node. -/
theorem Queued.index_unique (h : Queued q) {i j : ℕ} {a b : QueuedNode}
    (ha : q.queue[i]? = some a) (hb : q.queue[j]? = some b) (hnode : a.node = b.node) : i = j := by
  have hi : i < q.ids.length := by
    simpa [ids] using (Array.getElem?_eq_some_iff.mp ha).1
  apply (List.getElem?_inj hi h.nodup).mp
  unfold ids
  simp [ha, hb, hnode]

/-- The new key of a queued node is not below its parent's and not above its children's. -/
def KeyFits (q : FetchQueue V) (id : NodeId) (pendingSequence : ℕ) : Prop :=
  ∀ (i : ℕ) (entry : QueuedNode), q.queue[i]? = some entry → entry.node = id →
    (∀ above, 0 < i → q.queue[parent i]? = some above →
      q.key above ≤ toLex (pendingSequence, entry.sequence)) ∧
    ∀ (j : ℕ) (below : QueuedNode), 0 < j → parent j = i → q.queue[j]? = some below →
      toLex (pendingSequence, entry.sequence) ≤ q.key below

instance (q : FetchQueue V) (id : NodeId) (pendingSequence : ℕ) :
    Decidable (q.KeyFits id pendingSequence) :=
  decidable_of_iff (∀ i < q.queue.size, ∀ entry ∈ q.queue[i]?, entry.node = id →
      (∀ above ∈ q.queue[parent i]?, 0 < i →
        q.key above ≤ toLex (pendingSequence, entry.sequence)) ∧
      ∀ j < q.queue.size, ∀ below ∈ q.queue[j]?, 0 < j → parent j = i →
        toLex (pendingSequence, entry.sequence) ≤ q.key below) <| by
    constructor
    · intro h i entry hentry hnode
      obtain ⟨habove, hbelow⟩ := h i (Array.getElem?_eq_some_iff.mp hentry).1 entry hentry hnode
      exact ⟨fun above hi habove' => habove above habove' hi, fun j below hj hparent hbelow' =>
        hbelow j (Array.getElem?_eq_some_iff.mp hbelow').1 below hbelow' hj hparent⟩
    · intro h i _ entry hentry hnode
      obtain ⟨habove, hbelow⟩ := h i entry hentry hnode
      exact ⟨fun above habove' hi => habove above hi habove', fun j _ below hbelow' hj hparent =>
        hbelow j below hj hparent hbelow'⟩

theorem key_write_apply (node : FetchingNode V) (entry : QueuedNode) :
    (q.write id node).key entry =
      if entry.node = id then toLex (node.pendingSequence, entry.sequence) else q.key entry := by
  unfold key
  rw [nodes_write]
  split <;> rfl

/-- **A key changes** in the heap. -/
theorem ordered_write_iff (h : Queued q) (hordered : Ordered q) (node : FetchingNode V) :
    Ordered (q.write id node) ↔ q.KeyFits id node.pendingSequence := by
  show IsHeap (q.write id node).key q.queue ↔ _
  rw [isHeap_iff]
  have hold := isHeap_iff.mp hordered
  constructor
  · intro hnew i entry hentry hnode
    constructor
    · intro above hi habove
      have hne : above.node ≠ id := by
        intro hsame
        have hi_gt := parent_lt hi
        have heq := h.index_unique habove hentry (hsame.trans hnode.symm)
        omega
      have hle := hnew i above entry hi habove hentry
      rwa [key_write_apply, key_write_apply, if_neg hne, if_pos hnode] at hle
    · intro j below hj hparent hbelow
      have hne : below.node ≠ id := by
        intro hsame
        have hj_gt := parent_lt hj
        have heq := h.index_unique hbelow hentry (hsame.trans hnode.symm)
        omega
      rw [← hparent] at hentry
      have hle := hnew j entry below hj hentry hbelow
      rwa [key_write_apply, key_write_apply, if_pos hnode, if_neg hne] at hle
  · intro hfits j a b hj ha hb
    have hj_gt := parent_lt hj
    rw [key_write_apply, key_write_apply]
    by_cases hanode : a.node = id
    · have hbnode : b.node ≠ id := by
        intro hsame
        have heq := h.index_unique ha hb (hanode.trans hsame.symm)
        omega
      rw [if_pos hanode, if_neg hbnode]
      exact (hfits _ a ha hanode).2 j b hj rfl hb
    · rw [if_neg hanode]
      by_cases hbnode : b.node = id
      · rw [if_pos hbnode]
        exact (hfits j b hb hbnode).1 a hj ha
      · rw [if_neg hbnode]
        exact hold j a b hj ha hb

/-- Nothing is asked of a node that is not queued. -/
theorem keyFits_of_not_pending (h : Queued q) (hpending : (q.nodes id).pending = false)
    (pendingSequence : ℕ) : q.KeyFits id pendingSequence := by
  intro i entry hentry hnode
  have hmem : entry.node ∈ q.ids :=
    List.mem_map_of_mem (Array.mem_toList_iff.mpr (Array.mem_of_getElem? hentry))
  rw [hnode, ← h.pending, hpending] at hmem
  exact absurd hmem Bool.false_ne_true

theorem queued_write (h : Queued q) {node : FetchingNode V}
    (hnode : node.pending = (q.nodes id).pending) : Queued (q.write id node) := by
  constructor
  · intro other
    rw [nodes_write, ← show q.ids = (q.write id node).ids from rfl, ← h.pending]
    split
    · rename_i heq
      rw [heq, hnode]
    · rfl
  · exact h.nodup

theorem pending_requested (node : FetchingNode V) (pendingSequence : ℕ)
    (status : NodeFetchStatus) (force : Bool) :
    (requested node pendingSequence status force).pending = node.pending := by
  unfold requested NodeFetcherImpl.restarted
  simp only
  split <;> rfl

/-- **A node is requested.** The order stays when the node is not queued or its new key
fits. -/
theorem fetchNode_spec (h : Queued q) {pendingSequence : ℕ} {status : NodeFetchStatus}
    {force : Bool} (hstatus : Includes status .nodeOnly) :
    ∃ q', q.fetchNode id pendingSequence status force = some q' ∧ q'.Queued ∧
      (q.Ordered → (q'.Ordered ↔
        (q.Fetching id status force ∨ q.KeyFits id pendingSequence))) := by
  by_cases hfetching : q.Fetching id status force
  · refine ⟨q, ?_, h, fun hordered => iff_of_true hordered (.inl hfetching)⟩
    simp [fetchNode, check, hstatus, hfetching]
  · have hwritten := queued_write h
      (pending_requested (q.nodes id) pendingSequence status force)
    have hfetch : q.fetchNode id pendingSequence status force =
        (q.write id (requested (q.nodes id) pendingSequence status force)).push id := by
      simp [fetchNode, check, hstatus, hfetching]
    have hsame : ((q.write id (requested (q.nodes id) pendingSequence status force)).nodes
        id).pending = (q.nodes id).pending := by
      rw [nodes_write, if_pos rfl, pending_requested]
    rw [hfetch]
    cases hpending : (q.nodes id).pending with
    | true =>
        refine ⟨_, push_of_pending hwritten (hsame.trans hpending), hwritten, ?_⟩
        intro hordered
        rw [ordered_write_iff h hordered, or_iff_right hfetching]
        rfl
    | false =>
        have hfits := keyFits_of_not_pending h hpending pendingSequence
        have hfollows := follows_emplace hwritten (hsame.trans hpending)
        refine ⟨_, push_of_not_pending hwritten (hsame.trans hpending), hfollows.1, ?_⟩
        intro hordered
        refine iff_of_true (hfollows.2 ?_) (.inr hfits)
        exact (ordered_write_iff h hordered _).mpr hfits

/-! ## §5  Runs -/

/-- A request of a queued node has a key that fits. -/
def CallOk (q : FetchQueue V) : Call V → Prop
  | .fetchNode id pendingSequence status force =>
      q.Fetching id status force ∨ q.KeyFits id pendingSequence
  | _ => True

instance (q : FetchQueue V) (c : Call V) : Decidable (q.CallOk c) :=
  match c with
  | .push _ | .pop | .erase _ | .write _ _ => isTrue trivial
  | .fetchNode _ _ _ _ => inferInstanceAs (Decidable (_ ∨ _))

/-- The top is a pending node, and no entry is before it. -/
def LeastOnTop (q : FetchQueue V) : Prop :=
  ∀ top, q.top = some top → (q.nodes top.node).pending = true ∧
    ∀ entry ∈ q.queue, q.key top ≤ q.key entry

instance (q : FetchQueue V) : Decidable q.LeastOnTop :=
  decidable_of_iff (∀ top ∈ q.top, (q.nodes top.node).pending = true ∧
    ∀ entry ∈ q.queue, q.key top ≤ q.key entry) Iff.rfl

/-- **No check fails**, and a heap stays one when the call is in order. -/
theorem call_spec (h : Queued q) {c : Call V} (hcalled : q.Called c) :
    ∃ q', q.call c = some q' ∧ q'.Queued ∧ (q.Ordered → (q'.Ordered ↔ q.CallOk c)) := by
  cases c with
  | push id =>
      cases hpending : (q.nodes id).pending with
      | true =>
          exact ⟨q, push_of_pending h hpending, h, fun hordered => iff_of_true hordered trivial⟩
      | false =>
          have hfollows := follows_emplace h hpending
          exact ⟨_, push_of_not_pending h hpending, hfollows.1,
            fun hordered => iff_of_true (hfollows.2 hordered) trivial⟩
  | pop =>
      obtain ⟨q', hpop, hqueued, hkeeps⟩ := pop_spec h hcalled
      exact ⟨q', hpop, hqueued, fun hordered => iff_of_true (hkeeps hordered) trivial⟩
  | erase id =>
      obtain ⟨q', herase, hqueued, hkeeps⟩ := erase_spec h id
      exact ⟨q', herase, hqueued, fun hordered => iff_of_true (hkeeps hordered) trivial⟩
  | fetchNode id pendingSequence status force => exact fetchNode_spec h hcalled
  | write id node =>
      refine ⟨_, rfl, queued_write h hcalled.1, fun hordered => iff_of_true ?_ trivial⟩
      cases hpending : (q.nodes id).pending with
      | true =>
          show IsHeap (q.write id node).key q.queue
          rw [key_write (hcalled.2 (hcalled.1.trans hpending))]
          exact hordered
      | false =>
          exact (ordered_write_iff h hordered node).mpr (keyFits_of_not_pending h hpending _)

theorem count_eq (h : Queued q) (id : NodeId) : q.count id = some (q.ids.count id) := by
  have hfind : (q.nodes id).pending = true ↔ q.find id ≠ none :=
    (h.pending id).trans find_ne_none_iff.symm
  unfold count
  rw [List.Nodup.count h.nodup]
  by_cases hmem : id ∈ q.ids
  · simp [check, hfind.mp ((h.pending id).mpr hmem), (h.pending id).mpr hmem, hmem]
  · have hpending : (q.nodes id).pending = false := by
      rw [← Bool.not_eq_true, h.pending]
      exact hmem
    simp [check, find_eq_none_iff.mpr hmem, hpending, hmem]

theorem leastOnTop_of_ordered (h : Queued q) (hordered : q.Ordered) : q.LeastOnTop := by
  intro top htop
  constructor
  · rw [h.pending]
    exact List.mem_map_of_mem (Array.mem_toList_iff.mpr (Array.mem_of_getElem? htop))
  · intro entry hentry
    exact hordered.front_le_mem htop hentry

theorem queued_init (states : NodeId → AddressSpace.NodeState V) :
    (machine states).init.Queued := by
  constructor
  · intro id
    exact iff_of_false Bool.false_ne_true List.not_mem_nil
  · exact List.nodup_nil

theorem queued_of_reachable {states : NodeId → AddressSpace.NodeState V}
    (h : (machine states).Reachable q) : q.Queued := by
  refine h.invariant (queued_init states) ?_
  intro before c after hbefore hcalled _ hstep
  obtain ⟨q', hcall, hqueued, -⟩ := call_spec hbefore hcalled
  cases hcall.symm.trans hstep
  exact hqueued

theorem ordered_of_reaches {states : NodeId → AddressSpace.NodeState V}
    (h : (machine states).Reaches CallOk q) : q.Queued ∧ q.Ordered := by
  refine h.invariant (I := fun q => q.Queued ∧ q.Ordered) ⟨queued_init states, ?_⟩ ?_
  · exact isHeap_iff.mpr nofun
  · rintro before c after ⟨hqueued, hordered⟩ hcalled hok hstep
    obtain ⟨q', hcall, hqueued', hiff⟩ := call_spec hqueued hcalled
    cases hcall.symm.trans hstep
    exact ⟨hqueued', (hiff hordered).mpr hok⟩

/-- **The fetch queue.** In every run pending nodes are the queued ones, each once, and no
check fails. In the runs where a queued node is only requested with a key that fits, the
top has the least key; another request leaves no heap. -/
theorem fetch_queue_order (states : NodeId → AddressSpace.NodeState V) :
    (∀ q, (machine states).Reachable q → q.Queued ∧
      (∀ c, q.Called c → (q.call c).isSome) ∧ ∀ id, (q.count id).isSome) ∧
    (∀ q, (machine states).Reaches CallOk q → q.LeastOnTop) ∧
    ∀ q c q', (machine states).Reaches CallOk q → q.Called c → q.call c = some q' →
      q'.Ordered → q.CallOk c := by
  refine ⟨?_, ?_, ?_⟩
  · intro q hreach
    have hqueued := queued_of_reachable hreach
    refine ⟨hqueued, ?_, ?_⟩
    · intro c hcalled
      obtain ⟨q', hcall, -⟩ := call_spec hqueued hcalled
      rw [hcall]
      rfl
    · intro id
      rw [count_eq hqueued]
      rfl
  · intro q hreach
    obtain ⟨hqueued, hordered⟩ := ordered_of_reaches hreach
    exact leastOnTop_of_ordered hqueued hordered
  · intro q c q' hreach hcalled hcall hordered'
    obtain ⟨hqueued, hordered⟩ := ordered_of_reaches hreach
    obtain ⟨q'', hcall', -, hiff⟩ := call_spec hqueued hcalled
    cases hcall.symm.trans hcall'
    exact (hiff hordered).mp hordered'

def plainStates (id : NodeId) : AddressSpace.NodeState Unit := { nodeId := id }

/-- Of three nodes the second is requested again, with a key that fits where it is; when the
first is popped, the third is on top. -/
theorem fetch_queue_order_requested :
    ∃ q, (machine plainStates).Reaches CallOk q ∧
      q.queue.toList = [⟨2, .numeric 3 1⟩, ⟨1, .numeric 2 1⟩] ∧
      (q.nodes (.numeric 2 1)).pendingSequence = 3 ∧ q.LeastOnTop := by
  obtain ⟨q, hreach, hq⟩ := Machine.exists_reaches_of_exec (M := machine plainStates) CallOk
    (p := fun q => decide (q.queue.toList = [⟨2, .numeric 3 1⟩, ⟨1, .numeric 2 1⟩] ∧
      (q.nodes (.numeric 2 1)).pendingSequence = 3))
    [.fetchNode (.numeric 1 1) 0 .nodeOnly false, .fetchNode (.numeric 2 1) 1 .nodeOnly false,
      .fetchNode (.numeric 3 1) 2 .nodeOnly false,
      .fetchNode (.numeric 2 1) 3 .nodeAndChildren false, .pop] (by decide +kernel)
  obtain ⟨hqueue, hsequence⟩ := of_decide_eq_true hq
  exact ⟨q, hreach, hqueue, hsequence, (fetch_queue_order plainStates).2.1 q hreach⟩

/-- **A node that is requested again stays on top**: the first of two nodes is requested
once more, and its new key is the greater one. -/
theorem requested_again_stays_on_top :
    ∃ q, (machine plainStates).Reachable q ∧ ¬q.LeastOnTop := by
  obtain ⟨q, hreach, hq⟩ := Machine.exists_reachable_of_exec (M := machine plainStates)
    (p := fun q => !decide q.LeastOnTop)
    [.fetchNode (.numeric 1 1) 0 .nodeOnly false, .fetchNode (.numeric 2 1) 1 .nodeOnly false,
      .fetchNode (.numeric 1 1) 2 .nodeOnly false] (by decide +kernel)
  exact ⟨q, hreach, by simpa using hq⟩

end FetchQueue

end ScadaCommon
