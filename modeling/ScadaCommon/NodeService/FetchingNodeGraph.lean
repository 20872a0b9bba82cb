import Mathlib.Data.Finset.Card
import ScadaCommon.Foundation.AssocMap
import ScadaCommon.Foundation.Machine
import ScadaCommon.Foundation.Settled
import ScadaCommon.AddressSpace.GenericNodeFactory
import ScadaCommon.NodeService.BaseNodeModel

/-!
# The graph of nodes that are being fetched

A fetched node is given out together with all it depends on. `FetchingNodeGraph`
holds the nodes that are not complete yet; the edges between them are kept at both
ends. A `std::map` keeps its elements where they are, so the pointer to a node is
written as its id; following a pointer to a node that is gone fails.

§1 nodes · §2 the graph · §3 what the functions do to a node · §4 links · §5 the
search · §6 complete nodes · §7 every run.
-/

namespace ScadaCommon

open Foundation
open AddressSpace (NodeState)

/-! ## §1  Nodes -/

structure FetchingNode (V : Type) where
  nodeState : NodeState V
  /-- The node is in the queue of pending nodes. -/
  pending : Bool := false
  pendingStatus : NodeFetchStatus := .none
  pendingSequence : ℕ := 0
  fetchStarted : NodeFetchStatus := .none
  fetchRequestId : ℕ := 0
  dependsOf : List NodeId := []
  dependentNodes : List NodeId := []
  attributesFetched : Bool := false
  referencesFetched : Bool := false
  status : Status := .good
  force : Bool := false
  isProperty : Bool := false
  isDeclaration : Bool := false
  fetchCacheIteration : ℕ := 0
  fetchCacheState : Bool := false

namespace FetchingNode

variable {V : Type}

def fetched (node : FetchingNode V) : Bool := node.attributesFetched && node.referencesFetched

/-- What of a node is written by others than the graph. -/
def content (node : FetchingNode V) : FetchingNode V :=
  { node with
    dependsOf := []
    dependentNodes := []
    fetchCacheIteration := 0
    fetchCacheState := false }

def cached (node : FetchingNode V) (iteration : ℕ) (state : Bool) : FetchingNode V :=
  { node with fetchCacheIteration := iteration, fetchCacheState := state }

def eraseDependsOf (node : FetchingNode V) (id : NodeId) : FetchingNode V :=
  { node with dependsOf := node.dependsOf.erase id }

def eraseDependentNode (node : FetchingNode V) (id : NodeId) : FetchingNode V :=
  { node with dependentNodes := node.dependentNodes.erase id }

/-- Without its links to another node. -/
def without (node : FetchingNode V) (id : NodeId) : FetchingNode V :=
  (node.eraseDependsOf id).eraseDependentNode id

end FetchingNode

/-! ## §2  The graph -/

/-- `FetchCompletedResult`. -/
structure FetchCompletedResult (V : Type) where
  nodes : List (NodeState V) := []
  errors : List (NodeId × Status) := []

def FetchCompletedResult.ids {V : Type} (result : FetchCompletedResult V) : List NodeId :=
  result.nodes.map (·.nodeId) ++ result.errors.map Prod.fst

structure FetchingNodeGraph (V : Type) where
  fetchingNodes : AssocMap NodeId (FetchingNode V) := ∅
  fetchCacheIteration : ℕ := 1

namespace FetchingNodeGraph

variable {V : Type}

/-- Follows a pointer. -/
def node (g : FetchingNodeGraph V) (id : NodeId) : Option (FetchingNode V) :=
  g.fetchingNodes.lookup id

def write (g : FetchingNodeGraph V) (id : NodeId) (node : FetchingNode V) : FetchingNodeGraph V :=
  { g with fetchingNodes := g.fetchingNodes.insert id node }

def erase (g : FetchingNodeGraph V) (id : NodeId) : FetchingNodeGraph V :=
  { g with fetchingNodes := g.fetchingNodes.erase id }

/-- `none` is the failed check on the id. -/
def findNode (g : FetchingNodeGraph V) (id : NodeId) : Option (Option (FetchingNode V)) := do
  check (id ≠ .null)
  return g.node id

def addNode (g : FetchingNodeGraph V) (id : NodeId) : Option (FetchingNodeGraph V) := do
  check (id ≠ .null)
  return match g.node id with
    | some _ => g
    | none => g.write id { nodeState := { nodeId := id } }

/-- The loop of `ClearDependsOf` and `ClearDependentNodes` over the other ends. -/
def editAll (g : FetchingNodeGraph V) (edit : FetchingNode V → FetchingNode V)
    (ids : List NodeId) : Option (FetchingNodeGraph V) :=
  ids.foldlM (fun g id => (g.node id).map fun node => g.write id (edit node)) g

def clearDependsOf (g : FetchingNodeGraph V) (id : NodeId) : Option (FetchingNodeGraph V) := do
  let node ← g.node id
  let g ← g.editAll (·.eraseDependentNode id) node.dependsOf
  let node ← g.node id
  return g.write id { node with dependsOf := [] }

def clearDependentNodes (g : FetchingNodeGraph V) (id : NodeId) :
    Option (FetchingNodeGraph V) := do
  let node ← g.node id
  let g ← g.editAll (·.eraseDependsOf id) node.dependentNodes
  let node ← g.node id
  return g.write id { node with dependentNodes := [] }

/-- The node is unlinked and erased from the map. -/
def takeOut (g : FetchingNodeGraph V) (id : NodeId) : Option (FetchingNodeGraph V) := do
  let g ← g.clearDependsOf id
  let g ← g.clearDependentNodes id
  return g.erase id

def removeNode (g : FetchingNodeGraph V) (id : NodeId) : Option (FetchingNodeGraph V) :=
  match g.node id with
  | none => some g
  | some _ => g.takeOut id

/-- `Insert`: a vector without duplicates. -/
def insert (c : List NodeId) (v : NodeId) : List NodeId := if v ∈ c then c else c ++ [v]

/-- `AddDependency(node, from)`. -/
def addDependency (g : FetchingNodeGraph V) (id fromId : NodeId) :
    Option (FetchingNodeGraph V) := do
  check (id ≠ fromId)
  let fromNode ← g.node fromId
  let g := g.write fromId { fromNode with dependentNodes := insert fromNode.dependentNodes id }
  let node ← g.node id
  return g.write id { node with dependsOf := insert node.dependsOf fromId }

/-- The loop over the dependencies of a node, which ends at the first one that is
not fetched. -/
def allFetched (visit : FetchingNodeGraph V → NodeId → Option (FetchingNodeGraph V × Bool)) :
    FetchingNodeGraph V → List NodeId → Option (FetchingNodeGraph V × Bool)
  | g, [] => some (g, true)
  | g, id :: ids => do
      let (g, fetched) ← visit g id
      if fetched then allFetched visit g ids else return (g, false)

/-- The fuel stands for the depth of the recursion. -/
def isFetchedRecursively (iteration : ℕ) :
    ℕ → FetchingNodeGraph V → NodeId → Option (FetchingNodeGraph V × Bool)
  | 0, _, _ => none
  | fuel + 1, g, id => do
      let node ← g.node id
      if !node.fetched then return (g, false)
      else if node.fetchCacheIteration = iteration then return (g, node.fetchCacheState)
      else
        -- A cycle means fetched as well.
        let g := g.write id (node.cached iteration true)
        let (g, fetched) ← allFetched (isFetchedRecursively iteration fuel) g node.dependsOf
        let node ← g.node id
        return (g.write id { node with fetchCacheState := fetched }, fetched)

/-- The node or its error goes to the result. -/
def deliver (result : FetchCompletedResult V) (node : FetchingNode V) : FetchCompletedResult V :=
  if node.status = .good then { result with nodes := result.nodes ++ [node.nodeState] }
  else { result with errors := result.errors ++ [(node.nodeState.nodeId, node.status)] }

/-- The count of searches goes up before each one. -/
def counted (g : FetchingNodeGraph V) : FetchingNodeGraph V :=
  { g with fetchCacheIteration := g.fetchCacheIteration + 1 }

/-- One round of the loop of `GetFetchedNodes`. -/
def collectNode (g : FetchingNodeGraph V) (result : FetchCompletedResult V) (id : NodeId) :
    Option (FetchingNodeGraph V × FetchCompletedResult V) := do
  let iteration := g.fetchCacheIteration
  let g := g.counted
  let (g, fetched) ← isFetchedRecursively iteration (g.fetchingNodes.keys.length + 1) g id
  if fetched then
    let node ← g.node id
    check (node.fetchStarted ≠ .none)
    let g ← g.takeOut id
    return (g, deliver result node)
  else return (g, result)

/-- The loop erases no other node than the one it is at, so that it goes over the
keys there were. -/
def getFetchedNodes (g : FetchingNodeGraph V) :
    Option (FetchingNodeGraph V × FetchCompletedResult V) :=
  g.fetchingNodes.keys.foldlM (fun (g, result) id => g.collectNode result id) (g, {})

/-! ## §3  What the functions do to a node -/

variable {g g' : FetchingNodeGraph V} {id m : NodeId} {n : FetchingNode V}

@[simp] theorem node_write_self : (g.write id n).node id = some n := AList.lookup_insert _

theorem node_write_ne (h : m ≠ id) : (g.write id n).node m = g.node m := AList.lookup_insert_ne h

theorem node_write : (g.write id n).node m = if m = id then some n else g.node m := by
  by_cases h : m = id
  · subst h
    rw [node_write_self, if_pos rfl]
  · rw [node_write_ne h, if_neg h]

theorem node_erase : (g.erase id).node m = if m = id then none else g.node m := by
  by_cases h : m = id
  · subst h
    rw [if_pos rfl]
    exact AList.lookup_erase _ _
  · rw [if_neg h]
    exact AList.lookup_erase_ne h

theorem mem_keys_iff : id ∈ g.fetchingNodes.keys ↔ ∃ n, g.node id = some n := by
  rw [← AList.mem_keys, ← AList.lookup_isSome, Option.isSome_iff_exists]
  rfl

/-- The loop edits each of the nodes once. -/
theorem editAll_eq (edit : FetchingNode V → FetchingNode V) {ids : List NodeId}
    (hnodup : ids.Nodup) (hmem : ∀ id ∈ ids, ∃ n, g.node id = some n) :
    ∃ g', g.editAll edit ids = some g' ∧ g'.fetchCacheIteration = g.fetchCacheIteration ∧
      ∀ m, g'.node m = if m ∈ ids then (g.node m).map edit else g.node m := by
  induction ids generalizing g with
  | nil => exact ⟨g, rfl, rfl, fun m => by simp⟩
  | cons id ids ih =>
      obtain ⟨hid, hrest⟩ := List.nodup_cons.mp hnodup
      obtain ⟨n, hn⟩ := hmem id List.mem_cons_self
      obtain ⟨g', hg', hiteration, hnodes⟩ := ih (g := g.write id (edit n)) hrest (by
        intro m hm
        obtain ⟨n', hn'⟩ := hmem m (List.mem_cons_of_mem id hm)
        rw [node_write]
        split
        · exact ⟨_, rfl⟩
        · exact ⟨n', hn'⟩)
      refine ⟨g', ?_, hiteration, ?_⟩
      · rw [editAll, List.foldlM_cons, hn]
        exact hg'
      · intro m
        rw [hnodes, node_write]
        by_cases hm : m = id
        · subst hm
          simp [hid, hn]
        · simp [hm]

theorem mem_insert {c : List NodeId} {v w : NodeId} : w ∈ insert c v ↔ w ∈ c ∨ w = v := by
  unfold insert
  split
  · rename_i h
    exact ⟨Or.inl, fun hw => hw.elim id fun heq => heq ▸ h⟩
  · simp

theorem nodup_insert {c : List NodeId} (h : c.Nodup) (v : NodeId) : (insert c v).Nodup := by
  unfold insert
  split
  · exact h
  · rename_i hv
    rw [List.nodup_append]
    refine ⟨h, List.nodup_singleton v, ?_⟩
    intro a ha b hb heq
    rw [List.mem_singleton.mp hb] at heq
    exact hv (heq ▸ ha)

/-! ## §4  Links -/

def dependsOf (g : FetchingNodeGraph V) (id : NodeId) : List NodeId :=
  ((g.node id).map FetchingNode.dependsOf).getD []

def dependentNodes (g : FetchingNodeGraph V) (id : NodeId) : List NodeId :=
  ((g.node id).map FetchingNode.dependentNodes).getD []

/-- The edges have both ends, once each, at nodes of the graph. -/
structure Linked (g : FetchingNodeGraph V) : Prop where
  inverse : ∀ a b, b ∈ g.dependsOf a ↔ a ∈ g.dependentNodes b
  irrefl : ∀ a, a ∉ g.dependsOf a
  nodup_dependsOf : ∀ a, (g.dependsOf a).Nodup
  nodup_dependentNodes : ∀ a, (g.dependentNodes a).Nodup
  nodeId : ∀ a n, g.node a = some n → n.nodeState.nodeId = a
  /-- The searches to come have numbers that no search had. -/
  fresh : ∀ a n, g.node a = some n → n.fetchCacheIteration < g.fetchCacheIteration
  positive : 0 < g.fetchCacheIteration

theorem dependsOf_eq (h : g.node id = some n) : g.dependsOf id = n.dependsOf := by
  simp [dependsOf, h]

theorem dependentNodes_eq (h : g.node id = some n) : g.dependentNodes id = n.dependentNodes := by
  simp [dependentNodes, h]

theorem exists_node_of_mem_dependsOf {d : NodeId} (h : d ∈ g.dependsOf id) :
    ∃ n, g.node id = some n := by
  unfold dependsOf at h
  cases hn : g.node id with
  | none => simp [hn] at h
  | some n => exact ⟨n, rfl⟩

theorem exists_node_of_mem_dependentNodes {d : NodeId} (h : d ∈ g.dependentNodes id) :
    ∃ n, g.node id = some n := by
  unfold dependentNodes at h
  cases hn : g.node id with
  | none => simp [hn] at h
  | some n => exact ⟨n, rfl⟩

/-- No edge points at a node that is gone. -/
theorem Linked.target (h : Linked g) {a b : NodeId} (hb : b ∈ g.dependsOf a) :
    ∃ n, g.node b = some n :=
  exists_node_of_mem_dependentNodes ((h.inverse a b).mp hb)

theorem Linked.source (h : Linked g) {a b : NodeId} (hb : b ∈ g.dependentNodes a) :
    ∃ n, g.node b = some n :=
  exists_node_of_mem_dependsOf ((h.inverse b a).mpr hb)

theorem dependsOf_write : (g.write id n).dependsOf m = if m = id then n.dependsOf else g.dependsOf m := by
  unfold dependsOf
  rw [node_write]
  split <;> rfl

theorem dependentNodes_write :
    (g.write id n).dependentNodes m = if m = id then n.dependentNodes else g.dependentNodes m := by
  unfold dependentNodes
  rw [node_write]
  split <;> rfl

/-- What does not touch the links. -/
theorem Linked.of_links (h : Linked g) (hdepends : ∀ m, g'.dependsOf m = g.dependsOf m)
    (hdependents : ∀ m, g'.dependentNodes m = g.dependentNodes m)
    (hnodes : ∀ m n', g'.node m = some n' →
      n'.nodeState.nodeId = m ∧ n'.fetchCacheIteration < g'.fetchCacheIteration)
    (hpositive : 0 < g'.fetchCacheIteration) : Linked g' := by
  refine ⟨?_, ?_, ?_, ?_, fun m n' hn' => (hnodes m n' hn').1, fun m n' hn' => (hnodes m n' hn').2,
    hpositive⟩
  · intro a b
    rw [hdepends, hdependents]
    exact h.inverse a b
  · intro a
    rw [hdepends]
    exact h.irrefl a
  · intro a
    rw [hdepends]
    exact h.nodup_dependsOf a
  · intro a
    rw [hdependents]
    exact h.nodup_dependentNodes a

/-- **A node taken out leaves no link behind.** -/
theorem takeOut_eq (h : Linked g) (hn : g.node id = some n) :
    ∃ g', g.takeOut id = some g' ∧ g'.fetchCacheIteration = g.fetchCacheIteration ∧
      ∀ m, g'.node m = if m = id then none else (g.node m).map (FetchingNode.without · id) := by
  have hdepends := dependsOf_eq hn
  have hdependents := dependentNodes_eq hn
  -- The other ends of what the node depends on.
  obtain ⟨g₁, hg₁, hiteration₁, hnodes₁⟩ := editAll_eq (·.eraseDependentNode id)
    (hdepends ▸ h.nodup_dependsOf id) (fun m hm => h.target (hdepends ▸ hm))
  have hself₁ : g₁.node id = some n := by
    rw [hnodes₁, if_neg (hdepends ▸ h.irrefl id), hn]
  -- The other ends of what depends on the node.
  obtain ⟨g₂, hg₂, hiteration₂, hnodes₂⟩ := editAll_eq (·.eraseDependsOf id)
    (g := g₁.write id { n with dependsOf := [] })
    (hdependents ▸ h.nodup_dependentNodes id) (by
      intro m hm
      obtain ⟨n', hn'⟩ := h.source (hdependents ▸ hm)
      rw [node_write]
      split
      · exact ⟨_, rfl⟩
      · rw [hnodes₁, hn']
        split <;> exact ⟨_, rfl⟩)
  have hnot : id ∉ n.dependentNodes := by
    intro hmem
    rw [← hdependents] at hmem
    exact h.irrefl id ((h.inverse id id).mpr hmem)
  have hself₂ : g₂.node id = some { n with dependsOf := [] } := by
    rw [hnodes₂, if_neg hnot, node_write_self]
  refine ⟨(g₂.write id { n with dependsOf := [], dependentNodes := [] }).erase id, ?_, ?_, ?_⟩
  · have hclear₁ : g.clearDependsOf id = some (g₁.write id { n with dependsOf := [] }) := by
      simp [clearDependsOf, hn, hg₁, hself₁]
    have hclear₂ : (g₁.write id { n with dependsOf := [] }).clearDependentNodes id =
        some (g₂.write id { n with dependsOf := [], dependentNodes := [] }) := by
      simp [clearDependentNodes, hg₂, hself₂]
    simp [takeOut, hclear₁, hclear₂]
  · exact hiteration₂.trans hiteration₁
  · intro m
    rw [node_erase]
    by_cases hm : m = id
    · rw [if_pos hm, if_pos hm]
    · rw [if_neg hm, if_neg hm, node_write_ne hm, hnodes₂, node_write_ne hm, hnodes₁]
      cases hnode : g.node m with
      | none => simp
      | some n' =>
          have hinverse := h.inverse id m
          have hinverse' := h.inverse m id
          rw [hdepends, dependentNodes_eq hnode] at hinverse
          rw [hdependents, dependsOf_eq hnode] at hinverse'
          -- Where there is no link there is nothing to erase.
          have hone : (if m ∈ n.dependsOf then some (n'.eraseDependentNode id) else some n') =
              some (n'.eraseDependentNode id) := by
            split
            · rfl
            · rename_i hlink
              rw [FetchingNode.eraseDependentNode,
                List.erase_of_not_mem fun hmem => hlink (hinverse.mpr hmem)]
          rw [Option.map_some, hone]
          split
          · rfl
          · rename_i hlink
            rw [Option.map_some, FetchingNode.without, FetchingNode.eraseDependsOf,
              List.erase_of_not_mem fun hmem => hlink (hinverse'.mp hmem)]

/-! ## §5  The search -/

def Depends (g : FetchingNodeGraph V) (a b : NodeId) : Prop := b ∈ g.dependsOf a

def Fetched (g : FetchingNodeGraph V) (id : NodeId) : Prop :=
  ∃ n, g.node id = some n ∧ n.fetched = true

/-- The node and all it depends on, through cycles as well, are fetched. -/
def Complete (g : FetchingNodeGraph V) (id : NodeId) : Prop := Settled g.Depends g.Fetched id

/-- The nodes that a search has come to. -/
def visited (g : FetchingNodeGraph V) (iteration : ℕ) : Set NodeId :=
  {id | ∃ n, g.node id = some n ∧ n.fetchCacheIteration = iteration}

/-- A search writes nothing but its marks. -/
structure Searched (iteration : ℕ) (g g' : FetchingNodeGraph V) : Prop where
  node : ∀ m, (g'.node m).map (FetchingNode.cached · 0 false) =
    (g.node m).map (FetchingNode.cached · 0 false)
  fetchCacheIteration : g'.fetchCacheIteration = g.fetchCacheIteration
  caches : ∀ m n', g'.node m = some n' → n'.fetchCacheIteration = iteration ∨
    ∃ n, g.node m = some n ∧ n.fetchCacheIteration = n'.fetchCacheIteration

namespace Searched

variable {iteration : ℕ} {g₂ : FetchingNodeGraph V}

theorem refl (g : FetchingNodeGraph V) : Searched iteration g g :=
  ⟨fun _ => rfl, rfl, fun _ n hn => Or.inr ⟨n, hn, rfl⟩⟩

theorem trans (h : Searched iteration g g') (h' : Searched iteration g' g₂) :
    Searched iteration g g₂ := by
  refine ⟨fun m => (h'.node m).trans (h.node m),
    h'.fetchCacheIteration.trans h.fetchCacheIteration, ?_⟩
  intro m n₂ hn₂
  rcases h'.caches m n₂ hn₂ with hmark | ⟨n', hn', heq⟩
  · exact Or.inl hmark
  · rcases h.caches m n' hn' with hmark | ⟨n, hn, heq'⟩
    · exact Or.inl (heq ▸ hmark)
    · exact Or.inr ⟨n, hn, heq'.trans heq⟩

variable (iteration) in
theorem write (hn : g.node id = some n) (state : Bool) :
    Searched iteration g (g.write id (n.cached iteration state)) := by
  refine ⟨?_, rfl, ?_⟩
  · intro m
    rw [node_write]
    by_cases hm : m = id
    · rw [if_pos hm, hm, hn]
      rfl
    · rw [if_neg hm]
  · intro m n' hn'
    rw [node_write] at hn'
    split at hn'
    · cases hn'
      exact Or.inl rfl
    · exact Or.inr ⟨n', hn', rfl⟩

/-- The node that a search leaves. -/
theorem exists_node (h : Searched iteration g g') (hn : g.node id = some n) :
    ∃ n', g'.node id = some n' ∧ n'.cached 0 false = n.cached 0 false := by
  have hnode := h.node id
  rw [hn, Option.map_some] at hnode
  exact Option.map_eq_some_iff.mp hnode

theorem exists_node_iff (h : Searched iteration g g') :
    (∃ n, g'.node id = some n) ↔ ∃ n, g.node id = some n := by
  have hnode := congrArg Option.isSome (h.node id)
  rw [Option.isSome_map, Option.isSome_map] at hnode
  rw [← Option.isSome_iff_exists, ← Option.isSome_iff_exists, hnode]

theorem map_eq {β : Type} (h : Searched iteration g g') (view : FetchingNode V → β)
    (hview : ∀ n, view (n.cached 0 false) = view n) :
    (g'.node id).map view = (g.node id).map view := by
  have hnode := congrArg (Option.map view) (h.node id)
  rw [Option.map_map, Option.map_map] at hnode
  have hcomp : view ∘ (FetchingNode.cached · 0 false) = view := funext hview
  rwa [hcomp] at hnode

theorem dependsOf (h : Searched iteration g g') : g'.dependsOf id = g.dependsOf id :=
  congrArg (Option.getD · []) (h.map_eq FetchingNode.dependsOf fun _ => rfl)

theorem dependentNodes (h : Searched iteration g g') :
    g'.dependentNodes id = g.dependentNodes id :=
  congrArg (Option.getD · []) (h.map_eq FetchingNode.dependentNodes fun _ => rfl)

theorem fetched_iff (h : Searched iteration g g') : g'.Fetched id ↔ g.Fetched id := by
  have hmap : (g'.node id).map FetchingNode.fetched = (g.node id).map FetchingNode.fetched :=
    h.map_eq FetchingNode.fetched fun _ => rfl
  unfold Fetched
  rw [← Option.map_eq_some_iff, ← Option.map_eq_some_iff, hmap]

theorem depends_iff (h : Searched iteration g g') (a b : NodeId) :
    g'.Depends a b ↔ g.Depends a b := by
  unfold Depends
  rw [h.dependsOf]

theorem complete_iff (h : Searched iteration g g') : g'.Complete id ↔ g.Complete id := by
  have hfetched : g'.Fetched = g.Fetched := funext fun m => propext h.fetched_iff
  unfold Complete
  rw [hfetched]
  exact Settled.congr h.depends_iff

end Searched

/-- The marks say that all is well so far. -/
def Optimistic (g : FetchingNodeGraph V) (iteration : ℕ) : Prop :=
  ∀ id n, g.node id = some n → n.fetchCacheIteration = iteration → n.fetchCacheState = true

/-- What a search that found only fetched nodes has done: those it came to are fetched,
and it came to all that they depend on. -/
structure AllFetched (iteration : ℕ) (g g' : FetchingNodeGraph V) (ids : List NodeId) : Prop where
  optimistic : g'.Optimistic iteration
  visited : g.visited iteration ⊆ g'.visited iteration
  mem : ∀ id ∈ ids, id ∈ g'.visited iteration
  fetched : ∀ m ∈ g'.visited iteration, m ∉ g.visited iteration → g.Fetched m
  closed : ∀ m ∈ g'.visited iteration, m ∉ g.visited iteration →
    ∀ d ∈ g.dependsOf m, d ∈ g'.visited iteration

/-- One of the nodes depends on a node that is not fetched. -/
def Incomplete (g : FetchingNodeGraph V) (ids : List NodeId) : Prop :=
  ∃ id ∈ ids, ¬ g.Complete id

/-- The outcome of a search from some nodes. -/
structure Outcome (iteration : ℕ) (g : FetchingNodeGraph V) (ids : List NodeId)
    (r : FetchingNodeGraph V × Bool) : Prop where
  searched : Searched iteration g r.1
  found : r.2 = true → AllFetched iteration g r.1 ids
  missed : r.2 = false → g.Incomplete ids

/-- How many nodes the search has not come to. -/
def unvisited (g : FetchingNodeGraph V) (iteration : ℕ) : Finset NodeId :=
  g.fetchingNodes.keys.toFinset.filter fun id =>
    (g.node id).map FetchingNode.fetchCacheIteration ≠ some iteration

theorem mem_unvisited {iteration : ℕ} : id ∈ g.unvisited iteration ↔
    (∃ n, g.node id = some n) ∧ id ∉ g.visited iteration := by
  unfold unvisited visited
  rw [Finset.mem_filter, List.mem_toFinset, mem_keys_iff, Set.mem_ofPred_eq, ne_eq,
    Option.map_eq_some_iff]

theorem unvisited_subset {iteration : ℕ} (h : Searched iteration g g')
    (hvisited : g.visited iteration ⊆ g'.visited iteration) :
    g'.unvisited iteration ⊆ g.unvisited iteration := by
  intro m hm
  obtain ⟨hnode, hnot⟩ := mem_unvisited.mp hm
  exact mem_unvisited.mpr ⟨h.exists_node_iff.mp hnode, fun hmem => hnot (hvisited hmem)⟩

theorem AllFetched.nil {iteration : ℕ} (h : g.Optimistic iteration) :
    AllFetched iteration g g [] :=
  ⟨h, fun _ hm => hm, nofun, fun _ hm hnot => absurd hm hnot, fun _ hm hnot => absurd hm hnot⟩

/-- One search after another. -/
theorem AllFetched.append {iteration : ℕ} {ids ids' : List NodeId} {g₂ : FetchingNodeGraph V}
    (hsearched : Searched iteration g g') (h : AllFetched iteration g g' ids)
    (h' : AllFetched iteration g' g₂ ids') : AllFetched iteration g g₂ (ids ++ ids') := by
  refine ⟨h'.optimistic, fun m hm => h'.visited (h.visited hm), ?_, ?_, ?_⟩
  · intro m hm
    rcases List.mem_append.mp hm with hm | hm
    · exact h'.visited (h.mem m hm)
    · exact h'.mem m hm
  · intro m hm hnot
    by_cases hmid : m ∈ g'.visited iteration
    · exact h.fetched m hmid hnot
    · exact hsearched.fetched_iff.mp (h'.fetched m hm hmid)
  · intro m hm hnot d hd
    by_cases hmid : m ∈ g'.visited iteration
    · exact h'.visited (h.closed m hmid hnot d hd)
    · exact h'.closed m hm hmid d (hsearched.dependsOf ▸ hd)

/-- Where a search may start. -/
structure Searchable (iteration fuel : ℕ) (g : FetchingNodeGraph V) : Prop where
  optimistic : g.Optimistic iteration
  target : ∀ a b, b ∈ g.dependsOf a → ∃ n, g.node b = some n
  fuel : (g.unvisited iteration).card < fuel

theorem Searchable.searched {iteration fuel : ℕ} {ids : List NodeId}
    (h : Searchable iteration fuel g) (hsearched : Searched iteration g g')
    (hfound : AllFetched iteration g g' ids) : Searchable iteration fuel g' := by
  refine ⟨hfound.optimistic, ?_, ?_⟩
  · intro a b hb
    rw [hsearched.dependsOf] at hb
    exact hsearched.exists_node_iff.mpr (h.target a b hb)
  · exact lt_of_le_of_lt
      (Finset.card_le_card (unvisited_subset hsearched hfound.visited)) h.fuel

theorem allFetched_outcome {iteration fuel : ℕ}
    {visit : FetchingNodeGraph V → NodeId → Option (FetchingNodeGraph V × Bool)}
    (hvisit : ∀ g id, Searchable iteration fuel g → (∃ n, g.node id = some n) →
      ∃ r, visit g id = some r ∧ Outcome iteration g [id] r)
    {ids : List NodeId} (h : Searchable iteration fuel g)
    (hids : ∀ id ∈ ids, ∃ n, g.node id = some n) :
    ∃ r, allFetched visit g ids = some r ∧ Outcome iteration g ids r := by
  induction ids generalizing g with
  | nil => exact ⟨(g, true), rfl, Searched.refl g, fun _ => AllFetched.nil h.optimistic, nofun⟩
  | cons id ids ih =>
      obtain ⟨⟨g₁, fetched⟩, hfirst, houtcome⟩ := hvisit g id h (hids id List.mem_cons_self)
      have hsearched₁ : Searched iteration g g₁ := houtcome.searched
      cases fetched with
      | false =>
          refine ⟨(g₁, false), ?_, hsearched₁, nofun, ?_⟩
          · rw [allFetched, hfirst]
            rfl
          · intro _
            obtain ⟨m, hm, hmissed⟩ := houtcome.missed rfl
            rw [List.mem_singleton.mp hm] at hmissed
            exact ⟨id, List.mem_cons_self, hmissed⟩
      | true =>
          have hfound := houtcome.found rfl
          obtain ⟨⟨g₂, rest⟩, hrest, houtcome'⟩ := ih (h.searched hsearched₁ hfound) (by
            intro m hm
            exact hsearched₁.exists_node_iff.mpr (hids m (List.mem_cons_of_mem id hm)))
          refine ⟨(g₂, rest), ?_, hsearched₁.trans houtcome'.searched, ?_, ?_⟩
          · rw [allFetched, hfirst]
            exact hrest
          · intro hall
            exact AllFetched.append hsearched₁ hfound (houtcome'.found hall)
          · intro hnot
            obtain ⟨m, hm, hmissed⟩ := houtcome'.missed hnot
            exact ⟨m, List.mem_cons_of_mem id hm, fun hc => hmissed (hsearched₁.complete_iff.mpr hc)⟩

theorem mem_visited_write {iteration : ℕ} {state : Bool} :
    m ∈ (g.write id (n.cached iteration state)).visited iteration ↔
      m = id ∨ m ∈ g.visited iteration := by
  unfold visited
  rw [Set.mem_ofPred_eq, Set.mem_ofPred_eq, node_write]
  by_cases hm : m = id
  · simp [hm, FetchingNode.cached]
  · simp [hm]

/-- A node is marked before the search goes on from it. -/
theorem Searchable.mark {iteration fuel : ℕ} (h : Searchable iteration (fuel + 1) g)
    (hn : g.node id = some n) (hmark : n.fetchCacheIteration ≠ iteration) :
    Searchable iteration fuel (g.write id (n.cached iteration true)) := by
  have hstep := Searched.write iteration hn true
  refine ⟨?_, ?_, ?_⟩
  · intro m n' hn' heq
    rw [node_write] at hn'
    split at hn'
    · cases hn'
      rfl
    · exact h.optimistic m n' hn' heq
  · intro a b hb
    rw [hstep.dependsOf] at hb
    exact hstep.exists_node_iff.mpr (h.target a b hb)
  · have hsub := unvisited_subset hstep fun m hm => mem_visited_write.mpr (Or.inr hm)
    have hmem : id ∈ g.unvisited iteration := by
      refine mem_unvisited.mpr ⟨⟨n, hn⟩, ?_⟩
      rintro ⟨n', hn', heq⟩
      rw [hn] at hn'
      cases hn'
      exact hmark heq
    have hnot : id ∉ (g.write id (n.cached iteration true)).unvisited iteration :=
      fun hmem => (mem_unvisited.mp hmem).2 (mem_visited_write.mpr (Or.inl rfl))
    have hlt := Finset.card_lt_card (Finset.ssubset_iff_of_subset hsub |>.mpr ⟨id, hmem, hnot⟩)
    have hfuel := h.fuel
    omega

/-- What is found from a node, when all it depends on is. -/
theorem AllFetched.node {iteration : ℕ} (hn : g.node id = some n) (hfetched : n.fetched = true)
    (h : AllFetched iteration (g.write id (n.cached iteration true)) g' n.dependsOf) :
    AllFetched iteration g g' [id] := by
  have hstep := Searched.write iteration hn true
  have hself : id ∈ g'.visited iteration := h.visited (mem_visited_write.mpr (Or.inl rfl))
  refine ⟨h.optimistic, fun m hm => h.visited (mem_visited_write.mpr (Or.inr hm)), ?_, ?_, ?_⟩
  · intro m hm
    rwa [List.mem_singleton.mp hm]
  · intro m hm hnot
    by_cases heq : m = id
    · rw [heq]
      exact ⟨n, hn, hfetched⟩
    · refine hstep.fetched_iff.mp (h.fetched m hm fun hmem => ?_)
      exact (mem_visited_write.mp hmem).elim heq hnot
  · intro m hm hnot d hd
    by_cases heq : m = id
    · rw [heq, dependsOf_eq hn] at hd
      exact h.mem d hd
    · refine h.closed m hm (fun hmem => (mem_visited_write.mp hmem).elim heq hnot) d ?_
      rwa [hstep.dependsOf]

/-- Writing the mark of a visited node again. -/
theorem AllFetched.write {iteration : ℕ} {ids : List NodeId} (h : AllFetched iteration g g' ids)
    (hn : g'.node id = some n) (hmark : n.fetchCacheIteration = iteration) :
    AllFetched iteration g (g'.write id (n.cached iteration true)) ids := by
  have hvisited : (g'.write id (n.cached iteration true)).visited iteration =
      g'.visited iteration := by
    ext m
    rw [mem_visited_write]
    refine ⟨fun hm => hm.elim (fun heq => ?_) fun hm => hm, Or.inr⟩
    rw [heq]
    exact ⟨n, hn, hmark⟩
  refine ⟨?_, hvisited ▸ h.visited, hvisited ▸ h.mem, hvisited ▸ h.fetched, hvisited ▸ h.closed⟩
  intro m n' hn' heq
  rw [node_write] at hn'
  split at hn'
  · cases hn'
    rfl
  · exact h.optimistic m n' hn' heq

/-- **The search** ends, and finds out whether all that it comes to is fetched. A node
of a cycle is taken for fetched before it is known to be; when it turns out not to be,
the whole search ends. -/
theorem isFetchedRecursively_outcome {iteration : ℕ} (fuel : ℕ)
    (h : Searchable iteration fuel g) (hid : ∃ n, g.node id = some n) :
    ∃ r, isFetchedRecursively iteration fuel g id = some r ∧ Outcome iteration g [id] r := by
  induction fuel generalizing g id with
  | zero => exact absurd h.fuel (Nat.not_lt_zero _)
  | succ fuel ih =>
      obtain ⟨n, hn⟩ := hid
      rw [isFetchedRecursively, hn, Option.bind_eq_bind, Option.bind_some]
      by_cases hfetched : n.fetched = true
      · rw [hfetched, Bool.not_true, if_neg Bool.false_ne_true]
        by_cases hmark : n.fetchCacheIteration = iteration
        · -- The search has been here.
          rw [if_pos hmark, h.optimistic id n hn hmark]
          refine ⟨(g, true), rfl, Searched.refl g, fun _ => ?_, nofun⟩
          refine ⟨h.optimistic, fun _ hm => hm, ?_, fun _ hm hnot => absurd hm hnot,
            fun _ hm hnot => absurd hm hnot⟩
          intro m hm
          rw [List.mem_singleton.mp hm]
          exact ⟨n, hn, hmark⟩
        · rw [if_neg hmark]
          have hstep := Searched.write iteration hn true
          have hvisit : ∀ g id, Searchable iteration fuel g → (∃ n, g.node id = some n) →
              ∃ r, isFetchedRecursively iteration fuel g id = some r ∧
                Outcome (V := V) iteration g [id] r :=
            fun _ _ hsearch hid => ih hsearch hid
          have htarget : ∀ d ∈ n.dependsOf,
              ∃ n', (g.write id (n.cached iteration true)).node d = some n' := by
            intro d hd
            exact hstep.exists_node_iff.mpr (h.target id d (dependsOf_eq hn ▸ hd))
          obtain ⟨⟨g₂, fetched⟩, hloop, houtcome⟩ :=
            allFetched_outcome hvisit (h.mark hn hmark) htarget
          have hsearched : Searched iteration g g₂ := hstep.trans houtcome.searched
          obtain ⟨n₂, hn₂, -⟩ := hsearched.exists_node hn
          have hmark₂ : n₂.fetchCacheIteration = iteration := by
            rcases houtcome.searched.caches id n₂ hn₂ with heq | ⟨n₁, hn₁, heq⟩
            · exact heq
            · rw [node_write_self] at hn₁
              cases hn₁
              exact heq.symm
          have hlast : ({ n₂ with fetchCacheState := fetched } : FetchingNode V) =
              n₂.cached iteration fetched := by
            rw [FetchingNode.cached, ← hmark₂]
          refine ⟨(g₂.write id (n₂.cached iteration fetched), fetched), ?_,
            hsearched.trans (Searched.write iteration hn₂ fetched), ?_, ?_⟩
          · simp only [hloop, Option.bind_eq_bind, Option.bind_some, hn₂, hlast]
            rfl
          · rintro rfl
            exact AllFetched.write (AllFetched.node hn hfetched (houtcome.found rfl)) hn₂ hmark₂
          · intro hmissed
            obtain ⟨d, hd, hnot⟩ := houtcome.missed hmissed
            refine ⟨id, List.mem_singleton_self id, fun hcomplete => hnot ?_⟩
            rw [hstep.complete_iff]
            refine hcomplete.of_dep ?_
            rwa [Depends, dependsOf_eq hn]
      · have hnot : n.fetched = false := by simpa using hfetched
        rw [hnot, Bool.not_false, if_pos rfl]
        refine ⟨(g, false), rfl, Searched.refl g, nofun, fun _ => ⟨id, List.mem_singleton_self id, ?_⟩⟩
        intro hcomplete
        obtain ⟨n', hn', hfetched'⟩ := hcomplete.self
        rw [hn] at hn'
        cases hn'
        exact hfetched hfetched'

/-! ## §6  Complete nodes -/

theorem links_takeOut {gone : NodeId} (hnodes : ∀ m, g'.node m =
      if m = gone then none else (g.node m).map (FetchingNode.without · gone)) (m : NodeId) :
    g'.dependsOf m = (if m = gone then [] else (g.dependsOf m).erase gone) ∧
      g'.dependentNodes m = if m = gone then [] else (g.dependentNodes m).erase gone := by
  unfold dependsOf dependentNodes
  rw [hnodes]
  by_cases hm : m = gone
  · simp only [if_pos hm]
    exact ⟨rfl, rfl⟩
  · simp only [if_neg hm]
    cases g.node m <;> exact ⟨rfl, rfl⟩

theorem Linked.takeOut (h : Linked g) {gone : NodeId}
    (hiteration : g'.fetchCacheIteration = g.fetchCacheIteration)
    (hnodes : ∀ m, g'.node m =
      if m = gone then none else (g.node m).map (FetchingNode.without · gone)) : Linked g' := by
  have hdepends := fun m => (links_takeOut hnodes m).1
  have hdependents := fun m => (links_takeOut hnodes m).2
  refine ⟨?_, ?_, ?_, ?_, ?_, ?_, hiteration ▸ h.positive⟩
  · intro a b
    rw [hdepends, hdependents]
    by_cases ha : a = gone
    · by_cases hb : b = gone
      · simp [ha, hb]
      · rw [if_pos ha, if_neg hb, (h.nodup_dependentNodes b).mem_erase_iff]
        simp [ha]
    · by_cases hb : b = gone
      · rw [if_neg ha, if_pos hb, (h.nodup_dependsOf a).mem_erase_iff]
        simp [hb]
      · rw [if_neg ha, if_neg hb, (h.nodup_dependsOf a).mem_erase_iff,
          (h.nodup_dependentNodes b).mem_erase_iff, h.inverse a b]
        simp [ha, hb]
  · intro a ha
    rw [hdepends] at ha
    split at ha
    · cases ha
    · exact h.irrefl a (List.mem_of_mem_erase ha)
  · intro a
    rw [hdepends]
    split
    · exact List.nodup_nil
    · exact (h.nodup_dependsOf a).erase gone
  · intro a
    rw [hdependents]
    split
    · exact List.nodup_nil
    · exact (h.nodup_dependentNodes a).erase gone
  · intro a n' hn'
    rw [hnodes] at hn'
    split at hn'
    · cases hn'
    · obtain ⟨n, hn, rfl⟩ := Option.map_eq_some_iff.mp hn'
      exact h.nodeId a n hn
  · intro a n' hn'
    rw [hnodes] at hn'
    rw [hiteration]
    split at hn'
    · cases hn'
    · obtain ⟨n, hn, rfl⟩ := Option.map_eq_some_iff.mp hn'
      exact h.fresh a n hn

theorem Linked.counted (h : Linked g) : Linked g.counted :=
  ⟨h.inverse, h.irrefl, h.nodup_dependsOf, h.nodup_dependentNodes, h.nodeId,
    fun a n hn => (h.fresh a n hn).trans (Nat.lt_succ_self _), Nat.succ_pos _⟩

theorem Linked.searched {iteration : ℕ} (h : Linked g) (hsearched : Searched iteration g g')
    (hlt : iteration < g.fetchCacheIteration) : Linked g' := by
  refine h.of_links (fun m => hsearched.dependsOf) (fun m => hsearched.dependentNodes) ?_
    (hsearched.fetchCacheIteration ▸ h.positive)
  intro m n' hn'
  obtain ⟨n, hn⟩ := hsearched.exists_node_iff.mp ⟨n', hn'⟩
  obtain ⟨n'', hn'', hcontent⟩ := hsearched.exists_node hn
  rw [hn'] at hn''
  cases hn''
  have hstate : n'.nodeState = n.nodeState := by
    have hstate := congrArg FetchingNode.nodeState hcontent
    exact hstate
  rw [hsearched.fetchCacheIteration, hstate]
  refine ⟨h.nodeId m n hn, ?_⟩
  rcases hsearched.caches m n' hn' with heq | ⟨n₁, hn₁, heq⟩
  · rw [heq]
    exact hlt
  · rw [← heq]
    exact h.fresh m n₁ hn₁

/-- **A round finds out whether a node is complete.** -/
theorem exists_search (h : Linked g) (hid : ∃ n, g.node id = some n) :
    ∃ g' fetched, isFetchedRecursively g.fetchCacheIteration
        (g.counted.fetchingNodes.keys.length + 1) g.counted id = some (g', fetched) ∧
      Searched g.fetchCacheIteration g.counted g' ∧ (fetched = true ↔ g.Complete id) := by
  have hnone : ∀ m, m ∉ g.counted.visited g.fetchCacheIteration := by
    rintro m ⟨n, hn, heq⟩
    exact (h.fresh m n hn).ne heq
  have hsearchable : Searchable g.fetchCacheIteration
      (g.counted.fetchingNodes.keys.length + 1) g.counted := by
    refine ⟨?_, fun a b hb => h.target hb, ?_⟩
    · intro m n hn heq
      exact absurd ⟨n, hn, heq⟩ (hnone m)
    · exact Nat.lt_succ_of_le ((Finset.card_filter_le _ _).trans (List.toFinset_card_le _))
  obtain ⟨⟨g', fetched⟩, hrun, houtcome⟩ := isFetchedRecursively_outcome _ hsearchable hid
  refine ⟨g', fetched, hrun, houtcome.searched, ?_⟩
  constructor
  · intro hfetched
    have hfound := houtcome.found hfetched
    exact Settled.of_closed (S := g'.visited g.fetchCacheIteration)
      (fun m hm => hfound.fetched m hm (hnone m)) (fun m hm d hd => hfound.closed m hm (hnone m) d hd)
      (hfound.mem id (List.mem_singleton_self id))
  · intro hcomplete
    by_contra hmissed
    obtain ⟨m, hm, hnot⟩ := houtcome.missed (by simpa using hmissed)
    rw [List.mem_singleton.mp hm] at hnot
    exact hnot hcomplete

/-- Some nodes are gone, with their links; of the others only the marks were written. -/
structure Reduced (g g' : FetchingNodeGraph V) (gone : Set NodeId) : Prop where
  missing : ∀ m ∈ gone, g'.node m = none
  kept : ∀ m ∉ gone, (g'.node m).map FetchingNode.content = (g.node m).map FetchingNode.content
  dependsOf : ∀ m d, d ∈ g'.dependsOf m ↔ d ∈ g.dependsOf m ∧ m ∉ gone ∧ d ∉ gone
  dependentNodes : ∀ m d, d ∈ g'.dependentNodes m ↔ d ∈ g.dependentNodes m ∧ m ∉ gone ∧ d ∉ gone

namespace Reduced

variable {gone : Set NodeId} {g₂ : FetchingNodeGraph V}

theorem refl (g : FetchingNodeGraph V) : Reduced g g ∅ :=
  ⟨nofun, fun _ _ => rfl, fun m d => by simp, fun m d => by simp⟩

theorem exists_node (h : Reduced g g' gone) (hm : m ∉ gone) (hn : g.node m = some n) :
    ∃ n', g'.node m = some n' ∧ n'.content = n.content := by
  have hnode := h.kept m hm
  rw [hn, Option.map_some] at hnode
  exact Option.map_eq_some_iff.mp hnode

theorem fetched_iff (h : Reduced g g' gone) (hm : m ∉ gone) : g'.Fetched m ↔ g.Fetched m := by
  have hnode := congrArg (Option.map FetchingNode.fetched) (h.kept m hm)
  rw [Option.map_map, Option.map_map] at hnode
  have hmap : (g'.node m).map FetchingNode.fetched = (g.node m).map FetchingNode.fetched := hnode
  unfold Fetched
  rw [← Option.map_eq_some_iff, ← Option.map_eq_some_iff, hmap]

/-- Taking out complete nodes completes no other one, and keeps none from it. -/
theorem complete_iff (h : Reduced g g' gone) (hcomplete : ∀ m ∈ gone, g.Complete m)
    (hm : m ∉ gone) : g'.Complete m ↔ g.Complete m :=
  Settled.cut_iff h.dependsOf (fun _ hx => h.fetched_iff hx) hcomplete hm

theorem searched {iteration : ℕ} (h : Reduced g g' gone) (hsearched : Searched iteration g' g₂) :
    Reduced g g₂ gone := by
  refine ⟨?_, ?_, ?_, ?_⟩
  · intro m hm
    have hnode := hsearched.node m
    rw [h.missing m hm, Option.map_none, Option.map_eq_none_iff] at hnode
    exact hnode
  · intro m hm
    exact (hsearched.map_eq FetchingNode.content fun _ => rfl).trans (h.kept m hm)
  · intro m d
    rw [hsearched.dependsOf, h.dependsOf]
  · intro m d
    rw [hsearched.dependentNodes, h.dependentNodes]

theorem takeOut (h : Reduced g g' gone) (hlinked : Linked g') {id : NodeId}
    (hnodes : ∀ m, g₂.node m =
      if m = id then none else (g'.node m).map (FetchingNode.without · id)) :
    Reduced g g₂ (Set.insert id gone) := by
  have hmem : ∀ m, m ∉ Set.insert id gone ↔ m ≠ id ∧ m ∉ gone := by
    intro m
    exact not_or
  refine ⟨?_, ?_, ?_, ?_⟩
  · intro m hm
    rw [hnodes]
    split
    · rfl
    · rename_i hne
      rw [h.missing m (hm.resolve_left hne), Option.map_none]
  · intro m hm
    obtain ⟨hne, hm⟩ := (hmem m).mp hm
    rw [hnodes, if_neg hne, Option.map_map, ← h.kept m hm]
    rfl
  · intro m d
    rw [(links_takeOut hnodes _).1, hmem, hmem]
    by_cases hne : m = id
    · simp [hne]
    · rw [if_neg hne, (hlinked.nodup_dependsOf m).mem_erase_iff, h.dependsOf]
      tauto
  · intro m d
    rw [(links_takeOut hnodes _).2, hmem, hmem]
    by_cases hne : m = id
    · simp [hne]
    · rw [if_neg hne, (hlinked.nodup_dependentNodes m).mem_erase_iff, h.dependentNodes]
      tauto

end Reduced

/-- What some nodes are given out as: once each, the state of a node or its error. -/
structure Delivers (g : FetchingNodeGraph V) (result : FetchCompletedResult V)
    (ids : Set NodeId) : Prop where
  nodup : result.ids.Nodup
  mem : ∀ id, id ∈ result.ids ↔ id ∈ ids
  nodes : ∀ state ∈ result.nodes, ∃ n, g.node state.nodeId = some n ∧ n.nodeState = state ∧
    n.status = .good
  errors : ∀ error ∈ result.errors, ∃ n, g.node error.1 = some n ∧ n.status = error.2 ∧
    error.2 ≠ .good

theorem ids_deliver (result : FetchCompletedResult V) (n : FetchingNode V) :
    (deliver result n).ids.Perm (n.nodeState.nodeId :: result.ids) := by
  unfold deliver FetchCompletedResult.ids
  split
  · rw [List.map_append, List.append_assoc]
    exact List.perm_middle
  · rw [List.map_append, ← List.append_assoc]
    exact (List.perm_append_singleton _ _)

theorem Delivers.deliver {result : FetchCompletedResult V} {ids : Set NodeId}
    {n' : FetchingNode V} (h : Delivers g result ids) (hid : id ∉ ids) (hn : g.node id = some n)
    (hcontent : n'.content = n.content) (hnodeId : n.nodeState.nodeId = id) :
    Delivers g (deliver result n') (Set.insert id ids) := by
  have hstate : n'.nodeState = n.nodeState := by
    have hstate := congrArg FetchingNode.nodeState hcontent
    exact hstate
  have hstatus : n'.status = n.status := by
    have hstatus := congrArg FetchingNode.status hcontent
    exact hstatus
  have hperm := ids_deliver result n'
  rw [hstate, hnodeId] at hperm
  refine ⟨?_, ?_, ?_, ?_⟩
  · rw [hperm.nodup_iff, List.nodup_cons]
    exact ⟨fun hmem => hid ((h.mem id).mp hmem), h.nodup⟩
  · intro m
    rw [hperm.mem_iff, List.mem_cons, h.mem]
    rfl
  · intro state hmem
    unfold FetchingNodeGraph.deliver at hmem
    split at hmem
    · rename_i hgood
      rcases List.mem_append.mp hmem with hmem | hmem
      · exact h.nodes state hmem
      · rw [List.mem_singleton.mp hmem, hstate, hnodeId]
        exact ⟨n, hn, rfl, hstatus ▸ hgood⟩
    · exact h.nodes state hmem
  · intro error hmem
    unfold FetchingNodeGraph.deliver at hmem
    split at hmem
    · exact h.errors error hmem
    · rename_i hbad
      rcases List.mem_append.mp hmem with hmem | hmem
      · exact h.errors error hmem
      · rw [List.mem_singleton.mp hmem]
        refine ⟨n, ?_, hstatus.symm, hbad⟩
        rw [hstate, hnodeId]
        exact hn

/-- The complete ones of some nodes. -/
def completeAmong (g : FetchingNodeGraph V) (ids : List NodeId) : Set NodeId :=
  {id | id ∈ ids ∧ g.Complete id}

/-- The loop after some nodes. -/
structure Collected (g g' : FetchingNodeGraph V) (result : FetchCompletedResult V)
    (ids : List NodeId) : Prop where
  linked : Linked g'
  reduced : Reduced g g' (g.completeAmong ids)
  delivers : Delivers g result (g.completeAmong ids)

theorem completeAmong_append_of_complete (ids : List NodeId) (h : g.Complete id) :
    g.completeAmong (ids ++ [id]) = Set.insert id (g.completeAmong ids) := by
  ext m
  have hmem : m ∈ Set.insert id (g.completeAmong ids) ↔
      m = id ∨ m ∈ ids ∧ g.Complete m := Iff.rfl
  rw [hmem, completeAmong, Set.mem_ofPred_eq, List.mem_append, List.mem_singleton]
  constructor
  · rintro ⟨hm | hm, hcomplete⟩
    · exact Or.inr ⟨hm, hcomplete⟩
    · exact Or.inl hm
  · rintro (rfl | ⟨hm, hcomplete⟩)
    · exact ⟨Or.inr rfl, h⟩
    · exact ⟨Or.inl hm, hcomplete⟩

theorem completeAmong_append_of_not {ids : List NodeId} (h : ¬ g.Complete id) :
    g.completeAmong (ids ++ [id]) = g.completeAmong ids := by
  ext m
  rw [completeAmong, completeAmong, Set.mem_ofPred_eq, Set.mem_ofPred_eq, List.mem_append,
    List.mem_singleton]
  constructor
  · rintro ⟨hm | rfl, hcomplete⟩
    · exact ⟨hm, hcomplete⟩
    · exact absurd hcomplete h
  · rintro ⟨hm, hcomplete⟩
    exact ⟨Or.inl hm, hcomplete⟩

/-- One round of the loop. -/
theorem collectNode_spec (hg : Linked g) {result : FetchCompletedResult V} {ids : List NodeId}
    (h : Collected g g' result ids) (hid : id ∉ ids) (hn : g.node id = some n) :
    ((∃ r, g'.collectNode result id = some r) ↔ (g.Complete id → n.fetchStarted ≠ .none)) ∧
    ∀ r, g'.collectNode result id = some r → Collected g r.1 r.2 (ids ++ [id]) := by
  have hnot : id ∉ g.completeAmong ids := fun hmem => hid hmem.1
  obtain ⟨n', hn', -⟩ := h.reduced.exists_node hnot hn
  obtain ⟨g₁, fetched, hsearch, hsearched, hiff⟩ := exists_search h.linked ⟨n', hn'⟩
  rw [h.reduced.complete_iff (fun m hm => hm.2) hnot] at hiff
  have hreduced : Reduced g g₁ (g.completeAmong ids) := by
    have hcounted : Reduced g g'.counted (g.completeAmong ids) :=
      ⟨h.reduced.missing, h.reduced.kept, h.reduced.dependsOf, h.reduced.dependentNodes⟩
    exact hcounted.searched hsearched
  have hlinked : Linked g₁ := h.linked.counted.searched hsearched (Nat.lt_succ_self _)
  have hrun : g'.collectNode result id =
      if fetched then do
        let node ← g₁.node id
        check (node.fetchStarted ≠ .none)
        let g ← g₁.takeOut id
        return (g, deliver result node)
      else some (g₁, result) := by
    rw [collectNode]
    dsimp only
    rw [hsearch]
    rfl
  cases fetched with
  | false =>
      have hincomplete : ¬ g.Complete id := by simpa using hiff
      rw [hrun, if_neg Bool.false_ne_true]
      refine ⟨iff_of_true ⟨_, rfl⟩ fun hcomplete => absurd hcomplete hincomplete, ?_⟩
      rintro r ⟨⟩
      rw [← completeAmong_append_of_not hincomplete] at hreduced
      refine ⟨hlinked, hreduced, ?_⟩
      rw [completeAmong_append_of_not hincomplete]
      exact h.delivers
  | true =>
      have hcomplete : g.Complete id := hiff.mp rfl
      obtain ⟨n₁, hn₁, hcontent⟩ := hreduced.exists_node hnot hn
      have hstarted : n₁.fetchStarted = n.fetchStarted := by
        have hstarted := congrArg FetchingNode.fetchStarted hcontent
        exact hstarted
      obtain ⟨g₂, htake, hiteration, hnodes⟩ := takeOut_eq hlinked hn₁
      rw [hrun, if_pos rfl, hn₁, Option.bind_eq_bind, Option.bind_some, hstarted, htake]
      by_cases hnone : n.fetchStarted = .none
      · refine ⟨iff_of_false ?_ fun hall => hall hcomplete hnone, ?_⟩
        · rintro ⟨r, hr⟩
          simp [check, hnone] at hr
        · intro r hr
          simp [check, hnone] at hr
      · rw [check_of hnone]
        refine ⟨iff_of_true ⟨_, rfl⟩ fun _ => hnone, ?_⟩
        rintro r ⟨⟩
        have hgone := completeAmong_append_of_complete ids hcomplete
        exact ⟨hlinked.takeOut hiteration hnodes, hgone ▸ hreduced.takeOut hlinked hnodes,
          hgone ▸ h.delivers.deliver hnot hn hcontent (hg.nodeId id n hn)⟩

theorem collect_spec (hg : Linked g) {result : FetchCompletedResult V} {done ids : List NodeId}
    (h : Collected g g' result done) (hnodup : (done ++ ids).Nodup)
    (hids : ∀ id ∈ ids, ∃ n, g.node id = some n) :
    ((∃ r, ids.foldlM (fun (g, result) id => g.collectNode result id) (g', result) = some r) ↔
      ∀ id ∈ ids, ∀ n, g.node id = some n → g.Complete id → n.fetchStarted ≠ .none) ∧
    ∀ r, ids.foldlM (fun (g, result) id => g.collectNode result id) (g', result) = some r →
      Collected g r.1 r.2 (done ++ ids) := by
  induction ids generalizing g' result done with
  | nil =>
      refine ⟨iff_of_true ⟨_, rfl⟩ nofun, ?_⟩
      rintro r ⟨⟩
      rw [List.append_nil]
      exact h
  | cons id ids ih =>
      obtain ⟨n, hn⟩ := hids id List.mem_cons_self
      have hid : id ∉ done := by
        intro hmem
        exact (List.nodup_append.mp hnodup).2.2 id hmem id List.mem_cons_self rfl
      obtain ⟨hrun, hstep⟩ := collectNode_spec hg h hid hn
      rw [← List.singleton_append, ← List.append_assoc] at hnodup
      have hrest : ∀ id ∈ ids, ∃ n, g.node id = some n := fun m hm =>
        hids m (List.mem_cons_of_mem id hm)
      have hcons : done ++ id :: ids = done ++ [id] ++ ids := by
        rw [List.append_assoc, List.singleton_append]
      rw [List.foldlM_cons, hcons, List.forall_mem_cons]
      constructor
      · constructor
        · rintro ⟨r, hr⟩
          obtain ⟨r₁, hr₁, hr⟩ := Option.bind_eq_some_iff.mp hr
          refine ⟨?_, ((ih (hstep r₁ hr₁) hnodup hrest).1).mp ⟨r, hr⟩⟩
          intro n' hn'
          rw [hn] at hn'
          cases hn'
          exact hrun.mp ⟨r₁, hr₁⟩
        · rintro ⟨hone, hall⟩
          obtain ⟨r₁, hr₁⟩ := hrun.mpr (hone n hn)
          obtain ⟨r, hr⟩ := ((ih (hstep r₁ hr₁) hnodup hrest).1).mpr hall
          exact ⟨r, Option.bind_eq_some_iff.mpr ⟨r₁, hr₁, hr⟩⟩
      · intro r hr
        obtain ⟨r₁, hr₁, hr⟩ := Option.bind_eq_some_iff.mp hr
        exact (ih (hstep r₁ hr₁) hnodup hrest).2 r hr

theorem Complete.exists_node (h : g.Complete id) : ∃ n, g.node id = some n := by
  obtain ⟨n, hn, -⟩ := h.self
  exact ⟨n, hn⟩

/-- **What `GetFetchedNodes` gives out and takes out.** -/
theorem getFetchedNodes_spec (h : Linked g) :
    ((∃ r, g.getFetchedNodes = some r) ↔
      ∀ id n, g.node id = some n → g.Complete id → n.fetchStarted ≠ .none) ∧
    ∀ g' result, g.getFetchedNodes = some (g', result) →
      Linked g' ∧ Reduced g g' {id | g.Complete id} ∧ Delivers g result {id | g.Complete id} := by
  have hempty : g.completeAmong [] = ∅ := by
    ext m
    simp [completeAmong]
  have hstart : Collected g g {} [] := by
    refine ⟨h, hempty ▸ Reduced.refl g, hempty ▸ ⟨List.nodup_nil, ?_, nofun, nofun⟩⟩
    intro id
    simp [FetchCompletedResult.ids]
  have hkeys : g.completeAmong g.fetchingNodes.keys = {id | g.Complete id} := by
    ext m
    exact ⟨And.right, fun hcomplete => ⟨mem_keys_iff.mpr hcomplete.exists_node, hcomplete⟩⟩
  have hnodup : ([] ++ g.fetchingNodes.keys).Nodup := AList.keys_nodup _
  obtain ⟨hrun, hcollected⟩ := collect_spec h hstart hnodup fun id hid => mem_keys_iff.mp hid
  constructor
  · rw [getFetchedNodes, hrun]
    constructor
    · intro hall id n hn
      exact hall id (mem_keys_iff.mpr ⟨n, hn⟩) n hn
    · intro hall id _ n hn
      exact hall id n hn
  · intro g' result hresult
    have hlast := hcollected _ hresult
    rw [List.nil_append] at hlast
    exact ⟨hlast.linked, hkeys ▸ hlast.reduced, hkeys ▸ hlast.delivers⟩

/-! ## §7  Every run -/

/-- What the holder of a reference to a node leaves alone. -/
structure SameLinks (n n' : FetchingNode V) : Prop where
  dependsOf : n'.dependsOf = n.dependsOf
  dependentNodes : n'.dependentNodes = n.dependentNodes
  fetchCacheIteration : n'.fetchCacheIteration = n.fetchCacheIteration
  nodeId : n'.nodeState.nodeId = n.nodeState.nodeId

theorem Linked.write (h : Linked g) {n' : FetchingNode V} (hn : g.node id = some n)
    (hlinks : SameLinks n n') : Linked (g.write id n') := by
  refine h.of_links ?_ ?_ ?_ h.positive
  · intro m
    rw [dependsOf_write]
    split
    · rename_i heq
      rw [heq, dependsOf_eq hn, hlinks.dependsOf]
    · rfl
  · intro m
    rw [dependentNodes_write]
    split
    · rename_i heq
      rw [heq, dependentNodes_eq hn, hlinks.dependentNodes]
    · rfl
  · intro m n₁ hn₁
    rw [node_write] at hn₁
    split at hn₁
    · rename_i heq
      cases hn₁
      rw [hlinks.nodeId, hlinks.fetchCacheIteration, heq]
      exact ⟨h.nodeId id n hn, h.fresh id n hn⟩
    · exact ⟨h.nodeId m n₁ hn₁, h.fresh m n₁ hn₁⟩

theorem addNode_eq_some (hg' : g.addNode id = some g') :
    id ≠ .null ∧ ((∃ n, g.node id = some n) ∧ g' = g ∨
      g.node id = none ∧ g' = g.write id { nodeState := { nodeId := id } }) := by
  obtain ⟨hnull, hg'⟩ := check_bind_eq_some.mp hg'
  refine ⟨hnull, ?_⟩
  cases hn : g.node id with
  | some n =>
      rw [hn] at hg'
      cases hg'
      exact Or.inl ⟨⟨n, rfl⟩, rfl⟩
  | none =>
      rw [hn] at hg'
      cases hg'
      exact Or.inr ⟨rfl, rfl⟩

/-- A node without links joins. -/
theorem Linked.addNode (h : Linked g) (hg' : g.addNode id = some g') : Linked g' := by
  obtain ⟨-, ⟨-, rfl⟩ | ⟨hnone, rfl⟩⟩ := addNode_eq_some hg'
  · exact h
  · refine h.of_links ?_ ?_ ?_ h.positive
    · intro m
      rw [dependsOf_write]
      split
      · rename_i heq
        simp [heq, dependsOf, hnone]
      · rfl
    · intro m
      rw [dependentNodes_write]
      split
      · rename_i heq
        simp [heq, dependentNodes, hnone]
      · rfl
    · intro m n hn
      rw [node_write] at hn
      split at hn
      · rename_i heq
        cases hn
        exact ⟨heq.symm, h.positive⟩
      · exact ⟨h.nodeId m n hn, h.fresh m n hn⟩

/-- Two nodes with a link from the first to the second. -/
def joined (g : FetchingNodeGraph V) (id : NodeId) (n : FetchingNode V) (fromId : NodeId)
    (fromNode : FetchingNode V) : FetchingNodeGraph V :=
  (g.write fromId { fromNode with dependentNodes := insert fromNode.dependentNodes id }).write id
    { n with dependsOf := insert n.dependsOf fromId }

section

variable {fromId : NodeId} {fromNode : FetchingNode V}

theorem node_joined (m : NodeId) :
    (g.joined id n fromId fromNode).node m =
      if m = id then some { n with dependsOf := insert n.dependsOf fromId }
      else if m = fromId then
        some { fromNode with dependentNodes := insert fromNode.dependentNodes id }
      else g.node m := by
  rw [joined, node_write, node_write]

/-- Only the links of the two nodes are written. -/
theorem content_joined (hn : g.node id = some n) (hfrom : g.node fromId = some fromNode)
    (m : NodeId) :
    ((g.joined id n fromId fromNode).node m).map FetchingNode.content =
      (g.node m).map FetchingNode.content := by
  rw [node_joined]
  split
  · rename_i heq
    rw [heq, hn]
    rfl
  · split
    · rename_i heq
      rw [heq, hfrom]
      rfl
    · rfl

theorem mem_dependsOf_joined (hn : g.node id = some n) (hfrom : g.node fromId = some fromNode)
    (hne : id ≠ fromId) (m d : NodeId) :
    d ∈ (g.joined id n fromId fromNode).dependsOf m ↔ d ∈ g.dependsOf m ∨ m = id ∧ d = fromId := by
  rw [joined, dependsOf_write, dependsOf_write]
  by_cases hm : m = id
  · rw [if_pos hm, mem_insert, hm, dependsOf_eq hn]
    simp
  · rw [if_neg hm]
    by_cases hm' : m = fromId
    · rw [if_pos hm', hm', dependsOf_eq hfrom]
      simp [hne.symm]
    · rw [if_neg hm']
      simp [hm]

theorem mem_dependentNodes_joined (hn : g.node id = some n)
    (hfrom : g.node fromId = some fromNode) (hne : id ≠ fromId) (m d : NodeId) :
    d ∈ (g.joined id n fromId fromNode).dependentNodes m ↔
      d ∈ g.dependentNodes m ∨ m = fromId ∧ d = id := by
  rw [joined, dependentNodes_write, dependentNodes_write]
  by_cases hm : m = id
  · rw [if_pos hm, hm, dependentNodes_eq hn]
    simp [hne]
  · rw [if_neg hm]
    by_cases hm' : m = fromId
    · rw [if_pos hm', mem_insert, hm', dependentNodes_eq hfrom]
      simp
    · rw [if_neg hm']
      simp [hm']

/-- Both ends of the link are written, and nothing else of the nodes. -/
theorem Linked.joined (h : Linked g) (hn : g.node id = some n)
    (hfrom : g.node fromId = some fromNode) (hne : id ≠ fromId) :
    Linked (g.joined id n fromId fromNode) := by
  refine ⟨?_, ?_, ?_, ?_, ?_, ?_, h.positive⟩
  · intro a b
    rw [mem_dependsOf_joined hn hfrom hne, mem_dependentNodes_joined hn hfrom hne, h.inverse]
    tauto
  · intro a ha
    rcases (mem_dependsOf_joined hn hfrom hne a a).mp ha with ha | ⟨rfl, heq⟩
    · exact h.irrefl a ha
    · exact hne heq
  · intro a
    rw [FetchingNodeGraph.joined, dependsOf_write, dependsOf_write]
    split
    · exact nodup_insert (dependsOf_eq hn ▸ h.nodup_dependsOf id) fromId
    · split
      · exact dependsOf_eq hfrom ▸ h.nodup_dependsOf fromId
      · exact h.nodup_dependsOf a
  · intro a
    rw [FetchingNodeGraph.joined, dependentNodes_write, dependentNodes_write]
    split
    · exact dependentNodes_eq hn ▸ h.nodup_dependentNodes id
    · split
      · exact nodup_insert (dependentNodes_eq hfrom ▸ h.nodup_dependentNodes fromId) id
      · exact h.nodup_dependentNodes a
  · intro a n' hn'
    rw [node_joined] at hn'
    split at hn'
    · rename_i heq
      cases hn'
      rw [heq]
      exact h.nodeId id n hn
    · split at hn'
      · rename_i heq
        cases hn'
        rw [heq]
        exact h.nodeId fromId fromNode hfrom
      · exact h.nodeId a n' hn'
  · intro a n' hn'
    rw [node_joined] at hn'
    split at hn'
    · cases hn'
      exact h.fresh id n hn
    · split at hn'
      · cases hn'
        exact h.fresh fromId fromNode hfrom
      · exact h.fresh a n' hn'

/-- Between two nodes of the graph a dependency can be added unless they are one. -/
theorem addDependency_eq_joined (hn : g.node id = some n) (hfrom : g.node fromId = some fromNode)
    (hne : id ≠ fromId) : g.addDependency id fromId = some (g.joined id n fromId fromNode) := by
  have hid : (g.write fromId
      { fromNode with dependentNodes := insert fromNode.dependentNodes id }).node id = some n := by
    rw [node_write_ne hne, hn]
  rw [addDependency, check_of hne]
  simp [hfrom, hid, FetchingNodeGraph.joined]

end

/-- A removed node leaves the others as they are, but for their links to it. -/
theorem removeNode_spec (h : Linked g) (id : NodeId) :
    ∃ g', g.removeNode id = some g' ∧ Linked g' ∧
      ∀ m, g'.node m = if m = id then none else (g.node m).map (FetchingNode.without · id) := by
  unfold removeNode
  cases hn : g.node id with
  | some n =>
      obtain ⟨g', hg', hiteration, hnodes⟩ := takeOut_eq h hn
      exact ⟨g', hg', h.takeOut hiteration hnodes, hnodes⟩
  | none =>
      refine ⟨g, rfl, h, ?_⟩
      intro m
      split
      · rename_i heq
        rw [heq, hn]
      · cases hm : g.node m with
        | none => rfl
        | some n =>
            -- No link leads to a node that is not there.
            have hdepends : id ∉ n.dependsOf := by
              intro hmem
              obtain ⟨n', hn'⟩ := h.target (dependsOf_eq hm ▸ hmem)
              rw [hn] at hn'
              cases hn'
            have hdependents : id ∉ n.dependentNodes := by
              intro hmem
              obtain ⟨n', hn'⟩ := h.source (dependentNodes_eq hm ▸ hmem)
              rw [hn] at hn'
              cases hn'
            rw [Option.map_some, FetchingNode.without, FetchingNode.eraseDependsOf,
              FetchingNode.eraseDependentNode, List.erase_of_not_mem hdepends,
              List.erase_of_not_mem hdependents]

/-- The calls of the graph, and the assignments of those who hold a reference to a node:
they may write anything but the links, the marks and the id. -/
inductive Action (V : Type) where
  | addNode (id : NodeId)
  | addDependency (id fromId : NodeId)
  | removeNode (id : NodeId)
  | assign (id : NodeId) (content : FetchingNode V)
  | getFetchedNodes

/-- `content`, with the links, the marks and the id of a node. -/
def FetchingNode.assigned (n content : FetchingNode V) : FetchingNode V :=
  { content with
    nodeState := { content.nodeState with nodeId := n.nodeState.nodeId }
    dependsOf := n.dependsOf
    dependentNodes := n.dependentNodes
    fetchCacheIteration := n.fetchCacheIteration
    fetchCacheState := n.fetchCacheState }

def step (g : FetchingNodeGraph V) : Action V → Option (FetchingNodeGraph V)
  | .addNode id => g.addNode id
  | .addDependency id fromId => g.addDependency id fromId
  | .removeNode id => g.removeNode id
  | .assign id content => (g.node id).map fun n => g.write id (FetchingNode.assigned n content)
  | .getFetchedNodes => g.getFetchedNodes.map Prod.fst

/-- References are to nodes of the graph. -/
def machine (V : Type) : Machine (FetchingNodeGraph V) (Action V) where
  init := {}
  enabled g
    | .addDependency id fromId => (g.node id).isSome = true ∧ (g.node fromId).isSome = true
    | .assign id _ => (g.node id).isSome = true
    | _ => True
  step := step

instance (g : FetchingNodeGraph V) (action : Action V) : Decidable ((machine V).enabled g action) := by
  unfold machine
  cases action <;> infer_instance

theorem Linked.init : Linked ({} : FetchingNodeGraph V) := by
  have hnone : ∀ m, ({} : FetchingNodeGraph V).node m = none := fun m => rfl
  refine ⟨?_, ?_, ?_, ?_, ?_, ?_, Nat.one_pos⟩ <;>
    simp [dependsOf, dependentNodes, hnone]

theorem Linked.step {action : Action V} (h : Linked g)
    (henabled : (machine V).enabled g action) (hg' : g.step action = some g') : Linked g' := by
  cases action with
  | addNode id => exact h.addNode hg'
  | addDependency id fromId =>
      obtain ⟨n, hn⟩ := Option.isSome_iff_exists.mp henabled.1
      obtain ⟨fromNode, hfrom⟩ := Option.isSome_iff_exists.mp henabled.2
      have hne : id ≠ fromId := (check_bind_eq_some.mp hg').1
      have hg' : g.addDependency id fromId = some g' := hg'
      rw [addDependency_eq_joined hn hfrom hne] at hg'
      cases hg'
      exact h.joined hn hfrom hne
  | removeNode id =>
      obtain ⟨g₁, hg₁, hlinked, -⟩ := removeNode_spec h id
      have hg' : g.removeNode id = some g' := hg'
      rw [hg₁] at hg'
      cases hg'
      exact hlinked
  | assign id content =>
      obtain ⟨n, hn, rfl⟩ := Option.map_eq_some_iff.mp hg'
      exact h.write hn ⟨rfl, rfl, rfl, rfl⟩
  | getFetchedNodes =>
      obtain ⟨⟨g₁, result⟩, hrun, rfl⟩ := Option.map_eq_some_iff.mp hg'
      exact ((getFetchedNodes_spec h).2 g₁ result hrun).1

theorem Linked.reachable (h : (machine V).Reachable g) : Linked g :=
  h.invariant Linked.init fun _ _ _ hlinked henabled _ hstep => hlinked.step henabled hstep

/-- Every edge, at either end, points at a node of the graph. -/
def NoneDangling (g : FetchingNodeGraph V) : Prop :=
  ∀ a b, b ∈ g.dependsOf a ∨ b ∈ g.dependentNodes a → ∃ n, g.node b = some n

theorem Linked.noneDangling (h : Linked g) : NoneDangling g :=
  fun _ _ hb => hb.elim h.target h.source

/-- **Nodes are delivered with all they depend on.** In every state that a run reaches
the links are consistent. `GetFetchedNodes` ends unless a complete node was not started;
it takes out and gives out, once each, exactly the complete nodes, and leaves of the
others all but their links to those. -/
theorem getFetchedNodes_exact (g : FetchingNodeGraph V) (h : (machine V).Reachable g) :
    Linked g ∧ NoneDangling g ∧
      ((∃ r, g.getFetchedNodes = some r) ↔
        ∀ id n, g.node id = some n → g.Complete id → n.fetchStarted ≠ .none) ∧
      ∀ g' result, g.getFetchedNodes = some (g', result) →
        Linked g' ∧ NoneDangling g' ∧ Reduced g g' {id | g.Complete id} ∧
          Delivers g result {id | g.Complete id} := by
  have hlinked := Linked.reachable h
  obtain ⟨hrun, hresult⟩ := getFetchedNodes_spec hlinked
  refine ⟨hlinked, hlinked.noneDangling, hrun, ?_⟩
  intro g' result hg'
  obtain ⟨hlinked', hreduced, hdelivers⟩ := hresult g' result hg'
  exact ⟨hlinked', hlinked'.noneDangling, hreduced, hdelivers⟩

/-- Two fetched nodes that depend on each other. -/
def cycle : List (Action Unit) :=
  [.addNode (.numeric 1 0), .addNode (.numeric 2 0),
    .addDependency (.numeric 1 0) (.numeric 2 0), .addDependency (.numeric 2 0) (.numeric 1 0),
    .assign (.numeric 1 0) {
      nodeState := { nodeId := .null }
      fetchStarted := .nodeOnly
      attributesFetched := true
      referencesFetched := true },
    .assign (.numeric 2 0) {
      nodeState := { nodeId := .null }
      fetchStarted := .nodeOnly
      attributesFetched := true
      referencesFetched := true }]

theorem getFetchedNodes_exact_cycle :
    ∃ g, (machine Unit).exec (fun _ _ => True) {} cycle = some g ∧
      (Linked g ∧ NoneDangling g ∧
        ((∃ r, g.getFetchedNodes = some r) ↔
          ∀ id n, g.node id = some n → g.Complete id → n.fetchStarted ≠ .none) ∧
        ∀ g' result, g.getFetchedNodes = some (g', result) →
          Linked g' ∧ NoneDangling g' ∧ Reduced g g' {id | g.Complete id} ∧
            Delivers g result {id | g.Complete id}) := by
  have hruns : ((machine Unit).exec (fun _ _ => True) {} cycle).isSome = true := by
    decide +kernel
  obtain ⟨g, hg⟩ := Option.isSome_iff_exists.mp hruns
  exact ⟨g, hg, getFetchedNodes_exact g (Machine.ReachesFrom.refl.exec hg)⟩

end FetchingNodeGraph

end ScadaCommon
