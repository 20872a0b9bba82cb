import ScadaCommon.NodeService.V3.NodeModelImpl

/-!
# The node fetcher of the v3 service

`ServiceNodeFetcher` makes node states and lists of children of what a server
answers to its browses. The references of a state have no duplicates as whole
descriptions; the list of children is what the server sent.

§1 browses · §2 nodes · §3 children · §4 what is fetched.
-/

namespace ScadaCommon.V3

/-! ## §1  Browses -/

inductive BrowseDirection where
  | forward
  | inverse
deriving DecidableEq

structure BrowseResult where
  bad : Bool := false
  references : List ReferenceDescription := []
deriving DecidableEq

/-- `StatusCode::Bad`. -/
def Status.unspecified : Status := .bad 0

/-- The fetcher, by the standard nodes that it knows. -/
structure ServiceNodeFetcher where
  hasSubtype : NodeId
  hasTypeDefinition : NodeId
  rootFolder : NodeId

namespace ServiceNodeFetcher

variable (fetcher : ServiceNodeFetcher)

/-! ## §2  Nodes -/

def applyFetchedReference (direction : BrowseDirection) (nodeState : NodeState)
    (reference : ReferenceDescription) : NodeState :=
  if reference.referenceTypeId = .null ∨ reference.nodeId = .null then nodeState
  else
    match direction with
    | .inverse =>
        if reference.forward then nodeState
        else if reference.referenceTypeId = fetcher.hasSubtype then
          { nodeState with supertypeId := reference.nodeId }
        else
          { nodeState with
            parentId := reference.nodeId
            referenceTypeId := reference.referenceTypeId }
    | .forward =>
        if !reference.forward then nodeState
        else if reference.referenceTypeId = fetcher.hasTypeDefinition then
          { nodeState with typeDefinitionId := reference.nodeId }
        else if reference ∈ nodeState.references then nodeState
        else { nodeState with references := nodeState.references ++ [reference] }

/-- The directions that `FetchNode` browses. -/
def nodeBrowses (nodeId : NodeId) : List BrowseDirection :=
  if nodeId ≠ fetcher.rootFolder then [.forward, .inverse] else [.forward]

def applyBrowseResult (nodeState : NodeState) (browse : BrowseDirection × BrowseResult) :
    NodeState :=
  if browse.2.bad then nodeState
  else browse.2.references.foldl (fetcher.applyFetchedReference browse.1) nodeState

/-- `FetchNode` after its attributes. -/
def fetchNode (nodeId : NodeId) (browseResult : Except Status (List BrowseResult)) :
    Except Status NodeState := do
  let browseResults ← browseResult
  if browseResults.length ≠ (fetcher.nodeBrowses nodeId).length then
    throw Status.unspecified
  return ((fetcher.nodeBrowses nodeId).zip browseResults).foldl fetcher.applyBrowseResult { nodeId }

/-! ## §3  Children -/

def fetchChildren (browseResult : Except Status (List BrowseResult)) :
    Except Status (List ReferenceDescription) := do
  let browseResults ← browseResult
  return (browseResults.filter fun result => !result.bad).flatMap fun result =>
    result.references.filter fun reference =>
      reference.forward ∧ reference.referenceTypeId ≠ .null ∧ reference.nodeId ≠ .null

/-! ## §4  What is fetched -/

variable {fetcher} {nodeId : NodeId}

/-- What holds of a state that `FetchNode` builds: its references are forward and
no two are equal, and its parent is not referred to by `HasSubtype`. -/
structure WellFetched (fetcher : ServiceNodeFetcher) (nodeId : NodeId) (nodeState : NodeState) :
    Prop where
  nodeId : nodeState.nodeId = nodeId
  forward : ∀ reference ∈ nodeState.references, reference.forward = true
  nodup : nodeState.references.Nodup
  parent : nodeState.parentId ≠ .null → nodeState.referenceTypeId ≠ fetcher.hasSubtype

theorem WellFetched.applyFetchedReference {direction : BrowseDirection} {nodeState : NodeState}
    (h : WellFetched fetcher nodeId nodeState) (reference : ReferenceDescription) :
    WellFetched fetcher nodeId (fetcher.applyFetchedReference direction nodeState reference) := by
  unfold ServiceNodeFetcher.applyFetchedReference
  split
  · exact h
  · cases direction with
    | inverse =>
        dsimp only
        split
        · exact h
        · split
          · exact ⟨h.nodeId, h.forward, h.nodup, h.parent⟩
          · rename_i hsubtype
            exact ⟨h.nodeId, h.forward, h.nodup, fun _ => hsubtype⟩
    | forward =>
        dsimp only
        split
        · exact h
        · rename_i hforward
          split
          · exact ⟨h.nodeId, h.forward, h.nodup, h.parent⟩
          · split
            · exact h
            · rename_i hnew
              refine ⟨h.nodeId, ?_, ?_, h.parent⟩
              · intro other hother
                rcases List.mem_append.mp hother with hold | hlast
                · exact h.forward other hold
                · obtain rfl := List.mem_singleton.mp hlast
                  simpa using hforward
              · exact List.nodup_append.mpr ⟨h.nodup, List.nodup_singleton _,
                  fun a ha b hb => by
                    obtain rfl := List.mem_singleton.mp hb
                    rintro rfl
                    exact hnew ha⟩

theorem WellFetched.applyBrowseResult {nodeState : NodeState}
    (h : WellFetched fetcher nodeId nodeState) (browse : BrowseDirection × BrowseResult) :
    WellFetched fetcher nodeId (fetcher.applyBrowseResult nodeState browse) := by
  unfold ServiceNodeFetcher.applyBrowseResult
  split
  · exact h
  · exact List.foldlRecOn browse.2.references _ h
      fun _ hstate reference _ => hstate.applyFetchedReference reference

/-- **Fetched states.** -/
theorem wellFetched_fetchNode {browseResult : Except Status (List BrowseResult)}
    {nodeState : NodeState} (h : fetcher.fetchNode nodeId browseResult = .ok nodeState) :
    WellFetched fetcher nodeId nodeState := by
  cases browseResult with
  | error status => cases h
  | ok browseResults =>
      have hinit : WellFetched fetcher nodeId { nodeId } :=
        ⟨rfl, fun _ hmem => absurd hmem List.not_mem_nil, List.nodup_nil, fun hne => absurd rfl hne⟩
      by_cases hlength : browseResults.length ≠ (fetcher.nodeBrowses nodeId).length
      · simp [fetchNode, hlength, bind, Except.bind, throw, throwThe, MonadExceptOf.throw] at h
      · simp only [fetchNode, hlength, bind, Except.bind, if_false, pure, Except.pure] at h
        cases h
        exact List.foldlRecOn _ _ hinit fun _ hstate browse _ => hstate.applyBrowseResult browse

end ServiceNodeFetcher

end ScadaCommon.V3
