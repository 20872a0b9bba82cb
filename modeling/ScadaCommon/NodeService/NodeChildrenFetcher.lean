import ScadaCommon.NodeService.NodeFetcherImpl

/-!
# The fetcher of children

`NodeChildrenFetcher` browses the children of nodes in batches, one batch at a time. The
ids that wait are in a deque and in a set. Both answers for a node are merged before its
validator is called, and a validator may fetch and cancel.

§1 results · §2 the queue · §3 the fetcher and its browses · §4 merging · §5 what one step
does · §6 runs.
-/

namespace ScadaCommon

open Foundation
open NodeFetcherImpl (Reply)

/-! ## §1  Results -/

/-- What `MergeResult` makes of an existing result. -/
def BrowseResult.merged (existing result : BrowseResult) : BrowseResult where
  references := existing.references ++ result.references
  statusCode := if existing.statusCode.IsBad then result.statusCode else existing.statusCode

abbrev MergedResults := AssocMap NodeId BrowseResult

/-- `try_emplace` leaves the result alone when the id is there. -/
def mergeResult (results : MergedResults) (nodeId : NodeId) (result : BrowseResult) :
    MergedResults :=
  match results.lookup nodeId with
  | none => results.insert nodeId result
  | some existing => results.insert nodeId (existing.merged result)

/-- The descriptions of `FetchChildren`. -/
def childrenDescriptions (nodeIds : List NodeId) : List BrowseDescription :=
  nodeIds.flatMap fun nodeId =>
    [⟨nodeId, .forward, StandardId.organizes⟩, ⟨nodeId, .forward, StandardId.hasSubtype⟩]

/-- The answers by description, of a failed or a short reply too. -/
def childrenResults (nodeIds : List NodeId) (reply : Reply BrowseResult) :
    List (BrowseDescription × BrowseResult) :=
  reply.pairs (fun status => ⟨status, []⟩) (childrenDescriptions nodeIds)

def mergeResults (pairs : List (BrowseDescription × BrowseResult)) (results : MergedResults) :
    MergedResults :=
  pairs.foldl (fun results pair => mergeResult results pair.1.nodeId pair.2) results

/-! ## §2  The queue -/

def kMaxFetchChildCount : ℕ := 100

structure NodeChildrenFetcher where
  childrenRequestCount : ℕ := 0
  pendingChildren : List NodeId := []
  pendingChildrenSet : Finset NodeId := ∅

/-- The loop of `FetchPendingNodes`: takes ids while there is room in the batch. -/
def NodeChildrenFetcher.takePending : ℕ → NodeChildrenFetcher → List NodeId × NodeChildrenFetcher
  | 0, f => ([], f)
  | room + 1, f =>
      match f.pendingChildren with
      | [] => ([], f)
      | nodeId :: rest =>
          let (nodeIds, f) := NodeChildrenFetcher.takePending room
            { f with
              pendingChildren := rest
              pendingChildrenSet := f.pendingChildrenSet.erase nodeId }
          (nodeId :: nodeIds, f)

/-! ## §3  The fetcher and its browses -/

/-- A coroutine of `FetchChildren`: the answer of the service, the merged results that have
not been validated, and the calls of the validator. -/
structure ChildrenBrowse where
  nodeIds : List NodeId
  reply : Option (Reply BrowseResult) := none
  merged : MergedResults := ∅
  calls : List (NodeId × BrowseResult) := []

/-- The fetcher, its browses, and the ids that were put into the queue and taken out of it by
`Cancel`. -/
structure ChildrenWorld where
  fetcher : NodeChildrenFetcher := {}
  outstanding : List ChildrenBrowse := []
  finished : List ChildrenBrowse := []
  requests : List NodeId := []
  cancels : List NodeId := []

/-- `Fetch` and `Cancel`, by a validator or by others, and the parts of
`OnBrowseChildrenResult` for one of the browses: the merge, the next call of the validator,
and the rest. The keys of a map come in an order that is left open. -/
inductive ChildrenAction where
  | fetch (nodeId : NodeId)
  | cancel (nodeId : NodeId)
  | answer (i : ℕ) (reply : Reply BrowseResult)
  | validate (i : ℕ) (nodeId : NodeId)
  | finish (i : ℕ)

namespace ChildrenWorld

def fetchChildren (w : ChildrenWorld) (nodeIds : List NodeId) : Option ChildrenWorld := do
  check (nodeIds ≠ [])
  return { w with
    fetcher :=
      { w.fetcher with childrenRequestCount := w.fetcher.childrenRequestCount + 1 }
    outstanding := w.outstanding ++ [{ nodeIds }] }

def fetchPendingNodes (w : ChildrenWorld) : Option ChildrenWorld :=
  if w.fetcher.childrenRequestCount = 0 ∧ w.fetcher.pendingChildren ≠ [] then
    let (nodeIds, fetcher) := w.fetcher.takePending kMaxFetchChildCount
    fetchChildren { w with fetcher } nodeIds
  else some w

def fetch (w : ChildrenWorld) (nodeId : NodeId) : Option ChildrenWorld :=
  if nodeId ∈ w.fetcher.pendingChildrenSet then some w
  else
    fetchPendingNodes
      { w with
        fetcher :=
          { w.fetcher with
            pendingChildrenSet := insert nodeId w.fetcher.pendingChildrenSet
            pendingChildren := w.fetcher.pendingChildren ++ [nodeId] }
        requests := w.requests ++ [nodeId] }

def cancel (w : ChildrenWorld) (nodeId : NodeId) : Option ChildrenWorld :=
  if nodeId ∈ w.fetcher.pendingChildrenSet then do
    check (nodeId ∈ w.fetcher.pendingChildren)
    return { w with
      fetcher :=
        { w.fetcher with
          pendingChildrenSet := w.fetcher.pendingChildrenSet.erase nodeId
          pendingChildren := w.fetcher.pendingChildren.erase nodeId }
      cancels := w.cancels ++ [nodeId] }
  else some w

def answer (w : ChildrenWorld) (i : ℕ) (reply : Reply BrowseResult) : Option ChildrenWorld := do
  let browse ← w.outstanding[i]?
  check (childrenDescriptions browse.nodeIds ≠ [])
  return { w with
    outstanding := w.outstanding.set i
      { browse with
        reply := some reply
        merged := mergeResults (childrenResults browse.nodeIds reply) ∅ } }

def validate (w : ChildrenWorld) (i : ℕ) (nodeId : NodeId) : Option ChildrenWorld := do
  let browse ← w.outstanding[i]?
  let result ← browse.merged.lookup nodeId
  return { w with
    outstanding := w.outstanding.set i
      { browse with
        merged := browse.merged.erase nodeId
        calls := browse.calls ++ [(nodeId, result)] } }

def finish (w : ChildrenWorld) (i : ℕ) : Option ChildrenWorld := do
  let browse ← w.outstanding[i]?
  check (0 < w.fetcher.childrenRequestCount)
  fetchPendingNodes
    { w with
      fetcher :=
        { w.fetcher with childrenRequestCount := w.fetcher.childrenRequestCount - 1 }
      outstanding := w.outstanding.eraseIdx i
      finished := w.finished ++ [browse] }

def step (w : ChildrenWorld) : ChildrenAction → Option ChildrenWorld
  | .fetch nodeId => w.fetch nodeId
  | .cancel nodeId => w.cancel nodeId
  | .answer i reply => w.answer i reply
  | .validate i nodeId => w.validate i nodeId
  | .finish i => w.finish i

/-- A browse is answered once, and finished when its results are validated. -/
def Enabled (w : ChildrenWorld) : ChildrenAction → Prop
  | .fetch _ | .cancel _ => True
  | .answer i _ => ∃ browse ∈ w.outstanding[i]?, browse.reply.isNone = true
  | .validate i nodeId => ∃ browse ∈ w.outstanding[i]?, nodeId ∈ browse.merged.keys
  | .finish i => ∃ browse ∈ w.outstanding[i]?,
      browse.reply.isSome = true ∧ browse.merged.keys = []

instance (w : ChildrenWorld) (a : ChildrenAction) : Decidable (w.Enabled a) :=
  match a with
  | .fetch _ | .cancel _ => isTrue trivial
  | .answer _ _ | .validate _ _ | .finish _ => inferInstanceAs (Decidable (∃ _ ∈ _, _))

def machine : Machine ChildrenWorld ChildrenAction where
  init := {}
  enabled := Enabled
  step := step

instance (w : ChildrenWorld) (a : ChildrenAction) : Decidable (machine.enabled w a) :=
  inferInstanceAs (Decidable (w.Enabled a))

end ChildrenWorld

/-! ## §4  Merging -/

/-- What a validator is to be given: the references of both answers, and a bad status when
both are bad. -/
def MergedFrom (pairs : List (BrowseDescription × BrowseResult)) (nodeId : NodeId)
    (result : BrowseResult) : Prop :=
  ∃ organizes hasSubtype,
    (⟨nodeId, .forward, StandardId.organizes⟩, organizes) ∈ pairs ∧
    (⟨nodeId, .forward, StandardId.hasSubtype⟩, hasSubtype) ∈ pairs ∧
    result.references = organizes.references ++ hasSubtype.references ∧
    (result.statusCode.IsBad ↔ organizes.statusCode.IsBad ∧ hasSubtype.statusCode.IsBad)

theorem BrowseResult.isBad_merged (existing result : BrowseResult) :
    (existing.merged result).statusCode.IsBad ↔
      existing.statusCode.IsBad ∧ result.statusCode.IsBad := by
  unfold merged
  split
  · rename_i hbad
    exact (and_iff_right hbad).symm
  · rename_i hgood
    exact iff_of_false hgood fun h => hgood h.1

theorem MergedFrom.mono {pairs pairs' : List (BrowseDescription × BrowseResult)} {nodeId : NodeId}
    {result : BrowseResult} (h : MergedFrom pairs nodeId result) (hsub : pairs ⊆ pairs') :
    MergedFrom pairs' nodeId result := by
  obtain ⟨organizes, hasSubtype, ho, hs, hresult⟩ := h
  exact ⟨organizes, hasSubtype, hsub ho, hsub hs, hresult⟩

/-- The second result for an id goes to the first one. -/
theorem lookup_mergeResult_twice {results : MergedResults} {nodeId : NodeId}
    (h : results.lookup nodeId = none) (first second : BrowseResult) (other : NodeId) :
    (mergeResult (mergeResult results nodeId first) nodeId second).lookup other =
      if other = nodeId then some (first.merged second) else results.lookup other := by
  have hfirst : mergeResult results nodeId first = results.insert nodeId first := by
    simp only [mergeResult, h]
  have hsecond : (results.insert nodeId first).lookup nodeId = some first :=
    AList.lookup_insert results
  rw [hfirst, mergeResult, hsecond]
  simp only
  split
  · rename_i heq
    rw [heq, AList.lookup_insert]
  · rename_i hne
    rw [AList.lookup_insert_ne hne, AList.lookup_insert_ne hne]

/-- A reply has one answer for each item. -/
theorem pairs_eq_zip {α β : Type} (reply : Reply α) (failed : Status → α) (items : List β) :
    ∃ results : List α, results.length = items.length ∧
      reply.pairs failed items = items.zip results := by
  unfold Reply.pairs
  split
  · rename_i status _
    refine ⟨items.map fun _ => failed status, List.length_map _, ?_⟩
    have hzip : (items.map fun item => item).zip (items.map fun _ => failed status) =
        items.map fun item => (item, failed status) := List.zip_map'
    rw [List.map_id'] at hzip
    exact hzip.symm
  · rename_i results hmatched
    refine ⟨results, ?_, rfl⟩
    unfold Reply.matched at hmatched
    split at hmatched
    · cases hmatched
    · split at hmatched
      · rename_i hlength
        cases hmatched
        exact hlength
      · cases hmatched

/-- **Both results of each node are merged**, for a batch without duplicates. -/
theorem lookup_mergeResults_zip {nodeIds : List NodeId} (hnodup : nodeIds.Nodup)
    {results : List BrowseResult} (hlength : results.length = (childrenDescriptions nodeIds).length)
    (before : MergedResults) (hbefore : ∀ nodeId ∈ nodeIds, before.lookup nodeId = none) :
    let pairs := (childrenDescriptions nodeIds).zip results
    (∀ other ∉ nodeIds, (mergeResults pairs before).lookup other = before.lookup other) ∧
      ∀ nodeId ∈ nodeIds, ∃ result, (mergeResults pairs before).lookup nodeId = some result ∧
        MergedFrom pairs nodeId result := by
  induction nodeIds generalizing results before with
  | nil => exact ⟨fun _ _ => rfl, fun _ h => absurd h List.not_mem_nil⟩
  | cons head rest ih =>
      obtain ⟨hhead, hrest⟩ := List.nodup_cons.mp hnodup
      obtain ⟨first, second, tail, rfl⟩ : ∃ first second tail, results = first :: second :: tail := by
        match results, hlength with
        | first :: second :: tail, _ => exact ⟨first, second, tail, rfl⟩
      have htail : tail.length = (childrenDescriptions rest).length := by
        simpa [childrenDescriptions] using hlength
      have hpairs : (childrenDescriptions (head :: rest)).zip (first :: second :: tail) =
          (⟨head, .forward, StandardId.organizes⟩, first) ::
            (⟨head, .forward, StandardId.hasSubtype⟩, second) ::
              (childrenDescriptions rest).zip tail := by
        simp [childrenDescriptions]
      have hlookup := lookup_mergeResult_twice (hbefore head List.mem_cons_self) first second
      obtain ⟨hothers, hmerged⟩ := ih hrest htail
        (mergeResult (mergeResult before head first) head second) (by
          intro nodeId hmem
          have hne : nodeId ≠ head := by
            rintro rfl
            exact hhead hmem
          rw [hlookup, if_neg hne]
          exact hbefore nodeId (List.mem_cons_of_mem _ hmem))
      simp only [hpairs]
      constructor
      · intro other hother
        obtain ⟨hne, hnot⟩ := List.ne_and_not_mem_of_not_mem_cons hother
        show (mergeResults _ (mergeResult (mergeResult before head first) head second)).lookup
          other = _
        rw [hothers other hnot, hlookup, if_neg hne]
      · intro nodeId hmem
        show ∃ result,
          (mergeResults _ (mergeResult (mergeResult before head first) head second)).lookup
            nodeId = some result ∧ _
        rcases List.mem_cons.mp hmem with rfl | hmem
        · refine ⟨first.merged second, ?_, first, second, ?_, ?_, rfl, first.isBad_merged second⟩
          · rw [hothers nodeId hhead, hlookup, if_pos rfl]
          · exact List.mem_cons_self
          · exact List.mem_cons_of_mem _ List.mem_cons_self
        · obtain ⟨result, hresult, hfrom⟩ := hmerged nodeId hmem
          refine ⟨result, hresult, hfrom.mono ?_⟩
          exact fun pair hpair => List.mem_cons_of_mem _ (List.mem_cons_of_mem _ hpair)

/-- **What is merged of a browse** is for its ids, each once. -/
theorem mergedResults_spec {nodeIds : List NodeId} (hnodup : nodeIds.Nodup)
    (reply : Reply BrowseResult) :
    (mergeResults (childrenResults nodeIds reply) ∅).keys.Perm nodeIds ∧
      ∀ nodeId result,
        (mergeResults (childrenResults nodeIds reply) ∅).lookup nodeId = some result →
          MergedFrom (childrenResults nodeIds reply) nodeId result := by
  obtain ⟨results, hlength, hpairs⟩ :=
    pairs_eq_zip reply (fun status => ⟨status, []⟩) (childrenDescriptions nodeIds)
  have hzip : childrenResults nodeIds reply = (childrenDescriptions nodeIds).zip results := hpairs
  obtain ⟨hothers, hmerged⟩ := lookup_mergeResults_zip hnodup hlength ∅
    (fun nodeId _ => AList.lookup_empty nodeId)
  rw [hzip]
  constructor
  · rw [List.perm_ext_iff_of_nodup (AList.keys_nodup _) hnodup]
    intro nodeId
    rw [← AList.mem_keys, ← AList.lookup_isSome]
    constructor
    · intro hsome
      by_contra hnot
      rw [hothers nodeId hnot] at hsome
      cases hsome
    · intro hmem
      obtain ⟨result, hresult, -⟩ := hmerged nodeId hmem
      rw [hresult]
      rfl
  · intro nodeId result hresult
    have hmem : nodeId ∈ nodeIds := by
      by_contra hnot
      rw [hothers nodeId hnot] at hresult
      cases hresult
    obtain ⟨result', hresult', hfrom⟩ := hmerged nodeId hmem
    cases hresult.symm.trans hresult'
    exact hfrom

/-! ## §5  What one step does -/

/-- The calls of the validator so far and what is left make up the batch; each call is for
the merged results of the reply. -/
structure ChildrenBrowse.Sound (browse : ChildrenBrowse) : Prop where
  nonempty : browse.nodeIds ≠ []
  nodup : browse.nodeIds.Nodup
  bounded : browse.nodeIds.length ≤ kMaxFetchChildCount
  waiting : browse.reply = none → browse.merged.keys = [] ∧ browse.calls = []
  validated : ∀ reply, browse.reply = some reply →
    (browse.calls.map Prod.fst ++ browse.merged.keys).Perm browse.nodeIds ∧
    (∀ call ∈ browse.calls, MergedFrom (childrenResults browse.nodeIds reply) call.1 call.2) ∧
    ∀ nodeId result, browse.merged.lookup nodeId = some result →
      MergedFrom (childrenResults browse.nodeIds reply) nodeId result

theorem ChildrenBrowse.Sound.answered {browse : ChildrenBrowse} (h : browse.Sound)
    (hwaiting : browse.reply = none) (reply : Reply BrowseResult) :
    Sound { browse with
      reply := some reply
      merged := mergeResults (childrenResults browse.nodeIds reply) ∅ } where
  nonempty := h.nonempty
  nodup := h.nodup
  bounded := h.bounded
  waiting := nofun
  validated := by
    intro reply' heq
    cases heq
    obtain ⟨hkeys, hmerged⟩ := mergedResults_spec h.nodup reply
    have hcalls : browse.calls = [] := (h.waiting hwaiting).2
    simp only [hcalls]
    exact ⟨hkeys, nofun, hmerged⟩

theorem ChildrenBrowse.Sound.validate {browse : ChildrenBrowse} (h : browse.Sound)
    {nodeId : NodeId} {result : BrowseResult}
    (hresult : browse.merged.lookup nodeId = some result) :
    Sound { browse with
      merged := browse.merged.erase nodeId
      calls := browse.calls ++ [(nodeId, result)] } where
  nonempty := h.nonempty
  nodup := h.nodup
  bounded := h.bounded
  waiting := by
    intro hwaiting
    have hmem : nodeId ∈ browse.merged.keys := by
      rw [← AList.mem_keys, ← AList.lookup_isSome, hresult]
      rfl
    rw [(h.waiting hwaiting).1] at hmem
    cases hmem
  validated := by
    intro reply hreply
    obtain ⟨hperm, hcalls, hmerged⟩ := h.validated reply hreply
    have hmem : nodeId ∈ browse.merged.keys := by
      rw [← AList.mem_keys, ← AList.lookup_isSome, hresult]
      rfl
    refine ⟨?_, ?_, ?_⟩
    · rw [AList.keys_erase, List.map_append, List.append_assoc]
      refine List.Perm.trans ?_ hperm
      exact (List.perm_cons_erase hmem).symm.append_left _
    · intro call hcall
      rcases List.mem_append.mp hcall with hcall | hcall
      · exact hcalls call hcall
      · rw [List.mem_singleton.mp hcall]
        exact hmerged nodeId result hresult
    · intro other otherResult hother
      have hne : other ≠ nodeId := by
        rintro rfl
        rw [AList.lookup_erase] at hother
        cases hother
      rw [AList.lookup_erase_ne hne] at hother
      exact hmerged other otherResult hother

namespace NodeChildrenFetcher

theorem takePending_spec (room : ℕ) (f : NodeChildrenFetcher) :
    (f.takePending room).1 = f.pendingChildren.take room ∧
      (f.takePending room).2.pendingChildren = f.pendingChildren.drop room ∧
      (f.takePending room).2.childrenRequestCount = f.childrenRequestCount ∧
      ∀ nodeId, nodeId ∈ (f.takePending room).2.pendingChildrenSet ↔
        nodeId ∈ f.pendingChildrenSet ∧ nodeId ∉ f.pendingChildren.take room := by
  induction room generalizing f with
  | zero => simp [takePending]
  | succ room ih =>
      unfold takePending
      split
      · rename_i hempty
        simp [hempty]
      · rename_i head rest hpending
        obtain ⟨hids, hrest, hcount, hset⟩ := ih
          { f with pendingChildren := rest, pendingChildrenSet := f.pendingChildrenSet.erase head }
        rw [hpending]
        refine ⟨?_, hrest, hcount, ?_⟩
        · simp only [hids, List.take_succ_cons]
        · intro nodeId
          rw [hset, Finset.mem_erase, List.take_succ_cons, List.mem_cons]
          tauto

end NodeChildrenFetcher

namespace ChildrenWorld

/-- The ids of all browses. -/
def browsed (w : ChildrenWorld) : List NodeId :=
  ((w.outstanding ++ w.finished).map (·.nodeIds)).flatten

/-- What holds of the fetcher before it looks for the next batch. -/
structure Consistent (w : ChildrenWorld) : Prop where
  sameIds : ∀ nodeId,
    nodeId ∈ w.fetcher.pendingChildrenSet ↔ nodeId ∈ w.fetcher.pendingChildren
  nodup : w.fetcher.pendingChildren.Nodup
  count : w.outstanding.length = w.fetcher.childrenRequestCount
  single : w.outstanding.length ≤ 1
  accounted : w.requests.Perm (w.browsed ++ w.cancels ++ w.fetcher.pendingChildren)
  browses : ∀ browse ∈ w.outstanding ++ w.finished, browse.Sound
  done : ∀ browse ∈ w.finished, browse.reply.isSome = true ∧ browse.merged.keys = []

structure Sound (w : ChildrenWorld) : Prop extends Consistent w where
  busy : w.fetcher.pendingChildren ≠ [] → w.outstanding ≠ []

variable {w : ChildrenWorld} {i : ℕ} {browse : ChildrenBrowse}

/-- **The next batch** is the front of the queue, and it is taken when nothing is
outstanding. -/
theorem fetchPendingNodes_spec (h : Consistent w) :
    ∃ w', w.fetchPendingNodes = some w' ∧ Sound w' ∧
      (w.outstanding = [] →
        w'.fetcher.pendingChildren = w.fetcher.pendingChildren.drop kMaxFetchChildCount ∧
        w'.outstanding.map (·.nodeIds) =
          if w.fetcher.pendingChildren = [] then []
          else [w.fetcher.pendingChildren.take kMaxFetchChildCount]) := by
  unfold fetchPendingNodes
  split
  · rename_i hidle
    obtain ⟨hcount, hpending⟩ := hidle
    have hnone : w.outstanding = [] := List.eq_nil_of_length_eq_zero (h.count.trans hcount)
    obtain ⟨hids, hrest, hcount', hset⟩ := w.fetcher.takePending_spec kMaxFetchChildCount
    generalize w.fetcher.takePending kMaxFetchChildCount = taken at *
    obtain ⟨nodeIds, fetcher⟩ := taken
    simp only at hids hrest hcount' hset
    have hne : nodeIds ≠ [] := by
      rw [hids]
      exact fun hnil => hpending ((List.take_eq_nil_iff.mp hnil).resolve_left (by decide))
    have hsplit : nodeIds ++ fetcher.pendingChildren = w.fetcher.pendingChildren := by
      rw [hids, hrest, List.take_append_drop]
    have hnodup := h.nodup
    rw [← hsplit] at hnodup
    obtain ⟨hnodup_ids, hnodup_rest, hdisjoint⟩ := List.nodup_append.mp hnodup
    refine ⟨{ w with
      fetcher := { fetcher with childrenRequestCount := fetcher.childrenRequestCount + 1 }
      outstanding := w.outstanding ++ [{ nodeIds }] }, ?_, ⟨?_, ?_⟩, ?_⟩
    · simp only [fetchChildren, check_of hne]
      rfl
    · refine ⟨?_, hnodup_rest, ?_, ?_, ?_, ?_, h.done⟩
      · intro nodeId
        show nodeId ∈ fetcher.pendingChildrenSet ↔ nodeId ∈ fetcher.pendingChildren
        rw [hset, h.sameIds, ← hids, ← hsplit, List.mem_append]
        constructor
        · rintro ⟨hmem | hmem, hnot⟩
          · exact absurd hmem hnot
          · exact hmem
        · intro hmem
          exact ⟨.inr hmem, fun htaken => hdisjoint nodeId htaken nodeId hmem rfl⟩
      · simp [hnone, hcount', hcount]
      · simp [hnone]
      · refine h.accounted.trans ?_
        simp only [browsed, hnone, List.nil_append, ← hsplit, List.singleton_append,
          List.map_cons, List.flatten_cons]
        rw [List.perm_iff_count]
        intro nodeId
        simp only [List.count_append]
        omega
      · intro browse hbrowse
        rw [hnone, List.nil_append, List.singleton_append, List.mem_cons] at hbrowse
        rcases hbrowse with rfl | hbrowse
        · refine ⟨hne, hnodup_ids, ?_, fun _ => ⟨rfl, rfl⟩, ?_⟩
          · rw [hids, List.length_take]
            exact Nat.min_le_left _ _
          · intro reply hreply
            cases hreply
        · exact h.browses browse (List.mem_append_right _ hbrowse)
    · intro _
      exact List.append_ne_nil_of_right_ne_nil _ (List.cons_ne_nil _ _)
    · intro _
      refine ⟨hrest, ?_⟩
      rw [hnone, if_neg hpending, ← hids]
      rfl
  · rename_i hbusy
    refine ⟨w, rfl, ⟨h, ?_⟩, ?_⟩
    · rintro hpending hnone
      apply hbusy
      refine ⟨?_, hpending⟩
      rw [← h.count, hnone]
      rfl
    · intro hnone
      have hcount : w.fetcher.childrenRequestCount = 0 := by
        rw [← h.count, hnone]
        rfl
      have hpending : w.fetcher.pendingChildren = [] := by
        by_contra hpending
        exact hbusy ⟨hcount, hpending⟩
      simp [hpending, hnone]

theorem fetch_spec (h : Sound w) (nodeId : NodeId) : ∃ w', w.fetch nodeId = some w' ∧ Sound w' := by
  unfold fetch
  split
  · exact ⟨w, rfl, h⟩
  · rename_i hnot
    have hnew : nodeId ∉ w.fetcher.pendingChildren := by rwa [← h.sameIds]
    obtain ⟨w', hw', hsound, -⟩ := fetchPendingNodes_spec (w :=
      { w with
        fetcher :=
          { w.fetcher with
            pendingChildrenSet := insert nodeId w.fetcher.pendingChildrenSet
            pendingChildren := w.fetcher.pendingChildren ++ [nodeId] }
        requests := w.requests ++ [nodeId] }) (by
      refine ⟨?_, ?_, h.count, h.single, ?_, h.browses, h.done⟩
      · intro other
        rw [Finset.mem_insert, List.mem_append, List.mem_singleton, h.sameIds, or_comm]
      · rw [List.nodup_append_comm]
        exact List.nodup_cons.mpr ⟨hnew, h.nodup⟩
      · rw [← List.append_assoc]
        exact h.accounted.append_right [nodeId])
    exact ⟨w', hw', hsound⟩

theorem cancel_spec (h : Sound w) (nodeId : NodeId) :
    ∃ w', w.cancel nodeId = some w' ∧ Sound w' := by
  unfold cancel
  split
  · rename_i hmem
    have hpending := (h.sameIds nodeId).mp hmem
    refine ⟨{ w with
      fetcher :=
        { w.fetcher with
          pendingChildrenSet := w.fetcher.pendingChildrenSet.erase nodeId
          pendingChildren := w.fetcher.pendingChildren.erase nodeId }
      cancels := w.cancels ++ [nodeId] }, ?_,
      ⟨?_, h.nodup.erase nodeId, h.count, h.single, ?_, h.browses, h.done⟩, ?_⟩
    · simp only [check_of hpending]
      rfl
    · intro other
      rw [Finset.mem_erase, h.nodup.mem_erase_iff, h.sameIds]
    · refine h.accounted.trans ?_
      have hperm : w.fetcher.pendingChildren.Perm
          ([nodeId] ++ w.fetcher.pendingChildren.erase nodeId) := List.perm_cons_erase hpending
      show List.Perm _ (w.browsed ++ (w.cancels ++ [nodeId]) ++ _)
      rw [← List.append_assoc, List.append_assoc _ [nodeId]]
      exact hperm.append_left _
    · intro hrest
      apply h.busy
      intro hnil
      rw [hnil] at hpending
      cases hpending
  · exact ⟨w, rfl, h⟩

/-- One browse goes on; what was asked for stays. -/
theorem Sound.set (h : Sound w) (hbrowse : w.outstanding[i]? = some browse)
    {next : ChildrenBrowse} (hnext : next.Sound) (hids : next.nodeIds = browse.nodeIds) :
    Sound { w with outstanding := w.outstanding.set i next } := by
  have hlength : (w.outstanding.set i next).length = w.outstanding.length := List.length_set
  have hbrowsed : browsed { w with outstanding := w.outstanding.set i next } = w.browsed := by
    unfold browsed
    rw [List.map_append, List.map_append, List.map_set, hids]
    congr 2
    apply List.ext_getElem?
    intro j
    rw [List.getElem?_set]
    split
    · rename_i hij
      subst hij
      split
      · rw [List.getElem?_map, hbrowse]
        rfl
      · rename_i hlt
        rw [List.getElem?_eq_none (Nat.le_of_not_lt hlt)]
    · rfl
  refine ⟨⟨h.sameIds, h.nodup, hlength.trans h.count, hlength.trans_le h.single, ?_, ?_, h.done⟩, ?_⟩
  · rw [hbrowsed]
    exact h.accounted
  · intro other hother
    rcases List.mem_append.mp hother with hother | hother
    · rcases List.mem_or_eq_of_mem_set hother with hother | rfl
      · exact h.browses other (List.mem_append_left _ hother)
      · exact hnext
    · exact h.browses other (List.mem_append_right _ hother)
  · intro hpending hnil
    apply h.busy hpending
    apply List.eq_nil_of_length_eq_zero
    rw [← hlength]
    exact congrArg List.length hnil

theorem Sound.of_getElem? (h : Sound w) (hbrowse : w.outstanding[i]? = some browse) : browse.Sound :=
  h.browses browse (List.mem_append_left _ (List.mem_of_getElem? hbrowse))

theorem answer_spec (h : Sound w) (hbrowse : w.outstanding[i]? = some browse)
    (hwaiting : browse.reply = none) (reply : Reply BrowseResult) :
    ∃ w', w.answer i reply = some w' ∧ Sound w' := by
  have hsound := h.of_getElem? hbrowse
  have hdescriptions : childrenDescriptions browse.nodeIds ≠ [] := by
    obtain ⟨head, rest, hids⟩ := List.exists_cons_of_ne_nil hsound.nonempty
    rw [hids]
    exact List.cons_ne_nil _ _
  refine ⟨_, ?_, h.set hbrowse (hsound.answered hwaiting reply) rfl⟩
  simp only [answer, hbrowse, Option.bind_eq_bind, Option.bind_some, check_of hdescriptions]
  rfl

theorem validate_spec (h : Sound w) (hbrowse : w.outstanding[i]? = some browse)
    {nodeId : NodeId} (hmem : nodeId ∈ browse.merged.keys) :
    ∃ w', w.validate i nodeId = some w' ∧ Sound w' := by
  obtain ⟨result, hresult⟩ := Option.isSome_iff_exists.mp
    (AList.lookup_isSome.mpr (AList.mem_keys.mpr hmem))
  refine ⟨_, ?_, h.set hbrowse ((h.of_getElem? hbrowse).validate hresult) rfl⟩
  simp only [validate, hbrowse, Option.bind_eq_bind, Option.bind_some, hresult]
  rfl

/-- **A browse is finished**, and the front of the queue is browsed next. -/
theorem finish_spec (h : Sound w) (hbrowse : w.outstanding[i]? = some browse)
    (hreply : browse.reply.isSome = true) (hmerged : browse.merged.keys = []) :
    ∃ w', w.finish i = some w' ∧ Sound w' ∧
      w'.fetcher.pendingChildren = w.fetcher.pendingChildren.drop kMaxFetchChildCount ∧
      w'.outstanding.map (·.nodeIds) =
        if w.fetcher.pendingChildren = [] then []
        else [w.fetcher.pendingChildren.take kMaxFetchChildCount] := by
  have hlt : i < w.outstanding.length := (List.getElem?_eq_some_iff.mp hbrowse).1
  have hcount := h.count
  have hsingle := h.single
  have hone : w.outstanding = [browse] := by
    have hlength : w.outstanding.length = 1 := by omega
    obtain ⟨only, honly⟩ := List.length_eq_one_iff.mp hlength
    have hi : i = 0 := by omega
    rw [honly, hi] at hbrowse
    cases hbrowse
    exact honly
  have hi : i = 0 := by
    rw [hone] at hlt
    simpa using hlt
  have hpositive : 0 < w.fetcher.childrenRequestCount := by omega
  have hnone : w.outstanding.eraseIdx i = [] := by
    rw [hone, hi]
    rfl
  obtain ⟨w', hw', hsound, hnext⟩ := fetchPendingNodes_spec (w :=
    { w with
      fetcher :=
        { w.fetcher with childrenRequestCount := w.fetcher.childrenRequestCount - 1 }
      outstanding := w.outstanding.eraseIdx i
      finished := w.finished ++ [browse] }) (by
    refine ⟨h.sameIds, h.nodup, ?_, ?_, ?_, ?_, ?_⟩
    · rw [hnone]
      show 0 = w.fetcher.childrenRequestCount - 1
      rw [hone, List.length_singleton] at hcount
      omega
    · rw [hnone]
      exact Nat.zero_le 1
    · refine h.accounted.trans ?_
      simp only [browsed, hnone, List.nil_append]
      rw [hone, List.perm_iff_count]
      intro nodeId
      simp only [List.singleton_append, List.map_cons, List.map_append,
        List.map_nil, List.flatten_cons, List.flatten_append, List.flatten_nil, List.append_nil,
        List.count_append]
      omega
    · intro other hother
      apply h.browses
      simp only [hnone, List.nil_append, List.mem_append, List.mem_singleton] at hother
      rw [hone, List.mem_append, List.mem_singleton]
      exact hother.symm
    · intro other hother
      rcases List.mem_append.mp hother with hother | hother
      · exact h.done other hother
      · rw [List.mem_singleton.mp hother]
        exact ⟨hreply, hmerged⟩)
  refine ⟨w', ?_, hsound, hnext hnone⟩
  simp only [finish, hbrowse, Option.bind_eq_bind, Option.bind_some, check_of hpositive]
  exact hw'

theorem step_spec (h : Sound w) {a : ChildrenAction} (henabled : w.Enabled a) :
    ∃ w', w.step a = some w' ∧ Sound w' := by
  cases a with
  | fetch nodeId => exact fetch_spec h nodeId
  | cancel nodeId => exact cancel_spec h nodeId
  | answer i reply =>
      obtain ⟨browse, hbrowse, hwaiting⟩ := henabled
      exact answer_spec h hbrowse (Option.isNone_iff_eq_none.mp hwaiting) reply
  | validate i nodeId =>
      obtain ⟨browse, hbrowse, hmem⟩ := henabled
      exact validate_spec h hbrowse hmem
  | finish i =>
      obtain ⟨browse, hbrowse, hreply, hmerged⟩ := henabled
      obtain ⟨w', hw', hsound, -⟩ := finish_spec h hbrowse hreply hmerged
      exact ⟨w', hw', hsound⟩

/-! ## §6  Runs -/

theorem sound_init : Sound machine.init where
  sameIds := fun nodeId => iff_of_false (Finset.notMem_empty nodeId) List.not_mem_nil
  nodup := List.nodup_nil
  count := rfl
  single := Nat.zero_le 1
  accounted := List.Perm.refl _
  browses := nofun
  done := nofun
  busy := fun h => absurd rfl h

theorem sound_of_reachable (h : machine.Reachable w) : Sound w := by
  refine h.invariant sound_init ?_
  intro before a after hbefore henabled _ hstep
  obtain ⟨w', hw', hsound⟩ := step_spec hbefore henabled
  cases hw'.symm.trans hstep
  exact hsound

/-- The fetcher of children, seen from outside. -/
structure Accounted (w : ChildrenWorld) : Prop where
  /-- The deque and the set hold the same ids, once. -/
  pending : w.fetcher.pendingChildren.Nodup ∧ ∀ nodeId,
    nodeId ∈ w.fetcher.pendingChildrenSet ↔ nodeId ∈ w.fetcher.pendingChildren
  single : w.outstanding.length ≤ 1
  busy : w.fetcher.pendingChildren ≠ [] → w.outstanding ≠ []
  /-- Each id that was put into the queue is in one browse, cancelled, or still queued. -/
  requests : w.requests.Perm (w.browsed ++ w.cancels ++ w.fetcher.pendingChildren)
  /-- A browse is of distinct ids, and no id is validated twice or for another result. -/
  validated : ∀ browse ∈ w.outstanding ++ w.finished, browse.nodeIds.Nodup ∧
    (browse.calls.map Prod.fst).Nodup ∧ ∀ call ∈ browse.calls, call.1 ∈ browse.nodeIds ∧
      ∃ reply, browse.reply = some reply ∧
        MergedFrom (childrenResults browse.nodeIds reply) call.1 call.2
  /-- All ids of a finished browse were validated. -/
  finished : ∀ browse ∈ w.finished, (browse.calls.map Prod.fst).Perm browse.nodeIds

theorem accounted_of_sound (h : Sound w) : Accounted w where
  pending := ⟨h.nodup, h.sameIds⟩
  single := h.single
  busy := h.busy
  requests := h.accounted
  validated := by
    intro browse hbrowse
    have hsound := h.browses browse hbrowse
    refine ⟨hsound.nodup, ?_⟩
    cases hreply : browse.reply with
    | none =>
        rw [(hsound.waiting hreply).2]
        exact ⟨List.nodup_nil, nofun⟩
    | some reply =>
        obtain ⟨hperm, hcalls, -⟩ := hsound.validated reply hreply
        refine ⟨(List.nodup_append.mp (hperm.nodup_iff.mpr hsound.nodup)).1, ?_⟩
        intro call hcall
        refine ⟨hperm.subset (List.mem_append_left _ (List.mem_map_of_mem hcall)), reply, rfl, ?_⟩
        exact hcalls call hcall
  finished := by
    intro browse hbrowse
    obtain ⟨hreply, hmerged⟩ := h.done browse hbrowse
    obtain ⟨reply, hreply⟩ := Option.isSome_iff_exists.mp hreply
    have hperm := ((h.browses browse (List.mem_append_right _ hbrowse)).validated reply hreply).1
    rwa [hmerged, List.append_nil] at hperm

/-- **The fetcher of children**, in every run: no check fails, what is asked for is
accounted for, and the browse after a finished one is of the front of the queue. -/
theorem children_are_fetched :
    (∀ w, machine.Reachable w → Accounted w ∧ ∀ a, w.Enabled a → (w.step a).isSome) ∧
    ∀ w i w', machine.Reachable w → w.Enabled (.finish i) → w.finish i = some w' →
      w'.fetcher.pendingChildren = w.fetcher.pendingChildren.drop kMaxFetchChildCount ∧
      w'.outstanding.map (·.nodeIds) =
        if w.fetcher.pendingChildren = [] then []
        else [w.fetcher.pendingChildren.take kMaxFetchChildCount] := by
  constructor
  · intro w hreach
    have hsound := sound_of_reachable hreach
    refine ⟨accounted_of_sound hsound, ?_⟩
    intro a henabled
    obtain ⟨w', hw', -⟩ := step_spec hsound henabled
    rw [hw']
    rfl
  · intro w i w' hreach henabled hfinish
    obtain ⟨browse, hbrowse, hreply, hmerged⟩ := henabled
    obtain ⟨w'', hw'', -, hnext⟩ := finish_spec (sound_of_reachable hreach) hbrowse hreply hmerged
    cases hw''.symm.trans hfinish
    exact hnext

/-- Two nodes are fetched, one while the other one is browsed, and the validator of the first
one fetches it again. -/
theorem children_are_fetched_again :
    ∃ w, machine.Reachable w ∧ Accounted w ∧
      w.fetcher.pendingChildren = [] ∧
      w.requests = [.numeric 1 1, .numeric 2 1, .numeric 1 1] ∧
      w.finished.map (·.nodeIds) = [[.numeric 1 1]] ∧
      w.outstanding.map (·.nodeIds) = [[.numeric 2 1, .numeric 1 1]] := by
  obtain ⟨w, hreach, hw⟩ := Machine.exists_reachable_of_exec (M := machine)
    (p := fun w => w.fetcher.pendingChildren = [] ∧
      w.requests = [.numeric 1 1, .numeric 2 1, .numeric 1 1] ∧
      w.finished.map (·.nodeIds) = [[.numeric 1 1]] ∧
      w.outstanding.map (·.nodeIds) = [[.numeric 2 1, .numeric 1 1]])
    [.fetch (.numeric 1 1), .fetch (.numeric 2 1), .answer 0 (.results [{}]),
      .validate 0 (.numeric 1 1), .fetch (.numeric 1 1), .finish 0] (by decide +kernel)
  exact ⟨w, hreach, (children_are_fetched.1 w hreach).1, of_decide_eq_true hw⟩

end ChildrenWorld

end ScadaCommon
