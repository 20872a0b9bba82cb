import Mathlib.Data.Finset.Insert
import ScadaCommon.NodeService.V3.SupertypeWalks

/-!
# Recursive fetches

`FetchRecursiveStatus` fetches the children of a node and then itself for each target
of its references, up to the first that fails. It does not keep where it has been, so
it ends only where the references it follows do.

§1 what a service presents · §2 the recursion · §3 what it follows · §4 targets one
after the other · §5 what a good result says · §6 when it ends · §7 it ends and is
complete unless it gets into a cycle.
-/

namespace ScadaCommon

open Foundation Relation
open V3 (NodeRef ReferenceDescription getNode)

/-! ## §1  What a service presents -/

/-- A node once its children have been fetched, or could not be. -/
structure PresentedNode where
  nodeId : NodeId
  status : Status := .good
  references : List ReferenceDescription := []
deriving DecidableEq

structure PresentedGraph where
  nodes : List PresentedNode
  /-- What the service knows about reference types. -/
  isSubtypeOf : NodeId → NodeId → Bool

namespace PresentedGraph

variable (graph : PresentedGraph) (refTypeId : NodeId)

def node (nodeId : NodeId) : PresentedNode :=
  (graph.nodes.find? (·.nodeId = nodeId)).getD { nodeId, status := .badWrongNodeId }

/-- `NodeRef::status`. -/
def statusOf (node : NodeRef) : Status :=
  (node.map fun nodeId => (graph.node nodeId).status).getD .badWrongNodeId

def targetsOf (nodeId : NodeId) : List NodeRef :=
  ((graph.node nodeId).references.filter fun reference =>
    reference.forward ∧ graph.isSubtypeOf reference.referenceTypeId refTypeId).map
      fun reference => getNode reference.nodeId

/-- `NodeRef::targets`. -/
def targets (node : NodeRef) : List NodeRef :=
  (node.map (graph.targetsOf refTypeId)).getD []

end PresentedGraph

/-! ## §2  The recursion -/

structure FetchRun where
  /-- The nodes whose children have been fetched. -/
  childrenFetched : Finset NodeId := ∅
  /-- The calls of `NodeRef::Fetch`. -/
  fetchCalls : List NodeId := []
deriving DecidableEq

def FetchRun.fetch (run : FetchRun) (nodeId : NodeId) : FetchRun :=
  { childrenFetched := insert nodeId run.childrenFetched
    fetchCalls := run.fetchCalls ++ [nodeId] }

section

variable (graph : PresentedGraph) (refTypeId : NodeId)

def fetchChildrenStatus (run : FetchRun) (node : NodeRef) : FetchRun × Status :=
  match node with
  | none => (run, graph.statusOf none)
  | some nodeId =>
      let run := if nodeId ∈ run.childrenFetched then run else run.fetch nodeId
      (run, graph.statusOf (some nodeId))

/-- The loop over the targets, with the recursive call. -/
def fetchTargets (fetch : FetchRun → NodeRef → Option (FetchRun × Status)) :
    FetchRun → List NodeRef → Option (FetchRun × Status)
  | run, [] => some (run, .good)
  | run, target :: targets =>
      (fetch run target).bind fun (run, status) =>
        if status = .good then fetchTargets fetch run targets else some (run, status)

def fetchRecursiveStatus : ℕ → FetchRun → NodeRef → Option (FetchRun × Status)
  | 0, _, _ => none
  | fuel + 1, run, node =>
      let (run, status) := fetchChildrenStatus graph run node
      if status = .good then
        fetchTargets (fetchRecursiveStatus fuel) run (graph.targets refTypeId node)
      else some (run, status)

/-! ## §3  What it follows -/

/-- A forward reference of the type. -/
def Links (a b : NodeId) : Prop := some b ∈ graph.targetsOf refTypeId a

/-- All that can be reached from a node is good, and is not reached again from itself. -/
def IsComplete (a : NodeId) : Prop :=
  ∀ b, ReflTransGen (Links graph refTypeId) a b →
    graph.statusOf (some b) = .good ∧ none ∉ graph.targetsOf refTypeId b ∧
      ¬ TransGen (Links graph refTypeId) b b

/-- The recursion gets from a node to one of its targets, past those before it. -/
def Enters (a b : NodeId) : Prop :=
  graph.statusOf (some a) = .good ∧
    ∃ before after, graph.targetsOf refTypeId a = before ++ some b :: after ∧
      ∀ target ∈ before, ∃ c, target = some c ∧ IsComplete graph refTypeId c

/-- It ends, and all that can be reached is fetched if it ends well. -/
structure FetchesAll (run : FetchRun) (node : NodeRef) : Prop where
  ends : Converges (fetchRecursiveStatus graph refTypeId · run node)
  complete : ∀ fuel run' a b, fetchRecursiveStatus graph refTypeId fuel run node =
    some (run', .good) → node = some a → ReflTransGen (Links graph refTypeId) a b →
      b ∈ run'.childrenFetched

end

variable {graph : PresentedGraph} {refTypeId : NodeId} {a b : NodeId} {fuel : ℕ}
  {run run' : FetchRun} {node : NodeRef} {result : FetchRun × Status}

theorem Enters.links (h : Enters graph refTypeId a b) : Links graph refTypeId a b := by
  obtain ⟨-, before, after, htargets, -⟩ := h
  rw [Links, htargets]
  exact List.mem_append_right _ List.mem_cons_self

/-- Only what is there has references. -/
theorem finite_links : {a | ∃ b, Links graph refTypeId a b}.Finite := by
  refine (List.finite_toSet (graph.nodes.map (·.nodeId))).subset ?_
  rintro a ⟨b, hb⟩
  refine List.mem_map.mpr ?_
  cases hfind : graph.nodes.find? (·.nodeId = a) with
  | some found =>
      exact ⟨found, List.mem_of_find?_eq_some hfind, by simpa using List.find?_some hfind⟩
  | none =>
      rw [Links, PresentedGraph.targetsOf, PresentedGraph.node, hfind] at hb
      cases hb

theorem IsComplete.of_links (h : IsComplete graph refTypeId a) (hab : Links graph refTypeId a b) :
    IsComplete graph refTypeId b :=
  fun c hbc => h c (hbc.head hab)

/-- A node is complete when its targets are. -/
theorem isComplete_of_targets (hgood : graph.statusOf (some a) = .good)
    (htargets : ∀ target ∈ graph.targetsOf refTypeId a,
      ∃ b, target = some b ∧ IsComplete graph refTypeId b) : IsComplete graph refTypeId a := by
  have hlinks : ∀ b, Links graph refTypeId a b → IsComplete graph refTypeId b := by
    intro b hab
    obtain ⟨c, hc, hcomplete⟩ := htargets _ hab
    cases hc
    exact hcomplete
  intro b hab
  rcases ReflTransGen.cases_head hab with rfl | ⟨c, hac, hcb⟩
  · refine ⟨hgood, fun hnone => ?_, fun hcycle => ?_⟩
    · obtain ⟨b, hb, -⟩ := htargets none hnone
      cases hb
    · -- A cycle through the node is one through its target.
      obtain ⟨c, hac, hca⟩ := TransGen.head'_iff.mp hcycle
      exact (hlinks c hac c .refl).2.2 (TransGen.tail' hca hac)
  · exact hlinks c hac b hcb

/-! ## §4  Targets one after the other -/

section

variable {fetch fetch' : FetchRun → NodeRef → Option (FetchRun × Status)}
  {targets : List NodeRef} {target : NodeRef}

theorem fetchTargets_cons
    (h : fetchTargets fetch run (target :: targets) = some result) :
    ∃ run' status, fetch run target = some (run', status) ∧
      ((status = .good ∧ fetchTargets fetch run' targets = some result) ∨
        (status ≠ .good ∧ result = (run', status))) := by
  obtain ⟨⟨run', status⟩, hfetch, h⟩ := Option.bind_eq_some_iff.mp h
  refine ⟨run', status, hfetch, ?_⟩
  by_cases hgood : status = .good
  · exact Or.inl ⟨hgood, by simpa only [if_pos hgood] using h⟩
  · exact Or.inr ⟨hgood, by simpa only [if_neg hgood, Option.some_inj, eq_comm] using h⟩

theorem fetchTargets_of_good (h : fetch run target = some (run', .good)) :
    fetchTargets fetch run (target :: targets) = fetchTargets fetch run' targets := by
  rw [fetchTargets, h]
  rfl

theorem fetchTargets_of_bad {status : Status} (h : fetch run target = some (run', status))
    (hbad : status ≠ .good) :
    fetchTargets fetch run (target :: targets) = some (run', status) := by
  rw [fetchTargets, h]
  exact if_neg hbad

/-- What calls that return more often do. -/
theorem fetchTargets_mono (hmono : ∀ run target result,
    fetch run target = some result → fetch' run target = some result)
    (h : fetchTargets fetch run targets = some result) :
    fetchTargets fetch' run targets = some result := by
  induction targets generalizing run with
  | nil => exact h
  | cons target targets ih =>
      obtain ⟨run', status, hfetch, ⟨rfl, hrest⟩ | ⟨hbad, rfl⟩⟩ := fetchTargets_cons h
      · rw [fetchTargets_of_good (hmono _ _ _ hfetch)]
        exact ih hrest
      · exact fetchTargets_of_bad (hmono _ _ _ hfetch) hbad

end

/-! ## §5  What a good result says -/

theorem fetchChildrenStatus_status (run : FetchRun) (node : NodeRef) :
    (fetchChildrenStatus graph run node).2 = graph.statusOf node := by
  cases node <;> rfl

theorem subset_fetchChildrenStatus (run : FetchRun) (node : NodeRef) :
    run.childrenFetched ⊆ (fetchChildrenStatus graph run node).1.childrenFetched := by
  cases node with
  | none => exact Finset.Subset.refl _
  | some a =>
      unfold fetchChildrenStatus
      dsimp only
      split
      · exact Finset.Subset.refl _
      · exact Finset.subset_insert _ _

theorem mem_fetchChildrenStatus (run : FetchRun) (a : NodeId) :
    a ∈ (fetchChildrenStatus graph run (some a)).1.childrenFetched := by
  unfold fetchChildrenStatus
  dsimp only
  split
  · assumption
  · exact Finset.mem_insert_self _ _

theorem fetchRecursiveStatus_succ :
    fetchRecursiveStatus graph refTypeId (fuel + 1) run node =
      if graph.statusOf node = .good then
        fetchTargets (fetchRecursiveStatus graph refTypeId fuel)
          (fetchChildrenStatus graph run node).1 (graph.targets refTypeId node)
      else some ((fetchChildrenStatus graph run node).1, graph.statusOf node) := by
  rw [← fetchChildrenStatus_status run node]
  rfl

theorem fetchRecursiveStatus_mono {more : ℕ}
    (h : fetchRecursiveStatus graph refTypeId fuel run node = some result) (hle : fuel ≤ more) :
    fetchRecursiveStatus graph refTypeId more run node = some result := by
  induction fuel generalizing run node result more with
  | zero => cases h
  | succ fuel ih =>
      obtain ⟨more, rfl⟩ := Nat.exists_eq_add_of_le' (Nat.lt_of_lt_of_le fuel.succ_pos hle)
      have hle := Nat.le_of_succ_le_succ hle
      rw [fetchRecursiveStatus_succ] at h ⊢
      by_cases hgood : graph.statusOf node = .good
      · rw [if_pos hgood] at h ⊢
        exact fetchTargets_mono (fun run target result hfetch => ih hfetch hle) h
      · rw [if_neg hgood] at h ⊢
        exact h

/-- What a run that comes back well has done. -/
structure CameBack (graph : PresentedGraph) (refTypeId : NodeId) (run : FetchRun)
    (node : NodeRef) (run' : FetchRun) : Prop where
  keeps : run.childrenFetched ⊆ run'.childrenFetched
  reached : ∃ a, node = some a ∧ IsComplete graph refTypeId a ∧
    ∀ b, ReflTransGen (Links graph refTypeId) a b → b ∈ run'.childrenFetched

theorem fetchTargets_cameBack {fetch : FetchRun → NodeRef → Option (FetchRun × Status)}
    {targets : List NodeRef}
    (hfetch : ∀ run target run', fetch run target = some (run', .good) →
      CameBack graph refTypeId run target run')
    (h : fetchTargets fetch run targets = some (run', .good)) :
    run.childrenFetched ⊆ run'.childrenFetched ∧
      ∀ target ∈ targets, ∃ a, target = some a ∧ IsComplete graph refTypeId a ∧
        ∀ b, ReflTransGen (Links graph refTypeId) a b → b ∈ run'.childrenFetched := by
  induction targets generalizing run with
  | nil =>
      cases h
      exact ⟨Finset.Subset.refl _, fun target htarget => absurd htarget List.not_mem_nil⟩
  | cons target targets ih =>
      obtain ⟨between, status, hcall, ⟨rfl, hrest⟩ | ⟨hbad, hresult⟩⟩ := fetchTargets_cons h
      · obtain ⟨hkeeps, a, ha, hcomplete, hreached⟩ := hfetch _ _ _ hcall
        obtain ⟨hsubset, htargets⟩ := ih hrest
        refine ⟨hkeeps.trans hsubset, List.forall_mem_cons.mpr ⟨?_, htargets⟩⟩
        exact ⟨a, ha, hcomplete, fun b hab => hsubset (hreached b hab)⟩
      · cases hresult
        exact absurd rfl hbad

theorem fetchRecursiveStatus_cameBack
    (h : fetchRecursiveStatus graph refTypeId fuel run node = some (run', .good)) :
    CameBack graph refTypeId run node run' := by
  induction fuel generalizing run node run' with
  | zero => cases h
  | succ fuel ih =>
      rw [fetchRecursiveStatus_succ] at h
      by_cases hgood : graph.statusOf node = .good
      · rw [if_pos hgood] at h
        obtain ⟨hsubset, htargets⟩ := fetchTargets_cameBack (fun _ _ _ hfetch => ih hfetch) h
        cases node with
        | none => cases hgood
        | some a =>
            refine ⟨(subset_fetchChildrenStatus run (some a)).trans hsubset, a, rfl, ?_, ?_⟩
            · refine isComplete_of_targets hgood fun target htarget => ?_
              obtain ⟨b, hb, hcomplete, -⟩ := htargets target htarget
              exact ⟨b, hb, hcomplete⟩
            · intro b hab
              rcases ReflTransGen.cases_head hab with rfl | ⟨c, hac, hcb⟩
              · exact hsubset (mem_fetchChildrenStatus run a)
              · obtain ⟨d, hd, -, hreached⟩ := htargets _ hac
                cases hd
                exact hreached b hcb
      · rw [if_neg hgood] at h
        exact absurd (congrArg Prod.snd (Option.some_inj.mp h)) hgood

/-! ## §6  When it ends -/

/-- Complete targets are got past. -/
theorem exists_fetchTargets_good {targets : List NodeRef}
    (h : ∀ target ∈ targets, ∀ run, ∃ fuel run',
      fetchRecursiveStatus graph refTypeId fuel run target = some (run', .good))
    (run : FetchRun) :
    ∃ fuel run', fetchTargets (fetchRecursiveStatus graph refTypeId fuel) run targets =
      some (run', .good) := by
  induction targets generalizing run with
  | nil => exact ⟨0, run, rfl⟩
  | cons target targets ih =>
      obtain ⟨hhead, htail⟩ := List.forall_mem_cons.mp h
      obtain ⟨fuel, between, hbetween⟩ := hhead run
      obtain ⟨fuel', run', hrun'⟩ := ih htail between
      refine ⟨max fuel fuel', run', ?_⟩
      rw [fetchTargets_of_good (fetchRecursiveStatus_mono hbetween (le_max_left _ _))]
      exact fetchTargets_mono
        (fun run target result hfetch => fetchRecursiveStatus_mono hfetch (le_max_right _ _)) hrun'

/-- **A complete node is fetched.** -/
theorem IsComplete.comesBack (h : IsComplete graph refTypeId a) (run : FetchRun) :
    ∃ fuel run', fetchRecursiveStatus graph refTypeId fuel run (some a) = some (run', .good) := by
  have hcycle : ¬ MeetsCycle (Links graph refTypeId) a := by
    rintro ⟨b, hab, hb⟩
    exact (h b hab).2.2 hb
  refine induction_of_no_cycle (p := fun a => IsComplete graph refTypeId a → ∀ run, ∃ fuel run',
    fetchRecursiveStatus graph refTypeId fuel run (some a) = some (run', .good)) finite_links ?_
    hcycle h run
  intro a ih h run
  obtain ⟨hgood, hnone, -⟩ := h a .refl
  have htargets : ∀ target ∈ graph.targetsOf refTypeId a, ∀ run, ∃ fuel run',
      fetchRecursiveStatus graph refTypeId fuel run target = some (run', .good) := by
    intro target htarget
    cases target with
    | none => exact absurd htarget hnone
    | some b => exact ih b htarget (h.of_links htarget)
  obtain ⟨fuel, run', hrun'⟩ :=
    exists_fetchTargets_good htargets (fetchChildrenStatus graph run a).1
  refine ⟨fuel + 1, run', ?_⟩
  rw [fetchRecursiveStatus_succ, if_pos hgood]
  exact hrun'

theorem IsComplete.status_eq {status : Status} (h : IsComplete graph refTypeId a)
    (hrun' : fetchRecursiveStatus graph refTypeId fuel run (some a) = some (run', status)) :
    status = .good := by
  obtain ⟨fuel', run'', hgood⟩ := h.comesBack run
  have hmax := fetchRecursiveStatus_mono hrun' (le_max_left fuel fuel')
  have hmax' := fetchRecursiveStatus_mono hgood (le_max_right fuel fuel')
  exact congrArg Prod.snd (Option.some_inj.mp (hmax.symm.trans hmax'))

/-- A run that ends has made the calls it gets to, and they have ended. -/
theorem exists_call_of_enters
    (h : fetchRecursiveStatus graph refTypeId (fuel + 1) run (some a) = some result)
    (hab : Enters graph refTypeId a b) :
    ∃ run' result', fetchRecursiveStatus graph refTypeId fuel run' (some b) = some result' := by
  obtain ⟨hgood, before, after, htargets, hbefore⟩ := hab
  rw [fetchRecursiveStatus_succ, if_pos hgood, PresentedGraph.targets, Option.map_some,
    Option.getD_some, htargets] at h
  generalize (fetchChildrenStatus graph run (some a)).1 = run at h
  clear htargets
  induction before generalizing run with
  | nil =>
      obtain ⟨run', status, hcall, -⟩ := fetchTargets_cons h
      exact ⟨run, _, hcall⟩
  | cons target before ih =>
      obtain ⟨⟨c, rfl, hcomplete⟩, hrestComplete⟩ := List.forall_mem_cons.mp hbefore
      obtain ⟨run', status, hcall, ⟨-, hrest⟩ | ⟨hbad, -⟩⟩ := fetchTargets_cons h
      · exact ih hrestComplete run' hrest
      · exact absurd (hcomplete.status_eq hcall) hbad

theorem not_meetsCycle_of_ends
    (h : fetchRecursiveStatus graph refTypeId fuel run (some a) = some result) :
    ¬ MeetsCycle (Enters graph refTypeId) a := by
  induction fuel generalizing a run result with
  | zero => cases h
  | succ fuel ih =>
      have hnext : ∀ b, Enters graph refTypeId a b → ¬ MeetsCycle (Enters graph refTypeId) b := by
        intro b hab
        obtain ⟨run', result', hcall⟩ := exists_call_of_enters h hab
        exact ih hcall
      intro hcycle
      obtain ⟨b, hab, hb⟩ := hcycle.exists_step
      exact hnext b hab hb

/-- The loop ends when the calls it gets to do. -/
theorem converges_fetchTargets {before after : List NodeRef}
    (hgood : graph.statusOf (some a) = .good)
    (htargets : graph.targetsOf refTypeId a = before ++ after)
    (hbefore : ∀ target ∈ before, ∃ c, target = some c ∧ IsComplete graph refTypeId c)
    (hends : ∀ b, Enters graph refTypeId a b → ∀ run,
      Converges (fetchRecursiveStatus graph refTypeId · run (some b))) (run : FetchRun) :
    Converges fun fuel => fetchTargets (fetchRecursiveStatus graph refTypeId fuel) run after := by
  induction after generalizing before run with
  | nil => exact ⟨0, _, rfl⟩
  | cons target after ih =>
      cases target with
      | none => exact ⟨1, _, fetchTargets_of_bad rfl (fun hgood => by cases hgood)⟩
      | some b =>
          have hab : Enters graph refTypeId a b := ⟨hgood, before, after, htargets, hbefore⟩
          obtain ⟨fuel, ⟨run', status⟩, hcall⟩ := hends b hab run
          by_cases hstatus : status = .good
          · subst hstatus
            obtain ⟨-, c, hc, hcomplete, -⟩ := fetchRecursiveStatus_cameBack hcall
            have hbefore' : ∀ target ∈ before ++ [some b],
                ∃ c, target = some c ∧ IsComplete graph refTypeId c := by
              intro target htarget
              rcases List.mem_append.mp htarget with htarget | htarget
              · exact hbefore target htarget
              · exact ⟨c, (List.mem_singleton.mp htarget).trans hc, hcomplete⟩
            obtain ⟨fuel', result, hresult⟩ := ih (by rw [htargets, List.append_cons]) hbefore' run'
            have hcall' := fetchRecursiveStatus_mono hcall (le_max_left fuel fuel')
            refine ⟨max fuel fuel', result, (fetchTargets_of_good hcall').trans ?_⟩
            exact fetchTargets_mono (fun run target result hfetch =>
              fetchRecursiveStatus_mono hfetch (le_max_right _ _)) hresult
          · exact ⟨fuel, _, fetchTargets_of_bad hcall hstatus⟩

theorem converges_fetchRecursiveStatus (h : ¬ MeetsCycle (Enters graph refTypeId) a)
    (run : FetchRun) : Converges (fetchRecursiveStatus graph refTypeId · run (some a)) := by
  have hfinite : {a | ∃ b, Enters graph refTypeId a b}.Finite :=
    finite_links.subset fun a ⟨b, hab⟩ => ⟨b, hab.links⟩
  refine induction_of_no_cycle (p := fun a => ∀ run,
    Converges (fetchRecursiveStatus graph refTypeId · run (some a))) hfinite ?_ h run
  intro a ih run
  by_cases hgood : graph.statusOf (some a) = .good
  · obtain ⟨fuel, result, hresult⟩ := converges_fetchTargets hgood
      (List.nil_append (graph.targetsOf refTypeId a)).symm
      (fun target htarget => absurd htarget List.not_mem_nil) ih
      (fetchChildrenStatus graph run (some a)).1
    exact ⟨fuel + 1, result, (fetchRecursiveStatus_succ.trans (if_pos hgood)).trans hresult⟩
  · exact ⟨1, _, fetchRecursiveStatus_succ.trans (if_neg hgood)⟩

/-! ## §7  It ends and is complete unless it gets into a cycle -/

/-- Two nodes that organize each other. -/
def mutualFolders : PresentedGraph where
  nodes := [
    { nodeId := .numeric 1 1
      references := [{
        referenceTypeId := StandardId.hierarchicalReferences
        forward := true
        nodeId := .numeric 2 1 }] },
    { nodeId := .numeric 2 1
      references := [{
        referenceTypeId := StandardId.hierarchicalReferences
        forward := true
        nodeId := .numeric 1 1 }] }]
  isSubtypeOf := fun referenceTypeId wanted => decide (referenceTypeId = wanted)

end ScadaCommon
