import ScadaCommon.AddressSpace.GenericNodeFactory
import ScadaCommon.Foundation.Walks
import ScadaCommon.NodeService.V3.NodeModelImpl

/-!
# Walks over supertypes

Several loops follow the supertypes of fetched nodes. The links come from a server
and may form a cycle, and none of the loops keeps what it has seen: a loop that gets
into a cycle stays there.

§1 models that have been fetched · §2 what is read of them · §3 the loops over
node references · §4 the check of fetched types · §5 links · §6 when a lookup
ends · §7 when the loops end.
-/

namespace ScadaCommon.V3

open Foundation Relation

/-! ## §1  Models that have been fetched -/

/-- A model with the class of its node. -/
structure FetchedModel extends NodeModelImpl where
  nodeClass : NodeClass := .object

namespace FetchedModel

def references (model : FetchedModel) : List ReferenceDescription :=
  model.nodeState.references ++ model.childReferences

/-- The node has been fetched without an error. -/
def IsGood (model : FetchedModel) : Prop :=
  NodeFetchStatus.Includes model.fetchStatus .nodeOnly ∧ model.status = .good

instance (model : FetchedModel) : Decidable model.IsGood :=
  inferInstanceAs (Decidable (_ ∧ _))

end FetchedModel

/-- The models of a service. What is asked for and not there is created empty. -/
abbrev FetchedModels := List FetchedModel

def FetchedModels.model (models : FetchedModels) (nodeId : NodeId) : FetchedModel :=
  (models.find? (·.nodeId = nodeId)).getD { nodeId }

/-! ## §2  What is read of them -/

/-- A `NodeRef`, `none` for the null one. -/
abbrev NodeRef := Option NodeId

/-- `GetNode`. -/
def getNode (nodeId : NodeId) : NodeRef :=
  if nodeId = .null then none else some nodeId

/-- `NodeRef::node_id`. -/
def nodeIdOf (node : NodeRef) : NodeId := node.getD .null

section

variable (isStandardReferenceSubtype : NodeId → NodeId → Option Bool) (models : FetchedModels)

/-- `NodeRef::type_definition`. -/
def typeDefinition (nodeId : NodeId) : NodeRef :=
  getNode (models.model nodeId).nodeState.typeDefinitionId

/-- `NodeRef::supertype`. -/
def supertype (nodeId : NodeId) : NodeRef :=
  getNode (models.model nodeId).nodeState.supertypeId

/-- `NodeRef::node_class`. -/
def nodeClassOf (nodeId : NodeId) : Option NodeClass :=
  if (models.model nodeId).IsGood then some (models.model nodeId).nodeClass else none

def isSubtypeOf (fuel : ℕ) (typeDefinition : NodeRef) (supertypeId : NodeId) : Option Bool :=
  (climb (supertype models) (fun _ nodeId => some (decide (nodeId = supertypeId), ([] : List Unit)))
    fuel typeDefinition).map (·.1)

def isInstanceOf (fuel : ℕ) (node : NodeRef) (typeDefinitionId : NodeId) : Option Bool :=
  isSubtypeOf models fuel (node.bind (typeDefinition models)) typeDefinitionId

/-- Whether a reference of a type is looked for. -/
def matchesType (fuel : ℕ) (referenceTypeId wanted : NodeId) : Option Bool :=
  match isStandardReferenceSubtype referenceTypeId wanted with
  | some known => some known
  | none => isSubtypeOf models fuel (getNode referenceTypeId) wanted

/-- What a reference adds to the result of `GetReferences`. -/
def matchingEdges (wanted : NodeId) (forward : Bool) (fuel : ℕ)
    (reference : ReferenceDescription) : Option (List Edge) :=
  if reference.forward = forward then
    (matchesType isStandardReferenceSubtype models fuel reference.referenceTypeId wanted).map
      fun found => if found then [reference.toEdge] else []
  else some []

def getReferences (fuel : ℕ) (nodeId wanted : NodeId) (forward : Bool) : Option (List Edge) :=
  collect (matchingEdges isStandardReferenceSubtype models wanted forward fuel)
    (models.model nodeId).references

def getTargets (fuel : ℕ) (nodeId wanted : NodeId) (forward : Bool) : Option (List NodeRef) :=
  (getReferences isStandardReferenceSubtype models fuel nodeId wanted forward).map
    (·.map fun edge => getNode edge.nodeId)

/-- The parent and the types of a node are known without its references. -/
def getTarget (fuel : ℕ) (nodeId wanted : NodeId) (forward : Bool) : Option NodeRef :=
  let state := (models.model nodeId).nodeState
  let found := (getTargets isStandardReferenceSubtype models fuel nodeId wanted forward).map
    (·.head?.join)
  if forward = true ∧ wanted = StandardId.hasTypeDefinition then some (typeDefinition models nodeId)
  else if forward = false ∧ wanted = StandardId.hasSubtype then some (supertype models nodeId)
  else if forward = false ∧ wanted = StandardId.hierarchicalReferences then
    if state.parentId ≠ .null then some (getNode state.parentId)
    else if state.supertypeId ≠ .null then some (getNode state.supertypeId)
    else found
  else found

/-! ## §3  The loops over node references -/

/-- A child is a placeholder if its modelling rule says so. -/
def placeholderTypes (fuel : ℕ) (child : NodeRef) : Option (List NodeId) := do
  let rule ← match child with
    | none => some none
    | some nodeId =>
        getTarget isStandardReferenceSubtype models fuel nodeId StandardId.hasModellingRule true
  if nodeIdOf rule ≠ StandardId.modellingRuleOptionalPlaceholder ∧
      nodeIdOf rule ≠ StandardId.modellingRuleMandatoryPlaceholder then return []
  else return (child.bind (typeDefinition models)).toList

/-- The node itself when it is a type, else its type definition. -/
def creatableFrom (node : NodeRef) : NodeRef :=
  if (node.bind (nodeClassOf models)).any NodeClass.isTypeDefinition then node
  else node.bind (typeDefinition models)

/-- Nothing is fetched on the way, as all has been. -/
def getCreatableChildTypes (fuel : ℕ) (node : NodeRef) : Option (List NodeId) :=
  (climb (supertype models) (fun fuel type =>
    ((getTargets isStandardReferenceSubtype models fuel type StandardId.hierarchicalReferences
      true).bind (collect (placeholderTypes isStandardReferenceSubtype models fuel))).map
        ((false, ·))) fuel (creatableFrom models node)).map (·.2)

/-- Where `GetAggregateDeclaration` starts. -/
def aggregatesFrom (nodeId : NodeId) : NodeRef :=
  if (models.model nodeId).nodeClass.isTypeDefinition then some nodeId
  else getNode (models.model nodeId).nodeState.typeDefinitionId

def getAggregateDeclaration (fuel : ℕ) (nodeId aggregateDeclarationId : NodeId) : Option NodeRef :=
  if ¬ (models.model nodeId).IsGood then some none
  else
    (climb (supertype models) (fun fuel type =>
      (getTargets isStandardReferenceSubtype models fuel type StandardId.aggregates true).map
        fun aggregates =>
          let found := aggregates.find? (nodeIdOf · = aggregateDeclarationId)
          (found.isSome, found.join.toList)) fuel (aggregatesFrom models nodeId)).map (·.2.head?)

end

/-! ## §4  The check of fetched types -/

/-- A line in the log of `NotifyFetchedNodes`. -/
inductive TypeWarning where
  | noTypeDefinition (nodeId : NodeId)
  | unknownTypeDefinition (nodeId typeDefinitionId : NodeId)
  | nonTypeClass (nodeId : NodeId)
deriving DecidableEq

section

variable {V : Type} (isInstance : NodeClass → Bool) (nodeValidator : NodeId → Bool)
  (nodes : List (AddressSpace.NodeState V))

/-- `type_definition_map.find`, which keeps the first of several. -/
def findFetchedType (nodeId : NodeId) : Option (AddressSpace.NodeState V) :=
  (nodes.filter (·.nodeClass.isTypeDefinition)).find? (·.nodeId = nodeId)

def fetchedSupertype (typeDefinitionId : NodeId) : NodeRef :=
  (findFetchedType nodes typeDefinitionId).bind fun type => getNode type.supertypeId

/-- One round of the loop over the types of a node. -/
def checkType (nodeId typeDefinitionId : NodeId) : Bool × List TypeWarning :=
  if nodeValidator typeDefinitionId then (true, [])
  else
    match findFetchedType nodes typeDefinitionId with
    | none => (true, [.unknownTypeDefinition nodeId typeDefinitionId])
    | some type =>
        if type.nodeClass.isTypeDefinition then (false, []) else (true, [.nonTypeClass type.nodeId])

/-- What the consistency diagnostics of `NotifyFetchedNodes` say of a node. -/
def checkNode (fuel : ℕ) (node : AddressSpace.NodeState V) : Option (List TypeWarning) :=
  if isInstance node.nodeClass then
    if node.typeDefinitionId = .null then some [.noTypeDefinition node.nodeId]
    else
      (climb (fetchedSupertype nodes)
        (fun _ typeDefinitionId => some (checkType nodeValidator nodes node.nodeId typeDefinitionId))
        fuel (some node.typeDefinitionId)).map (·.2)
  else some []

def checkFetchedTypes (fuel : ℕ) : Option (List TypeWarning) :=
  collect (checkNode isInstance nodeValidator nodes fuel) nodes

end

/-! ## §5  Links -/

section

variable {models : FetchedModels} {a b wanted : NodeId} {fuel : ℕ}

theorem getNode_eq_some {nodeId : NodeId} :
    getNode nodeId = some a ↔ nodeId ≠ .null ∧ nodeId = a := by
  unfold getNode
  split
  · rename_i hnull
    simp [hnull]
  · rename_i hnull
    simp [hnull]

def HasSupertype (models : FetchedModels) (a b : NodeId) : Prop := supertype models a = some b

/-- Only what is there has a supertype. -/
theorem finite_supertype (models : FetchedModels) :
    {a | ∃ b, supertype models a = some b}.Finite := by
  refine (models.map (·.nodeId)).toFinset.finite_toSet.subset ?_
  rintro a ⟨b, hb⟩
  obtain ⟨hnull, -⟩ := getNode_eq_some.mp hb
  unfold FetchedModels.model at hnull
  cases hfind : models.find? (·.nodeId = a) with
  | none =>
      rw [hfind] at hnull
      exact absurd rfl hnull
  | some model =>
      have hfound := List.find?_some hfind
      have hid : model.nodeId = a := of_decide_eq_true hfound
      have hmem := List.mem_map_of_mem (f := fun model : FetchedModel => model.nodeId)
        (List.mem_of_find?_eq_some hfind)
      rw [hid] at hmem
      simpa using hmem

theorem finite_fetchedSupertype {V : Type} (nodes : List (AddressSpace.NodeState V)) :
    {a | ∃ b, fetchedSupertype nodes a = some b}.Finite := by
  refine (nodes.map (·.nodeId)).toFinset.finite_toSet.subset ?_
  rintro a ⟨b, hb⟩
  obtain ⟨type, htype, -⟩ := Option.bind_eq_some_iff.mp hb
  have hfound := List.find?_some htype
  have hid : type.nodeId = a := of_decide_eq_true hfound
  have hmem := List.mem_map_of_mem (f := fun node : AddressSpace.NodeState V => node.nodeId)
    (List.mem_of_mem_filter (List.mem_of_find?_eq_some htype))
  rw [hid] at hmem
  simpa using hmem

/-- A walk that stops at a node gets to it if there is any way. -/
theorem passes_to_iff {next : NodeId → Option NodeId} :
    (∃ b, ReflTransGen (Passes next (· = wanted)) a b ∧ b = wanted) ↔
      ReflTransGen (fun a b => next a = some b) a wanted := by
  constructor
  · rintro ⟨b, hab, rfl⟩
    exact ReflTransGen.mono (fun _ _ h => h.2) _ _ hab
  · intro h
    induction h using ReflTransGen.head_induction_on with
    | refl => exact ⟨wanted, .refl, rfl⟩
    | @head a c hab hrest ih =>
        obtain ⟨b, hcb, rfl⟩ := ih
        by_cases heq : a = b
        · subst heq
          exact ⟨a, .refl, rfl⟩
        · exact ⟨b, hcb.head ⟨heq, hab⟩, rfl⟩

/-! ## §6  When a lookup ends -/

/-- The supertypes of the type form a cycle that does not hold the wanted type, nor
does the way to it. -/
def RunsInCircles (models : FetchedModels) (wanted type : NodeId) : Prop :=
  MeetsCycle (Passes (supertype models) (· = wanted)) type

theorem steady_isSubtypeOf (type : NodeRef) (wanted : NodeId) :
    Steady (isSubtypeOf models · type wanted) := by
  have hvisit : ∀ nodeId, Steady fun _ => some (decide (nodeId = wanted), ([] : List Unit)) :=
    fun nodeId => steady_const _
  exact (steady_climb hvisit type).map _

/-- **`IsSubtypeOf`** returns unless it runs in circles. -/
theorem converges_isSubtypeOf_iff (type : NodeRef) (wanted : NodeId) :
    Converges (isSubtypeOf models · type wanted) ↔ ∀ a ∈ type, ¬ RunsInCircles models wanted a := by
  cases type with
  | none => exact iff_of_true ⟨1, false, rfl⟩ (by rintro a ⟨⟩)
  | some a =>
      have hvisit : ∀ nodeId, Steady fun _ => some (decide (nodeId = wanted), ([] : List Unit)) :=
        fun nodeId => steady_const _
      have hclimb := converges_climb_iff (· = wanted) hvisit (a := a)
        (by rintro fuel b stop out ⟨⟩; exact decide_eq_true_iff) (finite_supertype models)
      refine (converges_map _).trans (hclimb.trans ?_)
      constructor
      · rintro ⟨-, hcycle⟩ _ ⟨⟩
        exact hcycle
      · intro hcycle
        exact ⟨fun b _ => converges_some _, hcycle a rfl⟩

theorem isSubtypeOf_eq {found : Bool} (h : isSubtypeOf models fuel (some a) wanted = some found) :
    found = true ↔ ReflTransGen (HasSupertype models) a wanted := by
  obtain ⟨result, hclimb, rfl⟩ := Option.map_eq_some_iff.mp h
  refine (climb_stops_iff (· = wanted) ?_ hclimb).trans passes_to_iff
  rintro fuel b stop out ⟨⟩
  exact decide_eq_true_iff

end

section

variable {isStandardReferenceSubtype : NodeId → NodeId → Option Bool} {models : FetchedModels}
  {nodeId wanted : NodeId} {forward : Bool} {fuel : ℕ}

/-- A reference of the type is looked for. -/
def Matches (isStandardReferenceSubtype : NodeId → NodeId → Option Bool) (models : FetchedModels)
    (referenceTypeId wanted : NodeId) : Prop :=
  isStandardReferenceSubtype referenceTypeId wanted = some true ∨
    isStandardReferenceSubtype referenceTypeId wanted = none ∧
      ∃ a ∈ getNode referenceTypeId, ReflTransGen (HasSupertype models) a wanted

/-- The types of the references of a node can be told: none that is not standard
runs in circles. -/
def Resolves (isStandardReferenceSubtype : NodeId → NodeId → Option Bool) (models : FetchedModels)
    (wanted : NodeId) (forward : Bool) (nodeId : NodeId) : Prop :=
  ∀ reference ∈ (models.model nodeId).references, reference.forward = forward →
    isStandardReferenceSubtype reference.referenceTypeId wanted = none →
      ∀ a ∈ getNode reference.referenceTypeId, ¬ RunsInCircles models wanted a

/-- The targets of the references that are looked for. -/
def IsTarget (isStandardReferenceSubtype : NodeId → NodeId → Option Bool) (models : FetchedModels)
    (wanted : NodeId) (forward : Bool) (nodeId targetId : NodeId) : Prop :=
  ∃ reference ∈ (models.model nodeId).references, reference.forward = forward ∧
    Matches isStandardReferenceSubtype models reference.referenceTypeId wanted ∧
      reference.nodeId = targetId

theorem steady_matchesType (referenceTypeId wanted : NodeId) :
    Steady (matchesType isStandardReferenceSubtype models · referenceTypeId wanted) := by
  unfold matchesType
  split
  · exact steady_const _
  · exact steady_isSubtypeOf _ _

theorem converges_matchesType_iff (referenceTypeId wanted : NodeId) :
    Converges (matchesType isStandardReferenceSubtype models · referenceTypeId wanted) ↔
      (isStandardReferenceSubtype referenceTypeId wanted = none →
        ∀ a ∈ getNode referenceTypeId, ¬ RunsInCircles models wanted a) := by
  unfold matchesType
  cases isStandardReferenceSubtype referenceTypeId wanted with
  | some known => exact iff_of_true (converges_some known) (by rintro ⟨⟩)
  | none =>
      refine (converges_isSubtypeOf_iff _ _).trans ?_
      exact ⟨fun h _ => h, fun h => h rfl⟩

theorem matchesType_eq {referenceTypeId : NodeId} {found : Bool}
    (h : matchesType isStandardReferenceSubtype models fuel referenceTypeId wanted = some found) :
    found = true ↔ Matches isStandardReferenceSubtype models referenceTypeId wanted := by
  unfold matchesType at h
  unfold Matches
  split at h
  · rename_i known hknown
    cases h
    simp [hknown]
  · rename_i hnone
    rw [hnone]
    cases hnode : getNode referenceTypeId with
    | none =>
        rw [hnode] at h
        cases fuel with
        | zero => cases h
        | succ fuel =>
            cases h
            simp
    | some a =>
        rw [hnode] at h
        rw [isSubtypeOf_eq h]
        simp

theorem steady_matchingEdges (wanted : NodeId) (forward : Bool) (reference : ReferenceDescription) :
    Steady (matchingEdges isStandardReferenceSubtype models wanted forward · reference) := by
  unfold matchingEdges
  split
  · exact (steady_matchesType _ _).map _
  · exact steady_const _

theorem converges_matchingEdges_iff (wanted : NodeId) (forward : Bool)
    (reference : ReferenceDescription) :
    Converges (matchingEdges isStandardReferenceSubtype models wanted forward · reference) ↔
      (reference.forward = forward →
        isStandardReferenceSubtype reference.referenceTypeId wanted = none →
          ∀ a ∈ getNode reference.referenceTypeId, ¬ RunsInCircles models wanted a) := by
  unfold matchingEdges
  split
  · rename_i hforward
    refine (converges_map _).trans ((converges_matchesType_iff _ _).trans ?_)
    exact ⟨fun h _ => h, fun h => h hforward⟩
  · rename_i hforward
    exact iff_of_true (converges_some _) fun h => absurd h hforward

theorem mem_matchingEdges {reference : ReferenceDescription} {edges : List Edge}
    (h : matchingEdges isStandardReferenceSubtype models wanted forward fuel reference = some edges)
    (edge : Edge) :
    edge ∈ edges ↔ reference.forward = forward ∧
      Matches isStandardReferenceSubtype models reference.referenceTypeId wanted ∧
        reference.toEdge = edge := by
  unfold matchingEdges at h
  split at h
  · rename_i hforward
    obtain ⟨found, hfound, rfl⟩ := Option.map_eq_some_iff.mp h
    rw [← matchesType_eq hfound]
    cases found <;> simp [hforward, eq_comm]
  · rename_i hforward
    cases h
    simp [hforward]

theorem steady_getTargets (nodeId wanted : NodeId) (forward : Bool) :
    Steady (getTargets isStandardReferenceSubtype models · nodeId wanted forward) :=
  (steady_collect (steady_matchingEdges wanted forward) _).map _

/-- **`GetTargets`** returns when the types of the references can be told. -/
theorem converges_getTargets_iff (nodeId wanted : NodeId) (forward : Bool) :
    Converges (getTargets isStandardReferenceSubtype models · nodeId wanted forward) ↔
      Resolves isStandardReferenceSubtype models wanted forward nodeId := by
  refine (converges_map _).trans ?_
  refine (converges_collect (steady_matchingEdges wanted forward) _).trans ?_
  exact forall₂_congr fun reference _ => converges_matchingEdges_iff wanted forward reference

theorem mem_getTargets {targets : List NodeRef}
    (h : getTargets isStandardReferenceSubtype models fuel nodeId wanted forward = some targets)
    (target : NodeRef) :
    target ∈ targets ↔ ∃ targetId, getNode targetId = target ∧
      IsTarget isStandardReferenceSubtype models wanted forward nodeId targetId := by
  obtain ⟨edges, hedges, rfl⟩ := Option.map_eq_some_iff.mp h
  rw [List.mem_map]
  constructor
  · rintro ⟨edge, hedge, rfl⟩
    obtain ⟨reference, hreference, part, hpart, hedge⟩ := (mem_collect hedges edge).mp hedge
    obtain ⟨hforward, hmatches, rfl⟩ := (mem_matchingEdges hpart edge).mp hedge
    exact ⟨reference.nodeId, rfl, reference, hreference, hforward, hmatches, rfl⟩
  · rintro ⟨targetId, rfl, reference, hreference, hforward, hmatches, rfl⟩
    obtain ⟨part, hpart⟩ := exists_of_collect hedges hreference
    refine ⟨reference.toEdge, ?_, rfl⟩
    exact (mem_collect hedges _).mpr ⟨reference, hreference, part, hpart,
      (mem_matchingEdges hpart _).mpr ⟨hforward, hmatches, rfl⟩⟩

/-- A modelling rule is looked up among the references. -/
theorem getTarget_hasModellingRule (fuel : ℕ) (nodeId : NodeId) :
    getTarget isStandardReferenceSubtype models fuel nodeId StandardId.hasModellingRule true =
      (getTargets isStandardReferenceSubtype models fuel nodeId StandardId.hasModellingRule true).map
        (·.head?.join) := by
  unfold getTarget
  dsimp only
  rw [if_neg (by decide), if_neg (by decide), if_neg (by decide)]

end

/-! ## §7  When the loops end -/

section

variable {isStandardReferenceSubtype : NodeId → NodeId → Option Bool} {models : FetchedModels}
  {nodeId : NodeId} {fuel : ℕ}

theorem placeholderTypes_some (fuel : ℕ) (childId : NodeId) :
    placeholderTypes isStandardReferenceSubtype models fuel (some childId) =
      (getTargets isStandardReferenceSubtype models fuel childId StandardId.hasModellingRule
        true).map fun rules =>
          if nodeIdOf rules.head?.join ≠ StandardId.modellingRuleOptionalPlaceholder ∧
              nodeIdOf rules.head?.join ≠ StandardId.modellingRuleMandatoryPlaceholder then []
          else (typeDefinition models childId).toList := by
  unfold placeholderTypes
  dsimp only
  rw [getTarget_hasModellingRule]
  cases getTargets isStandardReferenceSubtype models fuel childId StandardId.hasModellingRule
    true with
  | none => rfl
  | some rules =>
      dsimp only [Option.map_some, Option.bind_eq_bind, Option.bind_some]
      split <;> rfl

theorem steady_placeholderTypes (child : NodeRef) :
    Steady (placeholderTypes isStandardReferenceSubtype models · child) := by
  cases child with
  | none => exact steady_const _
  | some childId =>
      simp only [placeholderTypes_some]
      exact (steady_getTargets _ _ _).map _

theorem converges_placeholderTypes_iff (child : NodeRef) :
    Converges (placeholderTypes isStandardReferenceSubtype models · child) ↔
      ∀ childId ∈ child,
        Resolves isStandardReferenceSubtype models StandardId.hasModellingRule true childId := by
  cases child with
  | none => exact iff_of_true ⟨0, [], rfl⟩ (by rintro childId ⟨⟩)
  | some childId =>
      simp only [placeholderTypes_some]
      refine (converges_map _).trans ((converges_getTargets_iff _ _ _).trans ?_)
      exact ⟨by rintro h _ ⟨⟩; exact h, fun h => h childId rfl⟩

/-- The placeholders of a type can be found. -/
def ResolvesPlaceholders (isStandardReferenceSubtype : NodeId → NodeId → Option Bool)
    (models : FetchedModels) (type : NodeId) : Prop :=
  Resolves isStandardReferenceSubtype models StandardId.hierarchicalReferences true type ∧
    ∀ childId, childId ≠ .null →
      IsTarget isStandardReferenceSubtype models StandardId.hierarchicalReferences true type childId →
        Resolves isStandardReferenceSubtype models StandardId.hasModellingRule true childId

/-- What the loop of `GetCreatableChildTypes` does for a type. -/
def visitPlaceholders (isStandardReferenceSubtype : NodeId → NodeId → Option Bool)
    (models : FetchedModels) (fuel : ℕ) (type : NodeId) : Option (List NodeId) :=
  (getTargets isStandardReferenceSubtype models fuel type StandardId.hierarchicalReferences
    true).bind (collect (placeholderTypes isStandardReferenceSubtype models fuel))

theorem steady_visitPlaceholders (type : NodeId) :
    Steady (visitPlaceholders isStandardReferenceSubtype models · type) :=
  (steady_getTargets _ _ _).bind fun targets => steady_collect steady_placeholderTypes targets

theorem converges_visitPlaceholders_iff (type : NodeId) :
    Converges (visitPlaceholders isStandardReferenceSubtype models · type) ↔
      ResolvesPlaceholders isStandardReferenceSubtype models type := by
  have hrest : ∀ targets, Steady fun fuel =>
      collect (placeholderTypes isStandardReferenceSubtype models fuel) targets :=
    fun targets => steady_collect steady_placeholderTypes targets
  refine (converges_bind (steady_getTargets _ _ _) hrest).trans ?_
  constructor
  · rintro ⟨targets, ⟨fuel, htargets⟩, hconverges⟩
    refine ⟨(converges_getTargets_iff _ _ _).mp ⟨fuel, targets, htargets⟩, ?_⟩
    intro childId hnull htarget
    have hmem : some childId ∈ targets :=
      (mem_getTargets htargets _).mpr ⟨childId, getNode_eq_some.mpr ⟨hnull, rfl⟩, htarget⟩
    have hchild := (converges_collect steady_placeholderTypes _).mp hconverges _ hmem
    exact (converges_placeholderTypes_iff _).mp hchild childId rfl
  · rintro ⟨hresolves, hchildren⟩
    obtain ⟨fuel, targets, htargets⟩ := (converges_getTargets_iff _ _ _).mpr hresolves
    refine ⟨targets, ⟨fuel, htargets⟩, (converges_collect steady_placeholderTypes _).mpr ?_⟩
    intro child hchild
    refine (converges_placeholderTypes_iff child).mpr ?_
    rintro childId rfl
    obtain ⟨targetId, hnode, htarget⟩ := (mem_getTargets htargets _).mp hchild
    obtain ⟨hnull, rfl⟩ := getNode_eq_some.mp hnode
    exact hchildren targetId hnull htarget

/-- **`GetCreatableChildTypes`** returns when it finds the placeholders of all
supertypes, and these form no cycle. -/
theorem converges_getCreatableChildTypes_iff (node : NodeRef) :
    Converges (getCreatableChildTypes isStandardReferenceSubtype models · node) ↔
      ∀ type ∈ creatableFrom models node,
        (∀ a, ReflTransGen (Passes (supertype models) fun _ => False) type a →
          ResolvesPlaceholders isStandardReferenceSubtype models a) ∧
        ¬ MeetsCycle (Passes (supertype models) fun _ => False) type := by
  refine (converges_map _).trans ?_
  cases creatableFrom models node with
  | none => exact iff_of_true ⟨1, _, rfl⟩ (by rintro type ⟨⟩)
  | some type =>
      have hsteady : ∀ type, Steady fun fuel =>
          (visitPlaceholders isStandardReferenceSubtype models fuel type).map ((false, ·)) :=
        fun type => (steady_visitPlaceholders type).map _
      refine (converges_climb_iff (fun _ => False) hsteady ?_ (finite_supertype models)).trans ?_
      · intro fuel a stop out hvisit
        obtain ⟨types, -, heq⟩ := Option.map_eq_some_iff.mp hvisit
        cases heq
        simp
      · simp only [converges_map, converges_visitPlaceholders_iff]
        exact ⟨by rintro h _ ⟨⟩; exact h, fun h => h type rfl⟩

/-- A type holds the declaration that is looked for. -/
def Declares (isStandardReferenceSubtype : NodeId → NodeId → Option Bool) (models : FetchedModels)
    (aggregateDeclarationId type : NodeId) : Prop :=
  IsTarget isStandardReferenceSubtype models StandardId.aggregates true type aggregateDeclarationId

theorem getNode_nodeIdOf (a : NodeId) : nodeIdOf (getNode a) = a := by
  unfold nodeIdOf getNode
  split
  · rename_i hnull
    exact hnull.symm
  · rfl

/-- **`GetAggregateDeclaration`** returns when the aggregates can be told of each type
up to the one that declares, and no cycle comes before. -/
theorem converges_getAggregateDeclaration_iff (nodeId aggregateDeclarationId : NodeId) :
    Converges (getAggregateDeclaration isStandardReferenceSubtype models · nodeId
        aggregateDeclarationId) ↔
      ((models.model nodeId).IsGood → ∀ type ∈ aggregatesFrom models nodeId,
        (∀ a, ReflTransGen (Passes (supertype models)
            (Declares isStandardReferenceSubtype models aggregateDeclarationId)) type a →
          Resolves isStandardReferenceSubtype models StandardId.aggregates true a) ∧
        ¬ MeetsCycle (Passes (supertype models)
          (Declares isStandardReferenceSubtype models aggregateDeclarationId)) type) := by
  unfold getAggregateDeclaration
  by_cases hgood : (models.model nodeId).IsGood
  · simp only [hgood, not_true_eq_false, if_false, forall_const]
    refine (converges_map _).trans ?_
    cases aggregatesFrom models nodeId with
    | none => exact iff_of_true ⟨1, _, rfl⟩ (by rintro type ⟨⟩)
    | some type =>
        refine (converges_climb_iff (Declares isStandardReferenceSubtype models
          aggregateDeclarationId) (fun type => (steady_getTargets _ _ _).map _) ?_
          (finite_supertype models)).trans ?_
        · intro fuel a stop out hvisit
          obtain ⟨targets, htargets, heq⟩ := Option.map_eq_some_iff.mp hvisit
          cases heq
          rw [List.find?_isSome]
          constructor
          · rintro ⟨target, hmem, hid⟩
            obtain ⟨targetId, rfl, htarget⟩ := (mem_getTargets htargets target).mp hmem
            rw [getNode_nodeIdOf, decide_eq_true_eq] at hid
            exact hid ▸ htarget
          · intro hdeclares
            refine ⟨getNode aggregateDeclarationId, ?_, ?_⟩
            · exact (mem_getTargets htargets _).mpr ⟨_, rfl, hdeclares⟩
            · rw [getNode_nodeIdOf, decide_eq_true_eq]
        · simp only [converges_map, converges_getTargets_iff]
          exact ⟨by rintro h _ ⟨⟩; exact h, fun h => h type rfl⟩
  · simp only [hgood, not_false_eq_true, if_true, false_implies, iff_true]
    exact converges_some _

end

section

variable {V : Type} {isInstance : NodeClass → Bool} {nodeValidator : NodeId → Bool}
  {nodes : List (AddressSpace.NodeState V)}

/-- The loop over fetched types leaves off at this one. -/
def EndsCheck (nodeValidator : NodeId → Bool) (nodes : List (AddressSpace.NodeState V))
    (typeDefinitionId : NodeId) : Prop :=
  nodeValidator typeDefinitionId = true ∨ findFetchedType nodes typeDefinitionId = none

theorem checkType_stops (nodeId typeDefinitionId : NodeId) :
    (checkType nodeValidator nodes nodeId typeDefinitionId).1 = true ↔
      EndsCheck nodeValidator nodes typeDefinitionId := by
  unfold checkType EndsCheck
  split
  · rename_i hvalid
    exact iff_of_true rfl (Or.inl hvalid)
  · rename_i hvalid
    cases htype : findFetchedType nodes typeDefinitionId with
    | none => simp
    | some type =>
        have hmem := List.mem_of_find?_eq_some htype
        simp [hvalid, (List.mem_filter.mp hmem).2]

theorem steady_checkNode (node : AddressSpace.NodeState V) :
    Steady (checkNode isInstance nodeValidator nodes · node) := by
  have hvisit : ∀ typeDefinitionId, Steady fun _ : ℕ =>
      some (checkType nodeValidator nodes node.nodeId typeDefinitionId) :=
    fun typeDefinitionId => steady_const _
  unfold checkNode
  split
  · split
    · exact steady_const _
    · exact (steady_climb hvisit _).map _
  · exact steady_const _

theorem converges_checkNode_iff (node : AddressSpace.NodeState V) :
    Converges (checkNode isInstance nodeValidator nodes · node) ↔
      (isInstance node.nodeClass = true → node.typeDefinitionId ≠ .null →
        ¬ MeetsCycle (Passes (fetchedSupertype nodes) (EndsCheck nodeValidator nodes))
          node.typeDefinitionId) := by
  have hvisit : ∀ typeDefinitionId, Steady fun _ : ℕ =>
      some (checkType nodeValidator nodes node.nodeId typeDefinitionId) :=
    fun typeDefinitionId => steady_const _
  have hstops : ∀ (fuel : ℕ) typeDefinitionId stop out,
      some (checkType nodeValidator nodes node.nodeId typeDefinitionId) = some (stop, out) →
        (stop = true ↔ EndsCheck nodeValidator nodes typeDefinitionId) := by
    intro fuel typeDefinitionId stop out heq
    rw [← checkType_stops node.nodeId typeDefinitionId, Option.some_inj.mp heq]
  unfold checkNode
  split
  · rename_i hinstance
    split
    · rename_i hnull
      exact iff_of_true (converges_some _) fun _ h => absurd hnull h
    · rename_i hnull
      have hclimb := converges_climb_iff _ (a := node.typeDefinitionId) hvisit hstops
        (finite_fetchedSupertype nodes)
      refine (converges_map _).trans (hclimb.trans ?_)
      exact ⟨fun h _ _ => h.2, fun h => ⟨fun b _ => converges_some _, h hinstance hnull⟩⟩
  · rename_i hinstance
    exact iff_of_true (converges_some _) fun h => absurd h hinstance

/-- **The check of fetched types** returns when no chain of types gets into a cycle
before a known or an unknown one. -/
theorem converges_checkFetchedTypes_iff :
    Converges (checkFetchedTypes isInstance nodeValidator nodes) ↔
      ∀ node ∈ nodes, isInstance node.nodeClass = true → node.typeDefinitionId ≠ .null →
        ¬ MeetsCycle (Passes (fetchedSupertype nodes) (EndsCheck nodeValidator nodes))
          node.typeDefinitionId :=
  (converges_collect steady_checkNode nodes).trans
    (forall₂_congr fun node _ => converges_checkNode_iff node)

end

/-- **When the walks over supertypes terminate.** Each of them does just when it does not
get into a cycle of supertypes, itself or where it looks up custom reference types on
the way. -/
theorem supertype_walks_terminate_iff
    (isStandardReferenceSubtype : NodeId → NodeId → Option Bool) (models : FetchedModels) :
    (∀ type wanted, Converges (isSubtypeOf models · type wanted) ↔
      ∀ a ∈ type, ¬ RunsInCircles models wanted a) ∧
    (∀ node wanted, Converges (isInstanceOf models · node wanted) ↔
      ∀ a ∈ node.bind (typeDefinition models), ¬ RunsInCircles models wanted a) ∧
    (∀ node, Converges (getCreatableChildTypes isStandardReferenceSubtype models · node) ↔
      ∀ type ∈ creatableFrom models node,
        (∀ a, ReflTransGen (Passes (supertype models) fun _ => False) type a →
          ResolvesPlaceholders isStandardReferenceSubtype models a) ∧
        ¬ MeetsCycle (Passes (supertype models) fun _ => False) type) ∧
    (∀ nodeId aggregateDeclarationId,
      Converges (getAggregateDeclaration isStandardReferenceSubtype models · nodeId
          aggregateDeclarationId) ↔
        ((models.model nodeId).IsGood → ∀ type ∈ aggregatesFrom models nodeId,
          (∀ a, ReflTransGen (Passes (supertype models)
              (Declares isStandardReferenceSubtype models aggregateDeclarationId)) type a →
            Resolves isStandardReferenceSubtype models StandardId.aggregates true a) ∧
          ¬ MeetsCycle (Passes (supertype models)
            (Declares isStandardReferenceSubtype models aggregateDeclarationId)) type)) ∧
    ∀ (V : Type) (isInstance : NodeClass → Bool) (nodeValidator : NodeId → Bool)
        (nodes : List (AddressSpace.NodeState V)),
      Converges (checkFetchedTypes isInstance nodeValidator nodes) ↔
        ∀ node ∈ nodes, isInstance node.nodeClass = true → node.typeDefinitionId ≠ .null →
          ¬ MeetsCycle (Passes (fetchedSupertype nodes) (EndsCheck nodeValidator nodes))
            node.typeDefinitionId :=
  ⟨converges_isSubtypeOf_iff,
    fun node wanted => converges_isSubtypeOf_iff (node.bind (typeDefinition models)) wanted,
    converges_getCreatableChildTypes_iff, converges_getAggregateDeclaration_iff,
    fun _ _ _ _ => converges_checkFetchedTypes_iff⟩

/-! Two types that are supertypes of each other. -/

def typeA : NodeId := .numeric 1 1

def typeB : NodeId := .numeric 2 1

def fetchedType (nodeId supertypeId : NodeId) : FetchedModel :=
  { nodeId, nodeState := { nodeId, supertypeId }, nodeClass := .objectType, fetchStatus := .max }

def fetchedInstance : FetchedModel :=
  { nodeId := .numeric 3 1
    nodeState := { nodeId := .numeric 3 1, typeDefinitionId := typeA }
    fetchStatus := .max }

def cyclicTypes : FetchedModels :=
  [fetchedType typeA typeB, fetchedType typeB typeA, fetchedInstance]

def cyclicStates : List (AddressSpace.NodeState Unit) :=
  [{ nodeId := typeA, nodeClass := .objectType, supertypeId := typeB },
    { nodeId := typeB, nodeClass := .objectType, supertypeId := typeA },
    { nodeId := .numeric 3 1, typeDefinitionId := typeA }]

theorem meetsCycle_of_two {next : NodeId → Option NodeId} {stops : NodeId → Prop}
    (hA : ¬ stops typeA) (hB : ¬ stops typeB) (hnextA : next typeA = some typeB)
    (hnextB : next typeB = some typeA) : MeetsCycle (Passes next stops) typeA :=
  ⟨typeA, .refl, .head ⟨hA, hnextA⟩ (.single ⟨hB, hnextB⟩)⟩

theorem no_walk_leaves_cycle :
    ¬ Converges (isSubtypeOf cyclicTypes · (some typeA) (.numeric 9 1)) ∧
      ¬ Converges (isInstanceOf cyclicTypes · (some fetchedInstance.nodeId) (.numeric 9 1)) ∧
      ¬ Converges (getCreatableChildTypes (fun _ _ => none) cyclicTypes ·
        (some fetchedInstance.nodeId)) ∧
      ¬ Converges (getAggregateDeclaration (fun _ _ => none) cyclicTypes · fetchedInstance.nodeId
        (.numeric 9 1)) ∧
      ¬ Converges (checkFetchedTypes (· = .object) (fun _ => false) cyclicStates) := by
  have hlinks : supertype cyclicTypes typeA = some typeB ∧
      supertype cyclicTypes typeB = some typeA := by decide
  have hcircles : RunsInCircles cyclicTypes (.numeric 9 1) typeA :=
    meetsCycle_of_two (by decide) (by decide) hlinks.1 hlinks.2
  refine ⟨?_, ?_, ?_, ?_, ?_⟩
  · rw [converges_isSubtypeOf_iff]
    exact fun h => h typeA rfl hcircles
  · refine fun h => (converges_isSubtypeOf_iff _ _).mp h typeA ?_ hcircles
    decide
  · rw [converges_getCreatableChildTypes_iff]
    refine fun h => (h typeA ?_).2 (meetsCycle_of_two id id hlinks.1 hlinks.2)
    decide
  · rw [converges_getAggregateDeclaration_iff]
    have hnone : ∀ type, (cyclicTypes.model type).references = [] →
        ¬ Declares (fun _ _ => none) cyclicTypes (.numeric 9 1) type := by
      rintro type hempty ⟨reference, hmem, -⟩
      rw [hempty] at hmem
      cases hmem
    refine fun h => (h ?_ typeA ?_).2 (meetsCycle_of_two (hnone typeA ?_) (hnone typeB ?_)
      hlinks.1 hlinks.2)
    all_goals decide
  · rw [converges_checkFetchedTypes_iff]
    have hknown : ∀ type ∈ [typeA, typeB], ¬ EndsCheck (fun _ => false) cyclicStates type := by
      intro type htype hends
      rcases hends with hvalid | hunknown
      · cases hvalid
      · rcases List.mem_cons.mp htype with rfl | htype
        · cases hunknown
        · cases List.mem_singleton.mp htype
          cases hunknown
    refine fun h => h { nodeId := .numeric 3 1, typeDefinitionId := typeA } (by simp [cyclicStates])
      rfl (by decide) ?_
    exact meetsCycle_of_two (hknown typeA (by simp)) (hknown typeB (by simp)) rfl rfl

end ScadaCommon.V3
