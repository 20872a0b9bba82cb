import ScadaCommon.Foundation.DepthFirst
import ScadaCommon.AddressSpace.GenericNodeFactory

/-!
# Sorting node states

`SortNodesHierarchically` puts states after the states of the nodes that they
name, as far as that goes, by a depth-first search.

§1 the sort · §2 states of lower rank · §3 states without cycles.
-/

namespace ScadaCommon.AddressSpace

open Foundation Relation

variable {V : Type}

/-! ## §1  The sort -/

/-- The ids that `VisitNeighbors` visits, in its order. -/
def NodeState.neighborIds (state : NodeState V) : List NodeId :=
  ((if state.supertypeId ≠ .null then [StandardId.hasSubtype] else []) ++
    (if state.typeDefinitionId ≠ .null then [StandardId.hasTypeDefinition] else []) ++
    [state.supertypeId, state.referenceTypeId, state.parentId, state.typeDefinitionId,
      state.attributes.dataType]).filter (· ≠ .null)

/-- What a state depends on: its supertype, reference type, parent, type definition and
data type, and the reference types by which it has the first and the fourth. -/
inductive NodeState.Mentions (state : NodeState V) : NodeId → Prop
  | supertype (h : state.supertypeId ≠ .null) : state.Mentions state.supertypeId
  | referenceType (h : state.referenceTypeId ≠ .null) : state.Mentions state.referenceTypeId
  | parent (h : state.parentId ≠ .null) : state.Mentions state.parentId
  | typeDefinition (h : state.typeDefinitionId ≠ .null) : state.Mentions state.typeDefinitionId
  | dataType (h : state.attributes.dataType ≠ .null) : state.Mentions state.attributes.dataType
  | hasSubtype (h : state.supertypeId ≠ .null) : state.Mentions StandardId.hasSubtype
  | hasTypeDefinition (h : state.typeDefinitionId ≠ .null) :
      state.Mentions StandardId.hasTypeDefinition

/-- **The search goes along what a state depends on.** -/
theorem NodeState.mem_neighborIds_iff {state : NodeState V} {id : NodeId} :
    id ∈ state.neighborIds ↔ state.Mentions id := by
  unfold NodeState.neighborIds
  rw [List.mem_filter, decide_eq_true_eq]
  simp only [List.mem_append, List.mem_cons, List.not_mem_nil, or_false]
  constructor
  · rintro ⟨(hmem | hmem) | rfl | rfl | rfl | rfl | rfl, hnull⟩
    · split at hmem
      · rw [List.mem_singleton.mp hmem]
        exact .hasSubtype ‹_›
      · cases hmem
    · split at hmem
      · rw [List.mem_singleton.mp hmem]
        exact .hasTypeDefinition ‹_›
      · cases hmem
    · exact .supertype hnull
    · exact .referenceType hnull
    · exact .parent hnull
    · exact .typeDefinition hnull
    · exact .dataType hnull
  · rintro h
    cases h with
    | supertype h => exact ⟨by simp, h⟩
    | referenceType h => exact ⟨by simp, h⟩
    | parent h => exact ⟨by simp, h⟩
    | typeDefinition h => exact ⟨by simp, h⟩
    | dataType h => exact ⟨by simp, h⟩
    | hasSubtype h => exact ⟨by simp [h], by decide⟩
    | hasTypeDefinition h => exact ⟨by simp [h], by decide⟩

/-- The first of the states with the id stands for it. -/
def neighbors (states : List (NodeState V)) (index : ℕ) : List ℕ :=
  match states[index]? with
  | none => []
  | some state => state.neighborIds.filterMap fun id => states.findIdx? (·.nodeId = id)

def sortNodesHierarchically (states : List (NodeState V)) : Option (List (NodeState V)) :=
  if 2 ≤ states.length then do
    let sortedIndexes ← depthFirst (neighbors states) states.length
    check (sortedIndexes.length = states.length)
    sortedIndexes.mapM fun index => states[index]?
  else some states

theorem mapM_range {α : Type} (as : List α) {n : ℕ} (hn : n ≤ as.length) :
    (List.range n).mapM (fun index => as[index]?) = some (as.take n) := by
  induction n with
  | zero => rfl
  | succ n ih =>
      have hlt : n < as.length := hn
      rw [List.range_succ, List.mapM_append, ih hlt.le, List.take_succ_eq_append_getElem hlt]
      simp [List.getElem?_eq_getElem hlt]

/-- What is done to each element is done in any order. -/
theorem mapM_perm {α β : Type} {f : α → Option β} {as as' : List α} {bs : List β}
    (hperm : as'.Perm as) (h : as.mapM f = some bs) :
    ∃ bs', as'.mapM f = some bs' ∧ bs'.Perm bs := by
  induction hperm generalizing bs with
  | nil => exact ⟨bs, h, List.Perm.refl _⟩
  | cons a hperm ih =>
      rw [List.mapM_cons] at h ⊢
      obtain ⟨b, hb, h⟩ := Option.bind_eq_some_iff.mp h
      obtain ⟨rest, hrest, h⟩ := Option.bind_eq_some_iff.mp h
      cases h
      obtain ⟨rest', hrest', hperm'⟩ := ih hrest
      exact ⟨b :: rest', by simp [hb, hrest'], hperm'.cons b⟩
  | swap a a' as =>
      simp only [List.mapM_cons] at h ⊢
      obtain ⟨b, hb, h⟩ := Option.bind_eq_some_iff.mp h
      obtain ⟨rest, hrest, h⟩ := Option.bind_eq_some_iff.mp h
      obtain ⟨b', hb', hrest⟩ := Option.bind_eq_some_iff.mp hrest
      obtain ⟨rest', hrest', hrest⟩ := Option.bind_eq_some_iff.mp hrest
      cases hrest
      cases h
      exact ⟨b' :: b :: rest', by simp [hb, hb', hrest'], List.Perm.swap b b' rest'⟩
  | trans _ _ ih ih' =>
      obtain ⟨bs₁, hbs₁, hperm₁⟩ := ih' h
      obtain ⟨bs₂, hbs₂, hperm₂⟩ := ih hbs₁
      exact ⟨bs₂, hbs₂, hperm₂.trans hperm₁⟩

/-- **Sorting ends, and loses and doubles nothing.** -/
theorem sortNodesHierarchically_perm (states : List (NodeState V)) :
    ∃ sorted, sortNodesHierarchically states = some sorted ∧ sorted.Perm states := by
  unfold sortNodesHierarchically
  split
  · have hneighbors : ∀ v < states.length, ∀ w ∈ neighbors states v, w < states.length := by
      intro v _ w hw
      unfold neighbors at hw
      split at hw
      · cases hw
      · obtain ⟨id, -, hid⟩ := List.mem_filterMap.mp hw
        exact (List.findIdx?_eq_some_iff_getElem.mp hid).1
    obtain ⟨order, horder, hperm⟩ := depthFirst_perm hneighbors
    obtain ⟨sorted, hsorted, hsortedPerm⟩ := mapM_perm hperm (mapM_range states le_rfl)
    rw [List.take_length] at hsortedPerm
    refine ⟨sorted, ?_, hsortedPerm⟩
    have hlength : order.length = states.length := by
      rw [hperm.length_eq, List.length_range]
    simp [horder, hlength, hsorted]
  · exact ⟨states, rfl, List.Perm.refl _⟩

/-! ## §2  States of lower rank -/

/-- What precedes the indexes precedes what is there. -/
theorem precedes_mapM {α β : Type} {f : α → Option β} {needs : β → β → Prop}
    {needsIndex : α → α → Prop}
    (hneeds : ∀ a b b', f a = some b → needs b b' → ∃ a', needsIndex a a' ∧ f a' = some b')
    {earlier as : List α} {earlier' bs : List β}
    (hearlier : ∀ a ∈ earlier, ∀ b, f a = some b → b ∈ earlier')
    (h : Precedes needsIndex earlier as) (hmap : as.mapM f = some bs) :
    Precedes needs earlier' bs := by
  induction as generalizing earlier earlier' bs with
  | nil =>
      cases hmap
      trivial
  | cons a as ih =>
      rw [List.mapM_cons] at hmap
      obtain ⟨b, hb, hmap⟩ := Option.bind_eq_some_iff.mp hmap
      obtain ⟨rest, hrest, hmap⟩ := Option.bind_eq_some_iff.mp hmap
      cases hmap
      refine ⟨fun b' hb' => ?_, ih (fun a' ha' b' hfa' => ?_) h.2 hrest⟩
      · obtain ⟨a', ha', hfa'⟩ := hneeds a b b' hb hb'
        exact hearlier a' (h.1 a' ha') b' hfa'
      · rcases List.mem_append.mp ha' with ha' | ha'
        · exact List.mem_append_left _ (hearlier a' ha' b' hfa')
        · rw [List.mem_singleton.mp ha', hb] at hfa'
          cases hfa'
          exact List.mem_append_right _ List.mem_cons_self

/-- The states of lower nodes that a state names. -/
def NodeState.Needs (states : List (NodeState V)) (rank : NodeId → ℕ) (state other : NodeState V) :
    Prop :=
  other ∈ states ∧ other.nodeId ∈ state.neighborIds ∧ rank other.nodeId < rank state.nodeId

theorem mem_neighbors {states : List (NodeState V)} {v w : ℕ} {state other : NodeState V}
    (hstate : states[v]? = some state) (hother : states[w]? = some other) :
    w ∈ neighbors states v →
      other.nodeId ∈ state.neighborIds := by
  intro hw
  rw [neighbors, hstate] at hw
  obtain ⟨id, hid, hw⟩ := List.mem_filterMap.mp hw
  obtain ⟨hlt, hfound, -⟩ := List.findIdx?_eq_some_iff_getElem.mp hw
  rw [List.getElem?_eq_getElem hlt, Option.some_inj] at hother
  rw [hother, decide_eq_true_eq] at hfound
  rwa [hfound]

/-- **States come after the lower states that they name**, where none names a
higher one. -/
theorem sortNodesHierarchically_ordered {states sorted : List (NodeState V)} {rank : NodeId → ℕ}
    (hdistinct : (states.map NodeState.nodeId).Nodup)
    (hrank : ∀ state ∈ states, ∀ other ∈ states, other.nodeId ∈ state.neighborIds →
      rank other.nodeId ≤ rank state.nodeId)
    (h : sortNodesHierarchically states = some sorted) :
    Precedes (NodeState.Needs states rank) [] sorted := by
  unfold sortNodesHierarchically at h
  split at h
  · obtain ⟨order, horder, h⟩ := Option.bind_eq_some_iff.mp h
    obtain ⟨-, hsorted⟩ := check_bind_eq_some.mp h
    have hfound : ∀ v w, w ∈ neighbors states v → ∃ state other, states[v]? = some state ∧
        states[w]? = some other := by
      intro v w hw
      unfold neighbors at hw
      split at hw
      · cases hw
      · rename_i state hstate
        obtain ⟨id, -, hw⟩ := List.mem_filterMap.mp hw
        have hlt := (List.findIdx?_eq_some_iff_getElem.mp hw).1
        exact ⟨state, states[w], hstate, List.getElem?_eq_getElem hlt⟩
    have hdescends : ∀ v, ∀ w ∈ neighbors states v,
        ((states[w]?).elim 0 fun state => rank state.nodeId) ≤
          (states[v]?).elim 0 fun state => rank state.nodeId := by
      intro v w hw
      obtain ⟨state, other, hstate, hother⟩ := hfound v w hw
      rw [hstate, hother]
      exact hrank state (List.mem_of_getElem? hstate) other (List.mem_of_getElem? hother)
        (mem_neighbors hstate hother hw)
    refine precedes_mapM (fun v state other hstate hneeds => ?_)
      (fun v hv => absurd hv List.not_mem_nil) (depthFirst_ordered hdescends horder) hsorted
    obtain ⟨hmem, hid, hlower⟩ := hneeds
    obtain ⟨w, hother⟩ := List.mem_iff_getElem?.mp hmem
    refine ⟨w, ⟨?_, ?_⟩, hother⟩
    · rw [neighbors, hstate]
      refine List.mem_filterMap.mpr ⟨other.nodeId, hid, ?_⟩
      obtain ⟨hlt, hother'⟩ := List.getElem?_eq_some_iff.mp hother
      refine List.findIdx?_eq_some_iff_getElem.mpr ⟨hlt, by simp [hother'], fun j hj hid' => ?_⟩
      -- No two states are of one node.
      have hlt' : j < (states.map NodeState.nodeId).length := by
        rw [List.length_map]
        exact hj.trans hlt
      refine hj.ne ((List.getElem?_inj hlt' hdistinct).mp ?_)
      rw [List.getElem?_map, List.getElem?_map, hother, List.getElem?_eq_getElem (hj.trans hlt),
        Option.map_some, Option.map_some, of_decide_eq_true hid']
    · beta_reduce
      rw [hstate, hother]
      exact hlower
  · cases h
    rename_i hlength
    cases states with
    | nil => trivial
    | cons state states =>
        cases states with
        | nil =>
            refine ⟨fun other hneeds => ?_, trivial⟩
            obtain ⟨hmem, -, hlower⟩ := hneeds
            rw [List.mem_singleton.mp hmem] at hlower
            exact absurd hlower (lt_irrefl _)
        | cons => exact absurd (Nat.le_add_left 2 _) hlength

/-! ## §3  States without cycles -/

section

variable {states : List (NodeState V)}

/-- A state depends on the other one, the first with its id. -/
structure NodeState.DependsOn (states : List (NodeState V)) (state other : NodeState V) : Prop where
  named : state.Mentions other.nodeId
  distinct : other.nodeId ≠ state.nodeId
  first : states.find? (·.nodeId = other.nodeId) = some other

/-- What the first state with an id depends on. -/
def Requires (states : List (NodeState V)) (id other : NodeId) : Prop :=
  ∃ state otherState, states.find? (·.nodeId = id) = some state ∧ otherState.nodeId = other ∧
    state.DependsOn states otherState

/-- The place of the first state with its id. -/
def IsFirst (states : List (NodeState V)) (v : ℕ) (state : NodeState V) : Prop :=
  states[v]? = some state ∧ states.findIdx? (·.nodeId = state.nodeId) = some v

theorem isFirst_of_find? {id : NodeId} {state : NodeState V}
    (h : states.find? (·.nodeId = id) = some state) : ∃ v, IsFirst states v state := by
  obtain ⟨hid, v, hlt, hstate, hbefore⟩ := List.find?_eq_some_iff_getElem.mp h
  refine ⟨v, by rw [List.getElem?_eq_getElem hlt, hstate], ?_⟩
  refine List.findIdx?_eq_some_iff_getElem.mpr ⟨hlt, by simp [hstate], fun j hj hj' => ?_⟩
  have hother := hbefore j hj
  rw [of_decide_eq_true hj', hid] at hother
  cases hother

theorem IsFirst.find? {v : ℕ} {state : NodeState V} (h : IsFirst states v state) :
    states.find? (·.nodeId = state.nodeId) = some state := by
  obtain ⟨hstate, hfirst⟩ := h
  obtain ⟨_, -, hbefore⟩ := List.findIdx?_eq_some_iff_getElem.mp hfirst
  obtain ⟨hlt, hget⟩ := List.getElem?_eq_some_iff.mp hstate
  refine List.find?_eq_some_iff_getElem.mpr ⟨by simp, v, hlt, hget, fun j hj => ?_⟩
  simpa using hbefore j hj

theorem mem_neighbors_iff {v w : ℕ} : w ∈ neighbors states v ↔ ∃ state other,
    states[v]? = some state ∧ IsFirst states w other ∧ state.Mentions other.nodeId := by
  simp only [← NodeState.mem_neighborIds_iff]
  unfold neighbors
  constructor
  · intro hw
    split at hw
    · cases hw
    · rename_i state hstate
      obtain ⟨id, hid, hfirst⟩ := List.mem_filterMap.mp hw
      obtain ⟨hlt, hfound, -⟩ := List.findIdx?_eq_some_iff_getElem.mp hfirst
      obtain rfl := of_decide_eq_true hfound
      exact ⟨state, states[w], hstate, ⟨List.getElem?_eq_getElem hlt, hfirst⟩, hid⟩
  · rintro ⟨state, other, hstate, hother, hid⟩
    rw [hstate]
    exact List.mem_filterMap.mpr ⟨other.nodeId, hid, hother.2⟩

/-- From a first state the search goes along what is required. -/
theorem reflTransGen_requires {v w : ℕ} {state : NodeState V} (hstate : IsFirst states v state)
    (h : ReflTransGen (fun v w => w ∈ neighbors states v) v w) :
    ∃ other, IsFirst states w other ∧
      ReflTransGen (Requires states) state.nodeId other.nodeId := by
  induction h with
  | refl => exact ⟨state, hstate, .refl⟩
  | tail _ hedge ih =>
      obtain ⟨middle, hmiddle, hway⟩ := ih
      obtain ⟨middle', other, hmiddle', hother, hid⟩ := mem_neighbors_iff.mp hedge
      obtain rfl := Option.some.inj (hmiddle.1.symm.trans hmiddle')
      refine ⟨other, hother, ?_⟩
      by_cases hsame : other.nodeId = middle.nodeId
      · rwa [hsame]
      · exact hway.tail ⟨middle, other, hmiddle.find?, rfl, hid, hsame, hother.find?⟩

/-- Without cycles the search does not come back. -/
theorem not_reflTransGen_neighbors (hacyclic : ∀ id, ¬ TransGen (Requires states) id id) {v w : ℕ}
    (hedge : w ∈ neighbors states v) (hne : w ≠ v) :
    ¬ ReflTransGen (fun v w => w ∈ neighbors states v) w v := by
  intro hback
  obtain ⟨state, other, hstate, hother, hid⟩ := mem_neighbors_iff.mp hedge
  obtain ⟨state', hfirst, hway⟩ := reflTransGen_requires hother hback
  obtain rfl := Option.some.inj (hstate.symm.trans hfirst.1)
  have hdistinct : other.nodeId ≠ state.nodeId := by
    intro hsame
    refine hne (Option.some.inj ?_)
    rw [← hother.2, ← hfirst.2, hsame]
  exact hacyclic _ (TransGen.head' ⟨state, other, hfirst.find?, rfl, hid, hdistinct, hother.find?⟩
    hway)

/-- **The sort** ends, whatever the states name, and returns the same states; where no
id requires itself, each state comes after all that it depends on. -/
theorem sort_nodes_hierarchically (states : List (NodeState V)) :
    ∃ sorted, sortNodesHierarchically states = some sorted ∧ sorted.Perm states ∧
      ((∀ id, ¬ TransGen (Requires states) id id) →
        Precedes (NodeState.DependsOn states) [] sorted) := by
  obtain ⟨sorted, hsorted, hperm⟩ := sortNodesHierarchically_perm states
  refine ⟨sorted, hsorted, hperm, fun hacyclic => ?_⟩
  unfold sortNodesHierarchically at hsorted
  split at hsorted
  · obtain ⟨order, horder, hsorted⟩ := Option.bind_eq_some_iff.mp hsorted
    obtain ⟨-, hsorted⟩ := check_bind_eq_some.mp hsorted
    obtain ⟨rank, hup, hdown⟩ :=
      exists_rank (Finset.range states.length) fun v w => w ∈ neighbors states v
    refine precedes_mapM (fun v state other hstate hneeds => ?_)
      (fun v hv => absurd hv List.not_mem_nil) (depthFirst_ordered (fun v w hw => hup v w hw) horder) hsorted
    obtain ⟨w, hother⟩ := isFirst_of_find? hneeds.first
    have hedge : w ∈ neighbors states v :=
      mem_neighbors_iff.mpr ⟨state, other, hstate, hother, hneeds.named⟩
    have hne : w ≠ v := by
      rintro rfl
      obtain rfl := Option.some.inj (hstate.symm.trans hother.1)
      exact hneeds.distinct rfl
    have hlt := (List.getElem?_eq_some_iff.mp hstate).1
    exact ⟨w, ⟨hedge, hdown v (Finset.mem_range.mpr hlt) w hedge
      (not_reflTransGen_neighbors hacyclic hedge hne)⟩, hother.1⟩
  · cases hsorted
    rename_i hlength
    cases states with
    | nil => trivial
    | cons state states =>
        cases states with
        | nil =>
            refine ⟨fun other hneeds => ?_, trivial⟩
            have hmem := List.mem_of_find?_eq_some hneeds.first
            rw [List.mem_singleton.mp hmem] at hneeds
            exact absurd rfl hneeds.distinct
        | cons => exact absurd (Nat.le_add_left 2 _) hlength

/-- A second state with an id stays behind what needs the id. -/
example : (sortNodesHierarchically (V := ℕ)
    [{ nodeId := .numeric 2 1, parentId := .numeric 1 1 }, { nodeId := .numeric 1 1 },
      { nodeId := .numeric 1 1, typeDefinitionId := .numeric 2 1 }]).map
        (·.map fun state => (state.nodeId, state.typeDefinitionId)) =
    some [(.numeric 1 1, .null), (.numeric 2 1, .null), (.numeric 1 1, .numeric 2 1)] := by
  decide

end

end ScadaCommon.AddressSpace
