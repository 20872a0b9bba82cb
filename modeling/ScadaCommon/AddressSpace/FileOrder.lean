import ScadaCommon.AddressSpace.LinkRuns

/-!
# Does the order of the files matter?

The states of all files are sorted, created and linked together. Sorting visits more
than what a state needs, properties are created for what types declare so far, and a
link is not added where there is a reference of a subtype. Where none of this makes a
difference, neither does the order of the files.

§1 parents · §2 names · §3 what is asked for · §4 the order of the files · §5 files in
which the order matters · §6 files in which it does not.
-/

namespace ScadaCommon.AddressSpace

open Foundation Relation

variable {V : Type} {factory : GenericNodeFactory} {base spaces : Spaces V} {edges : Set Edge}
  {state : NodeState V} {states states' : List (NodeState V)}

/-! ## §1  Parents -/

theorem find?_perm {α : Type} {p : α → Bool} {as as' : List α} (hperm : as'.Perm as)
    (hone : ∀ a ∈ as, ∀ b ∈ as, p a = true → p b = true → a = b) : as'.find? p = as.find? p := by
  cases hfound : as.find? p with
  | none =>
      rw [List.find?_eq_none] at hfound ⊢
      exact fun a ha => hfound a (hperm.mem_iff.mp ha)
  | some a =>
      have ha := List.mem_of_find?_eq_some hfound
      cases hfound' : as'.find? p with
      | none =>
          have hnone := List.find?_eq_none.mp hfound' a (hperm.mem_iff.mpr ha)
          exact absurd (List.find?_some hfound) hnone
      | some b =>
          have hb := hperm.mem_iff.mp (List.mem_of_find?_eq_some hfound')
          exact congrArg some (hone b hb a ha (List.find?_some hfound') (List.find?_some hfound))

section

variable (hperm : states'.Perm states) (hdistinct : (states.map NodeState.nodeId).Nodup)

include hperm hdistinct

theorem supertypeByReferenceType_perm (typeId : NodeId) :
    supertypeByReferenceType states' typeId = supertypeByReferenceType states typeId := by
  refine congrArg (Option.map NodeState.supertypeId) (find?_perm hperm ?_)
  intro state hstate other hother h h'
  have hid : state.nodeId = typeId := (of_decide_eq_true h).2
  have hid' : other.nodeId = typeId := (of_decide_eq_true h').2
  exact List.inj_on_of_nodup_map hdistinct hstate hother (hid.trans hid'.symm)

theorem isHierarchical_perm (depth : ℕ) (typeId : NodeId) :
    isHierarchical states' depth typeId = isHierarchical states depth typeId := by
  induction depth generalizing typeId with
  | zero => rfl
  | succ depth ih =>
      rw [isHierarchical, isHierarchical, supertypeByReferenceType_perm hperm hdistinct]
      split
      · rfl
      · split
        · rfl
        · cases supertypeByReferenceType states typeId with
          | none => rfl
          | some supertype => exact ih supertype

/-- The parents that are found are the same. -/
theorem promoteHierarchicalParents_perm :
    (promoteHierarchicalParents states').Perm (promoteHierarchicalParents states) := by
  have hsame : promoteParent states' = promoteParent states := by
    funext state
    simp only [promoteParent, isHierarchical_perm hperm hdistinct]
  rw [promoteHierarchicalParents, promoteHierarchicalParents, hsame]
  exact hperm.map _

end

theorem promoteParent_nodeId (states : List (NodeState V)) (state : NodeState V) :
    (promoteParent states state).nodeId = state.nodeId := by
  unfold promoteParent
  split
  · rfl
  · simp only
    split <;> rfl

theorem promoteHierarchicalParents_nodeId (states : List (NodeState V)) :
    (promoteHierarchicalParents states).map NodeState.nodeId = states.map NodeState.nodeId := by
  rw [promoteHierarchicalParents, List.map_map]
  exact List.map_congr_left fun state _ => promoteParent_nodeId states state

/-! ## §2  Names -/

/-- The state of the first node names the second one, which has a state, too. -/
def Names (states : List (NodeState V)) (id other : NodeId) : Prop :=
  ∃ state ∈ states, state.nodeId = id ∧ other ∈ state.neighborIds ∧
    ∃ otherState ∈ states, otherState.nodeId = other

namespace GenericNodeFactory

/-- No state names, directly or not, a state that looks at it. -/
def NamesFirst (factory : GenericNodeFactory) (base : Spaces V) (states : List (NodeState V)) :
    Prop :=
  ∀ state ∈ states, ∀ other, LooksAt factory base states state other →
    ¬ ReflTransGen (Names states) other.nodeId state.nodeId

theorem mem_neighborIds {id : NodeId} (hid : id ∈ state.lookedAt) (hnull : id ≠ .null) :
    id ∈ state.neighborIds := by
  refine List.mem_filter.mpr ⟨List.mem_append_right _ ?_, decide_eq_true hnull⟩
  simp only [NodeState.lookedAt, List.mem_cons, List.not_mem_nil, or_false] at hid
  rcases hid with rfl | rfl | rfl | rfl <;> simp

/-- **What a state looks at is created before it.** -/
theorem NamesFirst.precedes {sorted : List (NodeState V)} (h : NamesFirst factory base states)
    (hdistinct : (states.map NodeState.nodeId).Nodup)
    (hsorted : sortNodesHierarchically states = some sorted) :
    Precedes (LooksAt factory base states) [] sorted := by
  obtain ⟨sorted', hsorted', hperm⟩ := sortNodesHierarchically_perm states
  obtain rfl := Option.some.inj (hsorted.symm.trans hsorted')
  obtain ⟨rank, hup, hdown⟩ := exists_rank (states.map NodeState.nodeId).toFinset (Names states)
  have hnames : ∀ state ∈ states, ∀ other ∈ states, other.nodeId ∈ state.neighborIds →
      Names states state.nodeId other.nodeId :=
    fun state hstate other hother hid => ⟨state, hstate, rfl, hid, other, hother, rfl⟩
  refine (sortNodesHierarchically_ordered hdistinct
    (fun state hstate other hother hid => hup _ _ (hnames state hstate other hother hid))
      hsorted).mono fun state hstate other hlooks => ?_
  have hstate := hperm.mem_iff.mp hstate
  have hback := h state hstate other hlooks
  obtain ⟨-, hother, -, hid, hnull, -⟩ := hlooks
  have hid := mem_neighborIds hid hnull
  refine ⟨hother, hid, hdown _ ?_ _ (hnames state hstate other hother hid) hback⟩
  exact List.mem_toFinset.mpr (List.mem_map_of_mem hstate)

theorem looksAt_perm (hperm : states'.Perm states) :
    LooksAt factory base states' = LooksAt factory base states := by
  funext state other
  simp only [LooksAt, hperm.mem_iff]

theorem namesFirst_perm (hperm : states'.Perm states) :
    NamesFirst factory base states' ↔ NamesFirst factory base states := by
  have hnames : Names states' = Names states := by
    funext id other
    simp only [Names, hperm.mem_iff]
  simp only [NamesFirst, hnames, looksAt_perm hperm, hperm.mem_iff]

end GenericNodeFactory

/-! ## §3  What is asked for -/

namespace GenericNodeFactory

/-- References that are no properties declare none. -/
theorem declarationsOf_eq_nil {heap : NodeHeap (NodeData V)} {refs : List Reference}
    {own : List (PropertyDeclaration V)}
    (hrefs : ∀ ref ∈ refs, heap.isSubtypeOf ref.type StandardId.hasProperty ≠ some true)
    (h : factory.declarationsOf heap refs = some own) : own = [] := by
  induction refs generalizing own with
  | nil =>
      cases h
      rfl
  | cons ref refs ih =>
      obtain ⟨hfirst, hrefs⟩ := List.forall_mem_cons.mp hrefs
      obtain ⟨declaration, hdeclaration, h⟩ := Option.bind_eq_some_iff.mp h
      obtain ⟨rest, hrest, h⟩ := Option.bind_eq_some_iff.mp h
      cases h
      obtain rfl := ih hrefs hrest
      obtain ⟨property, hproperty, hdeclaration⟩ := Option.bind_eq_some_iff.mp hdeclaration
      obtain ⟨isProperty, hisProperty, hproperty⟩ := Option.bind_eq_some_iff.mp hproperty
      cases isProperty with
      | true => exact absurd hisProperty hfirst
      | false =>
          cases hproperty
          cases hdeclaration
          rfl

/-- A type declares nothing if neither it nor a type above it has a property. -/
theorem declares_nothing (hsound : Sound factory spaces edges) (hindexed : factory.Indexed spaces)
    {type : NodePtr} {typeId : NodeId} (htype : spaces.heap.idOf type = some typeId)
    (hnone : ∀ triple ∈ factory.triples spaces,
      ReflTransGen (Above (factory.triples spaces)) typeId triple.sourceId →
        ¬ ReflTransGen (Above (factory.triples spaces)) triple.typeId StandardId.hasProperty) :
    factory.Declares spaces.heap type [] := by
  obtain ⟨node, hnode, -⟩ := Option.map_eq_some_iff.mp htype
  obtain ⟨declared, fuel, hdeclared⟩ :=
    hsound.declares (hsound.wellFormed.bounded.allocated type node hnode)
  suffices hnil : declared = [] from ⟨fuel, hnil ▸ hdeclared⟩
  clear hnode
  induction fuel generalizing type typeId declared with
  | zero => cases hdeclared
  | succ fuel ih =>
      obtain ⟨typeNode, htypeNode, hdeclared⟩ := Option.bind_eq_some_iff.mp hdeclared
      obtain ⟨own, hown, hdeclared⟩ := Option.bind_eq_some_iff.mp hdeclared
      have hempty : own = [] := by
        refine declarationsOf_eq_nil (fun ref href hisProperty => ?_) hown
        have hedge : ⟨ref.type, type, ref.node⟩ ∈ edges :=
          (hsound.represents.holds.references type typeNode htypeNode true ref).mp href
        obtain ⟨refType, hrefType⟩ := hsound.nodeOf (hsound.represents.edge_lt hedge).1
        obtain ⟨target, htarget⟩ := hsound.nodeOf (hsound.represents.edge_lt hedge).2.2
        have hrefTypeId : spaces.heap.idOf ref.type = some refType.id :=
          Option.map_eq_some_iff.mpr ⟨refType, hrefType, rfl⟩
        have htargetId : spaces.heap.idOf ref.node = some target.id :=
          Option.map_eq_some_iff.mpr ⟨target, htarget, rfl⟩
        exact hnone ⟨refType.id, typeId, target.id⟩
          ((hsound.mem_triples hindexed).mpr ⟨_, hedge, hrefTypeId, htype, htargetId⟩) .refl
          (hsound.reflTransGen_of_isSubtypeOf hindexed hrefTypeId hisProperty)
      subst hempty
      cases hsupertype : typeNode.supertype with
      | none =>
          rw [hsupertype] at hdeclared
          cases hdeclared
          rfl
      | some supertype =>
          rw [hsupertype] at hdeclared
          obtain ⟨inherited, hinherited, hdeclared⟩ := Option.bind_eq_some_iff.mp hdeclared
          cases hdeclared
          obtain ⟨supertypeNode, hsupertypeNode⟩ := hsound.nodeOf
            (hsound.wellFormed.bounded.supertype type typeNode htypeNode supertype hsupertype)
          have hsupertypeId : spaces.heap.idOf supertype = some supertypeNode.id :=
            Option.map_eq_some_iff.mpr ⟨supertypeNode, hsupertypeNode, rfl⟩
          have hstep : spaces.heap.supertypeOf type = some (some supertype) := by
            rw [NodeHeap.supertypeOf, htypeNode, Option.map_some, hsupertype]
          have habove := hsound.above_of_supertypeOf hindexed hstep htype hsupertypeId
          obtain rfl := ih hsupertypeId
            (fun triple hmem hsource => hnone triple hmem (.head habove hsource)) inherited
            hinherited
          rfl

/-- The references that there are, and that creating the states may add. -/
def askedSlots (factory : GenericNodeFactory) (base : Spaces V) (states : List (NodeState V)) :
    Set Triple :=
  {triple | triple ∈ factory.triples base ∨
    ∃ state ∈ states, Fresh factory base state ∧ triple ∈ state.namedSlots}

/-- And that the states link. -/
def asked (factory : GenericNodeFactory) (base : Spaces V) (states : List (NodeState V)) :
    Set Triple :=
  factory.askedSlots base states ∪
    {triple | ∃ state ∈ states, ∃ link ∈ state.links, link.triple = triple}

/-- The order of the states makes no difference. -/
structure OrderFree (factory : GenericNodeFactory) (base : Spaces V)
    (states : List (NodeState V)) : Prop where
  namesFirst : NamesFirst factory base states
  /-- The types of new nodes have no properties that would be created. -/
  plain : factory.createProperties = true → ∀ state ∈ states, Fresh factory base state →
    ∀ triple ∈ factory.askedSlots base states,
      ReflTransGen (Above (factory.askedSlots base states)) state.typeDefinitionId
          triple.sourceId →
        ¬ ReflTransGen (Above (factory.askedSlots base states)) triple.typeId
          StandardId.hasProperty
  /-- No reference is of a proper subtype of a link between the same nodes. -/
  apart : ∀ state ∈ states, ∀ link ∈ state.links, ∀ typeId,
    ⟨typeId, link.sourceId, link.targetId⟩ ∈ factory.asked base states →
      ReflTransGen (Above (factory.asked base states)) typeId link.typeId → typeId = link.typeId
  acyclic : ∀ id, ¬ TransGen (Above (factory.asked base states)) id id

theorem askedSlots_perm (hperm : states'.Perm states) :
    factory.askedSlots base states' = factory.askedSlots base states := by
  simp only [askedSlots, hperm.mem_iff]

theorem asked_perm (hperm : states'.Perm states) :
    factory.asked base states' = factory.asked base states := by
  simp only [asked, askedSlots_perm hperm, hperm.mem_iff]

theorem OrderFree.perm (h : OrderFree factory base states) (hperm : states'.Perm states) :
    OrderFree factory base states' := by
  have hasked : factory.asked base states' = factory.asked base states := asked_perm hperm
  constructor
  case namesFirst => exact (namesFirst_perm hperm).mpr h.namesFirst
  case plain =>
    rw [askedSlots_perm hperm]
    exact fun hcreate state hstate => h.plain hcreate state (hperm.mem_iff.mp hstate)
  case apart =>
    rw [hasked]
    exact fun state hstate => h.apart state (hperm.mem_iff.mp hstate)
  case acyclic =>
    rw [hasked]
    exact h.acyclic

/-- What the states ask for when they are created. -/
theorem OrderFree.asks (h : OrderFree factory base states)
    (hchildren : ∀ state ∈ states, state.children = []) :
    Asks factory base states (factory.askedSlots base states) := by
  constructor
  case children => exact hchildren
  case notSelfSubtype =>
    intro state hstate hfresh hnull hid htype
    have hslot : ⟨StandardId.hasSubtype, state.nodeId, state.nodeId⟩ ∈
        factory.askedSlots base states :=
      .inr ⟨state, hstate, hfresh, .inr ⟨by rw [htype, hid], hnull⟩⟩
    exact absurd (.single (.inl hslot)) (h.acyclic state.nodeId)
  case start => exact fun _ hmem => .inl hmem
  case slots => exact fun state hstate hfresh _ hslot => .inr ⟨state, hstate, hfresh, hslot⟩
  case plain =>
    intro spaces edges hsound hindexed hwithin state hstate hfresh _
    unfold NewProperties
    cases htype : factory.typeDefinition spaces state with
    | none => rfl
    | some type =>
        have htypeId := hsound.wellFormed.getNode_idOf (typeDefinition_eq_some.mp htype).1
        dsimp only
        split
        · rename_i hcreate
          refine declares_nothing hsound hindexed htypeId fun triple hmem hsource hproperty => ?_
          exact h.plain hcreate state hstate hfresh triple (hwithin hmem)
            (above_mono hwithin hsource) (above_mono hwithin hproperty)
        · rfl

theorem missing_ne_good {link : Link} (h : link ∈ state.links) : link.missing ≠ .good := by
  rcases List.mem_append.mp h with h | h
  · split at h
    · rw [List.mem_singleton.mp h]
      nofun
    · cases h
  · obtain ⟨reference, -, rfl⟩ := List.mem_map.mp h
    nofun

theorem OrderFree.linksApart (h : OrderFree factory base states) :
    LinksApart (factory.asked base states) (states.flatMap NodeState.links) := by
  constructor
  case missing =>
    intro link hlink
    obtain ⟨state, -, hlink⟩ := List.mem_flatMap.mp hlink
    exact missing_ne_good hlink
  case mem =>
    intro link hlink
    obtain ⟨state, hstate, hlink⟩ := List.mem_flatMap.mp hlink
    exact .inr ⟨state, hstate, link, hlink, rfl⟩
  case apart =>
    intro link hlink
    obtain ⟨state, hstate, hlink⟩ := List.mem_flatMap.mp hlink
    exact h.apart state hstate link hlink
  case acyclic => exact h.acyclic

/-! ## §4  The order of the files -/

section

variable [Inhabited V] {fuel : ℕ} {spaces' : Spaces V}

/-- Creating and linking the states in one order leads where another order does. -/
theorem OrderFree.reorder (hsound : Sound factory base edges) (hindexed : factory.Indexed base)
    (hchildren : ∀ state ∈ states, state.children = [])
    (hdistinct : (states.map NodeState.nodeId).Nodup) (hfree : OrderFree factory base states)
    (hordered : Precedes (LooksAt factory base states) [] states)
    (hperm : states'.Perm states) (hordered' : Precedes (LooksAt factory base states) [] states')
    (hcreate : applyAll (factory.createState (fuel + 2)) states base = some (.good, spaces))
    (hlink : applyAll factory.addLink (states.flatMap NodeState.links) spaces =
      some (.good, spaces')) :
    ∃ other other', applyAll (factory.createState (fuel + 2)) states' base = some (.good, other) ∧
      applyAll factory.addLink (states'.flatMap NodeState.links) other = some (.good, other') ∧
        SameView factory spaces' other' := by
  have hasks := hfree.asks hchildren
  have hapart := hfree.linksApart
  obtain ⟨hcreates, hreached⟩ :=
    creates_of_run hsound hindexed hasks hdistinct hordered hcreate
  obtain ⟨edges₁, hsound₁⟩ := hreached.sound
  have hone := oneDefinition_triples hsound₁ hreached.indexed
  rw [hreached.triples] at hone
  obtain ⟨other, hother, hsound₂, hindexed₂, hnodes₂, htriples₂⟩ :=
    run_of_creates hsound hindexed hasks hcreates hone hperm hdistinct hordered' fuel
  rw [← hreached.triples] at htriples₂
  -- The links of the one order.
  have hstart : Linking factory (factory.asked base states) (factory.nodeView spaces) spaces :=
    ⟨hreached.sound, hreached.indexed, rfl, hreached.within.trans Set.subset_union_left⟩
  obtain ⟨hlast, htriples, hlinks⟩ := hstart.run hapart (fun _ h => h) hlink
  obtain ⟨edges₃, hsound₃⟩ := hlast.sound
  have hleads : LeadsTo (factory.nodeView spaces) (factory.triples spaces)
      (factory.triples spaces') (states.flatMap NodeState.links) := by
    constructor
    case oneDefinition => exact oneDefinition_triples hsound₃ hlast.indexed
    case oneSupertype =>
      rw [← hlast.nodes]
      exact oneSupertype_triples hsound₃ hlast.indexed
    case mem =>
      intro link hmem
      rw [htriples]
      exact .inr ⟨link, hmem, rfl⟩
    case source => exact fun link hmem => (hlinks link hmem).1
    case fits => exact fun link hmem => (hlinks link hmem).2
  -- The links of the other order.
  have hmem : ∀ link, link ∈ states'.flatMap NodeState.links ↔
      link ∈ states.flatMap NodeState.links := by
    simp only [List.mem_flatMap, hperm.mem_iff, implies_true]
  have hstart' : Linking factory (factory.asked base states) (factory.nodeView spaces) other := by
    refine ⟨hsound₂, hindexed₂, hnodes₂, ?_⟩
    rw [htriples₂]
    exact hreached.within.trans Set.subset_union_left
  obtain ⟨other', hother', hlast', htriples'⟩ := hleads.run hapart
    (fun link hlink => (hmem link).mp hlink) hstart' htriples₂.ge (by
      rw [htriples₂, htriples]
      exact Set.subset_union_left)
  refine ⟨other, other', hother, hother', hlast'.nodes.trans hlast.nodes.symm, ?_⟩
  rw [htriples', htriples, htriples₂]
  simp only [hmem]

theorem applyNodeStates_perm (hsound : Sound factory base edges)
    (hindexed : factory.Indexed base) (hchildren : ∀ state ∈ states, state.children = [])
    (hdistinct : (states.map NodeState.nodeId).Nodup)
    (hfree : OrderFree factory base (promoteHierarchicalParents states))
    (hperm : states'.Perm states)
    (h : factory.applyNodeStates (fuel + 2) states base = some (.good, spaces)) :
    ∃ spaces', factory.applyNodeStates (fuel + 2) states' base = some (.good, spaces') ∧
      SameView factory spaces spaces' := by
  obtain ⟨sorted, hsorted, hrun⟩ := Option.bind_eq_some_iff.mp h
  rcases andThen_eq_some.mp hrun with ⟨spaces₁, hcreate, hlink⟩ | ⟨hbad, -⟩
  · obtain ⟨sorted₁, hsorted₁, hpermSorted⟩ :=
      sortNodesHierarchically_perm (promoteHierarchicalParents states)
    obtain rfl := Option.some.inj (hsorted.symm.trans hsorted₁)
    obtain ⟨sorted', hsorted', hpermSorted'⟩ :=
      sortNodesHierarchically_perm (promoteHierarchicalParents states')
    have hpromoted := promoteHierarchicalParents_perm hperm hdistinct
    have hids : ((promoteHierarchicalParents states).map NodeState.nodeId).Nodup := by
      rwa [promoteHierarchicalParents_nodeId]
    have hchildren' : ∀ state ∈ sorted, state.children = [] := by
      intro state hstate
      obtain ⟨parsed, hparsed, rfl⟩ := List.mem_map.mp (hpermSorted.mem_iff.mp hstate)
      rw [promoteParent_children]
      exact hchildren parsed hparsed
    have hordered := hfree.namesFirst.precedes hids hsorted
    have hordered' := (hfree.perm hpromoted).namesFirst.precedes
      ((hpromoted.map NodeState.nodeId).nodup_iff.mpr hids) hsorted'
    rw [looksAt_perm hpromoted] at hordered'
    rw [← looksAt_perm hpermSorted] at hordered hordered'
    obtain ⟨other, spaces', hother, hother', hsame⟩ := (hfree.perm hpermSorted).reorder hsound
      hindexed hchildren' ((hpermSorted.map NodeState.nodeId).nodup_iff.mpr hids) hordered
        ((hpermSorted'.trans hpromoted).trans hpermSorted.symm) hordered' hcreate hlink
    refine ⟨spaces', ?_, hsame⟩
    rw [applyNodeStates, hsorted']
    exact andThen_eq_some.mpr (.inl ⟨other, hother, hother'⟩)
  · exact absurd rfl hbad

/-- **Does the order of the files matter?** -/
theorem files_in_any_order (hsound : Sound factory base edges) (hindexed : factory.Indexed base)
    {files files' : List (List (NodeState V))} (hperm : files'.Perm files)
    (hchildren : ∀ state ∈ files.flatten, state.children = [])
    (hdistinct : (files.flatten.map NodeState.nodeId).Nodup)
    (hfree : OrderFree factory base (promoteHierarchicalParents files.flatten)) (fuel : ℕ) :
    ((∃ spaces, factory.loadStaticAddressSpace (fuel + 2) files base = some (.good, spaces)) ↔
        ∃ spaces, factory.loadStaticAddressSpace (fuel + 2) files' base = some (.good, spaces)) ∧
      ∀ spaces spaces',
        factory.loadStaticAddressSpace (fuel + 2) files base = some (.good, spaces) →
        factory.loadStaticAddressSpace (fuel + 2) files' base = some (.good, spaces') →
          SameView factory spaces spaces' := by
  have hpermStates : files'.flatten.Perm files.flatten := hperm.flatten
  have hpromoted := promoteHierarchicalParents_perm hpermStates hdistinct
  have hforward : ∀ spaces,
      factory.loadStaticAddressSpace (fuel + 2) files base = some (.good, spaces) →
        ∃ spaces',
          factory.loadStaticAddressSpace (fuel + 2) files' base = some (.good, spaces') ∧
            SameView factory spaces spaces' :=
    fun _ h => applyNodeStates_perm hsound hindexed hchildren hdistinct hfree hpermStates h
  refine ⟨⟨?_, ?_⟩, ?_⟩
  · rintro ⟨spaces, h⟩
    obtain ⟨spaces', h', -⟩ := hforward spaces h
    exact ⟨spaces', h'⟩
  · rintro ⟨spaces, h⟩
    obtain ⟨spaces', h', -⟩ := applyNodeStates_perm hsound hindexed
      (fun state hstate => hchildren state (hpermStates.mem_iff.mp hstate))
      ((hpermStates.map NodeState.nodeId).nodup_iff.mpr hdistinct) (hfree.perm hpromoted)
      hpermStates.symm h
    exact ⟨spaces', h'⟩
  · intro spaces spaces' h h'
    obtain ⟨other, hother, hsame⟩ := hforward spaces h
    obtain rfl : other = spaces' := by
      have heq := hother.symm.trans h'
      cases heq
      rfl
    exact hsame

end

/-! ## §5  Files in which the order matters -/

section

variable {nodes : List (Node (NodeData V))}

/-- The references that the nodes of a list have. -/
def triplesOf (nodes : List (Node (NodeData V))) : List Triple :=
  nodes.flatMap fun node => node.forwardReferences.filterMap fun ref => do
    return ⟨(← nodes[ref.type]?).id, node.id, (← nodes[ref.node]?).id⟩

theorem mem_triplesOf (hsound : Sound factory (spacesOf nodes) (edgesOf nodes))
    (hindexed : factory.Indexed (spacesOf nodes)) {triple : Triple}
    (h : triple ∈ factory.triples (spacesOf nodes)) : triple ∈ triplesOf nodes := by
  obtain ⟨edge, ⟨node, hnode, href⟩, htype, hsource, htarget⟩ := (hsound.mem_triples hindexed).mp h
  obtain ⟨typeNode, htypeNode, htypeId⟩ := Option.map_eq_some_iff.mp htype
  obtain ⟨source, hsourceNode, hsourceId⟩ := Option.map_eq_some_iff.mp hsource
  obtain ⟨target, htargetNode, htargetId⟩ := Option.map_eq_some_iff.mp htarget
  obtain rfl := Option.some.inj (hsourceNode.symm.trans hnode)
  refine List.mem_flatMap.mpr ⟨source, List.mem_of_getElem? hnode, ?_⟩
  refine List.mem_filterMap.mpr ⟨_, href, ?_⟩
  have htypeNode : nodes[edge.type]? = some typeNode := htypeNode
  have htargetNode : nodes[edge.target]? = some target := htargetNode
  simp [htypeNode, htargetNode, htypeId, hsourceId, htargetId]

end

/-- The standard types that the files below need. -/
def baseTypes : List (Node (NodeData ℕ)) := [
  { id := StandardId.references, nodeClass := .referenceType, attributes := { value := 0 },
    forwardReferences := [⟨2, 1⟩, ⟨2, 3⟩] },
  { id := StandardId.hierarchicalReferences, nodeClass := .referenceType,
    attributes := { value := 0 }, forwardReferences := [⟨2, 2⟩, ⟨2, 5⟩],
    inverseReferences := [⟨2, 0⟩], supertype := some 0 },
  { id := StandardId.hasSubtype, nodeClass := .referenceType, attributes := { value := 0 },
    inverseReferences := [⟨2, 1⟩], supertype := some 1 },
  { id := StandardId.nonHierarchicalReferences, nodeClass := .referenceType,
    attributes := { value := 0 }, forwardReferences := [⟨2, 4⟩],
    inverseReferences := [⟨2, 0⟩], supertype := some 0 },
  { id := StandardId.hasTypeDefinition, nodeClass := .referenceType, attributes := { value := 0 },
    inverseReferences := [⟨2, 3⟩], supertype := some 3 },
  { id := StandardId.hasProperty, nodeClass := .referenceType, attributes := { value := 0 },
    inverseReferences := [⟨2, 1⟩], supertype := some 1 },
  { id := .numeric 24 0, nodeClass := .dataType, attributes := { value := 0 } },
  { id := StandardId.propertyType, nodeClass := .variableType,
    attributes := { dataType := some 6, value := 0 } }]

theorem sound_baseTypes : Sound rootFactory (spacesOf baseTypes) (edgesOf baseTypes) := by
  have hcomplete : Complete baseTypes := by
    constructor
    case mirrored => unfold Mirrored; decide
    all_goals decide
  exact hcomplete.sound ⟨4, by decide⟩ ⟨2, by decide⟩

theorem indexed_baseTypes : rootFactory.Indexed (spacesOf baseTypes) :=
  indexed_spacesOf rfl (by decide)

def objectTypeState (nodeId supertypeId : NodeId) (references : List ReferenceDescription) :
    NodeState ℕ where
  nodeId := nodeId
  nodeClass := .objectType
  references := references
  supertypeId := supertypeId

/-- A property of a type. -/
def declaredState (nodeId parentId : NodeId) (name : String) : NodeState ℕ where
  nodeId := nodeId
  nodeClass := .variable
  typeDefinitionId := StandardId.propertyType
  parentId := parentId
  referenceTypeId := StandardId.hasProperty
  attributes := { browseName := { name := name } }

def rootState (typeId : NodeId) : NodeState ℕ where
  nodeId := StandardId.rootFolder
  typeDefinitionId := typeId

/-- One reference from the first type to the second, and one of a subtype. -/
def referenceFiles : List (List (NodeState ℕ)) := [
  [objectTypeState (.numeric 1 7) .null [⟨StandardId.references, true, .numeric 2 7⟩]],
  [objectTypeState (.numeric 2 7) .null
    [⟨StandardId.nonHierarchicalReferences, false, .numeric 1 7⟩]]]

/-- A type with a property, and an object of that type. -/
def propertyFiles : List (List (NodeState ℕ)) := [
  [objectTypeState (.numeric 1 7) .null [], declaredState (.numeric 2 7) (.numeric 1 7) "p"],
  [rootState (.numeric 1 7)]]

/-- A type below the root, and a subtype of it that the root is of. -/
def folderFiles : List (List (NodeState ℕ)) := [
  [{ objectTypeState (.numeric 1 7) .null [] with
      parentId := StandardId.rootFolder
      referenceTypeId := StandardId.hierarchicalReferences }],
  [objectTypeState (.numeric 2 7) (.numeric 1 7) [], rootState (.numeric 2 7)]]

/-- A type, an object of it and a subtype. -/
def typeFiles : List (List (NodeState ℕ)) := [
  [objectTypeState (.numeric 1 7) .null [], rootState (.numeric 1 7)],
  [objectTypeState (.numeric 2 7) (.numeric 1 7) []]]

theorem referenceFiles_load :
    ((rootFactory.loadStaticAddressSpace 4 referenceFiles (spacesOf baseTypes)).any
      fun (status, spaces) => status = StatusCode.good ∧
        (StandardId.references, .numeric 2 7) ∈ rootFactory.referencesOf spaces (.numeric 1 7) ∧
        (rootFactory.loadStaticAddressSpace 4 referenceFiles.reverse (spacesOf baseTypes)).any
          fun (status', spaces') => status' = StatusCode.good ∧
            (StandardId.references, .numeric 2 7) ∉
              rootFactory.referencesOf spaces' (.numeric 1 7)) = true := by
  decide +kernel

theorem propertyFiles_load :
    ((rootFactory.loadStaticAddressSpace 4 propertyFiles (spacesOf baseTypes)).any
      fun (status, spaces) => status = StatusCode.good ∧
        (rootFactory.nodeView spaces (.string "84!p" 0)).isSome = true ∧
        (rootFactory.loadStaticAddressSpace 4 propertyFiles.reverse (spacesOf baseTypes)).any
          fun (status', spaces') => status' = StatusCode.good ∧
            (rootFactory.nodeView spaces' (.string "84!p" 0)).isSome = false) = true := by
  decide +kernel

theorem folderFiles_load :
    (rootFactory.loadStaticAddressSpace 4 folderFiles (spacesOf baseTypes)).any (fun (status, _) =>
        status = StatusCode.good) = true ∧
      (rootFactory.loadStaticAddressSpace 4 folderFiles.reverse (spacesOf baseTypes)).any
        (fun (status, _) => status = StatusCode.badWrongTypeId) = true := by
  decide +kernel

/-- A reference is left out, a property is left out, or a node is refused, in one order
and not in the other. -/
theorem file_order_matters :
    Sound rootFactory (spacesOf baseTypes) (edgesOf baseTypes) ∧
      rootFactory.Indexed (spacesOf baseTypes) ∧
      (∃ spaces spaces',
        rootFactory.loadStaticAddressSpace 4 referenceFiles (spacesOf baseTypes) =
            some (.good, spaces) ∧
          rootFactory.loadStaticAddressSpace 4 referenceFiles.reverse (spacesOf baseTypes) =
            some (.good, spaces') ∧
          rootFactory.triples spaces ≠ rootFactory.triples spaces') ∧
      (∃ spaces spaces',
        rootFactory.loadStaticAddressSpace 4 propertyFiles (spacesOf baseTypes) =
            some (.good, spaces) ∧
          rootFactory.loadStaticAddressSpace 4 propertyFiles.reverse (spacesOf baseTypes) =
            some (.good, spaces') ∧
          rootFactory.nodeView spaces ≠ rootFactory.nodeView spaces') ∧
      (∃ spaces spaces',
        rootFactory.loadStaticAddressSpace 4 folderFiles (spacesOf baseTypes) =
            some (.good, spaces) ∧
          rootFactory.loadStaticAddressSpace 4 folderFiles.reverse (spacesOf baseTypes) =
            some (.badWrongTypeId, spaces')) := by
  refine ⟨sound_baseTypes, indexed_baseTypes, ?_, ?_, ?_⟩
  · obtain ⟨⟨status, spaces⟩, hload, hrun⟩ := (Option.any_eq_true _ _).mp referenceFiles_load
    obtain ⟨rfl, hmem, hrun⟩ := of_decide_eq_true hrun
    obtain ⟨⟨status', spaces'⟩, hload', hrun⟩ := (Option.any_eq_true _ _).mp hrun
    obtain ⟨rfl, hnotMem⟩ := of_decide_eq_true hrun
    refine ⟨spaces, spaces', hload, hload', fun heq => hnotMem ?_⟩
    have hmem : ⟨StandardId.references, .numeric 1 7, .numeric 2 7⟩ ∈
      rootFactory.triples spaces := hmem
    rwa [heq] at hmem
  · obtain ⟨⟨status, spaces⟩, hload, hrun⟩ := (Option.any_eq_true _ _).mp propertyFiles_load
    obtain ⟨rfl, hseen, hrun⟩ := of_decide_eq_true hrun
    obtain ⟨⟨status', spaces'⟩, hload', hrun⟩ := (Option.any_eq_true _ _).mp hrun
    obtain ⟨rfl, hunseen⟩ := of_decide_eq_true hrun
    refine ⟨spaces, spaces', hload, hload', fun heq => ?_⟩
    rw [heq, hunseen] at hseen
    cases hseen
  · obtain ⟨hload, hload'⟩ := folderFiles_load
    obtain ⟨⟨status, spaces⟩, hload, hstatus⟩ := (Option.any_eq_true _ _).mp hload
    obtain ⟨⟨status', spaces'⟩, hload', hstatus'⟩ := (Option.any_eq_true _ _).mp hload'
    obtain rfl : status = .good := of_decide_eq_true hstatus
    obtain rfl : status' = .badWrongTypeId := of_decide_eq_true hstatus'
    exact ⟨spaces, spaces', hload, hload'⟩

/-! ## §6  Files in which it does not -/

/-- Nothing is above a type that is no subtype. -/
theorem eq_of_above {triples : Set Triple} {id id' : NodeId}
    (htop : ∀ triple ∈ triples, triple.typeId = StandardId.hasSubtype → triple.targetId ≠ id)
    (h : ReflTransGen (Above triples) id id') : id' = id := by
  rcases h.cases_head with heq | ⟨next, hnext, -⟩
  · exact heq.symm
  · exact absurd rfl (htop _ hnext rfl)

theorem acyclic_of_rank {triples : Set Triple} (rank : NodeId → ℕ)
    (hrank : ∀ triple ∈ triples, triple.typeId = StandardId.hasSubtype →
      rank triple.sourceId < rank triple.targetId) (id : NodeId) :
    ¬ TransGen (Above triples) id id := by
  have hless : ∀ id', TransGen (Above triples) id id' → rank id' < rank id := by
    intro id' h
    induction h with
    | single hstep => exact hrank _ hstep rfl
    | tail _ hstep ih => exact (hrank _ hstep rfl).trans ih
  exact fun h => lt_irrefl _ (hless id h)

/-- What the files ask for, the subtype last. -/
def typeTriples : List Triple :=
  ⟨StandardId.hasSubtype, .numeric 1 7, .numeric 2 7⟩ ::
    ⟨StandardId.hasTypeDefinition, StandardId.rootFolder, .numeric 1 7⟩ :: triplesOf baseTypes

theorem askedSlots_typeFiles {triple : Triple}
    (h : triple ∈ rootFactory.askedSlots (spacesOf baseTypes) typeFiles.flatten) :
    triple ∈ typeTriples.tail := by
  rcases h with h | ⟨state, hstate, -, hslot⟩
  · exact .tail _ (mem_triplesOf sound_baseTypes indexed_baseTypes h)
  · simp only [typeFiles, List.flatten_cons, List.flatten_nil, List.append_nil, List.cons_append,
      List.nil_append, List.mem_cons, List.not_mem_nil, or_false] at hstate
    rcases hstate with rfl | rfl | rfl
    · rcases hslot with ⟨-, hnull⟩ | ⟨-, hnull⟩ <;> exact absurd rfl hnull
    · rcases hslot with ⟨rfl, -⟩ | ⟨-, hnull⟩
      · exact .head _
      · exact absurd rfl hnull
    · rcases hslot with ⟨-, hnull⟩ | ⟨-, hnull⟩ <;> exact absurd rfl hnull

theorem links_typeFiles {link : Link} (h : link ∈ typeFiles.flatten.flatMap NodeState.links) :
    link.triple = ⟨StandardId.hasSubtype, .numeric 1 7, .numeric 2 7⟩ := by
  obtain rfl := List.mem_singleton.mp h
  rfl

theorem asked_typeFiles {triple : Triple}
    (h : triple ∈ rootFactory.asked (spacesOf baseTypes) typeFiles.flatten) :
    triple ∈ typeTriples := by
  rcases h with h | ⟨state, hstate, link, hlink, rfl⟩
  · exact List.mem_of_mem_tail (askedSlots_typeFiles h)
  · rw [links_typeFiles (List.mem_flatMap.mpr ⟨state, hstate, hlink⟩)]
    exact .head _

theorem orderFree_typeFiles :
    OrderFree rootFactory (spacesOf baseTypes) typeFiles.flatten := by
  constructor
  case namesFirst =>
    rintro state hstate other ⟨-, -, -, hid, hnull, hne⟩ hnames
    have hlooked : ∀ state ∈ typeFiles.flatten, ∀ id ∈ state.lookedAt,
        id = .null ∨ id = .numeric 1 7 := by
      decide
    have hnone : ∀ state ∈ typeFiles.flatten, state.nodeId = .numeric 1 7 →
        state.neighborIds = [] := by
      decide
    have hother := (hlooked state hstate _ hid).resolve_left hnull
    rcases hnames.cases_head with heq | ⟨next, ⟨named, hnamed, heq, hnext, -⟩, -⟩
    · exact hne heq
    · rw [hnone named hnamed (heq.trans hother)] at hnext
      cases hnext
  case plain =>
    intro _ state hstate _ triple hmem habove
    have htop : ∀ state ∈ typeFiles.flatten, ∀ triple ∈ typeTriples.tail,
        triple.typeId = StandardId.hasSubtype → triple.targetId ≠ state.typeDefinitionId := by
      decide
    have hnone : ∀ state ∈ typeFiles.flatten, ∀ triple ∈ typeTriples.tail,
        triple.sourceId ≠ state.typeDefinitionId := by
      decide
    have hsource := eq_of_above
      (fun triple hmem => htop state hstate triple (askedSlots_typeFiles hmem)) habove
    exact absurd hsource (hnone state hstate triple (askedSlots_typeFiles hmem))
  case apart =>
    intro state hstate link hlink typeId hmem _
    have hlink := links_typeFiles (List.mem_flatMap.mpr ⟨state, hstate, hlink⟩)
    have honly : ∀ triple ∈ typeTriples, triple.sourceId = .numeric 1 7 →
        triple.targetId = .numeric 2 7 → triple.typeId = StandardId.hasSubtype := by
      decide
    have htype := honly _ (asked_typeFiles hmem) (congrArg Triple.sourceId hlink)
      (congrArg Triple.targetId hlink)
    exact htype.trans (congrArg Triple.typeId hlink).symm
  case acyclic =>
    let order : List NodeId := [StandardId.references, StandardId.hierarchicalReferences,
      StandardId.nonHierarchicalReferences, StandardId.hasSubtype, StandardId.hasTypeDefinition,
      StandardId.hasProperty, .numeric 1 7, .numeric 2 7]
    have hrank : ∀ triple ∈ typeTriples, triple.typeId = StandardId.hasSubtype →
        order.idxOf triple.sourceId < order.idxOf triple.targetId := by
      decide
    exact acyclic_of_rank order.idxOf fun triple hmem => hrank triple (asked_typeFiles hmem)

theorem typeFiles_in_any_order : ∃ spaces spaces',
    rootFactory.loadStaticAddressSpace 2 typeFiles (spacesOf baseTypes) = some (.good, spaces) ∧
      rootFactory.loadStaticAddressSpace 2 typeFiles.reverse (spacesOf baseTypes) =
        some (.good, spaces') ∧
      SameView rootFactory spaces spaces' := by
  have hload : (rootFactory.loadStaticAddressSpace 2 typeFiles (spacesOf baseTypes)).any
      (fun (status, _) => status = StatusCode.good) = true := by
    decide +kernel
  obtain ⟨⟨status, spaces⟩, hload, hstatus⟩ := (Option.any_eq_true _ _).mp hload
  obtain rfl : status = .good := of_decide_eq_true hstatus
  obtain ⟨hiff, hsame⟩ := files_in_any_order sound_baseTypes indexed_baseTypes
    (List.reverse_perm typeFiles) (by decide) (by decide) orderFree_typeFiles 0
  obtain ⟨spaces', hload'⟩ := hiff.mp ⟨spaces, hload⟩
  exact ⟨spaces, spaces', hload, hload', hsame spaces spaces' hload hload'⟩

end GenericNodeFactory

end ScadaCommon.AddressSpace
