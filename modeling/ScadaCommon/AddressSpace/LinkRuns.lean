import ScadaCommon.AddressSpace.CreationRuns

/-!
# Adding links in one order or another

A link is not added where a reference of a subtype joins its ends. If no such
reference is of a proper subtype, each link is there in the end, and it does not
matter in which order they are added.

§1 the search · §2 one link · §3 runs · §4 another order.
-/

namespace ScadaCommon.AddressSpace

open Foundation Relation

variable {V : Type} {factory : GenericNodeFactory} {spaces spaces' : Spaces V} {edges : Set Edge}
  {link : Link}

def Link.triple (link : Link) : Triple := ⟨link.typeId, link.sourceId, link.targetId⟩

/-! ## §1  The search -/

theorem findReference_eq_some {A : Type} {heap : NodeHeap A} {typeId nodeId : NodeId}
    {refs : List Reference} {ref : Reference}
    (h : findReference heap typeId nodeId refs = some (some ref)) :
    ref ∈ refs ∧ heap.isSubtypeOf ref.type typeId = some true ∧
      heap.idOf ref.node = some nodeId := by
  induction refs with
  | nil => cases h
  | cons first refs ih =>
      obtain ⟨isSubtype, hisSubtype, h⟩ := Option.bind_eq_some_iff.mp h
      cases isSubtype with
      | false =>
          obtain ⟨href, hfound⟩ := ih h
          exact ⟨List.mem_cons_of_mem first href, hfound⟩
      | true =>
          obtain ⟨node, hnode, h⟩ := Option.bind_eq_some_iff.mp h
          split at h
          · rename_i hid
            cases h
            refine ⟨List.mem_cons_self, hisSubtype, ?_⟩
            rw [NodeHeap.idOf, hnode, Option.map_some, hid]
          · obtain ⟨href, hfound⟩ := ih h
            exact ⟨List.mem_cons_of_mem first href, hfound⟩

namespace GenericNodeFactory

section

variable (hsound : Sound factory spaces edges) (hindexed : factory.Indexed spaces)
  {source : NodePtr} {sourceNode : Node (NodeData V)}
  (hsource : factory.getNode spaces link.sourceId = some source)
  (hnode : spaces.heap.nodes source = some sourceNode)

include hsound hindexed hsource hnode

/-- What is found is a reference of a subtype. -/
theorem exists_triple_of_found {ref : Reference}
    (hfound : findReference spaces.heap link.typeId link.targetId sourceNode.forwardReferences =
      some (some ref)) :
    ∃ typeId, ⟨typeId, link.sourceId, link.targetId⟩ ∈ factory.triples spaces ∧
      ReflTransGen (Above (factory.triples spaces)) typeId link.typeId := by
  obtain ⟨href, hsubtype, htarget⟩ := findReference_eq_some hfound
  have hedge : ⟨ref.type, source, ref.node⟩ ∈ edges :=
    (hsound.represents.holds.references source sourceNode hnode true ref).mp href
  obtain ⟨typeNode, htype⟩ := hsound.nodeOf (hsound.represents.edge_lt hedge).1
  have htypeId : spaces.heap.idOf ref.type = some typeNode.id :=
    Option.map_eq_some_iff.mpr ⟨typeNode, htype, rfl⟩
  refine ⟨typeNode.id, (hsound.mem_triples hindexed).mpr ⟨_, hedge, htypeId, ?_, htarget⟩, ?_⟩
  · exact hsound.wellFormed.getNode_idOf hsource
  · exact hsound.reflTransGen_of_isSubtypeOf hindexed htypeId hsubtype

/-- Where nothing is found the link is not there. -/
theorem notMem_triples_of_notFound
    (hfound : findReference spaces.heap link.typeId link.targetId sourceNode.forwardReferences =
      some none) : link.triple ∉ factory.triples spaces := by
  intro hmem
  obtain ⟨edge, hedge, htype, hsourceId, htarget⟩ := (hsound.mem_triples hindexed).mp hmem
  have hsame : edge.source = source :=
    hindexed.idOf_inj hsourceId (hsound.wellFormed.getNode_idOf hsource)
  have href : ⟨edge.type, edge.target⟩ ∈ sourceNode.forwardReferences := by
    refine (hsound.represents.holds.references source sourceNode hnode true _).mpr ?_
    rw [← hsame]
    exact hedge
  exact Sound.notMem_of_findReference hfound htype htarget href

end

/-! ## §2  One link -/

/-- The type and the target are there, and what is cached is a type. -/
structure LinkFits (nodes : NodeId → Option (NodeView V)) (link : Link) : Prop where
  referenceType : IsOf nodes .referenceType link.typeId
  target : nodes link.targetId ≠ none
  definition : link.typeId = StandardId.hasTypeDefinition → IsType nodes link.targetId
  supertype : link.typeId = StandardId.hasSubtype → IsType nodes link.targetId →
    IsType nodes link.sourceId

/-- The link is added, and nothing else. -/
structure Adds (factory : GenericNodeFactory) (spaces : Spaces V) (link : Link)
    (spaces' : Spaces V) : Prop where
  new : link.triple ∉ factory.triples spaces
  fits : LinkFits (factory.nodeView spaces) link
  sound : ∃ edges, Sound factory spaces' edges
  indexed : factory.Indexed spaces'
  nodes : factory.nodeView spaces' = factory.nodeView spaces
  triples : factory.triples spaces' = insert link.triple (factory.triples spaces)

/-- **What adding a link does.** -/
theorem addLink_good (hsound : Sound factory spaces edges) (hindexed : factory.Indexed spaces)
    (hacyclic : link.typeId = StandardId.hasSubtype →
      ¬ ReflTransGen (Above (factory.triples spaces)) link.sourceId link.targetId)
    (h : factory.addLink spaces link = some (.good, spaces')) (hmissing : link.missing ≠ .good) :
    factory.nodeView spaces link.sourceId ≠ none ∧
      ((spaces' = spaces ∧
          ∃ typeId, ⟨typeId, link.sourceId, link.targetId⟩ ∈ factory.triples spaces ∧
            ReflTransGen (Above (factory.triples spaces)) typeId link.typeId) ∨
        Adds factory spaces link spaces') := by
  unfold addLink at h
  split at h
  · simp only [Option.some.injEq, Prod.mk.injEq] at h
    exact absurd h.1 hmissing
  · rename_i source hsource
    refine ⟨(getNode_isSome hsound).mp ⟨source, hsource⟩, ?_⟩
    obtain ⟨sourceNode, hnode, h⟩ := Option.bind_eq_some_iff.mp h
    obtain ⟨found, hfound, h⟩ := Option.bind_eq_some_iff.mp h
    cases found with
    | some ref =>
        cases h
        exact .inl ⟨rfl, exists_triple_of_found hsound hindexed hsource hnode hfound⟩
    | none =>
        obtain ⟨spaces₁, hadd, heq⟩ := Option.map_eq_some_iff.mp h
        cases heq
        obtain ⟨source', hsource', hadd⟩ := Option.bind_eq_some_iff.mp hadd
        obtain ⟨target, htarget, hadd⟩ := Option.bind_eq_some_iff.mp hadd
        obtain ⟨type, htype, hadd⟩ := Option.bind_eq_some_iff.mp hadd
        obtain rfl := Option.some.inj (hsource.symm.trans hsource')
        have hid := hsound.wellFormed.getNode_idOf (asClass_eq_some.mp htype).1
        have hsourceId := hsound.wellFormed.getNode_idOf hsource
        have htargetId := hsound.wellFormed.getNode_idOf htarget
        obtain ⟨heap, hheap, rfl⟩ := AddressSpaces.addReference_eq_some hadd
        have hsound' := hsound.addReference hid
          (hsound.noCycle_of_above hindexed hsourceId htargetId hacyclic) hheap
        obtain ⟨hdefinition, hsupertype⟩ := NodeHeap.classes_of_addReference hid hheap
        refine .inr ⟨notMem_triples_of_notFound hsound hindexed hsource hnode hfound,
          ⟨hsound.finds_iff.mp ⟨type, htype⟩, ?_, ?_, ?_⟩, ⟨_, hsound'⟩,
          hindexed.addReference hadd, nodeView_addReference hadd,
          hsound.triples_addReference hindexed hadd hsound' hid hsourceId htargetId⟩
        · exact (getNode_isSome hsound).mp ⟨target, htarget⟩
        · exact fun heq => (isType_iff hsound).mpr ⟨target, htarget, hdefinition heq⟩
        · intro heq hisType
          obtain ⟨target', htarget', hclass⟩ := (isType_iff hsound).mp hisType
          obtain rfl := Option.some.inj (htarget.symm.trans htarget')
          exact (isType_iff hsound).mpr ⟨source, hsource, hsupertype heq hclass⟩

/-- The link is there, or there is room for it. -/
structure HasRoomFor (factory : GenericNodeFactory) (spaces : Spaces V) (link : Link) : Prop where
  source : factory.nodeView spaces link.sourceId ≠ none
  fits : LinkFits (factory.nodeView spaces) link ∨ link.triple ∈ factory.triples spaces
  definition : link.typeId = StandardId.hasTypeDefinition →
    link.triple ∉ factory.triples spaces →
      ∀ targetId, ⟨StandardId.hasTypeDefinition, link.sourceId, targetId⟩ ∉ factory.triples spaces
  supertype : link.typeId = StandardId.hasSubtype →
    IsType (factory.nodeView spaces) link.targetId → link.triple ∉ factory.triples spaces →
      ∀ sourceId, ⟨StandardId.hasSubtype, sourceId, link.targetId⟩ ∉ factory.triples spaces

theorem HasRoomFor.fitsAt (hsound : Sound factory spaces edges)
    (hindexed : factory.Indexed spaces) (h : HasRoomFor factory spaces link)
    (hfits : LinkFits (factory.nodeView spaces) link) (hnew : link.triple ∉ factory.triples spaces)
    (hacyclic : link.typeId = StandardId.hasSubtype →
      ¬ ReflTransGen (Above (factory.triples spaces)) link.sourceId link.targetId)
    {source target : NodePtr} (hsource : factory.getNode spaces link.sourceId = some source)
    (htarget : factory.getNode spaces link.targetId = some target) :
    spaces.heap.Fits link.typeId source target := by
  have hsourceId := hsound.wellFormed.getNode_idOf hsource
  have htargetId := hsound.wellFormed.getNode_idOf htarget
  have hclass : ∀ {ptr : NodePtr} {node : Node (NodeData V)} {id : NodeId},
      factory.getNode spaces id = some ptr → spaces.heap.nodes ptr = some node →
        (IsType (factory.nodeView spaces) id ↔ node.nodeClass.isTypeDefinition = true) := by
    intro ptr node id hptr hnode
    rw [isType_iff hsound]
    simp [hptr, NodeHeap.classOf, hnode]
  refine ⟨fun sourceNode targetNode hsourceNode htargetNode => ⟨fun hcaches => ?_, ?_⟩,
    hsound.noCycle_of_above hindexed hsourceId htargetId hacyclic⟩
  · have htype : link.typeId = StandardId.hasTypeDefinition := hcaches
    have hid : sourceNode.id = link.sourceId := by
      rw [NodeHeap.idOf, hsourceNode, Option.map_some, Option.some_inj] at hsourceId
      exact hsourceId
    refine ⟨hsound.typeDefinition_eq_none hindexed hsourceNode ?_, ?_⟩
    · rw [hid]
      exact h.definition htype hnew
    · exact (hclass htarget htargetNode).mp (hfits.definition htype)
  · rintro ⟨hisType, htype⟩
    have hid : targetNode.id = link.targetId := by
      rw [NodeHeap.idOf, htargetNode, Option.map_some, Option.some_inj] at htargetId
      exact htargetId
    have hisType := (hclass htarget htargetNode).mpr hisType
    refine ⟨hsound.supertype_eq_none_of_triples hindexed htargetNode ?_, ?_⟩
    · rw [hid]
      exact h.supertype htype hisType hnew
    · exact (hclass hsource hsourceNode).mp (hfits.supertype htype hisType)

/-- **A link that has room is added.** -/
theorem addLink_of_room (hsound : Sound factory spaces edges) (hindexed : factory.Indexed spaces)
    (h : HasRoomFor factory spaces link)
    (hacyclic : link.typeId = StandardId.hasSubtype →
      ¬ ReflTransGen (Above (factory.triples spaces)) link.sourceId link.targetId) :
    ∃ spaces', factory.addLink spaces link = some (.good, spaces') := by
  obtain ⟨source, hsource⟩ := (getNode_isSome hsound).mpr h.source
  have hsafe : factory.LinkSafe spaces link := by
    intro source' sourceNode hsource' hnode hfound
    have hnew := notMem_triples_of_notFound hsound hindexed hsource' hnode hfound
    have hfits := h.fits.resolve_right hnew
    obtain ⟨target, htarget⟩ := (getNode_isSome hsound).mpr hfits.target
    exact ⟨target, hsound.finds_iff.mpr hfits.referenceType, htarget,
      h.fitsAt hsound hindexed hfits hnew hacyclic hsource' htarget⟩
  obtain ⟨status, spaces', hadd, -⟩ := addLink_returns hsound hsafe
  have hgood : status = .good := by
    rw [addLink, hsource] at hadd
    obtain ⟨sourceNode, -, hadd⟩ := Option.bind_eq_some_iff.mp hadd
    obtain ⟨found, -, hadd⟩ := Option.bind_eq_some_iff.mp hadd
    cases found with
    | some ref =>
        cases hadd
        rfl
    | none =>
        obtain ⟨spaces₁, -, heq⟩ := Option.map_eq_some_iff.mp hadd
        cases heq
        rfl
  exact ⟨spaces', hgood ▸ hadd⟩

/-! ## §3  Runs -/

/-- No reference that is asked for is below a link between the same nodes, and no type is
above itself. -/
structure LinksApart (asked : Set Triple) (links : List Link) : Prop where
  missing : ∀ link ∈ links, link.missing ≠ .good
  mem : ∀ link ∈ links, link.triple ∈ asked
  apart : ∀ link ∈ links, ∀ typeId, ⟨typeId, link.sourceId, link.targetId⟩ ∈ asked →
    ReflTransGen (Above asked) typeId link.typeId → typeId = link.typeId
  acyclic : ∀ id, ¬ TransGen (Above asked) id id

variable {asked : Set Triple} {links : List Link} {nodes : NodeId → Option (NodeView V)}

theorem above_mono {triples : Set Triple} (h : triples ⊆ asked) {id id' : NodeId}
    (habove : ReflTransGen (Above triples) id id') : ReflTransGen (Above asked) id id' :=
  habove.lift (fun id => id) fun _ _ hmem => h hmem

theorem LinksApart.noCycle (h : LinksApart asked links) (hlink : link ∈ links)
    {triples : Set Triple} (hwithin : triples ⊆ asked) (htype : link.typeId = StandardId.hasSubtype) :
    ¬ ReflTransGen (Above triples) link.sourceId link.targetId := by
  intro habove
  have hmem := h.mem link hlink
  have hstep : Above asked link.targetId link.sourceId := by
    rw [Above, ← htype]
    exact hmem
  exact h.acyclic link.targetId (.head' hstep (above_mono hwithin habove))

/-- Between two links. -/
structure Linking (factory : GenericNodeFactory) (asked : Set Triple)
    (nodes : NodeId → Option (NodeView V)) (spaces : Spaces V) : Prop where
  sound : ∃ edges, Sound factory spaces edges
  indexed : factory.Indexed spaces
  nodes : factory.nodeView spaces = nodes
  within : factory.triples spaces ⊆ asked

/-- One link is gone through. -/
theorem Linking.step (h : Linking factory asked nodes spaces) (hapart : LinksApart asked links)
    (hlink : link ∈ links) (hadd : factory.addLink spaces link = some (.good, spaces')) :
    Linking factory asked nodes spaces' ∧
      factory.triples spaces' = insert link.triple (factory.triples spaces) ∧
      nodes link.sourceId ≠ none ∧
        (link.triple ∈ factory.triples spaces ∨ LinkFits nodes link) := by
  obtain ⟨edges, hsound⟩ := h.sound
  obtain ⟨hsource, ⟨rfl, typeId, hmem, habove⟩ | hadds⟩ := addLink_good hsound h.indexed
    (hapart.noCycle hlink h.within) hadd (hapart.missing link hlink)
  · -- The reference that was found is the link itself.
    have htype : typeId = link.typeId :=
      hapart.apart link hlink typeId (h.within hmem) (above_mono h.within habove)
    rw [htype] at hmem
    refine ⟨h, (Set.insert_eq_of_mem hmem).symm, ?_, .inl hmem⟩
    rwa [← h.nodes]
  · refine ⟨⟨hadds.sound, hadds.indexed, hadds.nodes.trans h.nodes, ?_⟩, hadds.triples, ?_,
      .inr (h.nodes ▸ hadds.fits)⟩
    · rw [hadds.triples]
      exact Set.insert_subset (hapart.mem link hlink) h.within
    · rwa [← h.nodes]

theorem LinkFits.congr {link' : Link} (h : LinkFits nodes link)
    (heq : link'.triple = link.triple) : LinkFits nodes link' := by
  obtain ⟨missing, typeId, sourceId, targetId⟩ := link
  obtain ⟨missing', typeId', sourceId', targetId'⟩ := link'
  cases heq
  exact ⟨h.referenceType, h.target, h.definition, h.supertype⟩

/-- What a run over links leaves behind, and what it says of each link. -/
theorem Linking.run (hapart : LinksApart asked links) {rest : List Link}
    (h : Linking factory asked nodes spaces) (hrest : ∀ link ∈ rest, link ∈ links)
    (hadd : applyAll factory.addLink rest spaces = some (.good, spaces')) :
    Linking factory asked nodes spaces' ∧
      factory.triples spaces' = factory.triples spaces ∪ {triple | ∃ link ∈ rest, link.triple = triple} ∧
      ∀ link ∈ rest, nodes link.sourceId ≠ none ∧
        (link.triple ∈ factory.triples spaces ∨ LinkFits nodes link) := by
  induction rest generalizing spaces with
  | nil =>
      cases hadd
      exact ⟨h, by simp, fun _ hmem => (nomatch hmem)⟩
  | cons link rest ih =>
      obtain ⟨hlink, hrest⟩ := List.forall_mem_cons.mp hrest
      rcases andThen_eq_some.mp hadd with ⟨spaces₁, hfirst, hlater⟩ | ⟨hbad, -⟩
      · obtain ⟨hnext, htriples, hsource, hfits⟩ := h.step hapart hlink hfirst
        obtain ⟨hlast, htriples', hlinks⟩ := ih hnext hrest hlater
        refine ⟨hlast, ?_, List.forall_mem_cons.mpr ⟨⟨hsource, hfits⟩, fun other hother => ?_⟩⟩
        · rw [htriples', htriples]
          ext triple
          simp only [Set.mem_union, Set.mem_insert_iff, Set.mem_ofPred_eq, List.mem_cons,
            exists_eq_or_imp]
          tauto
        · obtain ⟨hotherSource, hotherFits⟩ := hlinks other hother
          refine ⟨hotherSource, ?_⟩
          rw [htriples, Set.mem_insert_iff] at hotherFits
          rcases hotherFits with (heq | hmem) | hotherFits
          · rw [heq]
            exact hfits.imp_right fun hfits => hfits.congr heq
          · exact .inl hmem
          · exact .inr hotherFits
      · exact absurd rfl hbad

/-! ## §4  Another order -/

/-- A type has at most one supertype among the references. -/
def OneSupertype (nodes : NodeId → Option (NodeView V)) (triples : Set Triple) : Prop :=
  ∀ sourceId sourceId' targetId, IsType nodes targetId →
    ⟨StandardId.hasSubtype, sourceId, targetId⟩ ∈ triples →
      ⟨StandardId.hasSubtype, sourceId', targetId⟩ ∈ triples → sourceId = sourceId'

theorem oneSupertype_triples (hsound : Sound factory spaces edges)
    (hindexed : factory.Indexed spaces) :
    OneSupertype (factory.nodeView spaces) (factory.triples spaces) := by
  intro sourceId sourceId' targetId hisType hmem hmem'
  cases hview : factory.nodeView spaces targetId with
  | none => simp [IsType, hview] at hisType
  | some view =>
      rw [IsType, hview, Option.any_some] at hisType
      exact hsound.supertype_unique hindexed hview hisType hmem hmem'

/-- Where links go through to these references. -/
structure LeadsTo (nodes : NodeId → Option (NodeView V)) (start triples : Set Triple)
    (links : List Link) : Prop where
  oneDefinition : OneDefinition triples
  oneSupertype : OneSupertype nodes triples
  mem : ∀ link ∈ links, link.triple ∈ triples
  source : ∀ link ∈ links, nodes link.sourceId ≠ none
  fits : ∀ link ∈ links, link.triple ∈ start ∨ LinkFits nodes link

theorem LeadsTo.hasRoomFor {start triples : Set Triple} (h : LeadsTo nodes start triples links)
    (hlinking : Linking factory asked nodes spaces) (hstart : start ⊆ factory.triples spaces)
    (hwithin : factory.triples spaces ⊆ triples) (hlink : link ∈ links) :
    HasRoomFor factory spaces link := by
  have hmem := h.mem link hlink
  constructor
  case source =>
    rw [hlinking.nodes]
    exact h.source link hlink
  case fits =>
    rw [hlinking.nodes]
    exact (h.fits link hlink).symm.imp_right fun hmem => hstart hmem
  case definition =>
    intro htype hnew targetId hother
    rw [Link.triple, htype] at hmem hnew
    have heq : targetId = link.targetId := h.oneDefinition _ _ _ (hwithin hother) hmem
    exact hnew (heq ▸ hother)
  case supertype =>
    intro htype hisType hnew sourceId hother
    rw [hlinking.nodes] at hisType
    rw [Link.triple, htype] at hmem hnew
    have heq : sourceId = link.sourceId := h.oneSupertype _ _ _ hisType (hwithin hother) hmem
    exact hnew (heq ▸ hother)

/-- **The links are added in any order.** -/
theorem LeadsTo.run {start triples : Set Triple} (h : LeadsTo nodes start triples links)
    (hapart : LinksApart asked links) {rest : List Link} (hrest : ∀ link ∈ rest, link ∈ links)
    (hlinking : Linking factory asked nodes spaces) (hstart : start ⊆ factory.triples spaces)
    (hwithin : factory.triples spaces ⊆ triples) :
    ∃ spaces', applyAll factory.addLink rest spaces = some (.good, spaces') ∧
      Linking factory asked nodes spaces' ∧ factory.triples spaces' =
        factory.triples spaces ∪ {triple | ∃ link ∈ rest, link.triple = triple} := by
  suffices hrun : ∃ spaces', applyAll factory.addLink rest spaces = some (.good, spaces') by
    obtain ⟨spaces', hadd⟩ := hrun
    obtain ⟨hlast, htriples, -⟩ := hlinking.run hapart hrest hadd
    exact ⟨spaces', hadd, hlast, htriples⟩
  induction rest generalizing spaces with
  | nil => exact ⟨spaces, rfl⟩
  | cons link rest ih =>
      obtain ⟨hlink, hrest⟩ := List.forall_mem_cons.mp hrest
      obtain ⟨edges, hsound⟩ := hlinking.sound
      obtain ⟨spaces₁, hfirst⟩ := addLink_of_room hsound hlinking.indexed
        (h.hasRoomFor hlinking hstart hwithin hlink) (hapart.noCycle hlink hlinking.within)
      obtain ⟨hnext, htriples, -⟩ := hlinking.step hapart hlink hfirst
      have hstart' : start ⊆ factory.triples spaces₁ := by
        rw [htriples]
        exact hstart.trans (Set.subset_insert _ _)
      have hwithin' : factory.triples spaces₁ ⊆ triples := by
        rw [htriples]
        exact Set.insert_subset (h.mem link hlink) hwithin
      obtain ⟨spaces', hlater⟩ := ih hrest hnext hstart' hwithin'
      exact ⟨spaces', andThen_eq_some.mpr (.inl ⟨spaces₁, hfirst, hlater⟩)⟩

end GenericNodeFactory

end ScadaCommon.AddressSpace
