import ScadaCommon.AddressSpace.ViewServiceImpl

/-!
# Translating browse paths

`TranslateBrowsePaths` follows a path from a node, element by element. For each element it
takes the first reference that has the type and leads to the bare name, and it never comes
back to take another one.

§1 the code · §2 chains and the walk · §3 the walk of the code · §4 the walk along chains ·
§5 the result.
-/

namespace ScadaCommon.AddressSpace

open Foundation GenericNodeFactory

variable {V : Type}

/-! ## §1  The code -/

structure RelativePathElement where
  referenceTypeId : NodeId
  inverse : Bool := false
  includeSubtypes : Bool := true
  targetName : QualifiedName

/-- The targets with `remaining_path_index`. -/
structure BrowsePathResult where
  statusCode : ViewStatusCode
  targets : List (NodeId × ℕ) := []
deriving DecidableEq

namespace GenericNodeFactory

variable (factory : GenericNodeFactory) (heap : NodeHeap (NodeData V))

/-- The loop over the references of a node. -/
def firstTarget (element : RelativePathElement) : List Reference → Option (Option NodePtr)
  | [] => some none
  | ref :: refs => do
      match ← isRefSubtypeOf heap element.referenceTypeId element.includeSubtypes ref with
      | false => firstTarget element refs
      | true =>
          let target ← heap.nodes ref.node
          let browseName ← factory.getBrowseName target
          if browseName.name = element.targetName.name then return some ref.node
          firstTarget element refs

def translateBrowsePathHelper2 (ptr : NodePtr) (element : RelativePathElement) :
    Option (Option NodePtr) := do
  let node ← heap.nodes ptr
  factory.firstTarget heap element (node.references !element.inverse)

/-- The loop over the elements: the node where it ends and the number of elements. -/
def translateElements : NodePtr → ℕ → List RelativePathElement → Option (NodePtr × ℕ)
  | current, i, [] => some (current, i)
  | current, i, element :: elements => do
      match ← factory.translateBrowsePathHelper2 heap current element with
      | none => return (current, i)
      | some next => translateElements next (i + 1) elements

def translateBrowsePathHelper (ptr : NodePtr) :
    List RelativePathElement → Option BrowsePathResult
  | [] => some ⟨.badNothingToDo, []⟩
  | element :: elements => do
      match ← factory.translateBrowsePathHelper2 heap ptr element with
      | none => return ⟨.badBrowseNameInvalid, []⟩
      | some first =>
          let (current, i) ← factory.translateElements heap first 1 elements
          let node ← heap.nodes current
          return ⟨.good, [(node.id, i)]⟩

/-- `SyncViewServiceImpl::TranslateBrowsePath`. Nothing is returned when it runs for ever. -/
def translateBrowsePath (spaces : Spaces V) (nodeId : NodeId)
    (relativePath : List RelativePathElement) : Option BrowsePathResult :=
  match factory.getNode spaces nodeId with
  | none => some ⟨.badWrongNodeId, []⟩
  | some ptr => factory.translateBrowsePathHelper spaces.heap ptr relativePath

/-! ## §2  Chains and the walk -/

/-- A reference of the node matches the element, with the namespace of the name, and leads
to `next`. -/
def Matches (ptr : NodePtr) (element : RelativePathElement) (next : NodePtr) : Prop :=
  ∃ node ref target, heap.nodes ptr = some node ∧ ref ∈ node.references !element.inverse ∧
    isRefSubtypeOf heap element.referenceTypeId element.includeSubtypes ref = some true ∧
    ref.node = next ∧ heap.nodes next = some target ∧
    factory.shownBrowseName target = element.targetName

/-- A chain of references that match all elements. -/
def Chain : List RelativePathElement → NodePtr → NodePtr → Prop
  | [], start, last => start = last
  | element :: elements, start, last =>
      ∃ next, factory.Matches heap start element next ∧ Chain elements next last

/-- The reference has the type of the element and leads to its bare name. -/
def Hits (element : RelativePathElement) (ref : Reference) : Prop :=
  isRefSubtypeOf heap element.referenceTypeId element.includeSubtypes ref = some true ∧
    ∃ target, heap.nodes ref.node = some target ∧
      (factory.shownBrowseName target).name = element.targetName.name

/-- The reference has another type or leads to another name. -/
def Misses (element : RelativePathElement) (ref : Reference) : Prop :=
  isRefSubtypeOf heap element.referenceTypeId element.includeSubtypes ref = some false ∨
    isRefSubtypeOf heap element.referenceTypeId element.includeSubtypes ref = some true ∧
      ∃ target, heap.nodes ref.node = some target ∧
        (factory.shownBrowseName target).name ≠ element.targetName.name

/-- The first reference that hits leads to `next`. -/
def FirstStep (ptr : NodePtr) (element : RelativePathElement) (next : NodePtr) : Prop :=
  ∃ node before ref after, heap.nodes ptr = some node ∧
    node.references (!element.inverse) = before ++ ref :: after ∧
    (∀ other ∈ before, factory.Misses heap element other) ∧ factory.Hits heap element ref ∧
    ref.node = next

def NoStep (ptr : NodePtr) (element : RelativePathElement) : Prop :=
  ∃ node, heap.nodes ptr = some node ∧
    ∀ ref ∈ node.references !element.inverse, factory.Misses heap element ref

/-- The walk along the first references, until an element has none or no element is left;
the number of elements that it takes and the node where it ends. -/
inductive Walk : List RelativePathElement → NodePtr → ℕ → NodePtr → Prop
  | done {ptr : NodePtr} : Walk [] ptr 0 ptr
  | stop {ptr : NodePtr} {element : RelativePathElement} {elements : List RelativePathElement} :
      factory.NoStep heap ptr element → Walk (element :: elements) ptr 0 ptr
  | step {ptr next last : NodePtr} {element : RelativePathElement}
      {elements : List RelativePathElement} {k : ℕ} :
      factory.FirstStep heap ptr element next → Walk elements next k last →
        Walk (element :: elements) ptr (k + 1) last

/-- **What a translation is for**: where a chain matches the whole path it finds the end of
one, and a target is the end of a chain that matches the elements that were taken. -/
structure Translates (ptr : NodePtr) (path : List RelativePathElement)
    (result : Option BrowsePathResult) : Prop where
  complete : (∃ last, factory.Chain heap path ptr last) →
    ∃ last id, factory.Chain heap path ptr last ∧ heap.idOf last = some id ∧
      result = some ⟨.good, [(id, path.length)]⟩
  sound : ∀ r, result = some r → ∀ target ∈ r.targets,
    ∃ last, heap.idOf last = some target.1 ∧ factory.Chain heap (path.take target.2) ptr last

/-- A chain for the elements before this one leads to a node. -/
def ComesTo (ptr : NodePtr) (path : List RelativePathElement) (element : RelativePathElement)
    (here : NodePtr) : Prop :=
  ∃ before after, path = before ++ element :: after ∧ factory.Chain heap before ptr here

/-- Nothing leads the search astray, at any node that a chain for the elements before leads to:
what has the type and the bare name of the element has the namespace of the name, too, and
where a chain matches the whole path, no such node is a dead end. -/
structure Unambiguous (ptr : NodePtr) (path : List RelativePathElement) : Prop where
  /-- The supertypes of the reference types end. -/
  decided : ∀ element here, factory.ComesTo heap ptr path element here →
    ∀ node, heap.nodes here = some node → ∀ ref ∈ node.references !element.inverse,
      factory.Hits heap element ref ∨ factory.Misses heap element ref
  full : ∀ element here, factory.ComesTo heap ptr path element here →
    ∀ node, heap.nodes here = some node → ∀ ref ∈ node.references !element.inverse,
      factory.Hits heap element ref → factory.Matches heap here element ref.node
  onward : (∃ last, factory.Chain heap path ptr last) →
    ∀ element here, factory.ComesTo heap ptr path element here →
      ∃ next, factory.Matches heap here element next

/-! ## §3  The walk of the code -/

section

variable {factory : GenericNodeFactory} {heap : NodeHeap (NodeData V)}
  {spaces : Spaces V} {ptr next last : NodePtr} {element : RelativePathElement}
  {elements path : List RelativePathElement} {k : ℕ}

/-- Nothing both hits and misses. -/
theorem Hits.not_misses {ref : Reference} (h : factory.Hits heap element ref) :
    ¬ factory.Misses heap element ref := by
  obtain ⟨htype, target, htarget, hname⟩ := h
  rintro (hother | ⟨-, other, hother, hne⟩)
  · cases htype.symm.trans hother
  · cases htarget.symm.trans hother
    exact hne hname

/-- What matches also hits. -/
theorem Matches.hits (h : factory.Matches heap ptr element next) :
    ∃ node ref, heap.nodes ptr = some node ∧ ref ∈ node.references (!element.inverse) ∧
      factory.Hits heap element ref ∧ ref.node = next := by
  obtain ⟨node, ref, target, hnode, href, htype, rfl, htarget, hname⟩ := h
  exact ⟨node, ref, hnode, href, ⟨htype, target, htarget, congrArg _ hname⟩, rfl⟩

theorem NoStep.not_matches (h : factory.NoStep heap ptr element) :
    ¬ factory.Matches heap ptr element next := by
  intro hmatches
  obtain ⟨node, ref, hnode, href, hhits, -⟩ := hmatches.hits
  obtain ⟨other, hother, hmisses⟩ := h
  cases hnode.symm.trans hother
  exact hhits.not_misses (hmisses ref href)

/-- The references lead to nodes that have ids. -/
def Leads (heap : NodeHeap (NodeData V)) (refs : List Reference) : Prop :=
  ∀ ref ∈ refs, ∃ target, heap.nodes ref.node = some target ∧ target.id ≠ .null

/-- One reference of the loop. -/
theorem firstTarget_cons {ref : Reference} {refs : List Reference} {target : Node (NodeData V)}
    (htarget : heap.nodes ref.node = some target) (hid : target.id ≠ .null) :
    factory.firstTarget heap element (ref :: refs) =
      (isRefSubtypeOf heap element.referenceTypeId element.includeSubtypes ref).bind fun isMatch =>
        if isMatch = true ∧ (factory.shownBrowseName target).name = element.targetName.name then
          some (some ref.node)
        else factory.firstTarget heap element refs := by
  rw [firstTarget]
  refine Option.bind_congr fun isMatch _ => ?_
  cases isMatch with
  | false => simp
  | true => simp [htarget, getBrowseName_eq hid]

/-- The loop finds the first reference that hits. -/
theorem firstTarget_eq_some_iff {refs : List Reference} (hleads : Leads heap refs) :
    factory.firstTarget heap element refs = some (some next) ↔
      ∃ before ref after, refs = before ++ ref :: after ∧
        (∀ other ∈ before, factory.Misses heap element other) ∧
        factory.Hits heap element ref ∧ ref.node = next := by
  induction refs with
  | nil =>
      refine iff_of_false nofun ?_
      rintro ⟨before, ref, after, hnil, -⟩
      exact absurd hnil.symm (List.append_ne_nil_of_right_ne_nil before (List.cons_ne_nil _ _))
  | cons ref refs ih =>
      obtain ⟨⟨target, htarget, hid⟩, hleads⟩ := List.forall_mem_cons.mp hleads
      rw [firstTarget_cons htarget hid]
      constructor
      · intro h
        obtain ⟨isMatch, htype, h⟩ := Option.bind_eq_some_iff.mp h
        by_cases hhit : isMatch = true ∧
            (factory.shownBrowseName target).name = element.targetName.name
        · rw [if_pos hhit] at h
          cases h
          obtain ⟨rfl, hname⟩ := hhit
          exact ⟨[], ref, refs, rfl, nofun, ⟨htype, target, htarget, hname⟩, rfl⟩
        · rw [if_neg hhit] at h
          obtain ⟨before, first, after, rfl, hmisses, hhits, hnext⟩ := (ih hleads).mp h
          refine ⟨ref :: before, first, after, rfl, ?_, hhits, hnext⟩
          refine List.forall_mem_cons.mpr ⟨?_, hmisses⟩
          cases isMatch with
          | false => exact .inl htype
          | true => exact .inr ⟨htype, target, htarget, fun hname => hhit ⟨rfl, hname⟩⟩
      · rintro ⟨before, first, after, hrefs, hmisses, hhits, rfl⟩
        cases before with
        | nil =>
            cases hrefs
            obtain ⟨htype, other, hother, hname⟩ := hhits
            cases htarget.symm.trans hother
            rw [htype, Option.bind_some, if_pos ⟨rfl, hname⟩]
        | cons other before =>
            cases hrefs
            obtain ⟨hmiss, hmisses⟩ := List.forall_mem_cons.mp hmisses
            have hrest := (ih hleads).mpr ⟨before, first, after, rfl, hmisses, hhits, rfl⟩
            rcases hmiss with htype | ⟨htype, other', hother, hne⟩
            · rw [htype, Option.bind_some, if_neg (by simp), hrest]
            · cases htarget.symm.trans hother
              rw [htype, Option.bind_some, if_neg fun hhit => hne hhit.2, hrest]

theorem firstTarget_eq_none_iff {refs : List Reference} (hleads : Leads heap refs) :
    factory.firstTarget heap element refs = some none ↔
      ∀ ref ∈ refs, factory.Misses heap element ref := by
  induction refs with
  | nil => exact iff_of_true rfl nofun
  | cons ref refs ih =>
      obtain ⟨⟨target, htarget, hid⟩, hleads⟩ := List.forall_mem_cons.mp hleads
      rw [firstTarget_cons htarget hid, List.forall_mem_cons, ← ih hleads]
      cases htype : isRefSubtypeOf heap element.referenceTypeId element.includeSubtypes ref with
      | none => simp [Misses, htype]
      | some isMatch =>
          cases isMatch with
          | false => simp [Misses, htype]
          | true =>
              by_cases hname : (factory.shownBrowseName target).name = element.targetName.name
              · simp [Misses, htype, htarget, hname]
              · simp [Misses, htype, htarget, hname]

/-- All references lead to nodes that have ids. -/
def AllLead (heap : NodeHeap (NodeData V)) : Prop :=
  ∀ ptr node, heap.nodes ptr = some node → ∀ forward, Leads heap (node.references forward)

theorem Readable.allLead {edges : Set Edge} (h : factory.Readable spaces)
    (hrepresents : spaces.heap.Represents edges) : AllLead spaces.heap := by
  intro ptr node hnode forward ref href
  have hhalf := (hrepresents.holds.references ptr node hnode forward ref).mp href
  have hother : ⟨ref.node, !forward, ⟨ref.type, ptr⟩⟩ ∈ NodeHeap.halvesOf edges := by
    cases forward <;> exact hhalf
  obtain ⟨target, htarget⟩ := NodeHeap.alive_iff.mp (hrepresents.holds.alive _ hother)
  exact ⟨target, htarget, h.named ref.node target htarget⟩

theorem helper2_eq_some_iff (hall : AllLead heap) :
    factory.translateBrowsePathHelper2 heap ptr element = some (some next) ↔
      factory.FirstStep heap ptr element next := by
  unfold translateBrowsePathHelper2 FirstStep
  cases hnode : heap.nodes ptr with
  | none => simp
  | some node =>
      have hfirst : factory.firstTarget heap element (node.references !element.inverse) =
          some (some next) ↔ _ := firstTarget_eq_some_iff (hall ptr node hnode _)
      simp [hfirst]

theorem helper2_eq_none_iff (hall : AllLead heap) :
    factory.translateBrowsePathHelper2 heap ptr element = some none ↔
      factory.NoStep heap ptr element := by
  unfold translateBrowsePathHelper2 NoStep
  cases hnode : heap.nodes ptr with
  | none => simp
  | some node =>
      have hfirst : factory.firstTarget heap element (node.references !element.inverse) =
          some none ↔ _ := firstTarget_eq_none_iff (hall ptr node hnode _)
      simp [hfirst]

/-- The loop over the elements is the walk. -/
theorem translateElements_eq_some_iff (hall : AllLead heap) {current : NodePtr} {i j : ℕ} :
    factory.translateElements heap current i elements = some (last, j) ↔
      ∃ k, j = i + k ∧ factory.Walk heap elements current k last := by
  induction elements generalizing current i j with
  | nil =>
      constructor
      · intro h
        cases h
        exact ⟨0, rfl, .done⟩
      · rintro ⟨k, rfl, hwalk⟩
        cases hwalk
        rfl
  | cons element elements ih =>
      constructor
      · intro h
        obtain ⟨found, hfound, h⟩ := Option.bind_eq_some_iff.mp h
        cases found with
        | none =>
            cases h
            exact ⟨0, rfl, .stop ((helper2_eq_none_iff hall).mp hfound)⟩
        | some next =>
            obtain ⟨k, rfl, hwalk⟩ := ih.mp h
            exact ⟨k + 1, by omega, .step ((helper2_eq_some_iff hall).mp hfound) hwalk⟩
      · rintro ⟨k, rfl, hwalk⟩
        cases hwalk with
        | stop hstop => simp [translateElements, (helper2_eq_none_iff hall).mpr hstop]
        | step hfirst hwalk =>
            rename_i next k
            have hrest : factory.translateElements heap next (i + 1) elements =
                some (last, i + 1 + k) := ih.mpr ⟨k, rfl, hwalk⟩
            simp [translateElements, (helper2_eq_some_iff hall).mpr hfirst, hrest, Nat.add_assoc,
              Nat.add_comm 1]

theorem FirstStep.alive (hall : AllLead heap) (h : factory.FirstStep heap ptr element next) :
    ∃ node, heap.nodes next = some node := by
  obtain ⟨node, before, ref, after, hnode, hrefs, -, -, rfl⟩ := h
  have hmem : ref ∈ node.references !element.inverse := by simp [hrefs]
  obtain ⟨target, htarget, -⟩ := hall ptr node hnode _ ref hmem
  exact ⟨target, htarget⟩

theorem Walk.alive (hall : AllLead heap) (h : factory.Walk heap path ptr k last)
    (hptr : ∃ node, heap.nodes ptr = some node) : ∃ node, heap.nodes last = some node := by
  induction h with
  | done => exact hptr
  | stop _ => exact hptr
  | step hfirst _ ih => exact ih (hfirst.alive hall)

/-! ## §4  The walk along chains -/

theorem chain_append {before after : List RelativePathElement} {ptr last : NodePtr} :
    factory.Chain heap (before ++ after) ptr last ↔
      ∃ here, factory.Chain heap before ptr here ∧ factory.Chain heap after here last := by
  induction before generalizing ptr with
  | nil => exact ⟨fun h => ⟨ptr, rfl, h⟩, fun ⟨_, hptr, h⟩ => hptr ▸ h⟩
  | cons element before ih =>
      constructor
      · rintro ⟨next, hmatches, hrest⟩
        obtain ⟨here, hbefore, hafter⟩ := ih.mp hrest
        exact ⟨here, ⟨next, hmatches, hbefore⟩, hafter⟩
      · rintro ⟨here, ⟨next, hmatches, hbefore⟩, hafter⟩
        exact ⟨next, hmatches, ih.mpr ⟨here, hbefore, hafter⟩⟩

/-- The first of the references that hit. -/
theorem exists_first_hit {refs : List Reference}
    (hdecided : ∀ ref ∈ refs, factory.Hits heap element ref ∨ factory.Misses heap element ref)
    (hhit : ∃ ref ∈ refs, factory.Hits heap element ref) :
    ∃ before ref after, refs = before ++ ref :: after ∧
      (∀ other ∈ before, factory.Misses heap element other) ∧ factory.Hits heap element ref := by
  induction refs with
  | nil =>
      obtain ⟨ref, href, -⟩ := hhit
      cases href
  | cons ref refs ih =>
      obtain ⟨hfirst, hdecided⟩ := List.forall_mem_cons.mp hdecided
      rcases hfirst with hfirst | hfirst
      · exact ⟨[], ref, refs, rfl, nofun, hfirst⟩
      · have hrest : ∃ other ∈ refs, factory.Hits heap element other := by
          obtain ⟨other, hother, hhits⟩ := hhit
          rcases List.mem_cons.mp hother with rfl | hother
          · exact absurd hfirst hhits.not_misses
          · exact ⟨other, hother, hhits⟩
        obtain ⟨before, first, after, rfl, hbefore, hhits⟩ := ih hdecided hrest
        exact ⟨ref :: before, first, after, rfl, List.forall_mem_cons.mpr ⟨hfirst, hbefore⟩, hhits⟩

/-- The first reference that hits matches, or none hits. -/
theorem Unambiguous.step_or_stop (h : factory.Unambiguous heap ptr path) {here : NodePtr}
    (hcomes : factory.ComesTo heap ptr path element here)
    (halive : ∃ node, heap.nodes here = some node) :
    (∃ next, factory.FirstStep heap here element next ∧ factory.Matches heap here element next) ∨
      factory.NoStep heap here element := by
  obtain ⟨node, hnode⟩ := halive
  have hdecided := h.decided element here hcomes node hnode
  by_cases hhit : ∃ ref ∈ node.references !element.inverse, factory.Hits heap element ref
  · obtain ⟨passed, ref, rest, hrefs, hpassed, hhits⟩ := exists_first_hit hdecided hhit
    have href : ref ∈ node.references !element.inverse := by simp [hrefs]
    exact Or.inl ⟨ref.node, ⟨node, passed, ref, rest, hnode, hrefs, hpassed, hhits, rfl⟩,
      h.full element here hcomes node hnode ref href hhits⟩
  · refine Or.inr ⟨node, hnode, fun ref href => (hdecided ref href).resolve_left ?_⟩
    exact fun hhits => hhit ⟨ref, href, hhits⟩

/-- Along a path that is unambiguous the walk is along a chain, and it comes to the end of the
path if any chain does. -/
theorem Unambiguous.exists_walk (h : factory.Unambiguous heap ptr path) (hall : AllLead heap)
    {rest before : List RelativePathElement} {here : NodePtr} (hpath : path = before ++ rest)
    (hchain : factory.Chain heap before ptr here) (halive : ∃ node, heap.nodes here = some node) :
    ∃ k last, factory.Walk heap rest here k last ∧
      factory.Chain heap (rest.take k) here last ∧
      ((∃ end_, factory.Chain heap path ptr end_) → k = rest.length) := by
  induction rest generalizing before here with
  | nil => exact ⟨0, here, .done, rfl, fun _ => rfl⟩
  | cons element rest ih =>
      have hcomes : factory.ComesTo heap ptr path element here := ⟨before, rest, hpath, hchain⟩
      rcases h.step_or_stop hcomes halive with ⟨next, hfirst, hmatches⟩ | hstop
      · have hsplit : path = (before ++ [element]) ++ rest := by
          rw [hpath, List.append_assoc, List.singleton_append]
        have hone : factory.Chain heap [element] here next := ⟨next, hmatches, rfl⟩
        obtain ⟨k, last, hwalk, htaken, hend⟩ :=
          ih hsplit (chain_append.mpr ⟨here, hchain, hone⟩) (hfirst.alive hall)
        refine ⟨k + 1, last, .step hfirst hwalk, ⟨next, hmatches, htaken⟩, fun hwhole => ?_⟩
        rw [hend hwhole, List.length_cons]
      · refine ⟨0, here, .stop hstop, rfl, fun hwhole => ?_⟩
        obtain ⟨next, hmatches⟩ := h.onward hwhole element here hcomes
        exact absurd hmatches hstop.not_matches

/-! ## §5  The result -/

/-- A walk that takes no element gives no target. -/
theorem translate_of_stop (hall : AllLead heap)
    (h : factory.Walk heap (element :: elements) ptr 0 last) :
    factory.translateBrowsePathHelper heap ptr (element :: elements) =
      some ⟨.badBrowseNameInvalid, []⟩ := by
  cases h with
  | stop hstop => simp [translateBrowsePathHelper, (helper2_eq_none_iff hall).mpr hstop]

/-- Any other gives the node where it ends. -/
theorem translate_of_step (hall : AllLead heap)
    (h : factory.Walk heap (element :: elements) ptr (k + 1) last) {id : NodeId}
    (hid : heap.idOf last = some id) :
    factory.translateBrowsePathHelper heap ptr (element :: elements) =
      some ⟨.good, [(id, k + 1)]⟩ := by
  obtain ⟨node, hnode, rfl⟩ := Option.map_eq_some_iff.mp hid
  cases h with
  | step hfirst hwalk =>
      rename_i next
      have hrest : factory.translateElements heap next 1 elements = some (last, 1 + k) :=
        (translateElements_eq_some_iff hall).mpr ⟨k, rfl, hwalk⟩
      simp [translateBrowsePathHelper, (helper2_eq_some_iff hall).mpr hfirst, hrest, hnode,
        Nat.add_comm 1]

/-- **A path is translated** as it should be where nothing leads the search astray. -/
theorem translateBrowsePath_translates {edges : Set Edge} {nodeId : NodeId}
    (h : factory.Readable spaces) (hrepresents : spaces.heap.Represents edges)
    (hptr : factory.getNode spaces nodeId = some ptr) (hpath : path ≠ [])
    (hclear : factory.Unambiguous spaces.heap ptr path) :
    factory.Translates spaces.heap ptr path (factory.translateBrowsePath spaces nodeId path) := by
  obtain ⟨element, elements, rfl⟩ := List.exists_cons_of_ne_nil hpath
  have hall := h.allLead hrepresents
  have halive := h.getNode_alive hptr
  have hstart : factory.Chain spaces.heap [] ptr ptr := rfl
  obtain ⟨k, last, hwalk, htaken, hend⟩ :=
    hclear.exists_walk hall (List.nil_append _).symm hstart halive
  unfold translateBrowsePath
  rw [hptr]
  show factory.Translates spaces.heap ptr (element :: elements)
    (factory.translateBrowsePathHelper spaces.heap ptr (element :: elements))
  cases k with
  | zero =>
      rw [translate_of_stop hall hwalk]
      constructor
      case complete =>
        intro hwhole
        exact absurd (hend hwhole) (by simp)
      case sound =>
        rintro r ⟨⟩ target htarget
        cases htarget
  | succ k =>
      obtain ⟨lastNode, hlast⟩ := hwalk.alive hall halive
      have hid : spaces.heap.idOf last = some lastNode.id := by
        rw [NodeHeap.idOf, hlast, Option.map_some]
      rw [translate_of_step hall hwalk hid]
      constructor
      case complete =>
        intro hwhole
        have hlength := hend hwhole
        rw [hlength, List.take_length] at htaken
        exact ⟨last, lastNode.id, htaken, hid, by rw [hlength]⟩
      case sound =>
        rintro r ⟨⟩ target htarget
        obtain rfl := List.mem_singleton.mp htarget
        exact ⟨last, hid, htaken⟩

instance (element : RelativePathElement) (ref : Reference) :
    Decidable (factory.Hits heap element ref) :=
  decidable_of_iff (isRefSubtypeOf heap element.referenceTypeId element.includeSubtypes ref =
      some true ∧ ∃ target ∈ (heap.nodes ref.node).toList,
        (factory.shownBrowseName target).name = element.targetName.name)
    (by simp [Hits])

instance (element : RelativePathElement) (ref : Reference) :
    Decidable (factory.Misses heap element ref) :=
  decidable_of_iff
    (isRefSubtypeOf heap element.referenceTypeId element.includeSubtypes ref = some false ∨
      isRefSubtypeOf heap element.referenceTypeId element.includeSubtypes ref = some true ∧
        ∃ target ∈ (heap.nodes ref.node).toList,
          (factory.shownBrowseName target).name ≠ element.targetName.name)
    (by simp [Misses])

instance (ptr : NodePtr) (element : RelativePathElement) (next : NodePtr) :
    Decidable (factory.Matches heap ptr element next) :=
  decidable_of_iff (∃ node ∈ (heap.nodes ptr).toList, ∃ ref ∈ node.references !element.inverse,
      isRefSubtypeOf heap element.referenceTypeId element.includeSubtypes ref = some true ∧
        ref.node = next ∧ ∃ target ∈ (heap.nodes next).toList,
          factory.shownBrowseName target = element.targetName)
    (by simp [Matches])

end

/-- Two lines of one name in two namespaces, of which the second has a pump. -/
def lineNodes : List (Node (NodeData ℕ)) := [
  { id := StandardId.hierarchicalReferences, nodeClass := .referenceType,
    attributes := { value := 0 }, forwardReferences := [⟨2, 1⟩] },
  { id := StandardId.organizes, nodeClass := .referenceType, attributes := { value := 0 },
    inverseReferences := [⟨2, 0⟩], supertype := some 0 },
  { id := StandardId.hasSubtype, nodeClass := .referenceType, attributes := { value := 0 } },
  { id := .numeric 1 7, nodeClass := .object,
    attributes := { browseName := ⟨"Plant", 7⟩, value := 0 },
    forwardReferences := [⟨1, 4⟩, ⟨1, 5⟩] },
  { id := .numeric 2 7, nodeClass := .object,
    attributes := { browseName := ⟨"Line", 7⟩, value := 0 }, inverseReferences := [⟨1, 3⟩] },
  { id := .numeric 3 7, nodeClass := .object,
    attributes := { browseName := ⟨"Line", 8⟩, value := 0 }, forwardReferences := [⟨1, 6⟩],
    inverseReferences := [⟨1, 3⟩] },
  { id := .numeric 4 7, nodeClass := .object,
    attributes := { browseName := ⟨"Pump", 7⟩, value := 0 }, inverseReferences := [⟨1, 5⟩] }]

theorem readable_lines : pumpFactory.Readable (spacesOf lineNodes) :=
  readable_spacesOf rfl (wellFormed_spacesOf (by decide)) (by decide) (by decide) (by decide)

theorem represents_lines : (spacesOf lineNodes).heap.Represents (edgesOf lineNodes) := by
  have hmirrored : Mirrored lineNodes := by
    unfold Mirrored
    decide
  exact hmirrored.represents

def childNamed (name : QualifiedName) : RelativePathElement where
  referenceTypeId := StandardId.hierarchicalReferences
  targetName := name

/-- A tank and two lines of one name, each with a pump. -/
def pumpNodes : List (Node (NodeData ℕ)) := [
  { id := StandardId.hierarchicalReferences, nodeClass := .referenceType,
    attributes := { value := 0 }, forwardReferences := [⟨2, 1⟩] },
  { id := StandardId.organizes, nodeClass := .referenceType, attributes := { value := 0 },
    inverseReferences := [⟨2, 0⟩], supertype := some 0 },
  { id := StandardId.hasSubtype, nodeClass := .referenceType, attributes := { value := 0 } },
  { id := .numeric 1 7, nodeClass := .object,
    attributes := { browseName := ⟨"Plant", 7⟩, value := 0 },
    forwardReferences := [⟨1, 8⟩, ⟨1, 4⟩, ⟨1, 5⟩] },
  { id := .numeric 2 7, nodeClass := .object,
    attributes := { browseName := ⟨"Line", 7⟩, value := 0 }, forwardReferences := [⟨1, 6⟩],
    inverseReferences := [⟨1, 3⟩] },
  { id := .numeric 3 7, nodeClass := .object,
    attributes := { browseName := ⟨"Line", 7⟩, value := 0 }, forwardReferences := [⟨1, 7⟩],
    inverseReferences := [⟨1, 3⟩] },
  { id := .numeric 4 7, nodeClass := .object,
    attributes := { browseName := ⟨"Pump", 8⟩, value := 0 }, inverseReferences := [⟨1, 4⟩] },
  { id := .numeric 5 7, nodeClass := .object,
    attributes := { browseName := ⟨"Pump", 8⟩, value := 0 }, inverseReferences := [⟨1, 5⟩] },
  { id := .numeric 6 7, nodeClass := .object,
    attributes := { browseName := ⟨"Tank", 7⟩, value := 0 }, inverseReferences := [⟨1, 3⟩] }]

def pumpPath : List RelativePathElement :=
  [childNamed ⟨"Line", 7⟩, childNamed ⟨"Pump", 8⟩]

/-- The elements of the path are looked for at the plant and at the two lines. -/
theorem comesTo_pumpPath {element : RelativePathElement} {here : NodePtr}
    (h : pumpFactory.ComesTo (spacesOf pumpNodes).heap 3 pumpPath element here) :
    element = childNamed ⟨"Line", 7⟩ ∧ here = 3 ∨
      element = childNamed ⟨"Pump", 8⟩ ∧ (here = 4 ∨ here = 5) := by
  obtain ⟨before, after, hpath, hchain⟩ := h
  rcases before with _ | ⟨first, _ | ⟨second, before⟩⟩
  · cases hpath
    exact Or.inl ⟨rfl, hchain.symm⟩
  · cases hpath
    obtain ⟨next, ⟨node, ref, target, hnode, href, -, rfl, htarget, hname⟩, rfl⟩ := hchain
    cases hnode
    have hlines : ∀ ref ∈ [(⟨1, 8⟩ : Reference), ⟨1, 4⟩, ⟨1, 5⟩],
        ∀ target ∈ ((spacesOf pumpNodes).heap.nodes ref.node).toList,
          pumpFactory.shownBrowseName target = ⟨"Line", 7⟩ → ref.node = 4 ∨ ref.node = 5 := by
      decide
    exact Or.inr ⟨rfl, hlines ref href target (Option.mem_toList.mpr htarget) hname⟩
  · have hlength := congrArg List.length hpath
    simp [pumpPath] at hlength

theorem unambiguous_pumpPath :
    pumpFactory.Unambiguous (spacesOf pumpNodes).heap 3 pumpPath where
  decided := by
    intro element here hcomes node hnode
    obtain ⟨rfl, rfl⟩ | ⟨rfl, rfl | rfl⟩ := comesTo_pumpPath hcomes <;> cases hnode <;> decide
  full := by
    intro element here hcomes node hnode
    obtain ⟨rfl, rfl⟩ | ⟨rfl, rfl | rfl⟩ := comesTo_pumpPath hcomes <;> cases hnode <;> decide
  onward := by
    intro _ element here hcomes
    obtain ⟨rfl, rfl⟩ | ⟨rfl, rfl | rfl⟩ := comesTo_pumpPath hcomes
    · exact ⟨4, by decide⟩
    · exact ⟨6, by decide⟩
    · exact ⟨7, by decide⟩

/-- The pump of one of the lines is found. -/
theorem translateBrowsePath_translates_pump :
    ∃ last id, pumpFactory.Chain (spacesOf pumpNodes).heap pumpPath 3 last ∧
      (spacesOf pumpNodes).heap.idOf last = some id ∧
      pumpFactory.translateBrowsePath (spacesOf pumpNodes) (.numeric 1 7) pumpPath =
        some ⟨.good, [(id, 2)]⟩ := by
  have hreadable : pumpFactory.Readable (spacesOf pumpNodes) :=
    readable_spacesOf rfl (wellFormed_spacesOf (by decide)) (by decide) (by decide) (by decide)
  have hmirrored : Mirrored pumpNodes := by
    unfold Mirrored
    decide
  have hptr : pumpFactory.getNode (spacesOf pumpNodes) (.numeric 1 7) = some 3 := by decide
  have htranslates := translateBrowsePath_translates hreadable hmirrored.represents hptr
    (List.cons_ne_nil _ _) unambiguous_pumpPath
  exact htranslates.complete ⟨7, 5, by decide, 7, by decide, rfl⟩

/-- The pump of the second line is not found, and the first line is given instead of it. -/
theorem pump_of_the_second_line_is_not_found :
    pumpFactory.Readable (spacesOf lineNodes) ∧
    (spacesOf lineNodes).heap.Represents (edgesOf lineNodes) ∧
    pumpFactory.Chain (spacesOf lineNodes).heap [childNamed ⟨"Line", 8⟩, childNamed ⟨"Pump", 7⟩]
      3 6 ∧
    pumpFactory.translateBrowsePath (spacesOf lineNodes) (.numeric 1 7)
      [childNamed ⟨"Line", 8⟩, childNamed ⟨"Pump", 7⟩] = some ⟨.good, [(.numeric 2 7, 1)]⟩ ∧
    ¬ pumpFactory.Translates (spacesOf lineNodes).heap 3
      [childNamed ⟨"Line", 8⟩, childNamed ⟨"Pump", 7⟩]
      (some ⟨.good, [(.numeric 2 7, 1)]⟩) := by
  have hchain : pumpFactory.Chain (spacesOf lineNodes).heap
      [childNamed ⟨"Line", 8⟩, childNamed ⟨"Pump", 7⟩] 3 6 :=
    ⟨5, ⟨_, ⟨1, 5⟩, _, rfl, by decide, by decide, rfl, rfl, by decide⟩,
      6, ⟨_, ⟨1, 6⟩, _, rfl, by decide, by decide, rfl, rfl, by decide⟩, rfl⟩
  refine ⟨readable_lines, represents_lines, hchain, by decide, fun h => ?_⟩
  obtain ⟨_, _, -, -, hresult⟩ := h.complete ⟨6, hchain⟩
  cases hresult

end GenericNodeFactory

end ScadaCommon.AddressSpace
