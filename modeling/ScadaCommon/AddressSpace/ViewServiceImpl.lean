import ScadaCommon.AddressSpace.ModifyNode
import ScadaCommon.AddressSpace.NodesetLoading

/-!
# Browsing

`Browse` lists the references of a node that match a description. A property that a node
does not have, though its type declares it, is shown with two references made by hand.

§1 the code · §2 what matches · §3 stored nodes · §4 declared properties · §5 both.
-/

namespace ScadaCommon.AddressSpace

open Foundation GenericNodeFactory

variable {V : Type}

/-! ## §1  The code -/

inductive BrowseDirection where
  | forward
  | inverse
  | both
deriving DecidableEq

/-- References of the direction are wanted. -/
def BrowseDirection.wants : BrowseDirection → Bool → Bool
  | .forward, isForward => isForward
  | .inverse, isForward => !isForward
  | .both, _ => true

structure BrowseDescription where
  nodeId : NodeId
  direction : BrowseDirection
  referenceTypeId : NodeId
  includeSubtypes : Bool
  nodeClassMask : UInt32
  resultMask : UInt32

/-- The status codes of the view service. -/
inductive ViewStatusCode where
  | good
  | bad
  | badWrongNodeId
  | badNothingToDo
  | badBrowseNameInvalid
deriving DecidableEq

/-- What `Browse` tells of a reference; no node class is the default one. -/
structure BrowseReference where
  referenceTypeId : NodeId := .null
  forward : Bool := false
  nodeId : NodeId
  nodeClass : Option NodeClass := none
  browseName : QualifiedName := {}
  displayName : String := ""
  typeDefinition : NodeId := .null
deriving DecidableEq

structure BrowseResult where
  statusCode : ViewStatusCode
  references : List BrowseReference := []
deriving DecidableEq

/-- The bits of the core library: `kBrowseResultReferenceType` and so on, and the values of
the node classes. -/
structure BrowseBits where
  referenceType : UInt32
  isForward : UInt32
  nodeClass : UInt32
  browseName : UInt32
  displayName : UInt32
  typeDefinition : UInt32
  valueOf : NodeClass → UInt32

/-- A mask without the bit leaves the field out. -/
def selects (mask bit : UInt32) : Bool :=
  mask &&& bit ≠ 0

def matchesNodeClass (bits : BrowseBits) (mask : UInt32) (nodeClass : NodeClass) : Bool :=
  mask = 0 ∨ selects mask (bits.valueOf nodeClass) = true

/-- `IsRefSubtypeOf`. -/
def isRefSubtypeOf (heap : NodeHeap (NodeData V)) (typeId : NodeId) (includeSubtypes : Bool)
    (ref : Reference) : Option Bool :=
  if includeSubtypes then heap.isSubtypeOf ref.type typeId
  else (heap.nodes ref.type).map fun type => type.id = typeId

/-- A field that is read only if it is asked for. -/
def readField {A : Type} (mask bit : UInt32) (unread : A) (read : Option A) : Option A :=
  if selects mask bit then read else some unread

def typeDefinitionId (heap : NodeHeap (NodeData V)) (node : Node (NodeData V)) : Option NodeId :=
  match node.typeDefinition with
  | none => some .null
  | some definition => heap.idOf definition

namespace GenericNodeFactory

variable (factory : GenericNodeFactory) (bits : BrowseBits)

/-- `make_reference`. -/
def makeReference (heap : NodeHeap (NodeData V)) (mask : UInt32) (forward : Bool)
    (ref : Reference) : Option BrowseReference := do
  let type ← heap.nodes ref.type
  let target ← heap.nodes ref.node
  let browseName ← readField mask bits.browseName {} (factory.getBrowseName target)
  let displayName ← readField mask bits.displayName "" (factory.getDisplayName target)
  let typeDefinition ← readField mask bits.typeDefinition .null (typeDefinitionId heap target)
  return {
    referenceTypeId := if selects mask bits.referenceType then type.id else .null
    forward := if selects mask bits.isForward then forward else false
    nodeId := target.id
    nodeClass := if selects mask bits.nodeClass then some target.nodeClass else none
    browseName, displayName, typeDefinition }

variable (description : BrowseDescription)

/-- The loop over the references of one direction. -/
def browseReferences (heap : NodeHeap (NodeData V)) (forward : Bool) :
    List Reference → Option (List BrowseReference)
  | [] => some []
  | ref :: refs => do
      match ← isRefSubtypeOf heap description.referenceTypeId description.includeSubtypes ref with
      | false => browseReferences heap forward refs
      | true =>
          let target ← heap.nodes ref.node
          if matchesNodeClass bits description.nodeClassMask target.nodeClass then
            let reference ← factory.makeReference bits heap description.resultMask forward ref
            return reference :: (← browseReferences heap forward refs)
          else browseReferences heap forward refs

/-- The references of one direction, if they are wanted. -/
def browseDirection (heap : NodeHeap (NodeData V)) (node : Node (NodeData V)) (forward : Bool) :
    Option (List BrowseReference) :=
  if description.direction.wants forward then
    factory.browseReferences bits description heap forward (node.references forward)
  else some []

def browseNode (spaces : Spaces V) (ptr : NodePtr) : Option BrowseResult := do
  let node ← spaces.heap.nodes ptr
  let forward ← factory.browseDirection bits description spaces.heap node true
  let inverse ← factory.browseDirection bits description spaces.heap node false
  return ⟨.good, forward ++ inverse⟩

/-- `FindChildDeclaration`. -/
def findChildDeclaration (heap : NodeHeap (NodeData V)) (name : String) :
    ℕ → NodePtr → Option (Option NodePtr)
  | 0, _ => none
  | fuel + 1, type => do
      let typeNode ← heap.nodes type
      match ← factory.findChild heap name typeNode.forwardReferences with
      | some declaration => return some declaration
      | none =>
          match typeNode.supertype with
          | none => return none
          | some supertype => findChildDeclaration heap name fuel supertype

/-- The declaration of a property that the node does not have. -/
def findVariableDeclaration (heap : NodeHeap (NodeData V)) (node : Node (NodeData V))
    (name : String) : Option (Option NodePtr) :=
  match node.typeDefinition with
  | none => some none
  | some type => do asVariable heap (← factory.findChildDeclaration heap name (heap.next + 1) type)

/-- `IsSubtypeOf`, of the id of a type. -/
def isSubtypeOfId (spaces : Spaces V) (typeId supertypeId : NodeId) : Option Bool :=
  match asTypeDefinition spaces (factory.getNode spaces typeId) with
  | none => some false
  | some type => spaces.heap.isSubtypeOf type supertypeId

/-- The references of a declared property, to its type and from its node. -/
def propertyReference (node : Node (NodeData V)) : Bool → BrowseReference
  | true => {
      referenceTypeId := StandardId.hasTypeDefinition
      forward := true
      nodeId := StandardId.propertyType
      nodeClass := some .variableType }
  | false => {
      referenceTypeId := StandardId.hasProperty
      forward := false
      nodeId := node.id
      nodeClass := some node.nodeClass }

/-- The reference of one direction, if it is wanted. -/
def browsePropertyDirection (spaces : Spaces V) (node : Node (NodeData V)) (forward : Bool) :
    Option (List BrowseReference) := do
  if description.direction.wants forward then
    let reference := propertyReference node forward
    if ← factory.isSubtypeOfId spaces reference.referenceTypeId description.referenceTypeId then
      return [reference]
  return []

def browseProperty (spaces : Spaces V) (ptr : NodePtr) (name : String) : Option BrowseResult :=
  if !description.includeSubtypes then some ⟨.bad, []⟩
  else do
    let node ← spaces.heap.nodes ptr
    match ← factory.findVariableDeclaration spaces.heap node name with
    | none => return ⟨.badWrongNodeId, []⟩
    | some _ =>
        let forward ← factory.browsePropertyDirection description spaces node true
        let inverse ← factory.browsePropertyDirection description spaces node false
        return ⟨.good, forward ++ inverse⟩

/-- `SyncViewServiceImpl::BrowseOne`. Nothing is returned when the process stops or runs for
ever. -/
def browseOne (parse : Parsing) (spaces : Spaces V) : Option BrowseResult := do
  match ← factory.getMutableNestedNode parse spaces description.nodeId with
  | none => return ⟨.badWrongNodeId, []⟩
  | some (ptr, nestedName) =>
      if nestedName = "" then factory.browseNode bits description spaces ptr
      else factory.browseProperty description spaces ptr nestedName

/-! ## §2  What matches -/

/-- A reference without the fields that are not asked for. -/
def select (mask : UInt32) (reference : BrowseReference) : BrowseReference where
  referenceTypeId := if selects mask bits.referenceType then reference.referenceTypeId else .null
  forward := if selects mask bits.isForward then reference.forward else false
  nodeId := reference.nodeId
  nodeClass := if selects mask bits.nodeClass then reference.nodeClass else none
  browseName := if selects mask bits.browseName then reference.browseName else {}
  displayName := if selects mask bits.displayName then reference.displayName else ""
  typeDefinition := if selects mask bits.typeDefinition then reference.typeDefinition else .null

/-- All that there is to say of a reference. -/
def storedReference (heap : NodeHeap (NodeData V)) (forward : Bool)
    (type target : Node (NodeData V)) : BrowseReference where
  referenceTypeId := type.id
  forward := forward
  nodeId := target.id
  nodeClass := some target.nodeClass
  browseName := factory.shownBrowseName target
  displayName := factory.shownDisplayName target
  typeDefinition := (target.typeDefinition.bind heap.idOf).getD .null

/-- Each of the references is told once, and nothing else. -/
def TellsEach {E : Type} (isReference : E → Prop) (tells : E → BrowseReference → Prop)
    (references : List BrowseReference) : Prop :=
  ∃ entries : List E, entries.Nodup ∧ (∀ entry, entry ∈ entries ↔ isReference entry) ∧
    List.Forall₂ tells entries references

/-- A reference of a stored node, with its direction, that matches the description. -/
structure StoredMatch (heap : NodeHeap (NodeData V)) (edges : Set Edge) (ptr : NodePtr)
    (entry : Bool × Reference) : Prop where
  isReference : ⟨ptr, entry.1, entry.2⟩ ∈ NodeHeap.halvesOf edges
  direction : description.direction.wants entry.1 = true
  type : isRefSubtypeOf heap description.referenceTypeId description.includeSubtypes entry.2 =
    some true
  nodeClass : ∃ target, heap.nodes entry.2.node = some target ∧
    matchesNodeClass bits description.nodeClassMask target.nodeClass = true

def TellsStored (heap : NodeHeap (NodeData V)) (entry : Bool × Reference)
    (reference : BrowseReference) : Prop :=
  ∃ type target, heap.nodes entry.2.type = some type ∧ heap.nodes entry.2.node = some target ∧
    reference = select bits description.resultMask
      (factory.storedReference heap entry.1 type target)

/-- A reference of a declared property that has the direction and the type described; the
property is only shown when subtypes are included. -/
structure PropertyDescribed (spaces : Spaces V) (node : Node (NodeData V)) (forward : Bool) :
    Prop where
  direction : description.direction.wants forward = true
  type : factory.isSubtypeOfId spaces (propertyReference node forward).referenceTypeId
    description.referenceTypeId = some true

/-- And the node class. -/
structure PropertyMatch (spaces : Spaces V) (node : Node (NodeData V)) (forward : Bool) : Prop
    extends PropertyDescribed factory description spaces node forward where
  nodeClass : (propertyReference node forward).nodeClass.any
    (matchesNodeClass bits description.nodeClassMask) = true

/-- **The answer of `Browse`**: exactly the references of the node that match, or of the
property with the name, with the fields that are asked for. -/
def BrowsedExactly (spaces : Spaces V) (edges : Set Edge) (ptr : NodePtr) (nestedName : String)
    (references : List BrowseReference) : Prop :=
  if nestedName = "" then
    TellsEach (StoredMatch bits description spaces.heap edges ptr)
      (TellsStored factory bits description spaces.heap) references
  else
    ∃ node, spaces.heap.nodes ptr = some node ∧
      TellsEach (PropertyMatch factory bits description spaces node)
        (fun forward reference =>
          reference = select bits description.resultMask (propertyReference node forward))
        references

/-- The masks leave out nothing of the references by hand. -/
structure MasksKeep (node : Node (NodeData V)) (forward : Bool) : Prop where
  class_matches : (propertyReference node forward).nodeClass.any
    (matchesNodeClass bits description.nodeClassMask) = true
  referenceType : selects description.resultMask bits.referenceType = true
  isForward : forward = true → selects description.resultMask bits.isForward = true
  nodeClass : selects description.resultMask bits.nodeClass = true

/-! ## §3  Stored nodes -/

section

variable {factory : GenericNodeFactory} {bits : BrowseBits} {description : BrowseDescription}
  {heap : NodeHeap (NodeData V)} {forward : Bool}

/-- The names that are read are the ones that are shown. -/
theorem eq_shownBrowseName {node : Node (NodeData V)} {browseName : QualifiedName}
    (h : factory.getBrowseName node = some browseName) :
    browseName = factory.shownBrowseName node := by
  by_cases hname : node.attributes.browseName.name = ""
  · have hid : node.id ≠ .null := by
      intro hid
      simp [getBrowseName, hname, check, hid] at h
    exact Option.some.inj (h.symm.trans (getBrowseName_eq hid))
  · simpa [getBrowseName, shownBrowseName, hname] using h.symm

theorem eq_shownDisplayName {node : Node (NodeData V)} {displayName : String}
    (h : factory.getDisplayName node = some displayName) :
    displayName = factory.shownDisplayName node := by
  by_cases hname : node.attributes.displayName = ""
  · simp only [getDisplayName, hname] at h
    obtain ⟨browseName, hbrowseName, h⟩ := Option.bind_eq_some_iff.mp h
    cases h
    rw [shownDisplayName, if_pos hname, eq_shownBrowseName hbrowseName]
  · simpa [getDisplayName, shownDisplayName, hname] using h.symm

theorem readField_eq_some {A : Type} {mask bit : UInt32} {read : Option A}
    {value unread result : A} (hread : ∀ a, read = some a → a = value)
    (h : readField mask bit unread read = some result) :
    result = if selects mask bit then value else unread := by
  cases hselects : selects mask bit with
  | true =>
      rw [readField, if_pos hselects] at h
      exact hread result h
  | false =>
      rw [readField, hselects] at h
      exact (Option.some.inj h).symm

theorem eq_typeDefinition {node : Node (NodeData V)} {id : NodeId}
    (h : typeDefinitionId heap node = some id) :
    id = (node.typeDefinition.bind heap.idOf).getD .null := by
  cases hdefinition : node.typeDefinition with
  | none => simpa [typeDefinitionId, hdefinition] using h.symm
  | some definition =>
      simp only [typeDefinitionId, hdefinition] at h
      rw [Option.bind_some, h, Option.getD_some]

theorem tellsStored_of_makeReference {ref : Reference} {reference : BrowseReference}
    (h : factory.makeReference bits heap description.resultMask forward ref = some reference) :
    factory.TellsStored bits description heap (forward, ref) reference := by
  obtain ⟨type, htype, h⟩ := Option.bind_eq_some_iff.mp h
  obtain ⟨target, htarget, h⟩ := Option.bind_eq_some_iff.mp h
  obtain ⟨browseName, hbrowseName, h⟩ := Option.bind_eq_some_iff.mp h
  obtain ⟨displayName, hdisplayName, h⟩ := Option.bind_eq_some_iff.mp h
  obtain ⟨definition, hdefinition, h⟩ := Option.bind_eq_some_iff.mp h
  cases h
  refine ⟨type, target, htype, htarget, ?_⟩
  rw [readField_eq_some (fun _ => eq_shownBrowseName) hbrowseName,
    readField_eq_some (fun _ => eq_shownDisplayName) hdisplayName,
    readField_eq_some (fun _ => eq_typeDefinition) hdefinition]
  rfl

/-- The type and the class of a reference that is listed. -/
def Filtered (bits : BrowseBits) (description : BrowseDescription)
    (heap : NodeHeap (NodeData V)) (ref : Reference) : Prop :=
  isRefSubtypeOf heap description.referenceTypeId description.includeSubtypes ref = some true ∧
    ∃ target, heap.nodes ref.node = some target ∧
      matchesNodeClass bits description.nodeClassMask target.nodeClass = true

/-- The loop over one direction. -/
theorem browseReferences_spec {refs : List Reference} {references : List BrowseReference}
    (h : factory.browseReferences bits description heap forward refs = some references) :
    ∃ found : List Reference, found.Sublist refs ∧
      (∀ ref, ref ∈ found ↔ ref ∈ refs ∧ Filtered bits description heap ref) ∧
      List.Forall₂ (fun ref => factory.TellsStored bits description heap (forward, ref)) found
        references := by
  induction refs generalizing references with
  | nil =>
      cases h
      exact ⟨[], .slnil, by simp, .nil⟩
  | cons ref refs ih =>
      -- a reference that is skipped does not pass the filter
      have hskip : ¬ Filtered bits description heap ref →
          factory.browseReferences bits description heap forward refs = some references →
            ∃ found : List Reference, found.Sublist (ref :: refs) ∧
              (∀ other, other ∈ found ↔ other ∈ ref :: refs ∧
                Filtered bits description heap other) ∧
              List.Forall₂
                (fun ref => factory.TellsStored bits description heap (forward, ref)) found
                references := by
        intro hnot h
        obtain ⟨found, hsublist, hfound, htells⟩ := ih h
        refine ⟨found, hsublist.cons ref, fun other => ?_, htells⟩
        rw [hfound, List.mem_cons]
        refine and_congr_left fun hfiltered => (or_iff_right ?_).symm
        rintro rfl
        exact hnot hfiltered
      obtain ⟨isMatch, htype, h⟩ := Option.bind_eq_some_iff.mp h
      cases isMatch with
      | false =>
          refine hskip (fun hfiltered => ?_) h
          cases htype.symm.trans hfiltered.1
      | true =>
          obtain ⟨target, htarget, h⟩ := Option.bind_eq_some_iff.mp h
          by_cases hclass : matchesNodeClass bits description.nodeClassMask target.nodeClass = true
          · rw [if_pos hclass] at h
            obtain ⟨reference, hreference, h⟩ := Option.bind_eq_some_iff.mp h
            obtain ⟨rest, hrest, h⟩ := Option.bind_eq_some_iff.mp h
            cases h
            obtain ⟨found, hsublist, hfound, htells⟩ := ih hrest
            refine ⟨ref :: found, hsublist.cons_cons ref, fun other => ?_,
              .cons (tellsStored_of_makeReference hreference) htells⟩
            rw [List.mem_cons, List.mem_cons, hfound]
            constructor
            · rintro (rfl | hother)
              · exact ⟨.inl rfl, htype, target, htarget, hclass⟩
              · exact ⟨.inr hother.1, hother.2⟩
            · rintro ⟨rfl | hmem, hfiltered⟩
              · exact .inl rfl
              · exact .inr ⟨hmem, hfiltered⟩
          · rw [if_neg hclass] at h
            refine hskip (fun hfiltered => ?_) h
            obtain ⟨-, other, hother, hmatches⟩ := hfiltered
            cases htarget.symm.trans hother
            exact hclass hmatches

/-- One direction, wanted or not. -/
theorem browseDirection_spec {node : Node (NodeData V)} {references : List BrowseReference}
    (h : factory.browseDirection bits description heap node forward = some references) :
    ∃ found : List Reference, found.Sublist (node.references forward) ∧
      (∀ ref, ref ∈ found ↔ ref ∈ node.references forward ∧
        description.direction.wants forward = true ∧ Filtered bits description heap ref) ∧
      List.Forall₂ (fun ref => factory.TellsStored bits description heap (forward, ref)) found
        references := by
  by_cases hwants : description.direction.wants forward = true
  · rw [browseDirection, if_pos hwants] at h
    obtain ⟨found, hsublist, hfound, htells⟩ := browseReferences_spec h
    refine ⟨found, hsublist, fun ref => ?_, htells⟩
    rw [hfound, and_iff_right hwants]
  · rw [browseDirection, if_neg hwants] at h
    cases h
    exact ⟨[], List.nil_sublist _, by simp [hwants], .nil⟩

/-- **A stored node** is always browsed exactly. -/
theorem browseNode_exact {spaces : Spaces V} {edges : Set Edge} {ptr : NodePtr}
    {references : List BrowseReference} (hrepresents : spaces.heap.Represents edges)
    (h : factory.browseNode bits description spaces ptr = some ⟨.good, references⟩) :
    TellsEach (StoredMatch bits description spaces.heap edges ptr)
      (factory.TellsStored bits description spaces.heap) references := by
  obtain ⟨node, hnode, h⟩ := Option.bind_eq_some_iff.mp h
  obtain ⟨forward, hforward, h⟩ := Option.bind_eq_some_iff.mp h
  obtain ⟨inverse, hinverse, h⟩ := Option.bind_eq_some_iff.mp h
  cases h
  obtain ⟨found, hsublist, hfound, htells⟩ := browseDirection_spec hforward
  obtain ⟨found', hsublist', hfound', htells'⟩ := browseDirection_spec hinverse
  have hnodup := hrepresents.holds.nodup ptr node hnode
  have hmem := hrepresents.holds.references ptr node hnode
  refine ⟨found.map (true, ·) ++ found'.map (false, ·), ?_, ?_, ?_⟩
  · refine List.Nodup.append ?_ ?_ ?_
    · exact ((hnodup true).sublist hsublist).map fun _ _ heq => (Prod.mk.inj heq).2
    · exact ((hnodup false).sublist hsublist').map fun _ _ heq => (Prod.mk.inj heq).2
    · intro entry hentry hentry'
      obtain ⟨_, -, rfl⟩ := List.mem_map.mp hentry
      obtain ⟨_, -, heq⟩ := List.mem_map.mp hentry'
      cases heq
  · rintro ⟨direction, ref⟩
    have hmatch : StoredMatch bits description spaces.heap edges ptr (direction, ref) ↔
        ref ∈ node.references direction ∧ description.direction.wants direction = true ∧
          Filtered bits description spaces.heap ref := by
      rw [hmem]
      exact ⟨fun h => ⟨h.isReference, h.direction, h.type, h.nodeClass⟩,
        fun ⟨hreference, hdirection, htype, hclass⟩ => ⟨hreference, hdirection, htype, hclass⟩⟩
    rw [hmatch]
    cases direction with
    | true => simp [hfound]
    | false => simp [hfound']
  · refine List.rel_append ?_ ?_
    · exact List.forall₂_map_left_iff.mpr htells
    · exact List.forall₂_map_left_iff.mpr htells'

/-! ## §4  Declared properties -/

variable {spaces : Spaces V} {node : Node (NodeData V)} {references : List BrowseReference}

theorem browsePropertyDirection_spec
    (h : factory.browsePropertyDirection description spaces node forward = some references) :
    ∃ shown : List Bool, shown.Nodup ∧
      (∀ direction, direction ∈ shown ↔
        direction = forward ∧ factory.PropertyDescribed description spaces node direction) ∧
      references = shown.map (propertyReference node) := by
  unfold browsePropertyDirection at h
  by_cases hwants : description.direction.wants forward = true
  · rw [if_pos hwants] at h
    obtain ⟨isSubtype, htype, h⟩ := Option.bind_eq_some_iff.mp h
    cases isSubtype with
    | true =>
        cases h
        refine ⟨[forward], List.nodup_singleton _, fun direction => ?_, rfl⟩
        rw [List.mem_singleton]
        exact (and_iff_left_of_imp fun heq => heq ▸ ⟨hwants, htype⟩).symm
    | false =>
        cases h
        refine ⟨[], List.nodup_nil, fun direction => ?_, rfl⟩
        refine iff_of_false List.not_mem_nil ?_
        rintro ⟨rfl, hdescribed⟩
        cases htype.symm.trans hdescribed.type
  · rw [if_neg hwants] at h
    cases h
    refine ⟨[], List.nodup_nil, fun direction => ?_, rfl⟩
    refine iff_of_false List.not_mem_nil ?_
    rintro ⟨rfl, hdescribed⟩
    exact hwants hdescribed.direction

/-- What the code tells of a declared property: the masks play no part. -/
theorem browseProperty_spec {ptr : NodePtr} {name : String}
    (h : factory.browseProperty description spaces ptr name = some ⟨.good, references⟩) :
    ∃ node, spaces.heap.nodes ptr = some node ∧ ∃ shown : List Bool, shown.Nodup ∧
      (∀ direction, direction ∈ shown ↔
        factory.PropertyDescribed description spaces node direction) ∧
      references = shown.map (propertyReference node) := by
  unfold browseProperty at h
  split at h
  · cases h
  · obtain ⟨node, hnode, h⟩ := Option.bind_eq_some_iff.mp h
    obtain ⟨declaration, -, h⟩ := Option.bind_eq_some_iff.mp h
    cases declaration with
    | none => cases h
    | some declaration =>
        obtain ⟨forward, hforward, h⟩ := Option.bind_eq_some_iff.mp h
        obtain ⟨inverse, hinverse, h⟩ := Option.bind_eq_some_iff.mp h
        cases h
        obtain ⟨shown, hnodup, hshown, rfl⟩ := browsePropertyDirection_spec hforward
        obtain ⟨shown', hnodup', hshown', rfl⟩ := browsePropertyDirection_spec hinverse
        refine ⟨node, hnode, shown ++ shown', ?_, ?_, (List.map_append ..).symm⟩
        · refine hnodup.append hnodup' fun direction hmem hmem' => ?_
          cases ((hshown direction).mp hmem).1.symm.trans ((hshown' direction).mp hmem').1
        · intro direction
          rw [List.mem_append, hshown, hshown', ← or_and_right]
          exact and_iff_right (by cases direction <;> simp)

/-- Nothing is left out of a reference by hand. -/
theorem select_propertyReference_of_keep (h : MasksKeep bits description node forward) :
    select bits description.resultMask (propertyReference node forward) =
      propertyReference node forward := by
  cases forward with
  | true => simp [select, propertyReference, h.referenceType, h.isForward rfl, h.nodeClass]
  | false => simp [select, propertyReference, h.referenceType, h.nodeClass]

/-- A reference by hand that is told as it is asked for. -/
theorem keep_of_eq_select {forward' : Bool}
    (h : propertyReference node forward =
      select bits description.resultMask (propertyReference node forward')) :
    forward = forward' ∧ selects description.resultMask bits.referenceType = true ∧
      (forward = true → selects description.resultMask bits.isForward = true) ∧
        selects description.resultMask bits.nodeClass = true := by
  have htype := congrArg BrowseReference.referenceTypeId h
  have hforward := congrArg BrowseReference.forward h
  have hclass := congrArg BrowseReference.nodeClass h
  have hnull : ∀ direction, (propertyReference node direction).referenceTypeId ≠ .null := by
    intro direction
    cases direction <;> nofun
  have hreferenceType : selects description.resultMask bits.referenceType = true := by
    by_contra hnot
    rw [select, if_neg hnot] at htype
    exact hnull forward htype
  rw [select, if_pos hreferenceType] at htype
  have heq : forward = forward' := by
    revert htype
    cases forward <;> cases forward' <;> simp [propertyReference] <;> decide
  subst heq
  refine ⟨rfl, hreferenceType, fun hdirection => ?_, ?_⟩
  · by_contra hnot
    rw [select, if_neg hnot, hdirection] at hforward
    cases hforward
  · by_contra hnot
    rw [select, if_neg hnot] at hclass
    cases forward <;> cases hclass

/-- **A declared property** is browsed exactly if and only if the masks leave out nothing of
what is shown. -/
theorem tellsEach_property_iff {shown : List Bool} (hnodup : shown.Nodup)
    (hshown : ∀ direction, direction ∈ shown ↔
      factory.PropertyDescribed description spaces node direction) :
    TellsEach (factory.PropertyMatch bits description spaces node)
        (fun forward reference =>
          reference = select bits description.resultMask (propertyReference node forward))
        (shown.map (propertyReference node)) ↔
      ∀ forward, factory.PropertyDescribed description spaces node forward →
        MasksKeep bits description node forward := by
  constructor
  · rintro ⟨entries, hentriesNodup, hentries, htells⟩ forward hdescribed
    rw [List.forall₂_map_right_iff] at htells
    -- what is told of one direction is what is asked for of one
    have hmem : ∀ direction ∈ shown, ∃ entry ∈ entries, propertyReference node direction =
        select bits description.resultMask (propertyReference node entry) := by
      intro direction hdirection
      obtain ⟨i, hi, rfl⟩ := List.getElem_of_mem hdirection
      have hlength := htells.length_eq
      exact ⟨entries[i], List.getElem_mem _, htells.get (hlength ▸ hi) hi⟩
    obtain ⟨entry, hentry, heq⟩ := hmem forward ((hshown forward).mpr hdescribed)
    obtain ⟨rfl, hreferenceType, hforward, hclass⟩ := keep_of_eq_select heq
    exact ⟨((hentries forward).mp hentry).nodeClass, hreferenceType, hforward, hclass⟩
  · intro hkeep
    refine ⟨shown, hnodup, fun direction => ?_, ?_⟩
    · rw [hshown]
      exact ⟨fun h => ⟨h, (hkeep direction h).class_matches⟩, fun h => h.toPropertyDescribed⟩
    · rw [List.forall₂_map_right_iff, List.forall₂_same]
      intro direction hdirection
      have hdescribed := (hshown direction).mp hdirection
      exact (select_propertyReference_of_keep (hkeep direction hdescribed)).symm

/-! ## §5  Both -/

/-- **An answer that is good** is exact for every stored node, and for a declared property if
and only if the masks leave out nothing of what is shown. -/
theorem browseOne_exact_iff {parse : Parsing} {edges : Set Edge} {ptr : NodePtr}
    {nestedName : String} (hrepresents : spaces.heap.Represents edges)
    (hfound : factory.getMutableNestedNode parse spaces description.nodeId =
      some (some (ptr, nestedName)))
    (hgood : factory.browseOne bits description parse spaces = some ⟨.good, references⟩) :
    factory.BrowsedExactly bits description spaces edges ptr nestedName references ↔
      (nestedName ≠ "" → ∀ node forward, spaces.heap.nodes ptr = some node →
        factory.PropertyDescribed description spaces node forward →
          MasksKeep bits description node forward) := by
  rw [browseOne, hfound] at hgood
  by_cases hname : nestedName = ""
  · have hnode : factory.browseNode bits description spaces ptr = some ⟨.good, references⟩ := by
      simpa [hname] using hgood
    rw [BrowsedExactly, if_pos hname]
    exact iff_of_true (browseNode_exact hrepresents hnode) fun hnot => absurd hname hnot
  · have hproperty : factory.browseProperty description spaces ptr nestedName =
        some ⟨.good, references⟩ := by
      simpa [hname] using hgood
    obtain ⟨node, hnode, shown, hnodup, hshown, rfl⟩ := browseProperty_spec hproperty
    rw [BrowsedExactly, if_neg hname]
    constructor
    · rintro ⟨node', hnode', hexact⟩ - other forward hother
      cases hnode.symm.trans hnode'
      cases hnode.symm.trans hother
      exact (tellsEach_property_iff hnodup hshown).mp hexact forward
    · intro hkeep
      exact ⟨node, hnode, (tellsEach_property_iff hnodup hshown).mpr fun forward =>
        hkeep hname node forward hnode⟩

end

/-- The values that the standard gives the bits. -/
def standardBits : BrowseBits where
  referenceType := 1
  isForward := 2
  nodeClass := 4
  browseName := 8
  displayName := 16
  typeDefinition := 32
  valueOf
    | .object => 1
    | .variable => 2
    | .method => 4
    | .objectType => 8
    | .variableType => 16
    | .referenceType => 32
    | .dataType => 64
    | .view => 128

theorem represents_meterSpaces : meterSpaces.heap.Represents (edgesOf meterNodes) := by
  have hmirrored : Mirrored meterNodes := by
    unfold Mirrored
    decide
  exact hmirrored.represents

/-- All properties of the meter. -/
def meterDescription : BrowseDescription where
  nodeId := .numeric 4 7
  direction := .forward
  referenceTypeId := StandardId.hierarchicalReferences
  includeSubtypes := true
  nodeClassMask := 0
  resultMask := 63

theorem browseOne_exact_iff_meter : ∃ references,
    pumpFactory.browseOne standardBits meterDescription .decimal meterSpaces =
      some ⟨.good, references⟩ ∧ references ≠ [] ∧
    pumpFactory.BrowsedExactly standardBits meterDescription meterSpaces (edgesOf meterNodes) 8 ""
      references := by
  have hfound : pumpFactory.getMutableNestedNode .decimal meterSpaces (.numeric 4 7) =
      some (some (8, "")) := by
    decide
  exact ⟨_, rfl, nofun, (browseOne_exact_iff represents_meterSpaces hfound rfl).mpr
    fun hname => absurd rfl hname⟩

/-- Only objects, without any field, of the unit that the meter does not have. -/
def unitDescription : BrowseDescription where
  nodeId := .string "4!Unit" 7
  direction := .forward
  referenceTypeId := StandardId.hasTypeDefinition
  includeSubtypes := true
  nodeClassMask := 1
  resultMask := 0

/-- The answer tells of a variable type, with all fields. -/
theorem declared_property_ignores_masks :
    pumpFactory.browseOne standardBits unitDescription .decimal meterSpaces = some ⟨.good, [{
      referenceTypeId := StandardId.hasTypeDefinition
      forward := true
      nodeId := StandardId.propertyType
      nodeClass := some .variableType }]⟩ ∧
    pumpFactory.getMutableNestedNode .decimal meterSpaces (.string "4!Unit" 7) =
      some (some (8, "Unit")) ∧
    ¬ pumpFactory.BrowsedExactly standardBits unitDescription meterSpaces (edgesOf meterNodes) 8
      "Unit" [{
        referenceTypeId := StandardId.hasTypeDefinition
        forward := true
        nodeId := StandardId.propertyType
        nodeClass := some .variableType }] := by
  have hfound : pumpFactory.getMutableNestedNode .decimal meterSpaces (.string "4!Unit" 7) =
      some (some (8, "Unit")) := by
    decide
  refine ⟨rfl, hfound, ?_⟩
  rintro ⟨node, -, entries, -, hentries, htells⟩
  cases entries with
  | nil => cases htells
  | cons entry rest =>
      have hmatch := (hentries entry).mp List.mem_cons_self
      cases entry with
      | true =>
          have hclass : matchesNodeClass standardBits 1 .variableType = true := hmatch.nodeClass
          exact absurd hclass (by decide)
      | false => exact absurd hmatch.direction (by decide)

end GenericNodeFactory

end ScadaCommon.AddressSpace
