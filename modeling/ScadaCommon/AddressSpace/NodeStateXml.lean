import ScadaCommon.AddressSpace.XmlVariants
import ScadaCommon.Foundation.RoundTrips
import ScadaCommon.Scada.StandardNodes

/-!
# Node states as XML

`WriteNodeState` makes an element of a node state, with its properties and references as
children, and `ReadNodeState` makes a node state of such an element.

§1 states · §2 writing · §3 reading · §4 what keeps · §5 attributes · §6 children ·
§7 the way back · §8 a pump.
-/

namespace ScadaCommon.NodeStateXml

open Foundation

/-! ## §1  States -/

structure QualifiedName where
  name : String := ""
  namespaceIndex : UInt16 := 0
deriving DecidableEq

structure NodeAttributes (D X : Type) where
  browseName : QualifiedName := {}
  displayName : LocalizedText := {}
  inverseName : LocalizedText := {}
  dataType : NodeId := .null
  value : Option (Variant D X) := none
deriving DecidableEq

/-- The class of the target may be unspecified, that is `none`. -/
structure ReferenceDescription where
  referenceTypeId : NodeId
  forward : Bool
  nodeId : NodeId
  nodeClass : Option NodeClass
  browseName : QualifiedName := {}
  displayName : LocalizedText := {}
  typeDefinition : NodeId := .null
deriving DecidableEq

/-- A state without children. -/
structure NodeState (D X : Type) where
  nodeId : NodeId
  nodeClass : Option NodeClass := some .object
  typeDefinitionId : NodeId := .null
  parentId : NodeId := .null
  referenceTypeId : NodeId := .null
  attributes : NodeAttributes D X := {}
  properties : List (NodeId × Variant D X) := []
  references : List ReferenceDescription := []
  supertypeId : NodeId := .null
deriving DecidableEq

/-- `ToString` of a class. -/
def nodeClassText : Option NodeClass → String
  | some .object => "Object"
  | some .variable => "Variable"
  | some .method => "Method"
  | some .objectType => "ObjectType"
  | some .variableType => "VariableType"
  | some .referenceType => "ReferenceType"
  | some .dataType => "DataType"
  | some .view => "View"
  | none => "Unspecified"

/-- The `kValues` of `ParseNodeClass`. -/
def kNodeClasses : List (String × NodeClass) := [
  ("Object", .object), ("Variable", .variable), ("Method", .method),
  ("ObjectType", .objectType), ("VariableType", .variableType),
  ("ReferenceType", .referenceType), ("DataType", .dataType), ("View", .view)]

def parseNodeClass (text : String) : Option NodeClass :=
  (kNodeClasses.find? (·.1 = text)).map (·.2)

/-- When the core library calls a name empty. -/
structure Emptiness where
  text : LocalizedText → Bool
  name : QualifiedName → Bool

/-! ## §2  Writing -/

def kNodeTag : String := "Node"

def kReferenceTag : String := "Reference"

def kPropertyTag : String := "Property"

def kAttributeValueTag : String := "AttributeValue"

def XmlNode.setNodeIdAttribute (node : XmlNode) (name : String) (nodeId : NodeId) : XmlNode :=
  if nodeId ≠ .null then node.appendAttribute name (nodeIdToScadaString nodeId) else node

section

variable {D X : Type} (library : Library D) (empty : Emptiness)

def XmlNode.setQualifiedName (node : XmlNode) (stem : String) (value : QualifiedName) : XmlNode :=
  if empty.name value then node
  else
    let node := node.appendAttribute (stem ++ "Name") value.name
    if value.namespaceIndex ≠ 0 then
      node.appendAttribute (stem ++ "Namespace")
        (String.ofList (formatInteger value.namespaceIndex.toNat))
    else node

/-- A localized text is written unless it is empty. -/
def XmlNode.setLocalizedText (node : XmlNode) (name : String) (text : LocalizedText) : XmlNode :=
  if empty.text text then node else node.appendAttribute name (library.toUtf8 text)

/-- What `WriteNodeState` writes before the value. -/
def nodeElement (state : NodeState D X) : XmlNode :=
  let node : XmlNode := { name := kNodeTag }
  let node := node.appendAttribute "id" (nodeIdToScadaString state.nodeId)
  let node := node.appendAttribute "class" (nodeClassText state.nodeClass)
  let node := node.setNodeIdAttribute "typeDefinition" state.typeDefinitionId
  let node := node.setNodeIdAttribute "parent" state.parentId
  let node := node.setNodeIdAttribute "parentReference" state.referenceTypeId
  let node := node.setNodeIdAttribute "supertype" state.supertypeId
  let node := node.setQualifiedName empty "browse" state.attributes.browseName
  let node := node.setLocalizedText library empty "displayName" state.attributes.displayName
  let node := node.setLocalizedText library empty "inverseName" state.attributes.inverseName
  node.setNodeIdAttribute "dataType" state.attributes.dataType

def writeProperty (property : NodeId × Variant D X) : Except StatusCode XmlNode :=
  let propertyNode : XmlNode := { name := kPropertyTag }
  writeVariant library (propertyNode.setNodeIdAttribute "id" property.1) property.2

def writeReference (reference : ReferenceDescription) : XmlNode :=
  let referenceNode : XmlNode := { name := kReferenceTag }
  let referenceNode := referenceNode.setNodeIdAttribute "type" reference.referenceTypeId
  let referenceNode := referenceNode.appendAttribute "forward" (boolText reference.forward)
  let referenceNode := referenceNode.setNodeIdAttribute "target" reference.nodeId
  referenceNode.appendAttribute "targetClass" (nodeClassText reference.nodeClass)

/-- `WriteNodeState`, with the element that it appends. -/
def writeNodeState (state : NodeState D X) : Except StatusCode XmlNode := do
  let value ← state.attributes.value.mapM (writeVariant library { name := kAttributeValueTag })
  let properties ← state.properties.mapM (writeProperty library)
  return (nodeElement library empty state).appendChildren
    (value.toList ++ properties ++ state.references.map writeReference)

end

/-! ## §3  Reading -/

section

variable {D X : Type} (library : Library D)

/-- `ParseNodeId` of an attribute. -/
def readNodeId (node : XmlNode) (name : String) : NodeId :=
  parseNodeId library.parsing (node.asString name)

def readQualifiedName (node : XmlNode) (stem : String) : QualifiedName :=
  match node.xmlAttribute (stem ++ "Name") with
  | none => {}
  | some name =>
      { name := cText name
        namespaceIndex :=
          .ofNat ((node.xmlAttribute (stem ++ "Namespace")).elim 0 library.asUint) }

def readProperty (node : XmlNode) : Except StatusCode (NodeId × Variant D X) :=
  if readNodeId library node "id" = .null then .error .badWrongPropertyId
  else (readNodeId library node "id", ·) <$> readVariant library node

def readReference (node : XmlNode) : Except StatusCode ReferenceDescription :=
  match parseNodeClass (node.asString "targetClass") with
  | none => .error .badWrongNodeClass
  | some targetClass =>
      .ok { referenceTypeId := readNodeId library node "type"
            forward := node.asBool "forward" true
            nodeId := readNodeId library node "target"
            nodeClass := targetClass }

def readNodeState (node : XmlNode) : Except StatusCode (NodeState D X) :=
  if readNodeId library node "id" = .null then .error .badWrongNodeId
  else
    match parseNodeClass (node.asString "class") with
    | none => .error .badWrongNodeClass
    | some nodeClass => do
        let value ← (node.childrenNamed kAttributeValueTag).head?.mapM (readVariant library)
        let properties ← (node.childrenNamed kPropertyTag).mapM (readProperty library)
        let references ← (node.childrenNamed kReferenceTag).mapM (readReference library)
        return {
          nodeId := readNodeId library node "id"
          nodeClass := nodeClass
          typeDefinitionId := readNodeId library node "typeDefinition"
          parentId := readNodeId library node "parent"
          referenceTypeId := readNodeId library node "parentReference"
          supertypeId := readNodeId library node "supertype"
          attributes := {
            browseName := readQualifiedName library node "browse"
            displayName := library.fromUtf8 (node.asString "displayName")
            inverseName := library.fromUtf8 (node.asString "inverseName")
            dataType := readNodeId library node "dataType"
            value }
          properties
          references }

end

/-! ## §4  What keeps -/

section

variable {D X : Type} (library : Library D) (empty : Emptiness)

/-- An empty name is the default one, and another has no zero character. -/
def QualifiedName.Keeps (name : QualifiedName) : Prop :=
  if empty.name name then name = {} else NoNul name.name

/-- A text as it is read from an attribute that may be missing. -/
def KeepsAttribute (text : LocalizedText) : Prop :=
  library.fromUtf8 (if empty.text text then "" else cText (library.toUtf8 text)) = text

/-- The class is specified, and there are no fields beside those that are written. -/
structure ReferenceDescription.Keeps (reference : ReferenceDescription) : Prop where
  nodeClass : reference.nodeClass ≠ none
  referenceTypeId : NoNul (nodeIdToScadaString reference.referenceTypeId)
  nodeId : NoNul (nodeIdToScadaString reference.nodeId)
  browseName : reference.browseName = {}
  displayName : reference.displayName = {}
  typeDefinition : reference.typeDefinition = .null

structure KeepsProperty (property : NodeId × Variant D X) : Prop where
  notNull : property.1 ≠ .null
  id : NoNul (nodeIdToScadaString property.1)
  value : library.Keeps property.2

/-- What the way back asks of a state. -/
structure NodeState.Keeps (state : NodeState D X) : Prop where
  notNull : state.nodeId ≠ .null
  nodeClass : state.nodeClass ≠ none
  nodeId : NoNul (nodeIdToScadaString state.nodeId)
  typeDefinitionId : NoNul (nodeIdToScadaString state.typeDefinitionId)
  parentId : NoNul (nodeIdToScadaString state.parentId)
  referenceTypeId : NoNul (nodeIdToScadaString state.referenceTypeId)
  supertypeId : NoNul (nodeIdToScadaString state.supertypeId)
  dataType : NoNul (nodeIdToScadaString state.attributes.dataType)
  browseName : state.attributes.browseName.Keeps empty
  displayName : KeepsAttribute library empty state.attributes.displayName
  inverseName : KeepsAttribute library empty state.attributes.inverseName
  value : ∀ value ∈ state.attributes.value, library.Keeps value
  properties : ∀ property ∈ state.properties, KeepsProperty library property
  references : ∀ reference ∈ state.references, reference.Keeps

/-- The ids of a state, in its values too. -/
def NodeState.nodeIds (state : NodeState D X) : List NodeId :=
  [state.nodeId, state.typeDefinitionId, state.parentId, state.referenceTypeId,
    state.supertypeId, state.attributes.dataType] ++
  state.attributes.value.toList.flatMap Variant.nodeIds ++
  state.properties.flatMap (fun property => property.1 :: property.2.nodeIds) ++
  state.references.flatMap fun reference => [reference.referenceTypeId, reference.nodeId]

end

/-! ## §5  Attributes -/

/-- An attribute for an id that may be null. -/
def XmlNode.HasNodeId (node : XmlNode) (name : String) (nodeId : NodeId) : Prop :=
  node.xmlAttribute name = if nodeId ≠ .null then some (nodeIdToScadaString nodeId) else none

def XmlNode.HasLocalizedText {D : Type} (library : Library D) (empty : Emptiness)
    (node : XmlNode) (name : String) (text : LocalizedText) : Prop :=
  node.xmlAttribute name = if empty.text text = false then some (library.toUtf8 text) else none

section

variable {D X : Type} {library : Library D} {empty : Emptiness} {node : XmlNode}
variable {name name' : String} {nodeId : NodeId}

theorem parseNodeClass_text (nodeClass : Option NodeClass) :
    parseNodeClass (nodeClassText nodeClass) = nodeClass := by
  rcases nodeClass with _ | _ | _ | _ | _ | _ | _ | _ | _
  all_goals rfl

theorem noNul_nodeClassText (nodeClass : Option NodeClass) : NoNul (nodeClassText nodeClass) := by
  rcases nodeClass with _ | _ | _ | _ | _ | _ | _ | _ | _
  all_goals decide

@[simp] theorem XmlNode.xmlAttribute_setNodeIdAttribute :
    (node.setNodeIdAttribute name nodeId).xmlAttribute name' = (node.xmlAttribute name').or
      (if name = name' ∧ nodeId ≠ .null then some (nodeIdToScadaString nodeId) else none) := by
  unfold XmlNode.setNodeIdAttribute
  by_cases hnull : nodeId = .null
  · simp [hnull]
  · simp [hnull]

@[simp] theorem XmlNode.xmlAttribute_setLocalizedText {text : LocalizedText} :
    (node.setLocalizedText library empty name text).xmlAttribute name' =
      (node.xmlAttribute name').or (if name = name' ∧ empty.text text = false
        then some (library.toUtf8 text) else none) := by
  unfold XmlNode.setLocalizedText
  by_cases hempty : empty.text text = true
  · simp [hempty]
  · simp [hempty]

@[simp] theorem XmlNode.xmlAttribute_setQualifiedName {stem : String} {value : QualifiedName} :
    (node.setQualifiedName empty stem value).xmlAttribute name' = ((node.xmlAttribute name').or
      (if stem ++ "Name" = name' ∧ empty.name value = false then some value.name else none)).or
      (if stem ++ "Namespace" = name' ∧ empty.name value = false ∧ value.namespaceIndex ≠ 0
        then some (String.ofList (Nat.toDigits 10 value.namespaceIndex.toNat)) else none) := by
  unfold XmlNode.setQualifiedName
  by_cases hempty : empty.name value = true
  · simp [hempty]
  · by_cases hzero : value.namespaceIndex = 0
    · simp [hempty, hzero]
    · simp [hempty, hzero]
      rfl

/-- **An optional id comes back exactly if it has no zero character.** -/
theorem readNodeId_iff (hnode : node.HasNodeId name nodeId)
    (hid : nodeIdFromScadaString library.parsing (nodeIdToScadaString nodeId) = nodeId) :
    readNodeId library node name = nodeId ↔ NoNul (nodeIdToScadaString nodeId) := by
  rw [readNodeId, XmlNode.asString, hnode]
  by_cases hnull : nodeId = .null
  · rw [if_neg (not_not.mpr hnull), hnull]
    exact iff_of_true rfl (by decide)
  · rw [if_pos hnull, Option.getD_some]
    exact parseNodeId_cText_iff hid

theorem readLocalizedText_iff {text : LocalizedText}
    (hnode : node.HasLocalizedText library empty name text) :
    library.fromUtf8 (node.asString name) = text ↔ KeepsAttribute library empty text := by
  rw [KeepsAttribute, XmlNode.asString, hnode]
  by_cases hempty : empty.text text = true
  · simp [hempty]
  · simp [hempty]

theorem ofNat_asUint (hdigits : library.ReadsDigits) (namespaceIndex : UInt16) :
    UInt16.ofNat (library.asUint (String.ofList (Nat.toDigits 10 namespaceIndex.toNat))) =
      namespaceIndex := by
  have hlt : namespaceIndex.toNat < 2 ^ 32 := lt_trans namespaceIndex.toNat_lt (by decide)
  rw [hdigits _ hlt, UInt16.ofNat_toNat]

theorem readQualifiedName_iff (hdigits : library.ReadsDigits) {stem : String}
    {value : QualifiedName}
    (hname : node.xmlAttribute (stem ++ "Name") =
      if empty.name value = false then some value.name else none)
    (hnamespace : node.xmlAttribute (stem ++ "Namespace") =
      if empty.name value = false ∧ value.namespaceIndex ≠ 0
        then some (String.ofList (Nat.toDigits 10 value.namespaceIndex.toNat)) else none) :
    readQualifiedName library node stem = value ↔ value.Keeps empty := by
  obtain ⟨name, namespaceIndex⟩ := value
  rw [readQualifiedName, hname, hnamespace, QualifiedName.Keeps]
  by_cases hempty : empty.name ⟨name, namespaceIndex⟩ = true
  · rw [if_neg (by simp [hempty]), if_pos hempty]
    exact eq_comm
  · rw [if_pos (by simpa using hempty), if_neg hempty]
    by_cases hzero : namespaceIndex = 0
    · simp [hzero, cText_eq_self_iff]
    · simp [hempty, hzero, cText_eq_self_iff, ofNat_asUint hdigits]

end

/-! ## §6  Children -/

section

variable {D X : Type} {library : Library D} {empty : Emptiness} {node written : XmlNode}

@[simp] theorem XmlNode.childrenNamed_setNodeIdAttribute {name name' : String} {nodeId : NodeId} :
    (node.setNodeIdAttribute name nodeId).childrenNamed name' = node.childrenNamed name' := by
  unfold XmlNode.setNodeIdAttribute
  split <;> rfl

@[simp] theorem XmlNode.childrenNamed_setQualifiedName {stem name : String}
    {value : QualifiedName} :
    (node.setQualifiedName empty stem value).childrenNamed name = node.childrenNamed name := by
  unfold XmlNode.setQualifiedName
  by_cases hempty : empty.name value = true
  · rw [if_pos hempty]
  · by_cases hzero : value.namespaceIndex = 0
    · simp [hempty, hzero]
    · simp [hempty, hzero]

@[simp] theorem XmlNode.childrenNamed_setLocalizedText {name name' : String}
    {text : LocalizedText} :
    (node.setLocalizedText library empty name text).childrenNamed name' =
      node.childrenNamed name' := by
  unfold XmlNode.setLocalizedText
  split <;> rfl

@[simp] theorem XmlNode.name_setNodeIdAttribute {name : String} {nodeId : NodeId} :
    (node.setNodeIdAttribute name nodeId).name = node.name := by
  unfold XmlNode.setNodeIdAttribute
  split <;> rfl

theorem unwritten_new {name : String} : ({ name } : XmlNode).Unwritten :=
  ⟨rfl, rfl, rfl⟩

theorem unwritten_property {nodeId : NodeId} :
    (({ name := kPropertyTag } : XmlNode).setNodeIdAttribute "id" nodeId).Unwritten :=
  ⟨by simp, by simp, by simp⟩

/-- **A property comes back exactly if it has an id, and its texts and doubles keep.** -/
theorem readProperty_writeProperty_iff {property : NodeId × Variant D X}
    (hids : library.ReadsBack (property.1 :: property.2.nodeIds))
    (hwrite : writeProperty library property = .ok written) :
    readProperty library written = .ok property ↔ KeepsProperty library property := by
  obtain ⟨nodeId, value⟩ := property
  obtain ⟨hid, hids⟩ := List.forall_mem_cons.mp hids
  have hvalue := readVariant_writeVariant_iff unwritten_property hids hwrite
  have hattribute : written.HasNodeId "id" nodeId := by
    rw [XmlNode.HasNodeId, (writeVariant_frame hwrite).2 "id" (by decide) (by decide)]
    simp
  have hback := readNodeId_iff hattribute hid
  rw [readProperty]
  constructor
  · intro h
    split at h
    · cases h
    · rename_i hnotNull
      obtain ⟨value', hvalue', hpair⟩ := map_eq_ok_iff.mp h
      rw [Prod.mk.injEq] at hpair
      obtain ⟨hsame, rfl⟩ := hpair
      exact ⟨hsame ▸ hnotNull, hback.mp hsame, hvalue.mp hvalue'⟩
  · rintro ⟨hnotNull, hnoNul, hkeeps⟩
    have hsame := hback.mpr hnoNul
    rw [hsame, if_neg hnotNull]
    exact map_eq_ok_iff.mpr ⟨value, hvalue.mpr hkeeps, rfl⟩

theorem name_writeReference (reference : ReferenceDescription) :
    (writeReference reference).name = kReferenceTag := by
  simp [writeReference]

/-- **A reference comes back exactly if the class of its target is specified**, and nothing
else is known of it. -/
theorem readReference_writeReference_iff {reference : ReferenceDescription}
    (hids : library.ReadsBack [reference.referenceTypeId, reference.nodeId]) :
    readReference library (writeReference reference) = .ok reference ↔ reference.Keeps := by
  have htype : (writeReference reference).HasNodeId "type" reference.referenceTypeId := by
    simp [XmlNode.HasNodeId, writeReference]
  have htarget : (writeReference reference).HasNodeId "target" reference.nodeId := by
    simp [XmlNode.HasNodeId, writeReference]
  have hforward : (writeReference reference).asBool "forward" true = reference.forward := by
    cases hvalue : reference.forward <;> simp [XmlNode.asBool, writeReference, boolText, hvalue]
  have hclass : parseNodeClass ((writeReference reference).asString "targetClass") =
      reference.nodeClass := by
    rw [← parseNodeClass_text reference.nodeClass]
    simp [XmlNode.asString, writeReference, (noNul_nodeClassText _).cText_eq]
  have htypeBack := readNodeId_iff htype (hids _ List.mem_cons_self)
  have htargetBack := readNodeId_iff htarget (hids _ (List.mem_cons_of_mem _ List.mem_cons_self))
  rw [readReference, hclass, hforward]
  obtain ⟨typeId, forward, nodeId, nodeClass, browseName, displayName, typeDefinition⟩ := reference
  cases nodeClass with
  | none =>
      refine iff_of_false (fun heq => ?_) fun h => absurd rfl h.nodeClass
      cases heq
  | some nodeClass =>
      dsimp only at htypeBack htargetBack ⊢
      rw [Except.ok.injEq, ReferenceDescription.mk.injEq]
      constructor
      · rintro ⟨htypeSame, -, htargetSame, -, rfl, rfl, rfl⟩
        exact ⟨Option.some_ne_none _, htypeBack.mp htypeSame, htargetBack.mp htargetSame, rfl, rfl, rfl⟩
      · intro h
        exact ⟨htypeBack.mpr h.referenceTypeId, rfl, htargetBack.mpr h.nodeId, rfl,
          h.browseName.symm, h.displayName.symm, h.typeDefinition.symm⟩

end

/-! ## §7  The way back -/

section

variable {D X : Type} {library : Library D} {empty : Emptiness} {node : XmlNode}
variable {state : NodeState D X}

/-- The attributes that are written for a state. -/
structure XmlNode.Tells (library : Library D) (empty : Emptiness) (node : XmlNode)
    (state : NodeState D X) : Prop where
  nodeId : node.xmlAttribute "id" = some (nodeIdToScadaString state.nodeId)
  nodeClass : node.xmlAttribute "class" = some (nodeClassText state.nodeClass)
  typeDefinitionId : node.HasNodeId "typeDefinition" state.typeDefinitionId
  parentId : node.HasNodeId "parent" state.parentId
  referenceTypeId : node.HasNodeId "parentReference" state.referenceTypeId
  supertypeId : node.HasNodeId "supertype" state.supertypeId
  dataType : node.HasNodeId "dataType" state.attributes.dataType
  browseName : node.xmlAttribute ("browse" ++ "Name") =
    if empty.name state.attributes.browseName = false then some state.attributes.browseName.name
    else none
  browseNamespace : node.xmlAttribute ("browse" ++ "Namespace") =
    if empty.name state.attributes.browseName = false ∧
        state.attributes.browseName.namespaceIndex ≠ 0
      then some (String.ofList
        (Nat.toDigits 10 state.attributes.browseName.namespaceIndex.toNat)) else none
  displayName : node.HasLocalizedText library empty "displayName" state.attributes.displayName
  inverseName : node.HasLocalizedText library empty "inverseName" state.attributes.inverseName

theorem nodeElement_tells : (nodeElement library empty state).Tells library empty state where
  nodeId := by simp [nodeElement]
  nodeClass := by simp [nodeElement]
  typeDefinitionId := by simp [nodeElement, XmlNode.HasNodeId]
  parentId := by simp [nodeElement, XmlNode.HasNodeId]
  referenceTypeId := by simp [nodeElement, XmlNode.HasNodeId]
  supertypeId := by simp [nodeElement, XmlNode.HasNodeId]
  dataType := by simp [nodeElement, XmlNode.HasNodeId]
  browseName := by simp [nodeElement]
  browseNamespace := by simp [nodeElement]
  displayName := by simp [nodeElement, XmlNode.HasLocalizedText]
  inverseName := by simp [nodeElement, XmlNode.HasLocalizedText]

theorem XmlNode.Tells.appendChildren (h : node.Tells library empty state)
    (children : List XmlNode) : (node.appendChildren children).Tells library empty state :=
  ⟨h.nodeId, h.nodeClass, h.typeDefinitionId, h.parentId, h.referenceTypeId, h.supertypeId,
    h.dataType, h.browseName, h.browseNamespace, h.displayName, h.inverseName⟩

theorem filter_named {children : List XmlNode} {name : String}
    (h : ∀ child ∈ children, child.name = name) (name' : String) :
    children.filter (·.name = name') = if name = name' then children else [] := by
  split
  · rename_i heq
    exact List.filter_eq_self.mpr fun child hchild => decide_eq_true ((h child hchild).trans heq)
  · rename_i hne
    refine List.filter_eq_nil_iff.mpr fun child hchild => ?_
    rw [h child hchild, decide_eq_true_eq]
    exact hne

/-- The children are found by their names. -/
theorem childrenNamed_written (library : Library D) (empty : Emptiness) (state : NodeState D X)
    {value? : Option XmlNode} {properties references : List XmlNode}
    (hvalue : ∀ child ∈ value?.toList, child.name = kAttributeValueTag)
    (hproperties : ∀ child ∈ properties, child.name = kPropertyTag)
    (hreferences : ∀ child ∈ references, child.name = kReferenceTag) :
    let element := (nodeElement library empty state).appendChildren
      (value?.toList ++ properties ++ references)
    (element.childrenNamed kAttributeValueTag).head? = value? ∧
      element.childrenNamed kPropertyTag = properties ∧
      element.childrenNamed kReferenceTag = references := by
  have hnone : ∀ name, (nodeElement library empty state).childrenNamed name = [] := by
    intro name
    simp [nodeElement]
  have hfilter : ∀ name, ((nodeElement library empty state).appendChildren
      (value?.toList ++ properties ++ references)).childrenNamed name =
      (if kAttributeValueTag = name then value?.toList else []) ++
        (if kPropertyTag = name then properties else []) ++
        (if kReferenceTag = name then references else []) := by
    intro name
    rw [XmlNode.childrenNamed_appendChildren, hnone, List.nil_append, List.filter_append,
      List.filter_append, filter_named hvalue, filter_named hproperties, filter_named hreferences]
  refine ⟨?_, ?_, ?_⟩
  · rw [hfilter]
    cases value? <;> simp [kAttributeValueTag, kPropertyTag, kReferenceTag]
  · rw [hfilter]
    simp [kAttributeValueTag, kPropertyTag, kReferenceTag]
  · rw [hfilter]
    simp [kAttributeValueTag, kPropertyTag, kReferenceTag]

/-- What is read of an element, field by field. -/
structure Reads (library : Library D) (node : XmlNode) (state : NodeState D X) : Prop where
  notNull : readNodeId library node "id" ≠ .null
  nodeClass : ∃ nodeClass, parseNodeClass (node.asString "class") = some nodeClass ∧
    state.nodeClass = some nodeClass
  nodeId : readNodeId library node "id" = state.nodeId
  typeDefinitionId : readNodeId library node "typeDefinition" = state.typeDefinitionId
  parentId : readNodeId library node "parent" = state.parentId
  referenceTypeId : readNodeId library node "parentReference" = state.referenceTypeId
  supertypeId : readNodeId library node "supertype" = state.supertypeId
  dataType : readNodeId library node "dataType" = state.attributes.dataType
  browseName : readQualifiedName library node "browse" = state.attributes.browseName
  displayName : library.fromUtf8 (node.asString "displayName") = state.attributes.displayName
  inverseName : library.fromUtf8 (node.asString "inverseName") = state.attributes.inverseName
  value : (node.childrenNamed kAttributeValueTag).head?.mapM (readVariant library) =
    .ok state.attributes.value
  properties : (node.childrenNamed kPropertyTag).mapM (readProperty library) = .ok state.properties
  references : (node.childrenNamed kReferenceTag).mapM (readReference library) =
    .ok state.references

theorem readNodeState_eq_ok_iff :
    readNodeState library node = .ok state ↔ Reads library node state := by
  rw [readNodeState]
  constructor
  · intro h
    split at h
    · cases h
    · rename_i hnotNull
      split at h
      · cases h
      · rename_i nodeClass hclass
        obtain ⟨value, hvalue, h⟩ := bind_eq_ok_iff.mp h
        obtain ⟨properties, hproperties, h⟩ := bind_eq_ok_iff.mp h
        obtain ⟨references, hreferences, h⟩ := bind_eq_ok_iff.mp h
        obtain ⟨nodeId, _, typeDefinitionId, parentId, referenceTypeId, ⟨browseName, displayName,
          inverseName, dataType, _⟩, _, _, supertypeId⟩ := state
        have hstate := Except.ok.inj h
        rw [NodeState.mk.injEq, NodeAttributes.mk.injEq] at hstate
        obtain ⟨hnodeId, rfl, htypeDefinitionId, hparentId, hreferenceTypeId, ⟨hbrowseName,
          hdisplayName, hinverseName, hdataType, rfl⟩, rfl, rfl, hsupertypeId⟩ := hstate
        exact ⟨hnotNull, ⟨nodeClass, hclass, rfl⟩, hnodeId, htypeDefinitionId, hparentId,
          hreferenceTypeId, hsupertypeId, hdataType, hbrowseName, hdisplayName, hinverseName,
          hvalue, hproperties, hreferences⟩
  · intro h
    obtain ⟨nodeClass, hclass, hstate⟩ := h.nodeClass
    rw [if_neg h.notNull, hclass]
    dsimp only
    rw [h.value, h.properties, h.references, h.nodeId, h.typeDefinitionId, h.parentId,
      h.referenceTypeId, h.supertypeId, h.dataType, h.browseName, h.displayName, h.inverseName,
      ← hstate]
    rfl

/-- The ids of the parts come back, too. -/
theorem readsBack_parts (hids : library.ReadsBack state.nodeIds) :
    (∀ value ∈ state.attributes.value, library.ReadsBack value.nodeIds) ∧
      (∀ property ∈ state.properties, library.ReadsBack (property.1 :: property.2.nodeIds)) ∧
      ∀ reference ∈ state.references,
        library.ReadsBack [reference.referenceTypeId, reference.nodeId] := by
  refine ⟨fun value hvalue nodeId hnodeId => ?_, fun property hproperty nodeId hnodeId => ?_,
    fun reference hreference nodeId hnodeId => ?_⟩
  · have hmem : nodeId ∈ state.attributes.value.toList.flatMap Variant.nodeIds :=
      List.mem_flatMap.mpr ⟨value, Option.mem_toList.mpr hvalue, hnodeId⟩
    exact hids nodeId (List.mem_append_left _ (List.mem_append_left _
      (List.mem_append_right _ hmem)))
  · have hmem : nodeId ∈ state.properties.flatMap
        (fun property => property.1 :: property.2.nodeIds) :=
      List.mem_flatMap.mpr ⟨property, hproperty, hnodeId⟩
    exact hids nodeId (List.mem_append_left _ (List.mem_append_right _ hmem))
  · have hmem : nodeId ∈ state.references.flatMap
        (fun reference => [reference.referenceTypeId, reference.nodeId]) :=
      List.mem_flatMap.mpr ⟨reference, hreference, hnodeId⟩
    exact hids nodeId (List.mem_append_right _ hmem)

/-- The way back, for a node that was written with these children. -/
theorem reads_iff_keeps (hdigits : library.ReadsDigits) (hids : library.ReadsBack state.nodeIds)
    (htells : node.Tells library empty state)
    (hvalue : (node.childrenNamed kAttributeValueTag).head?.mapM (readVariant library) =
      .ok state.attributes.value ↔ ∀ value ∈ state.attributes.value, library.Keeps value)
    (hproperties : (node.childrenNamed kPropertyTag).mapM (readProperty library) =
      .ok state.properties ↔ ∀ property ∈ state.properties, KeepsProperty library property)
    (hreferences : (node.childrenNamed kReferenceTag).mapM (readReference library) =
      .ok state.references ↔ ∀ reference ∈ state.references, reference.Keeps) :
    Reads library node state ↔ state.Keeps library empty := by
  have hown : ∀ nodeId ∈ [state.nodeId, state.typeDefinitionId, state.parentId,
      state.referenceTypeId, state.supertypeId, state.attributes.dataType],
      nodeIdFromScadaString library.parsing (nodeIdToScadaString nodeId) = nodeId :=
    fun nodeId hnodeId => hids nodeId (List.mem_append_left _ (List.mem_append_left _
      (List.mem_append_left _ hnodeId)))
  have hnodeId : readNodeId library node "id" = state.nodeId ↔
      NoNul (nodeIdToScadaString state.nodeId) := by
    rw [readNodeId, XmlNode.asString, htells.nodeId, Option.getD_some]
    exact parseNodeId_cText_iff (hown _ (by simp))
  have hclass : parseNodeClass (node.asString "class") = state.nodeClass := by
    rw [XmlNode.asString, htells.nodeClass, Option.getD_some, (noNul_nodeClassText _).cText_eq,
      parseNodeClass_text]
  have htypeDefinitionId := readNodeId_iff htells.typeDefinitionId (hown _ (by simp))
  have hparentId := readNodeId_iff htells.parentId (hown _ (by simp))
  have hreferenceTypeId := readNodeId_iff htells.referenceTypeId (hown _ (by simp))
  have hsupertypeId := readNodeId_iff htells.supertypeId (hown _ (by simp))
  have hdataType := readNodeId_iff htells.dataType (hown _ (by simp))
  have hbrowseName := readQualifiedName_iff hdigits htells.browseName htells.browseNamespace
  have hdisplayName := readLocalizedText_iff htells.displayName
  have hinverseName := readLocalizedText_iff htells.inverseName
  constructor
  · intro h
    obtain ⟨nodeClass, -, hspecified⟩ := h.nodeClass
    exact {
      notNull := h.nodeId ▸ h.notNull
      nodeClass := by rw [hspecified]; exact Option.some_ne_none _
      nodeId := hnodeId.mp h.nodeId
      typeDefinitionId := htypeDefinitionId.mp h.typeDefinitionId
      parentId := hparentId.mp h.parentId
      referenceTypeId := hreferenceTypeId.mp h.referenceTypeId
      supertypeId := hsupertypeId.mp h.supertypeId
      dataType := hdataType.mp h.dataType
      browseName := hbrowseName.mp h.browseName
      displayName := hdisplayName.mp h.displayName
      inverseName := hinverseName.mp h.inverseName
      value := hvalue.mp h.value
      properties := hproperties.mp h.properties
      references := hreferences.mp h.references }
  · intro h
    obtain ⟨nodeClass, hspecified⟩ := Option.ne_none_iff_exists'.mp h.nodeClass
    have hsame := hnodeId.mpr h.nodeId
    exact {
      notNull := hsame ▸ h.notNull
      nodeClass := ⟨nodeClass, hclass.trans hspecified, hspecified⟩
      nodeId := hsame
      typeDefinitionId := htypeDefinitionId.mpr h.typeDefinitionId
      parentId := hparentId.mpr h.parentId
      referenceTypeId := hreferenceTypeId.mpr h.referenceTypeId
      supertypeId := hsupertypeId.mpr h.supertypeId
      dataType := hdataType.mpr h.dataType
      browseName := hbrowseName.mpr h.browseName
      displayName := hdisplayName.mpr h.displayName
      inverseName := hinverseName.mpr h.inverseName
      value := hvalue.mpr h.value
      properties := hproperties.mpr h.properties
      references := hreferences.mpr h.references }

/-- **A state that was written is read again exactly if it keeps**: it has an id and a class,
its properties have ids and its references specified classes and no more than is written, an
empty browse name is the default one, and all texts and doubles survive. -/
theorem readNodeState_writeNodeState_iff (hdigits : library.ReadsDigits)
    (hids : library.ReadsBack state.nodeIds)
    (hwrite : writeNodeState library empty state = .ok node) :
    readNodeState library node = .ok state ↔ state.Keeps library empty := by
  obtain ⟨value?, hvalue, hwrite⟩ := bind_eq_ok_iff.mp hwrite
  obtain ⟨properties, hproperties, hwrite⟩ := bind_eq_ok_iff.mp hwrite
  cases hwrite
  have hvalueName : ∀ child ∈ value?.toList, child.name = kAttributeValueTag := by
    intro child hchild
    rw [Option.mem_toList] at hchild
    cases hchild
    obtain ⟨value, -, hchild⟩ := exists_of_option_mapM hvalue
    exact (writeVariant_frame hchild).1
  have hpropertyName : ∀ child ∈ properties, child.name = kPropertyTag := by
    intro child hchild
    obtain ⟨property, -, hchild⟩ := exists_of_mapM hproperties child hchild
    exact (writeVariant_frame hchild).1.trans XmlNode.name_setNodeIdAttribute
  have hreferenceName : ∀ child ∈ state.references.map writeReference,
      child.name = kReferenceTag := by
    intro child hchild
    obtain ⟨reference, -, rfl⟩ := List.mem_map.mp hchild
    exact name_writeReference reference
  obtain ⟨hvalueChild, hpropertyChildren, hreferenceChildren⟩ :=
    childrenNamed_written library empty state hvalueName hpropertyName hreferenceName
  obtain ⟨hvalueIds, hpropertyIds, hreferenceIds⟩ := readsBack_parts hids
  rw [readNodeState_eq_ok_iff]
  refine reads_iff_keeps hdigits hids (nodeElement_tells.appendChildren _) ?_ ?_ ?_
  · rw [hvalueChild]
    exact option_roundTrip_iff hvalue fun value hmem child hchild =>
      readVariant_writeVariant_iff unwritten_new (hvalueIds value hmem) hchild
  · rw [hpropertyChildren]
    exact list_roundTrip_iff hproperties fun property hmem child hchild =>
      readProperty_writeProperty_iff (hpropertyIds property hmem) hchild
  · rw [hreferenceChildren]
    refine list_roundTrip_iff (mapM_ok state.references) fun reference hmem child hchild => ?_
    cases hchild
    exact readReference_writeReference_iff (hreferenceIds reference hmem)

end

/-! ## §8  A pump -/

/-- Whole doubles, and texts without surrogates. -/
def Library.plain : Library ℕ where
  toUtf8 text := String.ofList (text.text.map fun unit => Char.ofNat unit.toNat)
  fromUtf8 text := { text := text.toList.map fun c => .ofNat c.toNat }
  setDouble value := String.ofList (Nat.toDigits 10 value)
  fromChars text := if IsNumeral text.toList then some (numeralValue text.toList) else none
  asUint text := numeralValue text.toList
  parsing := .decimal

def Emptiness.plain : Emptiness where
  text text := text.text.isEmpty
  name name := name.name = ""

theorem Library.plain_readsDigits : Library.plain.ReadsDigits := by
  intro n _
  show numeralValue (String.ofList (Nat.toDigits 10 n)).toList = n
  rw [String.toList_ofList, numeralValue_toDigits]

/-- A pump with a value, a property and a reference. -/
def pumpState : NodeState ℕ Empty where
  nodeId := .numeric 5 1
  nodeClass := some .variable
  typeDefinitionId := .numeric 62 0
  parentId := .string "Line" 1
  referenceTypeId := .numeric 47 0
  attributes := {
    browseName := { name := "Pump", namespaceIndex := 1 }
    displayName := { text := [80, 117, 109, 112] }
    dataType := .numeric 11 0
    value := some (.double 7) }
  properties := [(.numeric 9 1, .byteStringArray [[0, 255]])]
  references := [{
    referenceTypeId := .numeric 35 0
    forward := true
    nodeId := .numeric 6 1
    nodeClass := some .object }]

theorem readNodeState_writeNodeState_iff_pump :
    ∃ node, writeNodeState .plain .plain pumpState = .ok node ∧
      readNodeState .plain node = .ok pumpState := by
  have hids : Library.plain.ReadsBack pumpState.nodeIds := by decide +kernel
  have hkeeps : pumpState.Keeps Library.plain Emptiness.plain := {
    notNull := by decide
    nodeClass := by decide
    nodeId := by decide
    typeDefinitionId := by decide
    parentId := by decide
    referenceTypeId := by decide
    supertypeId := by decide
    dataType := by decide
    browseName := by
      show NoNul "Pump"
      decide
    displayName := rfl
    inverseName := rfl
    value := by
      intro value hvalue
      cases hvalue
      show Library.plain.fromChars (cText (Library.plain.setDouble 7)) = some 7
      decide
    properties := by
      intro property hproperty
      rw [List.mem_singleton.mp hproperty]
      exact ⟨by decide, by decide, trivial⟩
    references := by
      intro reference hreference
      rw [List.mem_singleton.mp hreference]
      exact ⟨nofun, by decide, by decide, rfl, rfl, rfl⟩ }
  exact ⟨_, rfl, (readNodeState_writeNodeState_iff Library.plain_readsDigits hids rfl).mpr hkeeps⟩

/-- The pump with a property that has no id. -/
def pumpOfNoProperty : NodeState ℕ Empty :=
  { pumpState with properties := [(.null, .string "")] }

/-- The pump with a reference to a target of no class. -/
def pumpOfNoClass : NodeState ℕ Empty :=
  { pumpState with
    references := [{
      referenceTypeId := .numeric 35 0
      forward := true
      nodeId := .numeric 6 1
      nodeClass := none }] }

/-- A property without an id and a target without a class are written, and not read. -/
theorem states_that_are_not_read :
    Library.plain.ReadsDigits ∧ Library.plain.ReadsBack pumpOfNoProperty.nodeIds ∧
    Library.plain.ReadsBack pumpOfNoClass.nodeIds ∧
    (∃ node, writeNodeState .plain .plain pumpOfNoProperty = .ok node ∧
      (readNodeState .plain node : Except StatusCode (NodeState ℕ Empty)) =
        .error .badWrongPropertyId) ∧
    ∃ node, writeNodeState .plain .plain pumpOfNoClass = .ok node ∧
      (readNodeState .plain node : Except StatusCode (NodeState ℕ Empty)) =
        .error .badWrongNodeClass :=
  ⟨Library.plain_readsDigits, by decide +kernel, by decide +kernel, ⟨_, rfl, by decide +kernel⟩,
    ⟨_, rfl, by decide +kernel⟩⟩

end ScadaCommon.NodeStateXml
