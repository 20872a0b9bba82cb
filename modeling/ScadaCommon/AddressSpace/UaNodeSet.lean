import ScadaCommon.AddressSpace.NodeStateXml
import ScadaCommon.Foundation.TextSearches

/-!
# Node sets

A file of the standard format has a table of namespaces, a table of names for ids, and an
element for each node. What such an element says of its node is in its attributes and in
its references, of which some are the parent, the supertype and the type of the node.

§1 tables and ids · §2 elements · §3 files · §4 the texts of ids · §5 references ·
§6 what files say.
-/

namespace ScadaCommon.NodeStateXml

open Foundation

/-! ## §1  Tables and ids -/

def kUaRootTag : String := "UANodeSet"

/-- The first child with a name. -/
def XmlNode.child? (node : XmlNode) (name : String) : Option XmlNode :=
  (node.childrenNamed name).head?

/-- The children with a name of a child that may be missing. -/
def XmlNode.grandchildren (node : XmlNode) (child name : String) : List XmlNode :=
  (node.child? child).elim [] (·.childrenNamed name)

/-- What the ids in a file depend on. -/
structure UaTables where
  /-- The namespaces by their index in the file. -/
  namespaces : List ℕ
  /-- The first entry for a name counts. -/
  aliases : List (String × String)

/-- All namespaces but the one of the standard are the same. -/
def readNamespaceMap (root : XmlNode) : List ℕ :=
  0 :: (root.grandchildren "NamespaceUris" "Uri").map fun uri =>
    if cText uri.text = "http://opcfoundation.org/UA/" then 0 else scadaNamespaceIndex

def readAliasMap (root : XmlNode) : List (String × String) :=
  (root.grandchildren "Aliases" "Alias").map fun entry =>
    (entry.asString "Alias", cText entry.text)

def readUaTables (root : XmlNode) : UaTables where
  namespaces := readNamespaceMap root
  aliases := readAliasMap root

namespace UaTables

variable (tables : UaTables)

/-- The text that a name stands for, and any other text itself. -/
def resolve (text : String) : String :=
  ((tables.aliases.find? (·.1 = text)).map (·.2)).getD text

/-- An index that is not in the table is one of the server. -/
def globalNamespace (localIndex : ℕ) : ℕ :=
  tables.namespaces.getD localIndex localIndex

end UaTables

/-- `std::from_chars` of an `unsigned`, and what is behind the digits. -/
def unsignedPrefix (text : List Char) : Option (ℕ × List Char) :=
  let digits := text.takeWhile Char.isDigit
  if digits ≠ [] ∧ numeralValue digits < 2 ^ 32 then
    some (numeralValue digits, text.dropWhile Char.isDigit)
  else none

/-- The index of the namespace, cut to its type, and what is behind it. -/
def localNamespace : List Char → Option (ℕ × List Char)
  | 'n' :: 's' :: '=' :: text =>
      match unsignedPrefix text with
      | some (index, ';' :: rest) => some (index % 2 ^ 16, rest)
      | _ => none
  | text => some (0, text)

def parseUaNodeId (tables : UaTables) (text : String) : NodeId :=
  if text = "" then .null
  else
    match localNamespace (tables.resolve text).toList with
    | some (localIndex, 'i' :: '=' :: digits) =>
        match parseInteger .uint32 digits with
        | some numeric => .ofNumeric numeric.1.toNat (tables.globalNamespace localIndex)
        | none => .null
    | _ => .null

def parseUaBrowseName (tables : UaTables) (text : String) : QualifiedName :=
  match splitFirst ':' text.toList with
  | none => { name := text }
  | some (index, name) =>
      { name := String.ofList name
        namespaceIndex :=
          match parseInteger .uint32 index with
          | some localIndex => .ofNat (tables.globalNamespace localIndex.1.toNat)
          | none => 0 }

/-! ## §2  Elements -/

/-- The `kValues` of `ParseUaElementClass`. -/
def kUaElements : List (String × NodeClass) := [
  ("UAObject", .object), ("UAVariable", .variable), ("UAMethod", .method), ("UAView", .view),
  ("UAObjectType", .objectType), ("UAVariableType", .variableType),
  ("UADataType", .dataType), ("UAReferenceType", .referenceType)]

def parseUaElementClass (tag : String) : Option NodeClass :=
  (kUaElements.find? (·.1 = tag)).map (·.2)

/-- The `kValues` of `ParseUaxType`. -/
def kUaxTypes : List (String × VariantType) := [
  ("Boolean", .bool), ("SByte", .integer .int8), ("Byte", .integer .uint8),
  ("Int16", .integer .int16), ("UInt16", .integer .uint16), ("Int32", .integer .int32),
  ("UInt32", .integer .uint32), ("Int64", .integer .int64), ("UInt64", .integer .uint64),
  ("Double", .double), ("String", .string), ("DateTime", .dateTime),
  ("ByteString", .byteString), ("NodeId", .nodeId), ("LocalizedText", .localizedText)]

def parseUaxType (name : String) : Option VariantType :=
  (kUaxTypes.find? (·.1 = name)).map (·.2)

/-- The name of an element without the prefix of its namespace. -/
def XmlNode.localName (node : XmlNode) : String :=
  (splitFirst ':' node.name.toList).elim node.name fun parts => String.ofList parts.2

/-- The hierarchical types that are looked for, by their numbers. -/
def kUaOrganizes : ℕ := 35

def kUaHasTypeDefinition : ℕ := 40

def kUaHasSubtype : ℕ := 45

def kUaHasProperty : ℕ := 46

def kUaHasComponent : ℕ := 47

/-- The number of an id of the standard namespace. -/
def uaNumber : NodeId → ℕ
  | .numeric number 0 => number
  | _ => 0

section

variable {D X : Type} (library : Library D) (tables : UaTables)

/-- Only the first element is looked at. -/
def readUaValue (valueNode : XmlNode) : Option (Variant D X) := do
  let element ← valueNode.children.head?
  let type ← parseUaxType element.localName
  readScalarVariant library type (cText element.text)

def readUaReference (state : NodeState D X) (reference : XmlNode) : NodeState D X :=
  let referenceTypeId := parseUaNodeId tables (reference.asString "ReferenceType")
  let target := parseUaNodeId tables (cText reference.text)
  let forward := reference.asBool "IsForward" true
  let refNum := uaNumber referenceTypeId
  if !forward && refNum = kUaHasSubtype then
    { state with supertypeId := target, parentId := target, referenceTypeId }
  else if !forward &&
      (refNum = kUaHasComponent || refNum = kUaHasProperty || refNum = kUaOrganizes) then
    { state with parentId := target, referenceTypeId }
  else if forward && refNum = kUaHasTypeDefinition then { state with typeDefinitionId := target }
  else
    { state with
      references := state.references ++
        [{ referenceTypeId, forward, nodeId := target, nodeClass := some .object }] }

def readUaAttributes (nodeClass : NodeClass) (node : XmlNode) : NodeAttributes D X where
  browseName := parseUaBrowseName tables (node.asString "BrowseName")
  displayName := library.fromUtf8 ((node.child? "DisplayName").elim "" (cText ·.text))
  inverseName :=
    if nodeClass = .referenceType then
      library.fromUtf8 ((node.child? "InverseName").elim "" (cText ·.text))
    else {}
  dataType :=
    if (node.xmlAttribute "DataType").isSome then
      parseUaNodeId tables (node.asString "DataType")
    else .null
  value := (node.child? "Value").bind (readUaValue library)

def readUaNodeState (node : XmlNode) : Except StatusCode (NodeState D X) :=
  match parseUaElementClass node.name with
  | none => .error .badWrongNodeClass
  | some nodeClass =>
      let nodeId := parseUaNodeId tables (node.asString "NodeId")
      if nodeId = .null then .error .badWrongNodeId
      else
        .ok ((node.grandchildren "References" "Reference").foldl (readUaReference tables)
          { nodeId
            nodeClass := some nodeClass
            attributes := readUaAttributes library tables nodeClass node })

end

/-! ## §3  Files -/

/-- The elements that stand for nodes. -/
def XmlNode.uaElements (root : XmlNode) : List XmlNode :=
  root.children.filter fun node => (parseUaElementClass node.name).isSome

def parseUaNodeStates {D X : Type} (library : Library D) (document : XmlNode) :
    Except StatusCode (List (NodeState D X)) :=
  match document.child? kUaRootTag with
  | none => .error .badCantParseString
  | some root => root.uaElements.mapM (readUaNodeState library (readUaTables root))

/-! ## §4  The texts of ids -/

/-- A text that means a number in a namespace of the file; the number of the namespace is
cut to 16 bits. -/
inductive UaIdText : ℕ → ℕ → List Char → Prop
  | plain {digits : List Char} (hdigits : IsNumeral digits)
      (hlt : numeralValue digits < 2 ^ 32) :
      UaIdText 0 (numeralValue digits) ('i' :: '=' :: digits)
  | qualified {index digits : List Char} (hindex : IsNumeral index)
      (hindexLt : numeralValue index < 2 ^ 32) (hdigits : IsNumeral digits)
      (hlt : numeralValue digits < 2 ^ 32) :
      UaIdText (numeralValue index % 2 ^ 16) (numeralValue digits)
        ('n' :: 's' :: '=' :: (index ++ ';' :: 'i' :: '=' :: digits))

theorem unsignedPrefix_eq_some {text rest : List Char} {n : ℕ} :
    unsignedPrefix text = some (n, ';' :: rest) ↔
      ∃ digits, text = digits ++ ';' :: rest ∧ IsNumeral digits ∧
        numeralValue digits < 2 ^ 32 ∧ numeralValue digits = n := by
  unfold unsignedPrefix
  dsimp only
  constructor
  · intro h
    split at h
    · rename_i hdigits
      obtain ⟨hne, hlt⟩ := hdigits
      injection h with h
      injection h with hn hrest
      refine ⟨text.takeWhile Char.isDigit, ?_, ⟨hne, ?_⟩, hlt, hn⟩
      · rw [← hrest, List.takeWhile_append_dropWhile]
      · exact fun c hc => List.mem_takeWhile_imp hc
    · cases h
  · rintro ⟨digits, rfl, hdigits, hlt, rfl⟩
    obtain ⟨htake, hdrop⟩ : (digits ++ ';' :: rest).takeWhile Char.isDigit = digits ∧
        (digits ++ ';' :: rest).dropWhile Char.isDigit = ';' :: rest :=
      split_run _ hdigits.2 (by simp)
    rw [htake, hdrop, if_pos ⟨hdigits.1, hlt⟩]

theorem parseInteger_uint32 {text : List Char} {value : IntegerType.uint32.Value} :
    parseInteger .uint32 text = some value ↔
      IsNumeral text ∧ numeralValue text < 2 ^ 32 ∧ (numeralValue text : ℤ) = value.1 := by
  have hvalue : ∀ n : ℕ,
      IntegerType.uint32.value? n = some value ↔ n < 2 ^ 32 ∧ (n : ℤ) = value.1 := by
    intro n
    have hholds : IntegerType.uint32.Holds n ↔ n < 2 ^ 32 := by
      show (0 ≤ (n : ℤ) ∧ (n : ℤ) < 2 ^ 32) ↔ n < 2 ^ 32
      omega
    unfold IntegerType.value?
    split
    · rename_i h
      rw [Option.some_inj, Subtype.ext_iff, ← hholds, and_iff_right h]
    · rename_i h
      rw [← hholds]
      exact iff_of_false (Option.some_ne_none _).symm fun hboth => h hboth.1
  cases text with
  | nil => exact iff_of_false (Option.some_ne_none _).symm fun hboth => hboth.1.1 rfl
  | cons c text =>
      rw [parseInteger]
      split
      · rename_i hminus
        -- No sign stands before the digits of an unsigned number.
        rw [if_neg fun hboth => Bool.false_ne_true hboth.1]
        refine iff_of_false (Option.some_ne_none _).symm fun hboth => ?_
        have hdigit := hboth.1.2 c List.mem_cons_self
        rw [hminus] at hdigit
        exact absurd hdigit (by decide)
      · split
        · rename_i hnumeral
          rw [hvalue, and_iff_right hnumeral]
        · rename_i hnumeral
          exact iff_of_false (Option.some_ne_none _).symm fun hboth => hnumeral hboth.1

theorem localNamespace_eq_some {text rest : List Char} {index : ℕ} :
    localNamespace text = some (index, 'i' :: '=' :: rest) ↔
      (index = 0 ∧ text = 'i' :: '=' :: rest) ∨
        ∃ digits, IsNumeral digits ∧ numeralValue digits < 2 ^ 32 ∧
          index = numeralValue digits % 2 ^ 16 ∧
          text = 'n' :: 's' :: '=' :: (digits ++ ';' :: 'i' :: '=' :: rest) := by
  unfold localNamespace
  split
  · rename_i text
    constructor
    · intro h
      split at h
      · rename_i value rest' hprefix
        cases h
        obtain ⟨digits, rfl, hdigits, hlt, rfl⟩ := unsignedPrefix_eq_some.mp hprefix
        exact Or.inr ⟨digits, hdigits, hlt, rfl, rfl⟩
      · cases h
    · rintro (⟨-, htext⟩ | ⟨digits, hdigits, hlt, rfl, htext⟩)
      · cases htext
      · have hrest : text = digits ++ ';' :: 'i' :: '=' :: rest := by
          injection htext with _ htext
          injection htext with _ htext
          injection htext
        rw [unsignedPrefix_eq_some.mpr ⟨digits, hrest, hdigits, hlt, rfl⟩]
        rfl
  · rename_i hother
    constructor
    · intro h
      cases h
      exact Or.inl ⟨rfl, rfl⟩
    · rintro (⟨rfl, rfl⟩ | ⟨digits, -, -, -, htext⟩)
      · rfl
      · exact absurd htext (hother _)

/-- A number that fits is read. -/
theorem exists_parseInteger {digits : List Char} (hdigits : IsNumeral digits)
    (hlt : numeralValue digits < 2 ^ 32) :
    ∃ numeric, parseInteger .uint32 digits = some numeric ∧
      numeric.1.toNat = numeralValue digits := by
  have hholds : IntegerType.uint32.Holds (numeralValue digits) := by
    show 0 ≤ (numeralValue digits : ℤ) ∧ (numeralValue digits : ℤ) < 2 ^ 32
    omega
  exact ⟨⟨_, hholds⟩, parseInteger_uint32.mpr ⟨hdigits, hlt, rfl⟩, Int.toNat_natCast _⟩

theorem UaIdText.read {index number : ℕ} {text : List Char} (h : UaIdText index number text) :
    ∃ digits numeric, localNamespace text = some (index, 'i' :: '=' :: digits) ∧
      parseInteger .uint32 digits = some numeric ∧ numeric.1.toNat = number := by
  cases h with
  | plain hdigits hlt =>
      obtain ⟨numeric, hread, hvalue⟩ := exists_parseInteger hdigits hlt
      exact ⟨_, numeric, localNamespace_eq_some.mpr (Or.inl ⟨rfl, rfl⟩), hread, hvalue⟩
  | qualified hindex hindexLt hdigits hlt =>
      obtain ⟨numeric, hread, hvalue⟩ := exists_parseInteger hdigits hlt
      refine ⟨_, numeric, localNamespace_eq_some.mpr (Or.inr ?_), hread, hvalue⟩
      exact ⟨_, hindex, hindexLt, rfl, rfl⟩

/-- A text that stands for an id, by itself or by its name in the file. -/
def MeansId (tables : UaTables) (text : String) (nodeId : NodeId) : Prop :=
  text ≠ "" ∧ ∃ index number, UaIdText index number (tables.resolve text).toList ∧
    nodeId = .ofNumeric number (tables.globalNamespace index)

theorem MeansId.parse {tables : UaTables} {text : String} {nodeId : NodeId}
    (h : MeansId tables text nodeId) : parseUaNodeId tables text = nodeId := by
  obtain ⟨hne, index, number, hmeans, rfl⟩ := h
  obtain ⟨digits, numeric, hlocal, hnumeric, hvalue⟩ := hmeans.read
  unfold parseUaNodeId
  rw [if_neg hne]
  simp only [hlocal, hnumeric, hvalue]

/-- **A text is read as an id just when it means one.** -/
theorem parseUaNodeId_eq_iff (tables : UaTables) (text : String) {nodeId : NodeId}
    (hnull : nodeId ≠ .null) :
    parseUaNodeId tables text = nodeId ↔ MeansId tables text nodeId := by
  refine ⟨fun h => ?_, MeansId.parse⟩
  unfold parseUaNodeId at h
  split at h
  · exact absurd h.symm hnull
  · rename_i hne
    refine ⟨hne, ?_⟩
    split at h
    · rename_i localIndex digits hlocal
      split at h
      · rename_i numeric hnumeric
        obtain ⟨hdigits, hlt, hvalue⟩ := parseInteger_uint32.mp hnumeric
        have hnat : numeric.1.toNat = numeralValue digits := by omega
        refine ⟨localIndex, numeralValue digits, ?_, by rw [← h, hnat]⟩
        rcases localNamespace_eq_some.mp hlocal with
          ⟨rfl, htext⟩ | ⟨index, hindex, hindexLt, rfl, htext⟩
        · rw [htext]
          exact .plain hdigits hlt
        · rw [htext]
          exact .qualified hindex hindexLt hdigits hlt
      · exact absurd h.symm hnull
    · exact absurd h.symm hnull

/-- A text that means no id is read as the null id. -/
theorem parseUaNodeId_eq (tables : UaTables) (text : String) (nodeId : NodeId) :
    nodeId = parseUaNodeId tables text ↔ MeansId tables text nodeId ∨
      (∀ other, ¬ MeansId tables text other) ∧ nodeId = .null := by
  have hnull : parseUaNodeId tables text ≠ .null →
      MeansId tables text (parseUaNodeId tables text) := fun hnull =>
    (parseUaNodeId_eq_iff tables text hnull).mp rfl
  constructor
  · rintro rfl
    by_cases hmeans : ∃ other, MeansId tables text other
    · obtain ⟨other, hother⟩ := hmeans
      rw [hother.parse]
      exact Or.inl hother
    · have hnone : ∀ other, ¬ MeansId tables text other := not_exists.mp hmeans
      exact Or.inr ⟨hnone, by_contra fun hne => hnone _ (hnull hne)⟩
  · rintro (hmeans | ⟨hnone, rfl⟩)
    · exact hmeans.parse.symm
    · by_contra hne
      exact hnone _ (hnull (Ne.symm hne))

/-- A text that stands for a name with the namespace in front of it, if that is a number. -/
inductive UaNameText (tables : UaTables) : List Char → QualifiedName → Prop
  | bare {name : List Char} (hname : ':' ∉ name) :
      UaNameText tables name { name := String.ofList name }
  | qualified {index name : List Char} (hindex : IsNumeral index)
      (hlt : numeralValue index < 2 ^ 32) :
      UaNameText tables (index ++ ':' :: name)
        { name := String.ofList name
          namespaceIndex := .ofNat (tables.globalNamespace (numeralValue index)) }
  | other {index name : List Char} (hindex : ':' ∉ index)
      (hnumber : ¬ (IsNumeral index ∧ numeralValue index < 2 ^ 32)) :
      UaNameText tables (index ++ ':' :: name) { name := String.ofList name }

theorem parseUaBrowseName_eq (tables : UaTables) (text : String) (name : QualifiedName) :
    name = parseUaBrowseName tables text ↔ UaNameText tables text.toList name := by
  unfold parseUaBrowseName
  constructor
  · rintro rfl
    split
    · rename_i hsplit
      have hbare : UaNameText tables text.toList { name := String.ofList text.toList } :=
        .bare (splitFirst_eq_none.mp hsplit)
      rwa [String.ofList_toList] at hbare
    · rename_i index name hsplit
      obtain ⟨htext, hindex⟩ := splitFirst_eq_some.mp hsplit
      rw [htext]
      split
      · rename_i value hvalue
        obtain ⟨hnumeral, hlt, hvalue⟩ := parseInteger_uint32.mp hvalue
        have hnat : value.1.toNat = numeralValue index := by omega
        rw [hnat]
        exact .qualified hnumeral hlt
      · rename_i hvalue
        refine .other hindex fun ⟨hnumeral, hlt⟩ => ?_
        obtain ⟨value, hsome, -⟩ := exists_parseInteger hnumeral hlt
        exact Option.some_ne_none value (hsome.symm.trans hvalue)
  · intro h
    generalize hchars : text.toList = chars at h
    cases h with
    | bare hname => rw [splitFirst_eq_none.mpr hname, ← hchars, String.ofList_toList]
    | @qualified index name hindex hlt =>
        have hcolon : ':' ∉ index := fun hmem => absurd (hindex.2 ':' hmem) (by decide)
        obtain ⟨value, hsome, hvalue⟩ := exists_parseInteger hindex hlt
        rw [splitFirst_append hcolon]
        dsimp only
        rw [hsome, ← hvalue]
    | other hindex hnumber =>
        have hnone : parseInteger .uint32 _ = none := Option.eq_none_iff_forall_ne_some.mpr
          fun value hsome => hnumber ⟨(parseInteger_uint32.mp hsome).1,
            (parseInteger_uint32.mp hsome).2.1⟩
        rw [splitFirst_append hindex]
        dsimp only
        rw [hnone]

/-! ## §5  References -/

/-- A reference as it is read. -/
structure UaReference where
  typeId : NodeId
  forward : Bool
  target : NodeId

namespace UaReference

def ofElement (tables : UaTables) (reference : XmlNode) : UaReference where
  typeId := parseUaNodeId tables (reference.asString "ReferenceType")
  forward := reference.asBool "IsForward" true
  target := parseUaNodeId tables (cText reference.text)

variable (r : UaReference)

/-- The node is a subtype of the target. -/
def IsSupertype : Prop :=
  r.forward = false ∧ r.typeId = .numeric kUaHasSubtype 0

/-- The node is in or below the target. -/
def IsParent : Prop :=
  r.forward = false ∧ r.typeId ∈ [.numeric kUaHasSubtype 0, .numeric kUaHasComponent 0,
    .numeric kUaHasProperty 0, .numeric kUaOrganizes 0]

/-- The node is of the type that is the target. -/
def IsType : Prop :=
  r.forward = true ∧ r.typeId = .numeric kUaHasTypeDefinition 0

instance : Decidable r.IsSupertype := inferInstanceAs (Decidable (_ ∧ _))

instance : Decidable r.IsParent := inferInstanceAs (Decidable (_ ∧ _))

instance : Decidable r.IsType := inferInstanceAs (Decidable (_ ∧ _))

/-- The class of the target is not known. -/
def description : ReferenceDescription where
  referenceTypeId := r.typeId
  forward := r.forward
  nodeId := r.target
  nodeClass := some .object

end UaReference

/-- What the references of a node are to its state: the last one of its kind is the
supertype, the parent or the type, and the others stay references, in their order. -/
structure Gathers {D X : Type} (refs : List UaReference) (state : NodeState D X) : Prop where
  supertypeId : state.supertypeId =
    ((refs.filter (·.IsSupertype)).getLast?).elim .null (·.target)
  parentId : state.parentId = ((refs.filter (·.IsParent)).getLast?).elim .null (·.target)
  referenceTypeId : state.referenceTypeId =
    ((refs.filter (·.IsParent)).getLast?).elim .null (·.typeId)
  typeDefinitionId : state.typeDefinitionId =
    ((refs.filter (·.IsType)).getLast?).elim .null (·.target)
  references : state.references =
    (refs.filter fun r => ¬ r.IsParent ∧ ¬ r.IsType).map (·.description)

section

variable {D X : Type} {state : NodeState D X} {refs : List UaReference}

theorem uaNumber_eq_iff {nodeId : NodeId} {number : ℕ} (h : number ≠ 0) :
    uaNumber nodeId = number ↔ nodeId = .numeric number 0 := by
  unfold uaNumber
  split
  · simp
  · rename_i hother
    refine iff_of_false (Ne.symm h) ?_
    rintro rfl
    exact hother number rfl

/-- What a reference adds to a state. -/
def UaReference.addTo (r : UaReference) (state : NodeState D X) : NodeState D X :=
  if r.IsSupertype then
    { state with supertypeId := r.target, parentId := r.target, referenceTypeId := r.typeId }
  else if r.IsParent then { state with parentId := r.target, referenceTypeId := r.typeId }
  else if r.IsType then { state with typeDefinitionId := r.target }
  else { state with references := state.references ++ [r.description] }

theorem readUaReference_eq (tables : UaTables) (state : NodeState D X) (reference : XmlNode) :
    readUaReference tables state reference =
      (UaReference.ofElement tables reference).addTo state := by
  unfold readUaReference UaReference.addTo UaReference.ofElement
  dsimp only
  generalize parseUaNodeId tables (reference.asString "ReferenceType") = typeId
  generalize parseUaNodeId tables (cText reference.text) = target
  have hsubtype : uaNumber typeId = kUaHasSubtype ↔ typeId = .numeric kUaHasSubtype 0 :=
    uaNumber_eq_iff (by decide)
  have hcomponent : uaNumber typeId = kUaHasComponent ↔ typeId = .numeric kUaHasComponent 0 :=
    uaNumber_eq_iff (by decide)
  have hproperty : uaNumber typeId = kUaHasProperty ↔ typeId = .numeric kUaHasProperty 0 :=
    uaNumber_eq_iff (by decide)
  have horganizes : uaNumber typeId = kUaOrganizes ↔ typeId = .numeric kUaOrganizes 0 :=
    uaNumber_eq_iff (by decide)
  have htype : uaNumber typeId = kUaHasTypeDefinition ↔
      typeId = .numeric kUaHasTypeDefinition 0 := uaNumber_eq_iff (by decide)
  cases reference.asBool "IsForward" true with
  | false =>
      simp only [UaReference.IsSupertype, UaReference.IsParent, UaReference.IsType,
        UaReference.description, hsubtype, hcomponent, hproperty, horganizes]
      by_cases hsuper : typeId = .numeric kUaHasSubtype 0
      · simp [hsuper]
      · simp [hsuper, or_assoc]
  | true =>
      simp [UaReference.IsSupertype, UaReference.IsParent, UaReference.IsType,
        UaReference.description, htype]

theorem getLast_filter_snoc {p : UaReference → Prop} [DecidablePred p] (refs : List UaReference)
    (r : UaReference) (f : UaReference → NodeId) :
    ((refs ++ [r]).filter (p ·)).getLast?.elim .null f =
      if p r then f r else ((refs.filter (p ·)).getLast?).elim .null f := by
  rw [List.filter_append, List.filter_singleton]
  by_cases hp : p r
  · simp [hp]
  · simp [hp]

theorem UaReference.IsSupertype.isParent {r : UaReference} (h : r.IsSupertype) : r.IsParent :=
  ⟨h.1, List.mem_cons.mpr (Or.inl h.2)⟩

theorem UaReference.IsParent.not_isType {r : UaReference} (h : r.IsParent) : ¬ r.IsType := by
  intro htype
  have hforward := h.1.symm.trans htype.1
  cases hforward

/-- One more reference. -/
theorem Gathers.snoc (h : Gathers refs state) (r : UaReference) :
    Gathers (refs ++ [r]) (r.addTo state) := by
  have hothers : (refs ++ [r]).filter (fun r => ¬ r.IsParent ∧ ¬ r.IsType) =
      refs.filter (fun r => ¬ r.IsParent ∧ ¬ r.IsType) ++
        if ¬ r.IsParent ∧ ¬ r.IsType then [r] else [] := by
    rw [List.filter_append, List.filter_singleton]
    by_cases hother : ¬ r.IsParent ∧ ¬ r.IsType
    · simp [hother]
    · simp [hother]
  unfold UaReference.addTo
  split
  · rename_i hsuper
    have hparent := hsuper.isParent
    have htype := hparent.not_isType
    constructor
    · rw [getLast_filter_snoc, if_pos hsuper]
    · rw [getLast_filter_snoc, if_pos hparent]
    · rw [getLast_filter_snoc, if_pos hparent]
    · rw [getLast_filter_snoc, if_neg htype]
      exact h.typeDefinitionId
    · rw [hothers, if_neg fun hboth => hboth.1 hparent, List.append_nil]
      exact h.references
  · rename_i hsuper
    split
    · rename_i hparent
      have htype := hparent.not_isType
      constructor
      · rw [getLast_filter_snoc, if_neg hsuper]
        exact h.supertypeId
      · rw [getLast_filter_snoc, if_pos hparent]
      · rw [getLast_filter_snoc, if_pos hparent]
      · rw [getLast_filter_snoc, if_neg htype]
        exact h.typeDefinitionId
      · rw [hothers, if_neg fun hboth => hboth.1 hparent, List.append_nil]
        exact h.references
    · rename_i hparent
      split
      · rename_i htype
        constructor
        · rw [getLast_filter_snoc, if_neg hsuper]
          exact h.supertypeId
        · rw [getLast_filter_snoc, if_neg hparent]
          exact h.parentId
        · rw [getLast_filter_snoc, if_neg hparent]
          exact h.referenceTypeId
        · rw [getLast_filter_snoc, if_pos htype]
        · rw [hothers, if_neg fun hboth => hboth.2 htype, List.append_nil]
          exact h.references
      · rename_i htype
        constructor
        · rw [getLast_filter_snoc, if_neg hsuper]
          exact h.supertypeId
        · rw [getLast_filter_snoc, if_neg hparent]
          exact h.parentId
        · rw [getLast_filter_snoc, if_neg hparent]
          exact h.referenceTypeId
        · rw [getLast_filter_snoc, if_neg htype]
          exact h.typeDefinitionId
        · rw [hothers, if_pos ⟨hparent, htype⟩, List.map_append, ← h.references]
          rfl

theorem gathers_foldl (tables : UaTables) (start : NodeState D X) (hstart : Gathers [] start)
    (elements : List XmlNode) :
    Gathers (elements.map (UaReference.ofElement tables))
      (elements.foldl (readUaReference tables) start) := by
  induction elements using List.reverseRecOn with
  | nil => exact hstart
  | append_singleton elements element ih =>
      rw [List.map_append, List.foldl_append]
      show Gathers (_ ++ [_]) (readUaReference tables _ element)
      rw [readUaReference_eq]
      exact ih.snoc _

/-- References change no other field of a state. -/
theorem foldl_readUaReference_frame (tables : UaTables) (start : NodeState D X)
    (elements : List XmlNode) :
    (elements.foldl (readUaReference tables) start).nodeId = start.nodeId ∧
      (elements.foldl (readUaReference tables) start).nodeClass = start.nodeClass ∧
      (elements.foldl (readUaReference tables) start).attributes = start.attributes ∧
      (elements.foldl (readUaReference tables) start).properties = start.properties := by
  have hframe : ∀ (r : UaReference) (state : NodeState D X),
      (r.addTo state).nodeId = state.nodeId ∧ (r.addTo state).nodeClass = state.nodeClass ∧
        (r.addTo state).attributes = state.attributes ∧
        (r.addTo state).properties = state.properties := by
    intro r state
    unfold UaReference.addTo
    split_ifs <;> exact ⟨rfl, rfl, rfl, rfl⟩
  induction elements generalizing start with
  | nil => exact ⟨rfl, rfl, rfl, rfl⟩
  | cons element elements ih =>
      rw [List.foldl_cons, readUaReference_eq]
      obtain ⟨hid, hclass, hattributes, hproperties⟩ := hframe (.ofElement tables element) start
      obtain ⟨hid', hclass', hattributes', hproperties'⟩ :=
        ih ((UaReference.ofElement tables element).addTo start)
      exact ⟨hid'.trans hid, hclass'.trans hclass, hattributes'.trans hattributes,
        hproperties'.trans hproperties⟩

end

/-! ## §6  What files say -/

section

variable {D X : Type} (library : Library D) (tables : UaTables) (element : XmlNode)

/-- The text of a child, or an empty one. -/
def SaysText (name : String) (text : LocalizedText) : Prop :=
  (∃ child, element.child? name = some child ∧ text = library.fromUtf8 (cText child.text)) ∨
    element.child? name = none ∧ text = library.fromUtf8 ""

/-- The first element in the value, read as what its name says. -/
def SaysValue (value : Variant D X) : Prop :=
  ∃ child first type, element.child? "Value" = some child ∧ child.children.head? = some first ∧
    (first.localName, type) ∈ kUaxTypes ∧
      readScalarVariant library type (cText first.text) = some value

/-- What an element says of the attributes of its node. -/
structure SaysAttributes (nodeClass : NodeClass) (attributes : NodeAttributes D X) : Prop where
  browseName : UaNameText tables (element.asString "BrowseName").toList attributes.browseName
  displayName : SaysText library element "DisplayName" attributes.displayName
  inverseName : nodeClass = .referenceType →
    SaysText library element "InverseName" attributes.inverseName
  /-- Only types of references have one. -/
  noInverseName : nodeClass ≠ .referenceType → attributes.inverseName = {}
  dataType : MeansId tables (element.asString "DataType") attributes.dataType ∨
    (∀ other, ¬ MeansId tables (element.asString "DataType") other) ∧ attributes.dataType = .null
  value : ∀ value, attributes.value = some value ↔ SaysValue library element value

end

section

variable {D X : Type} {library : Library D} {tables : UaTables} {element : XmlNode}

theorem saysText_iff {name : String} {text : LocalizedText} :
    SaysText library element name text ↔
      text = library.fromUtf8 ((element.child? name).elim "" (cText ·.text)) := by
  unfold SaysText
  cases element.child? name <;> simp

theorem parseUaxType_eq_some {name : String} {type : VariantType} :
    parseUaxType name = some type ↔ (name, type) ∈ kUaxTypes := by
  unfold parseUaxType
  rw [Option.map_eq_some_iff]
  constructor
  · rintro ⟨entry, hfind, rfl⟩
    have hname : entry.1 = name := by simpa using List.find?_some hfind
    exact hname ▸ List.mem_of_find?_eq_some hfind
  · intro hmem
    have hsome : (kUaxTypes.find? (·.1 = name)).isSome = true :=
      List.find?_isSome.mpr ⟨_, hmem, decide_eq_true rfl⟩
    obtain ⟨entry, hfind⟩ := Option.isSome_iff_exists.mp hsome
    have hname : entry.1 = name := by simpa using List.find?_some hfind
    have hnodup : (kUaxTypes.map (·.1)).Nodup := by decide
    have hsame := List.inj_on_of_nodup_map hnodup (List.mem_of_find?_eq_some hfind) hmem hname
    exact ⟨entry, hfind, congrArg Prod.snd hsame⟩

theorem saysValue_iff {value : Variant D X} :
    SaysValue library element value ↔
      (element.child? "Value").bind (readUaValue library) = some value := by
  unfold SaysValue readUaValue
  simp only [Option.bind_eq_some_iff, Option.bind_eq_bind, parseUaxType_eq_some]
  grind

/-- What is read of each field. -/
theorem readUaAttributes_eq (library : Library D) (tables : UaTables) (nodeClass : NodeClass)
    (element : XmlNode) :
    (readUaAttributes library tables nodeClass element : NodeAttributes D X) = {
      browseName := parseUaBrowseName tables (element.asString "BrowseName")
      displayName := library.fromUtf8 ((element.child? "DisplayName").elim "" (cText ·.text))
      inverseName :=
        if nodeClass = .referenceType then
          library.fromUtf8 ((element.child? "InverseName").elim "" (cText ·.text))
        else {}
      dataType := parseUaNodeId tables (element.asString "DataType")
      value := (element.child? "Value").bind (readUaValue library) } := by
  have hdataType : (if (element.xmlAttribute "DataType").isSome then
      parseUaNodeId tables (element.asString "DataType") else .null) =
      parseUaNodeId tables (element.asString "DataType") := by
    split
    · rfl
    · rename_i hnone
      have hempty : element.asString "DataType" = "" := by
        unfold XmlNode.asString
        rw [Option.not_isSome_iff_eq_none.mp hnone]
        rfl
      rw [hempty]
      rfl
  unfold readUaAttributes
  rw [hdataType]

/-- **The attributes are read as the element says.** -/
theorem saysAttributes_iff {nodeClass : NodeClass} {attributes : NodeAttributes D X} :
    SaysAttributes library tables element nodeClass attributes ↔
      attributes = readUaAttributes library tables nodeClass element := by
  obtain ⟨browseName, displayName, inverseName, dataType, value⟩ := attributes
  rw [readUaAttributes_eq, NodeAttributes.mk.injEq, parseUaBrowseName_eq, parseUaNodeId_eq,
    ← saysText_iff]
  have hinverse : inverseName = (if nodeClass = .referenceType then
      library.fromUtf8 ((element.child? "InverseName").elim "" (cText ·.text)) else {}) ↔
      (nodeClass = .referenceType → SaysText library element "InverseName" inverseName) ∧
        (nodeClass ≠ .referenceType → inverseName = {}) := by
    rw [saysText_iff]
    split <;> simp_all
  have hvalue : value = (element.child? "Value").bind (readUaValue library) ↔
      ∀ other, value = some other ↔ SaysValue library element other := by
    simp only [saysValue_iff]
    exact Option.ext_iff
  rw [hinverse, hvalue]
  exact ⟨fun h => ⟨h.browseName, h.displayName, ⟨h.inverseName, h.noInverseName⟩, h.dataType,
    h.value⟩, fun ⟨hbrowse, hdisplay, ⟨hinverse, hnone⟩, htype, hvalue⟩ =>
    ⟨hbrowse, hdisplay, hinverse, hnone, htype, hvalue⟩⟩

end

/-- What an element of a file says of its node. -/
structure Says {D X : Type} (library : Library D) (tables : UaTables) (element : XmlNode)
    (state : NodeState D X) : Prop where
  notNull : state.nodeId ≠ .null
  nodeId : MeansId tables (element.asString "NodeId") state.nodeId
  nodeClass : ∃ nodeClass, parseUaElementClass element.name = some nodeClass ∧
    state.nodeClass = some nodeClass ∧
      SaysAttributes library tables element nodeClass state.attributes
  properties : state.properties = []
  gathers : Gathers ((element.grandchildren "References" "Reference").map
    (UaReference.ofElement tables)) state

section

variable {D X : Type} {library : Library D} {tables : UaTables} {element : XmlNode}
  {state : NodeState D X}

theorem Gathers.eq {refs : List UaReference} {state' : NodeState D X} (h : Gathers refs state)
    (h' : Gathers refs state') (hid : state.nodeId = state'.nodeId)
    (hclass : state.nodeClass = state'.nodeClass)
    (hattributes : state.attributes = state'.attributes)
    (hproperties : state.properties = state'.properties) : state = state' := by
  have htype := h.typeDefinitionId.trans h'.typeDefinitionId.symm
  have hparent := h.parentId.trans h'.parentId.symm
  have hreferenceType := h.referenceTypeId.trans h'.referenceTypeId.symm
  have hreferences := h.references.trans h'.references.symm
  have hsupertype := h.supertypeId.trans h'.supertypeId.symm
  cases state
  cases state'
  simp_all

theorem readUaNodeState_eq_ok_iff :
    readUaNodeState library tables element = .ok state ↔ Says library tables element state := by
  have hempty : ∀ nodeClass, Gathers [] ({
      nodeId := parseUaNodeId tables (element.asString "NodeId")
      nodeClass := some nodeClass
      attributes := readUaAttributes library tables nodeClass element } : NodeState D X) :=
    fun _ => ⟨rfl, rfl, rfl, rfl, rfl⟩
  unfold readUaNodeState
  constructor
  · intro h
    cases hclass : parseUaElementClass element.name with
    | none =>
        rw [hclass] at h
        cases h
    | some nodeClass =>
        rw [hclass] at h
        dsimp only at h
        split at h
        · cases h
        · rename_i hnull
          cases h
          obtain ⟨hid, hclass', hattributes, hproperties⟩ := foldl_readUaReference_frame tables
            ({ nodeId := parseUaNodeId tables (element.asString "NodeId")
               nodeClass := some nodeClass
               attributes := readUaAttributes library tables nodeClass element } : NodeState D X)
            (element.grandchildren "References" "Reference")
          refine ⟨?_, ?_, ⟨nodeClass, hclass, hclass', saysAttributes_iff.mpr hattributes⟩,
            hproperties, gathers_foldl tables _ (hempty nodeClass) _⟩
          · rw [hid]
            exact hnull
          · rw [hid]
            exact (parseUaNodeId_eq_iff tables _ hnull).mp rfl
  · intro h
    obtain ⟨nodeClass, hclass, hstateClass, hattributes⟩ := h.nodeClass
    have hid := (parseUaNodeId_eq_iff tables _ h.notNull).mpr h.nodeId
    rw [hclass]
    dsimp only
    rw [if_neg (hid ▸ h.notNull)]
    obtain ⟨hid', hclass', hattributes', hproperties'⟩ := foldl_readUaReference_frame tables
      ({ nodeId := parseUaNodeId tables (element.asString "NodeId")
         nodeClass := some nodeClass
         attributes := readUaAttributes library tables nodeClass element } : NodeState D X)
      (element.grandchildren "References" "Reference")
    have hgathers := gathers_foldl tables _ (hempty nodeClass)
      (element.grandchildren "References" "Reference")
    refine congrArg Except.ok (hgathers.eq h.gathers ?_ ?_ ?_ ?_)
    · exact hid'.trans hid
    · exact hclass'.trans hstateClass.symm
    · exact hattributes'.trans (saysAttributes_iff.mp hattributes).symm
    · exact hproperties'.trans h.properties.symm

/-- An element of a node is refused for its id only. -/
theorem readUaNodeState_eq_error_iff (helement : (parseUaElementClass element.name).isSome)
    {error : StatusCode} :
    (readUaNodeState library tables element : Except StatusCode (NodeState D X)) = .error error ↔
      error = .badWrongNodeId ∧ parseUaNodeId tables (element.asString "NodeId") = .null := by
  obtain ⟨nodeClass, hclass⟩ := Option.isSome_iff_exists.mp helement
  unfold readUaNodeState
  rw [hclass]
  dsimp only
  split
  · rename_i hnull
    rw [and_iff_left hnull]
    constructor
    · intro h
      cases h
      rfl
    · rintro rfl
      rfl
  · rename_i hnull
    refine iff_of_false ?_ fun hboth => hnull hboth.2
    intro h
    cases h

end

section

variable {D X : Type} {library : Library D} {document root : XmlNode}

theorem parseUaNodeStates_of_root (hroot : document.child? kUaRootTag = some root) :
    (parseUaNodeStates library document : Except StatusCode (List (NodeState D X))) =
      root.uaElements.mapM (readUaNodeState library (readUaTables root)) := by
  unfold parseUaNodeStates
  rw [hroot]

theorem parseUaNodeStates_of_no_root (hroot : document.child? kUaRootTag = none) :
    (parseUaNodeStates library document : Except StatusCode (List (NodeState D X))) =
      .error .badCantParseString := by
  unfold parseUaNodeStates
  rw [hroot]

theorem parseUaNodeStates_eq_ok_iff {states : List (NodeState D X)} :
    parseUaNodeStates library document = .ok states ↔
      ∃ root, document.child? kUaRootTag = some root ∧
        List.Forall₂ (Says library (readUaTables root)) root.uaElements states := by
  cases hroot : document.child? kUaRootTag with
  | none =>
      rw [parseUaNodeStates_of_no_root hroot]
      constructor
      · intro h
        cases h
      · rintro ⟨root, hsome, -⟩
        cases hsome
  | some root =>
      rw [parseUaNodeStates_of_root hroot, mapM_eq_ok_iff]
      simp only [readUaNodeState_eq_ok_iff]
      constructor
      · exact fun h => ⟨root, rfl, h⟩
      · rintro ⟨root', hsome, h⟩
        cases hsome
        exact h

theorem parseUaNodeStates_eq_error_iff {error : StatusCode} :
    (parseUaNodeStates library document : Except StatusCode (List (NodeState D X))) =
        .error error ↔
      document.child? kUaRootTag = none ∧ error = .badCantParseString ∨
      ∃ root, document.child? kUaRootTag = some root ∧ error = .badWrongNodeId ∧
        ∃ element ∈ root.uaElements,
          parseUaNodeId (readUaTables root) (element.asString "NodeId") = .null := by
  cases hroot : document.child? kUaRootTag with
  | none =>
      rw [parseUaNodeStates_of_no_root hroot]
      constructor
      · intro h
        cases h
        exact Or.inl ⟨rfl, rfl⟩
      · rintro (⟨-, rfl⟩ | ⟨root, hsome, -⟩)
        · rfl
        · cases hsome
  | some root =>
      rw [parseUaNodeStates_of_root hroot]
      have hcause : ∀ error, root.uaElements.mapM
            (readUaNodeState library (readUaTables root) : XmlNode → Except _ (NodeState D X)) =
            .error error →
          error = .badWrongNodeId ∧ ∃ element ∈ root.uaElements,
            parseUaNodeId (readUaTables root) (element.asString "NodeId") = .null := by
        intro error h
        obtain ⟨element, hmem, hread⟩ := exists_of_mapM_error h
        obtain ⟨rfl, hnull⟩ :=
          (readUaNodeState_eq_error_iff (List.mem_filter.mp hmem).2).mp hread
        exact ⟨rfl, element, hmem, hnull⟩
      constructor
      · intro h
        obtain ⟨hcode, hnull⟩ := hcause error h
        exact Or.inr ⟨root, rfl, hcode, hnull⟩
      · rintro (⟨hnone, -⟩ | ⟨root', hsome, rfl, element, hmem, hnull⟩)
        · cases hnone
        · cases hsome
          cases hread : root.uaElements.mapM
              (readUaNodeState library (readUaTables root) :
                XmlNode → Except _ (NodeState D X)) with
          | error error =>
              rw [(hcause error hread).1]
          | ok states =>
              -- An element that is read has an id.
              obtain ⟨state, hstate⟩ := exists_of_mem_mapM hread hmem
              have hsays := readUaNodeState_eq_ok_iff.mp hstate
              have hid := (parseUaNodeId_eq_iff _ _ hsays.notNull).mpr hsays.nodeId
              exact absurd (hid.symm.trans hnull) hsays.notNull

end

/-- **What is read of a file is what the file says**, of each of its elements and in their
order; without a root nothing is read, and otherwise an element without an id is what
nothing is read for. -/
theorem parseUaNodeStates_spec {D X : Type} (library : Library D) (document : XmlNode) :
    (∀ states : List (NodeState D X), parseUaNodeStates library document = .ok states ↔
      ∃ root, document.child? kUaRootTag = some root ∧
        List.Forall₂ (Says library (readUaTables root)) root.uaElements states) ∧
    ∀ error, (parseUaNodeStates library document : Except StatusCode (List (NodeState D X))) =
        .error error ↔
      document.child? kUaRootTag = none ∧ error = .badCantParseString ∨
      ∃ root, document.child? kUaRootTag = some root ∧ error = .badWrongNodeId ∧
        ∃ element ∈ root.uaElements,
          parseUaNodeId (readUaTables root) (element.asString "NodeId") = .null :=
  ⟨fun _ => parseUaNodeStates_eq_ok_iff, fun _ => parseUaNodeStates_eq_error_iff⟩

end ScadaCommon.NodeStateXml
