import Mathlib.Data.List.TakeWhile
import ScadaCommon.Model.NodeIdUtil

/-!
# Variants as XML

`WriteVariant` writes the type and the text of a variant to an element, and
`ReadVariant` makes a variant of them. Texts end at the first zero character.

§1 elements · §2 integers · §3 bytes · §4 node ids · §5 variants · §6 the way back.
-/

namespace ScadaCommon.NodeStateXml

open Foundation

/-! ## §1  Elements -/

/-- An element of a document in memory, as far as it is used. -/
structure XmlNode where
  name : String
  attributes : List (String × String) := []
  text : String := ""
  children : List XmlNode := []

/-- The text of a C string. -/
def cText (text : String) : String :=
  String.ofList (cString text.toList)

namespace XmlNode

variable (node : XmlNode)

def appendAttribute (name value : String) : XmlNode :=
  { node with attributes := node.attributes ++ [(name, value)] }

/-- `xml_text::set`, which takes a C string. -/
def setText (text : String) : XmlNode :=
  { node with text := cText text }

def appendChildren (children : List XmlNode) : XmlNode :=
  { node with children := node.children ++ children }

/-- `xml_node::attribute`: the value of the first attribute of this name. -/
def xmlAttribute (name : String) : Option String :=
  (node.attributes.find? (·.1 = name)).map (·.2)

def childrenNamed (name : String) : List XmlNode :=
  node.children.filter (·.name = name)

/-- `xml_attribute::as_string`, a C string. -/
def asString (name : String) : String :=
  cText ((node.xmlAttribute name).getD "")

/-- `xml_attribute::as_bool`, which looks at the first character. -/
def asBool (name : String) (default : Bool) : Bool :=
  match node.xmlAttribute name with
  | none => default
  | some value => value.toList.head?.any (· ∈ ['1', 't', 'T', 'y', 'Y'])

end XmlNode

/-- A boolean as it is written. -/
def boolText (value : Bool) : String :=
  if value then "true" else "false"

/-- There is no zero character in the text. -/
def NoNul (text : String) : Prop :=
  ∀ c ∈ text.toList, c.toNat ≠ 0

instance (text : String) : Decidable (NoNul text) :=
  decidable_of_iff (text.toList.all fun c => c.toNat ≠ 0) (by simp [NoNul])

section

variable {node : XmlNode} {name name' value text : String} {children : List XmlNode}

@[simp] theorem XmlNode.xmlAttribute_appendAttribute :
    (node.appendAttribute name value).xmlAttribute name' =
      (node.xmlAttribute name').or (if name = name' then some value else none) := by
  rw [XmlNode.xmlAttribute, XmlNode.appendAttribute, List.find?_append, Option.map_or]
  congr 1
  by_cases h : name = name'
  · simp [h]
  · simp [h]

@[simp] theorem XmlNode.xmlAttribute_setText :
    (node.setText text).xmlAttribute name = node.xmlAttribute name := rfl

@[simp] theorem XmlNode.xmlAttribute_appendChildren :
    (node.appendChildren children).xmlAttribute name = node.xmlAttribute name := rfl

@[simp] theorem XmlNode.xmlAttribute_new : ({ name } : XmlNode).xmlAttribute name' = none := rfl

@[simp] theorem XmlNode.name_appendAttribute :
    (node.appendAttribute name value).name = node.name := rfl

@[simp] theorem XmlNode.text_appendAttribute :
    (node.appendAttribute name value).text = node.text := rfl

@[simp] theorem XmlNode.text_setText : (node.setText text).text = cText text := rfl

@[simp] theorem XmlNode.childrenNamed_appendAttribute :
    (node.appendAttribute name value).childrenNamed name' = node.childrenNamed name' := rfl

@[simp] theorem XmlNode.childrenNamed_setText :
    (node.setText text).childrenNamed name = node.childrenNamed name := rfl

@[simp] theorem XmlNode.childrenNamed_appendChildren :
    (node.appendChildren children).childrenNamed name =
      node.childrenNamed name ++ children.filter (·.name = name) :=
  List.filter_append _ _

@[simp] theorem XmlNode.childrenNamed_new : ({ name } : XmlNode).childrenNamed name' = [] := rfl

theorem cText_eq_self_iff : cText text = text ↔ NoNul text := by
  rw [cText, ← String.toList_inj, String.toList_ofList, cString_eq_self]
  simp [NoNul]

theorem NoNul.cText_eq (h : NoNul text) : cText text = text :=
  cText_eq_self_iff.mpr h

@[simp] theorem cText_empty : cText "" = "" := rfl

end

/-! ## §2  Integers -/

/-- The types of integers that have a tag of their own. -/
inductive IntegerType where
  | int8
  | uint8
  | int16
  | uint16
  | int32
  | uint32
  | int64
  | uint64
deriving DecidableEq

namespace IntegerType

def signed : IntegerType → Bool
  | .int8 | .int16 | .int32 | .int64 => true
  | .uint8 | .uint16 | .uint32 | .uint64 => false

def bits : IntegerType → ℕ
  | .int8 | .uint8 => 8
  | .int16 | .uint16 => 16
  | .int32 | .uint32 => 32
  | .int64 | .uint64 => 64

/-- The number has this type. -/
def Holds (type : IntegerType) (n : ℤ) : Prop :=
  if type.signed then -2 ^ (type.bits - 1) ≤ n ∧ n < 2 ^ (type.bits - 1)
  else 0 ≤ n ∧ n < 2 ^ type.bits

instance (type : IntegerType) (n : ℤ) : Decidable (type.Holds n) :=
  inferInstanceAs (Decidable (ite _ _ _))

/-- The numbers of a type. -/
abbrev Value (type : IntegerType) : Type :=
  { n : ℤ // type.Holds n }

def value? (type : IntegerType) (n : ℤ) : Option type.Value :=
  if h : type.Holds n then some ⟨n, h⟩ else none

theorem value?_val {type : IntegerType} (value : type.Value) : type.value? value.1 = some value :=
  dif_pos value.2

theorem signed_of_neg {type : IntegerType} (value : type.Value) (hneg : value.1 < 0) :
    type.signed = true := by
  by_contra hunsigned
  have hholds := value.2
  rw [Holds, if_neg hunsigned] at hholds
  omega

end IntegerType

/-- `std::format` of an integer. -/
def formatInteger : ℤ → List Char
  | .ofNat n => Nat.toDigits 10 n
  | .negSucc n => '-' :: Nat.toDigits 10 (n + 1)

/-- `ParseInteger`, by `std::from_chars`: a sign may stand before the digits of a signed
type, and nothing after them. -/
def parseInteger (type : IntegerType) : List Char → Option type.Value
  | [] => none
  | c :: text =>
      if c = '-' then
        if type.signed = true ∧ IsNumeral text then type.value? (-(numeralValue text : ℤ))
        else none
      else if IsNumeral (c :: text) then type.value? (numeralValue (c :: text))
      else none

theorem noNul_toDigits (n : ℕ) : ∀ c ∈ Nat.toDigits 10 n, c.toNat ≠ 0 := by
  intro c hc hzero
  have hdigit := (isNumeral_toDigits n).2 c hc
  have hnul : c = Char.ofNat 0 := by rw [← hzero, Char.ofNat_toNat]
  rw [hnul] at hdigit
  exact absurd hdigit (by decide)

theorem noNul_formatInteger (n : ℤ) : NoNul (String.ofList (formatInteger n)) := by
  intro c hc
  rw [String.toList_ofList] at hc
  cases n with
  | ofNat n => exact noNul_toDigits n c hc
  | negSucc n =>
      rcases List.mem_cons.mp hc with rfl | hdigit
      · decide
      · exact noNul_toDigits _ c hdigit

/-- **Integers come back.** -/
theorem parseInteger_formatInteger {type : IntegerType} (value : type.Value) :
    parseInteger type (formatInteger value.1) = some value := by
  have hback := IntegerType.value?_val value
  cases hvalue : value.1 with
  | ofNat n =>
      rw [hvalue] at hback
      have hnumeral := isNumeral_toDigits n
      have hn : numeralValue (Nat.toDigits 10 n) = n := numeralValue_toDigits n
      rw [formatInteger]
      cases hdigits : Nat.toDigits 10 n with
      | nil => exact absurd hdigits hnumeral.1
      | cons c digits =>
          rw [hdigits] at hnumeral hn
          have hdigit : c ≠ '-' :=
            not_digit_of_eq (by decide) (hnumeral.2 c List.mem_cons_self)
          rw [parseInteger, if_neg hdigit, if_pos hnumeral, hn]
          exact hback
  | negSucc n =>
      rw [hvalue] at hback
      have hsigned : type.signed = true :=
        IntegerType.signed_of_neg value (hvalue ▸ Int.negSucc_lt_zero n)
      rw [formatInteger, parseInteger, if_pos rfl, if_pos ⟨hsigned, isNumeral_toDigits _⟩,
        numeralValue_toDigits]
      exact hback

/-! ## §3  Bytes -/

def kHex : List Char :=
  "0123456789ABCDEF".toList

def hexEncode : List UInt8 → List Char
  | [] => []
  | byte :: bytes =>
      kHex.getD (byte >>> 4).toNat '0' :: kHex.getD (byte &&& 0x0F).toNat '0' :: hexEncode bytes

/-- The local `hex_value`. -/
def hexValue (c : Char) : Option UInt8 :=
  if '0' ≤ c ∧ c ≤ '9' then some (.ofNat (c.toNat - '0'.toNat))
  else if 'A' ≤ c ∧ c ≤ 'F' then some (.ofNat (c.toNat - 'A'.toNat + 10))
  else if 'a' ≤ c ∧ c ≤ 'f' then some (.ofNat (c.toNat - 'a'.toNat + 10))
  else none

def hexDecode : List Char → Option (List UInt8)
  | [] => some []
  | [_] => none
  | high :: low :: text => do
      let high ← hexValue high
      let low ← hexValue low
      let bytes ← hexDecode text
      return (high <<< 4 ||| low) :: bytes

theorem hexValue_kHex : ∀ n < 16, hexValue (kHex.getD n '0') = some (.ofNat n) := by
  decide

theorem noNul_kHex (n : ℕ) : (kHex.getD n '0').toNat ≠ 0 := by
  have hall : NoNul (String.ofList kHex) := by decide
  rcases lt_or_ge n kHex.length with hlt | hge
  · rw [List.getD_eq_getElem _ _ hlt]
    exact hall _ (List.getElem_mem hlt)
  · rw [List.getD_eq_default _ _ hge]
    decide

/-- A byte is put together of its halves. -/
theorem halves_of_byte (byte : UInt8) :
    (byte >>> 4).toNat < 16 ∧ (byte &&& 0x0F).toNat < 16 ∧
      (byte >>> 4) <<< 4 ||| (byte &&& 0x0F) = byte := by
  have hall : ∀ n < 256, (UInt8.ofNat n >>> 4).toNat < 16 ∧ (UInt8.ofNat n &&& 0x0F).toNat < 16 ∧
      (UInt8.ofNat n >>> 4) <<< 4 ||| (UInt8.ofNat n &&& 0x0F) = UInt8.ofNat n := by
    decide +kernel
  have hbyte := hall byte.toNat byte.toNat_lt
  rwa [UInt8.ofNat_toNat] at hbyte

/-- **Bytes come back.** -/
theorem hexDecode_hexEncode (bytes : List UInt8) : hexDecode (hexEncode bytes) = some bytes := by
  induction bytes with
  | nil => rfl
  | cons byte bytes ih =>
      obtain ⟨hhigh, hlow, hbyte⟩ := halves_of_byte byte
      rw [hexEncode, hexDecode, hexValue_kHex _ hhigh, hexValue_kHex _ hlow, ih,
        UInt8.ofNat_toNat, UInt8.ofNat_toNat]
      show some (((byte >>> 4) <<< 4 ||| (byte &&& 0x0F)) :: bytes) = some (byte :: bytes)
      rw [hbyte]

theorem noNul_hexEncode (bytes : List UInt8) : NoNul (String.ofList (hexEncode bytes)) := by
  rw [NoNul, String.toList_ofList]
  induction bytes with
  | nil => exact fun c hc => absurd hc List.not_mem_nil
  | cons byte bytes ih =>
      rw [hexEncode, List.forall_mem_cons, List.forall_mem_cons]
      exact ⟨noNul_kHex _, noNul_kHex _, ih⟩

/-! ## §4  Node ids -/

def parseNodeId (parse : Parsing) (text : String) : NodeId :=
  if text = "" then .null else nodeIdFromScadaString parse text

section

variable {parse : Parsing} {text id : String} {nodeId : NodeId} {namespaceIndex : ℕ}

theorem parseNodeId_eq : parseNodeId parse text = nodeIdFromScadaString parse text := by
  unfold parseNodeId
  split
  · rename_i hempty
    rw [hempty]
    rfl
  · rfl

theorem noNul_predefined : ∀ predefined ∈ kPredefinedScadaStrings, NoNul predefined.1 := by
  decide +kernel

theorem noNul_namespaceText (namespaceIndex : ℕ) :
    ∀ c ∈ namespaceText namespaceIndex, c.toNat ≠ 0 := by
  have hnames : ∀ name ∈ kNamespaceNames, NoNul name := by decide +kernel
  unfold namespaceText
  split
  · intro c hc
    rcases List.mem_cons.mp hc with rfl | hc
    · decide
    · rcases List.mem_cons.mp hc with rfl | hdigit
      · decide
      · exact noNul_toDigits _ c hdigit
  · rename_i hname
    rw [getNamespaceName] at hname ⊢
    by_cases hlt : namespaceIndex < kNamespaceNames.length
    · rw [List.getD_eq_getElem _ _ hlt]
      exact hnames _ (List.getElem_mem hlt)
    · rw [List.getD_eq_default _ _ (not_lt.mp hlt)] at hname
      exact absurd rfl hname

/-- A zero character can only come from the identifier. -/
theorem noNul_nodeIdToScadaString
    (h : ∀ identifier, nodeId.identifier = some identifier → ∀ c ∈ identifier, c.toNat ≠ 0) :
    NoNul (nodeIdToScadaString nodeId) := by
  unfold nodeIdToScadaString
  split
  · rename_i scadaString predefinedId hfound
    exact noNul_predefined (scadaString, predefinedId) (List.mem_of_find?_eq_some hfound)
  · split
    · rename_i identifier hidentifier
      intro c hc
      rw [String.toList_ofList] at hc
      rcases List.mem_append.mp hc with hnamespace | hc
      · exact noNul_namespaceText _ c hnamespace
      · rcases List.mem_cons.mp hc with rfl | hc
        · decide
        · exact h identifier hidentifier c hc
    · exact fun c hc => absurd hc List.not_mem_nil

/-- The text of a string id stands after the first dot. -/
theorem splitFirst_of_string (h : nodeIdFromScadaString parse text = .string id namespaceIndex) :
    ∃ namespaceName, splitFirst '.' text.toList = some (namespaceName, id.toList) := by
  have hpredefined : ∀ predefined ∈ kPredefinedScadaStrings,
      predefined.2 ≠ .string id namespaceIndex := by
    intro predefined hmem hid
    have hnumeric : ∀ predefined ∈ kPredefinedScadaStrings,
        predefined.2 = .numeric ((numeralValue (predefined.2.identifier.getD []))) 7 := by
      decide
    rw [hnumeric predefined hmem] at hid
    cases hid
  unfold nodeIdFromScadaString at h
  split at h
  · rename_i scadaString predefinedId hfound
    exact absurd h (hpredefined (scadaString, predefinedId) (List.mem_of_find?_eq_some hfound))
  · split at h
    · cases h
    · rename_i namespaceName identifier hsplit
      split at h
      · refine ⟨namespaceName, hsplit.trans ?_⟩
        unfold nodeIdOfIdentifier at h
        split at h
        · cases h
          rw [String.toList_ofList]
        · split at h
          · exact absurd h NodeId.ofNumeric_ne_string
          · cases h
            rw [String.toList_ofList]
      · cases h

/-- **An id comes back from a C string exactly if it has no zero character.** -/
theorem parseNodeId_cText_iff
    (hid : nodeIdFromScadaString parse (nodeIdToScadaString nodeId) = nodeId) :
    parseNodeId parse (cText (nodeIdToScadaString nodeId)) = nodeId ↔
      NoNul (nodeIdToScadaString nodeId) := by
  rw [parseNodeId_eq]
  constructor
  · intro hback
    cases hnodeId : nodeId with
    | null =>
        refine noNul_nodeIdToScadaString fun identifier h => ?_
        cases h
        exact noNul_toDigits 0
    | numeric id namespaceIndex =>
        refine noNul_nodeIdToScadaString fun identifier h => ?_
        cases h
        exact noNul_toDigits id
    | string id namespaceIndex =>
        rw [hnodeId] at hid hback
        obtain ⟨namespaceName, hsplit⟩ := splitFirst_of_string hid
        obtain ⟨namespaceName', hsplit'⟩ := splitFirst_of_string hback
        obtain ⟨hcut, hdot⟩ := splitFirst_eq_some.mp hsplit'
        rw [cText, String.toList_ofList] at hcut
        obtain ⟨rest, hrest⟩ := List.takeWhile_prefix
          (p := fun c : Char => c.toNat ≠ 0)
          (l := (nodeIdToScadaString (.string id namespaceIndex)).toList)
        -- both texts have the same characters after the first dot
        have hwhole : (nodeIdToScadaString (.string id namespaceIndex)).toList =
            namespaceName' ++ '.' :: (id.toList ++ rest) := by
          rw [← hrest]
          show cString _ ++ rest = _
          rw [hcut, List.append_assoc, List.cons_append]
        rw [hwhole, splitFirst_append hdot, Option.some_inj, Prod.mk.injEq] at hsplit
        have hnone : rest = [] := List.append_right_eq_self.mp hsplit.2
        rw [hnone, List.append_nil] at hrest
        rw [← cText_eq_self_iff, ← String.toList_inj, cText, String.toList_ofList]
        exact hrest
    | opaqueId id namespaceIndex =>
        exact fun c hc => absurd hc List.not_mem_nil
  · intro h
    rw [h.cText_eq, hid]

end

/-! ## §5  Variants -/

inductive StatusCode where
  | badWrongNodeId
  | badWrongNodeClass
  | badWrongPropertyId
  | badWrongTypeId
  | badCantParseString
deriving DecidableEq

structure LocalizedText where
  locale : String := ""
  text : List UInt16 := []
deriving DecidableEq

/-- What comes from the libraries: the conversions of texts, of doubles `D`, of unsigned
numbers, and of the numbers in ids. -/
structure Library (D : Type) where
  toUtf8 : LocalizedText → String
  fromUtf8 : String → LocalizedText
  /-- `xml_text::set` of a double. -/
  setDouble : D → String
  /-- `std::from_chars` of a double, which reads the whole text. -/
  fromChars : String → Option D
  /-- `xml_attribute::as_uint` -/
  asUint : String → ℕ
  parsing : Parsing

/-- Unsigned numbers are read from their digits. -/
def Library.ReadsDigits {D : Type} (library : Library D) : Prop :=
  ∀ n < 2 ^ 32, library.asUint (String.ofList (Nat.toDigits 10 n)) = n

inductive VariantType where
  | empty
  | bool
  | integer (type : IntegerType)
  | double
  | byteString
  | string
  | localizedText
  | nodeId
  | dateTime
  /-- A type that has no name here. -/
  | other
deriving DecidableEq

/-- A value of a node; `X` stands for the contents that are not written. -/
inductive Variant (D X : Type) where
  | empty
  | bool (value : Bool)
  | integer (type : IntegerType) (value : type.Value)
  | double (value : D)
  | byteString (value : List UInt8)
  | string (value : String)
  | localizedText (value : LocalizedText)
  | nodeId (value : NodeId)
  | dateTime (value : IntegerType.int64.Value)
  | byteStringArray (values : List (List UInt8))
  | stringArray (values : List String)
  | localizedTextArray (values : List LocalizedText)
  | nodeIdArray (values : List NodeId)
  /-- An array of another type, or a value without a name for its type. -/
  | other (type : VariantType) (content : X)
deriving DecidableEq

/-- `ToString` of a type. -/
def VariantType.text : VariantType → String
  | .bool => "Bool"
  | .integer .int8 => "Int8"
  | .integer .uint8 => "UInt8"
  | .integer .int16 => "Int16"
  | .integer .uint16 => "UInt16"
  | .integer .int32 => "Int32"
  | .integer .uint32 => "UInt32"
  | .integer .int64 => "Int64"
  | .integer .uint64 => "UInt64"
  | .double => "Double"
  | .byteString => "ByteString"
  | .string => "String"
  | .localizedText => "LocalizedText"
  | .nodeId => "NodeId"
  | .dateTime => "DateTime"
  | .empty | .other => "Empty"

/-- The `kValues` of `ParseVariantType`. -/
def kVariantTypes : List (String × VariantType) := [
  ("Bool", .bool), ("Int8", .integer .int8), ("UInt8", .integer .uint8),
  ("Int16", .integer .int16), ("UInt16", .integer .uint16), ("Int32", .integer .int32),
  ("UInt32", .integer .uint32), ("Int64", .integer .int64), ("UInt64", .integer .uint64),
  ("Double", .double), ("ByteString", .byteString), ("String", .string),
  ("LocalizedText", .localizedText), ("NodeId", .nodeId), ("DateTime", .dateTime),
  ("Empty", .empty)]

def parseVariantType (text : String) : Option VariantType :=
  (kVariantTypes.find? (·.1 = text)).map (·.2)

def kValueTag : String := "Value"

/-- `AppendArrayValues` of the texts of the values. -/
def XmlNode.appendArrayValues (node : XmlNode) (texts : List String) : XmlNode :=
  node.appendChildren (texts.map fun text => XmlNode.setText { name := kValueTag } text)

namespace Variant

variable {D X : Type}

def type : Variant D X → VariantType
  | .empty => .empty
  | .bool _ => .bool
  | .integer type _ => .integer type
  | .double _ => .double
  | .byteString _ | .byteStringArray _ => .byteString
  | .string _ | .stringArray _ => .string
  | .localizedText _ | .localizedTextArray _ => .localizedText
  | .nodeId _ | .nodeIdArray _ => .nodeId
  | .dateTime _ => .dateTime
  | .other type _ => type

/-- The ids in a variant. -/
def nodeIds : Variant D X → List NodeId
  | .nodeId value => [value]
  | .nodeIdArray values => values
  | _ => []

end Variant

section

variable {D X : Type} (library : Library D)

def writeVariant (node : XmlNode) (value : Variant D X) : Except StatusCode XmlNode :=
  let node := node.appendAttribute "type" value.type.text
  let arrayNode := node.appendAttribute "array" (boolText true)
  match value with
  | .empty => .ok node
  | .bool value => .ok (node.setText (boolText value))
  | .integer _ value | .dateTime value => .ok (node.setText (String.ofList (formatInteger value.1)))
  | .double value => .ok (node.setText (library.setDouble value))
  | .byteString value => .ok (node.setText (String.ofList (hexEncode value)))
  | .string value => .ok (node.setText value)
  | .localizedText value => .ok (node.setText (library.toUtf8 value))
  | .nodeId value => .ok (node.setText (nodeIdToScadaString value))
  | .byteStringArray values =>
      .ok (arrayNode.appendArrayValues (values.map fun value => String.ofList (hexEncode value)))
  | .stringArray values => .ok (arrayNode.appendArrayValues values)
  | .localizedTextArray values => .ok (arrayNode.appendArrayValues (values.map library.toUtf8))
  | .nodeIdArray values => .ok (arrayNode.appendArrayValues (values.map nodeIdToScadaString))
  | .other _ _ => .error .badWrongTypeId

def readScalarVariant (type : VariantType) (text : String) : Option (Variant D X) :=
  match type with
  | .empty => some .empty
  | .bool => some (.bool (text = "true" ∨ text = "1"))
  | .integer type => (parseInteger type text.toList).map (.integer type)
  | .double => (library.fromChars text).map .double
  | .byteString => (hexDecode text.toList).map .byteString
  | .string => some (.string text)
  | .localizedText => some (.localizedText (library.fromUtf8 text))
  | .nodeId => some (.nodeId (parseNodeId library.parsing text))
  | .dateTime => (parseInteger .int64 text.toList).map .dateTime
  | .other => none

def readArrayVariant (type : VariantType) (node : XmlNode) : Option (Variant D X) :=
  let texts := (node.childrenNamed kValueTag).map (·.text)
  match type with
  | .string => some (.stringArray texts)
  | .byteString => (texts.mapM fun text => hexDecode text.toList).map .byteStringArray
  | .localizedText => some (.localizedTextArray (texts.map library.fromUtf8))
  | .nodeId => some (.nodeIdArray (texts.map (parseNodeId library.parsing)))
  | .empty | .bool | .integer _ | .double | .dateTime | .other => none

def readVariant (node : XmlNode) : Except StatusCode (Variant D X) :=
  match parseVariantType (node.asString "type") with
  | none => .error .badWrongTypeId
  | some type =>
      match (if node.asBool "array" false then readArrayVariant library type node
        else readScalarVariant library type node.text) with
      | none => .error .badCantParseString
      | some value => .ok value

/-! ## §6  The way back -/

/-- A text that comes back from UTF-8, up to the first zero character. -/
def Library.KeepsText (text : LocalizedText) : Prop :=
  library.fromUtf8 (cText (library.toUtf8 text)) = text

/-- No text has a zero character, and localized texts and doubles survive their
conversions. -/
def Library.Keeps : Variant D X → Prop
  | .double value => library.fromChars (cText (library.setDouble value)) = some value
  | .string value => NoNul value
  | .localizedText value => library.KeepsText value
  | .nodeId value => NoNul (nodeIdToScadaString value)
  | .stringArray values => ∀ value ∈ values, NoNul value
  | .localizedTextArray values => ∀ value ∈ values, library.KeepsText value
  | .nodeIdArray values => ∀ value ∈ values, NoNul (nodeIdToScadaString value)
  | _ => True

/-- The ids come back from their scada strings. -/
def Library.ReadsBack (nodeIds : List NodeId) : Prop :=
  ∀ nodeId ∈ nodeIds, nodeIdFromScadaString library.parsing (nodeIdToScadaString nodeId) = nodeId

instance (nodeIds : List NodeId) : Decidable (library.ReadsBack nodeIds) :=
  inferInstanceAs (Decidable (∀ nodeId ∈ nodeIds, _ = nodeId))

end

section

variable {D X : Type} {library : Library D} {type : VariantType} {node written : XmlNode}
variable {value : Variant D X}

theorem noNul_boolText (value : Bool) : NoNul (boolText value) := by
  cases value <;> decide

theorem parseVariantType_text (h : type ≠ .other) : parseVariantType type.text = some type := by
  rcases type with _ | _ | ⟨_ | _ | _ | _ | _ | _ | _ | _⟩ | _ | _ | _ | _ | _ | _ | _
  all_goals first | rfl | exact absurd rfl h

theorem noNul_typeText (type : VariantType) : NoNul type.text := by
  rcases type with _ | _ | ⟨_ | _ | _ | _ | _ | _ | _ | _⟩ | _ | _ | _ | _ | _ | _ | _
  all_goals decide

/-- An element with the type of a variant is read as that type says. -/
theorem readVariant_eq_ok_iff (htype : node.xmlAttribute "type" = some type.text)
    (hknown : type ≠ .other) :
    readVariant library node = .ok value ↔
      (if node.asBool "array" false then readArrayVariant library type node
        else readScalarVariant library type node.text) = some value := by
  rw [readVariant, XmlNode.asString, htype, Option.getD_some, (noNul_typeText type).cText_eq,
    parseVariantType_text hknown]
  dsimp only
  generalize (if node.asBool "array" false then readArrayVariant library type node
    else readScalarVariant library type node.text) = parsed
  cases parsed with
  | none => exact ⟨nofun, nofun⟩
  | some parsed => rw [Except.ok.injEq, Option.some_inj]

/-- Nothing that a variant writes is in the element yet. -/
structure XmlNode.Unwritten (node : XmlNode) : Prop where
  type : node.xmlAttribute "type" = none
  array : node.xmlAttribute "array" = none
  values : node.childrenNamed kValueTag = []

/-- A scalar that was written is read from its text. -/
theorem readVariant_scalar_iff (type : VariantType) (h : node.Unwritten) (hknown : type ≠ .other)
    {text : String} :
    readVariant library ((node.appendAttribute "type" type.text).setText text) = .ok value ↔
      readScalarVariant library type (cText text) = some value := by
  have htype : ((node.appendAttribute "type" type.text).setText text).xmlAttribute "type" =
      some type.text := by
    simp [h.type]
  have harray : ((node.appendAttribute "type" type.text).setText text).asBool "array" false =
      false := by
    simp [XmlNode.asBool, h.array]
  rw [readVariant_eq_ok_iff htype hknown, harray, if_neg Bool.false_ne_true, XmlNode.text_setText]

theorem texts_appendArrayValues (h : node.childrenNamed kValueTag = []) (texts : List String) :
    ((node.appendArrayValues texts).childrenNamed kValueTag).map (·.text) = texts.map cText := by
  have hall : ∀ child ∈ texts.map fun text => XmlNode.setText { name := kValueTag } text,
      decide (child.name = kValueTag) = true := by
    intro child hchild
    obtain ⟨text, -, rfl⟩ := List.mem_map.mp hchild
    exact decide_eq_true rfl
  rw [XmlNode.appendArrayValues, XmlNode.childrenNamed_appendChildren, h, List.nil_append,
    List.filter_eq_self.mpr hall, List.map_map]
  rfl

/-- An array that was written is read from the texts of its values. -/
theorem readVariant_array_iff (type : VariantType) (array : Option (Variant D X))
    (h : node.Unwritten) (hknown : type ≠ .other) {texts : List String}
    (harray : ∀ node : XmlNode, (node.childrenNamed kValueTag).map (·.text) = texts.map cText →
      readArrayVariant library type node = array) :
    readVariant library (((node.appendAttribute "type" type.text).appendAttribute "array"
        (boolText true)).appendArrayValues texts) = .ok value ↔ array = some value := by
  have htype : (((node.appendAttribute "type" type.text).appendAttribute "array"
      (boolText true)).appendArrayValues texts).xmlAttribute "type" = some type.text := by
    simp [XmlNode.appendArrayValues, h.type]
  have hbool : (((node.appendAttribute "type" type.text).appendAttribute "array"
      (boolText true)).appendArrayValues texts).asBool "array" false = true := by
    simp [XmlNode.asBool, XmlNode.appendArrayValues, h.array, boolText]
  have hvalues : ((node.appendAttribute "type" type.text).appendAttribute "array"
      (boolText true)).childrenNamed kValueTag = [] := by
    simp [h.values]
  rw [readVariant_eq_ok_iff htype hknown, if_pos hbool,
    harray _ (texts_appendArrayValues hvalues texts)]

/-- Nothing else in the element changes. -/
theorem writeVariant_frame (hwrite : writeVariant library node value = .ok written) :
    written.name = node.name ∧ ∀ name, "type" ≠ name → "array" ≠ name →
      written.xmlAttribute name = node.xmlAttribute name := by
  have happend : ∀ (node : XmlNode) {name name' value : String}, name ≠ name' →
      (node.appendAttribute name value).xmlAttribute name' = node.xmlAttribute name' := by
    intro node name name' value hne
    rw [XmlNode.xmlAttribute_appendAttribute, if_neg hne, Option.or_none]
  have hscalar : ∀ type text name, "type" ≠ name →
      ((node.appendAttribute "type" type).setText text).xmlAttribute name =
        node.xmlAttribute name :=
    fun type text name htype => XmlNode.xmlAttribute_setText.trans (happend node htype)
  have harray : ∀ type texts name, "type" ≠ name → "array" ≠ name →
      (((node.appendAttribute "type" type).appendAttribute "array"
        (boolText true)).appendArrayValues texts).xmlAttribute name = node.xmlAttribute name :=
    fun type texts name htype harray => XmlNode.xmlAttribute_appendChildren.trans
      ((happend _ harray).trans (happend node htype))
  cases value with
  | other type content => cases hwrite
  | empty =>
      cases hwrite
      exact ⟨rfl, fun name htype _ => happend node htype⟩
  | byteStringArray | stringArray | localizedTextArray | nodeIdArray =>
      cases hwrite
      exact ⟨rfl, harray _ _⟩
  | _ =>
      cases hwrite
      exact ⟨rfl, fun name htype _ => hscalar _ _ name htype⟩

theorem map_eq_self_iff {α : Type} {f : α → α} {as : List α} :
    as.map f = as ↔ ∀ a ∈ as, f a = a := by
  conv_lhs => rhs; rw [← List.map_id as]
  exact List.map_inj_left

theorem mapM_hexDecode (values : List (List UInt8)) :
    ((values.map fun value => String.ofList (hexEncode value)).map cText).mapM
      (fun text => hexDecode text.toList) = some values := by
  induction values with
  | nil => rfl
  | cons value values ih =>
      rw [List.map_cons, List.map_cons, List.mapM_cons, ih, (noNul_hexEncode value).cText_eq,
        String.toList_ofList, hexDecode_hexEncode]
      rfl

/-- **A variant comes back exactly if its texts and doubles do.** -/
theorem readVariant_writeVariant_iff (h : node.Unwritten) (hids : library.ReadsBack value.nodeIds)
    (hwrite : writeVariant library node value = .ok written) :
    readVariant library written = .ok value ↔ library.Keeps value := by
  cases value with
  | empty =>
      cases hwrite
      have htype : (node.appendAttribute "type" VariantType.empty.text).xmlAttribute "type" =
          some VariantType.empty.text := by
        simp [h.type]
      have harray : (node.appendAttribute "type" VariantType.empty.text).asBool "array" false =
          false := by
        simp [XmlNode.asBool, h.array]
      refine (readVariant_eq_ok_iff htype nofun).trans ?_
      rw [harray]
      exact iff_of_true rfl trivial
  | bool value =>
      cases hwrite
      refine (readVariant_scalar_iff .bool h nofun).trans ?_
      rw [(noNul_boolText value).cText_eq, readScalarVariant, Option.some_inj,
        Variant.bool.injEq]
      refine iff_of_true ?_ trivial
      cases value <;> simp [boolText]
  | integer type value =>
      cases hwrite
      refine (readVariant_scalar_iff (.integer type) h nofun).trans ?_
      rw [(noNul_formatInteger value.1).cText_eq, readScalarVariant, String.toList_ofList,
        parseInteger_formatInteger]
      exact iff_of_true rfl trivial
  | double value =>
      cases hwrite
      refine (readVariant_scalar_iff .double h nofun).trans ?_
      simp [readScalarVariant, Library.Keeps]
  | byteString value =>
      cases hwrite
      refine (readVariant_scalar_iff .byteString h nofun).trans ?_
      rw [(noNul_hexEncode value).cText_eq, readScalarVariant, String.toList_ofList,
        hexDecode_hexEncode]
      exact iff_of_true rfl trivial
  | string value =>
      cases hwrite
      refine (readVariant_scalar_iff .string h nofun).trans ?_
      rw [readScalarVariant, Option.some_inj, Variant.string.injEq]
      exact cText_eq_self_iff
  | localizedText value =>
      cases hwrite
      refine (readVariant_scalar_iff .localizedText h nofun).trans ?_
      rw [readScalarVariant, Option.some_inj, Variant.localizedText.injEq]
      exact Iff.rfl
  | nodeId value =>
      cases hwrite
      refine (readVariant_scalar_iff .nodeId h nofun).trans ?_
      rw [readScalarVariant, Option.some_inj, Variant.nodeId.injEq]
      exact parseNodeId_cText_iff (hids value List.mem_cons_self)
  | dateTime value =>
      cases hwrite
      refine (readVariant_scalar_iff .dateTime h nofun).trans ?_
      rw [(noNul_formatInteger value.1).cText_eq, readScalarVariant, String.toList_ofList,
        parseInteger_formatInteger]
      exact iff_of_true rfl trivial
  | byteStringArray values =>
      cases hwrite
      refine (readVariant_array_iff .byteString (some (.byteStringArray values)) h nofun
        fun node htexts => ?_).trans (iff_of_true rfl trivial)
      rw [readArrayVariant, htexts, mapM_hexDecode]
      rfl
  | stringArray values =>
      cases hwrite
      refine (readVariant_array_iff .string (some (.stringArray (values.map cText))) h nofun
        fun node htexts => ?_).trans ?_
      · rw [readArrayVariant, htexts]
      · rw [Option.some_inj, Variant.stringArray.injEq, map_eq_self_iff]
        exact forall₂_congr fun _ _ => cText_eq_self_iff
  | localizedTextArray values =>
      cases hwrite
      refine (readVariant_array_iff .localizedText (some (.localizedTextArray
        (values.map fun value => library.fromUtf8 (cText (library.toUtf8 value))))) h nofun
        fun node htexts => ?_).trans ?_
      · rw [readArrayVariant, htexts, List.map_map, List.map_map]
        rfl
      · rw [Option.some_inj, Variant.localizedTextArray.injEq, map_eq_self_iff]
        exact Iff.rfl
  | nodeIdArray values =>
      cases hwrite
      refine (readVariant_array_iff .nodeId (some (.nodeIdArray
        (values.map fun value => parseNodeId library.parsing (cText (nodeIdToScadaString value)))))
        h nofun fun node htexts => ?_).trans ?_
      · rw [readArrayVariant, htexts, List.map_map, List.map_map]
        rfl
      · rw [Option.some_inj, Variant.nodeIdArray.injEq, map_eq_self_iff]
        exact forall₂_congr fun value hvalue => parseNodeId_cText_iff (hids value hvalue)
  | other type content => cases hwrite

end

end ScadaCommon.NodeStateXml
