import Mathlib.Data.List.GetD
import ScadaCommon.Foundation.Splitting
import ScadaCommon.Scada.Basic

/-!
# Node ids as text

The scada string of a node id has the name of its namespace, a dot and the identifier.
Nothing in it tells whether the identifier is a number or a text that looks like one.

§1 namespaces · §2 scada strings · §3 nested ids · §4 names of namespaces · §5 the way
back.
-/

namespace ScadaCommon

open Foundation

/-! ## §1  Namespaces -/

/-- `Parse` of the core library for the two types of integers that it is used for. -/
structure Parsing where
  int : List Char → Option ℤ
  numericId : List Char → Option ℕ

def kNamespaceNames : List String := [
  "NS0", "TS", "TIT", "MODBUS_DEVICES", "GROUP", "USER", "HISTORICAL_DB", "SCADA", "HISTORY",
  "SIM_ITEM", "IEC_LINK", "IEC_DEV", "MODBUS_PORTS", "DEVICES", "TS_PARAMS", "SERVER_PARAMS",
  "IEC_TRANSMIT", "IEC61850_DEV", "IEC61850_RCB", "FILESYSTEM", "DATA_ITEMS", "SECURITY",
  "IEC61850_SERVER", "ALIAS", "FILESYSTEM_FILE", "OPC", "MODBUS_TRANSMIT", "IEC61850_TRANSMIT",
  "VIDICON", "VIDICON_FILE", "ROLE", "ROLE_IDENTITY", "CONFIGURATION", "HISTORICAL_CONFIG"]

/-- The index of the namespace `SCADA`. -/
def scadaNamespaceIndex : ℕ := 7

def getNamespaceName (namespaceIndex : ℕ) : String :=
  kNamespaceNames.getD namespaceIndex ""

/-- `boost::iequals`. -/
def iequals (a b : List Char) : Bool :=
  a.map Char.toUpper = b.map Char.toUpper

/-- `boost::istarts_with` -/
def istartsWith (text start : List Char) : Bool :=
  iequals (text.take start.length) start

/-- `T` and an index, an index, or a name; `-1` if it is none of these. -/
def findNamespaceIndexByName (parse : Parsing) (name : List Char) : ℤ :=
  match name with
  | [] => -1
  | c :: rest =>
      match (if c = 'T' then parse.int rest else none) with
      | some namespaceIndex => namespaceIndex
      | none =>
          match parse.int name with
          | some namespaceIndex => namespaceIndex
          | none =>
              match kNamespaceNames.findIdx? fun known => iequals known.toList name with
              | some i => i
              | none => -1

/-- `static_cast<NamespaceIndex>` -/
def toNamespaceIndex (namespaceIndex : ℤ) : ℕ :=
  (namespaceIndex % 2 ^ 16).toNat

/-! ## §2  Scada strings -/

namespace NodeId

/-- The number zero of the namespace zero is the null id. -/
def ofNumeric (id namespaceIndex : ℕ) : NodeId :=
  if id = 0 ∧ namespaceIndex = 0 then .null else .numeric id namespaceIndex

def namespaceIndex : NodeId → ℕ
  | .null => 0
  | .numeric _ namespaceIndex => namespaceIndex
  | .string _ namespaceIndex => namespaceIndex
  | .opaqueId _ namespaceIndex => namespaceIndex

/-- The identifier of an id that has a scada string. -/
def identifier : NodeId → Option (List Char)
  | .null => some (Nat.toDigits 10 0)
  | .numeric id _ => some (Nat.toDigits 10 id)
  | .string id _ => some id.toList
  | .opaqueId _ _ => none

end NodeId

def kPredefinedScadaStrings : List (String × NodeId) := [
  ("Server!CPU", .numeric 228 scadaNamespaceIndex),
  ("Server!Mem", .numeric 229 scadaNamespaceIndex),
  ("Server!PCPU", .numeric 226 scadaNamespaceIndex),
  ("Server!PMem", .numeric 227 scadaNamespaceIndex)]

/-- The namespace as the scada string has it. -/
def namespaceText (namespaceIndex : ℕ) : List Char :=
  if getNamespaceName namespaceIndex = "" then
    'N' :: 'S' :: Nat.toDigits 10 namespaceIndex
  else (getNamespaceName namespaceIndex).toList

def nodeIdToScadaString (nodeId : NodeId) : String :=
  match kPredefinedScadaStrings.find? (·.2 = nodeId) with
  | some (scadaString, _) => scadaString
  | none =>
      match nodeId.identifier with
      | some identifier =>
          String.ofList (namespaceText nodeId.namespaceIndex ++ '.' :: identifier)
      | none => ""

/-- The namespace that the text before the dot means. -/
def namespaceOfText (parse : Parsing) (namespaceName : List Char) : Option ℕ :=
  if findNamespaceIndexByName parse namespaceName ≠ -1 then
    some (toNamespaceIndex (findNamespaceIndexByName parse namespaceName))
  else if istartsWith namespaceName ['N', 'S'] then
    (parse.int (namespaceName.drop 2)).map toNamespaceIndex
  else none

/-- The id that the text after the dot means. -/
def nodeIdOfIdentifier (parse : Parsing) (identifier : List Char) (namespaceIndex : ℕ) : NodeId :=
  if '!' ∈ identifier then .string (String.ofList identifier) namespaceIndex
  else
    match parse.numericId identifier with
    | some id => .ofNumeric id namespaceIndex
    | none => .string (String.ofList identifier) namespaceIndex

def nodeIdFromScadaString (parse : Parsing) (scadaString : String) : NodeId :=
  match kPredefinedScadaStrings.find? (·.1 = scadaString) with
  | some (_, nodeId) => nodeId
  | none =>
      match splitFirst '.' scadaString.toList with
      | none => .null
      | some (namespaceName, identifier) =>
          match namespaceOfText parse namespaceName with
          | some namespaceIndex => nodeIdOfIdentifier parse identifier namespaceIndex
          | none => .null

/-! ## §3  Nested ids -/

/-- The namespace and the rest of an optional specification of a namespace. -/
def parentNamespace (parse : Parsing) (parent : List Char) (namespaceIndex : ℕ) :
    Option (List Char × ℕ) :=
  match splitFirst ':' parent with
  | none => some (parent, namespaceIndex)
  | some (name, rest) =>
      if findNamespaceIndexByName parse name = -1 then none
      else some (rest, toNamespaceIndex (findNamespaceIndexByName parse name))

/-- `IsNestedNodeId`, with the id of the parent and the nested name. -/
def isNestedNodeId (parse : Parsing) : NodeId → Option (NodeId × String)
  | .string id namespaceIndex =>
      match splitLast '!' id.toList with
      | none => none
      | some (parent, nestedName) => do
          let (parentText, parentNamespaceIndex) ← parentNamespace parse parent namespaceIndex
          let parentId : NodeId :=
            if '!' ∈ parent then .string (String.ofList parentText) parentNamespaceIndex
            else
              -- The topmost parent can be a number.
              match parse.numericId parentText with
              | some id => .ofNumeric id parentNamespaceIndex
              | none => .string (String.ofList parentText) parentNamespaceIndex
          if nestedName = [] then none else some (parentId, String.ofList nestedName)
  | .null | .numeric _ _ | .opaqueId _ _ => none

/-! ## §4  Names of namespaces -/

/-- A decimal numeral. -/
def IsNumeral (text : List Char) : Prop :=
  text ≠ [] ∧ ∀ c ∈ text, c.isDigit = true

instance (text : List Char) : Decidable (IsNumeral text) :=
  decidable_of_iff (text ≠ [] ∧ text.all Char.isDigit = true)
    (and_congr_right fun _ => List.all_eq_true)

def numeralValue (text : List Char) : ℕ :=
  Nat.ofDigitChars 10 text 0

/-- What an integer may be written with. -/
def IntegerChar (c : Char) : Prop :=
  c.isDigit = true ∨ c = '-' ∨ c = '+'

instance (c : Char) : Decidable (IntegerChar c) :=
  inferInstanceAs (Decidable (_ ∨ _))

/-- `Parse` accepts exactly the decimal numerals whose value fits; integers may have a
sign. -/
structure Parsing.AcceptsNumerals (parse : Parsing) : Prop where
  int : ∀ text, IsNumeral text → numeralValue text < 2 ^ 31 →
    parse.int text = some (numeralValue text : ℤ)
  intChars : ∀ text n, parse.int text = some n → ∀ c ∈ text, IntegerChar c
  numericId : ∀ text n, parse.numericId text = some n ↔
    IsNumeral text ∧ numeralValue text < 2 ^ 32 ∧ numeralValue text = n

section

variable {parse : Parsing} {namespaceIndex : ℕ} {text : List Char}

theorem isNumeral_toDigits (n : ℕ) : IsNumeral (Nat.toDigits 10 n) :=
  ⟨Nat.toDigits_ne_nil, fun _ hc => Nat.isDigit_of_mem_toDigits (by decide) (by decide) hc⟩

@[simp] theorem numeralValue_toDigits (n : ℕ) : numeralValue (Nat.toDigits 10 n) = n :=
  Nat.ofDigitChars_ten_toDigits

/-- A text with another character is no integer. -/
theorem Parsing.AcceptsNumerals.int_eq_none (hparse : parse.AcceptsNumerals) {c : Char}
    (hc : c ∈ text) (hother : ¬ IntegerChar c) : parse.int text = none := by
  rw [Option.eq_none_iff_forall_ne_some]
  exact fun n hn => hother (hparse.intChars text n hn c hc)

/-- What is looked up in the table of names, once for all of it. -/
theorem namespaceNames_spelled : ∀ name ∈ kNamespaceNames,
    name.toList.tail.any (fun c => ¬ IntegerChar c) = true ∧ '.' ∉ name.toList ∧
      ((name.toList.map Char.toUpper).take 2 = ['N', 'S'] →
        (name.toList.map Char.toUpper).drop 2 = ['0']) := by
  decide +kernel

/-- Every name has a character after the first one that no integer has. -/
theorem names_are_no_integers :
    ∀ name ∈ kNamespaceNames, ∃ c ∈ name.toList.tail, ¬ IntegerChar c := by
  intro name hname
  simpa using (namespaceNames_spelled name hname).1

theorem dot_notMem_names : ∀ name ∈ kNamespaceNames, '.' ∉ name.toList :=
  fun name hname => (namespaceNames_spelled name hname).2.1

/-- The names differ in more than the case of their letters. -/
theorem findIdx?_iequals : ∀ i < kNamespaceNames.length,
    kNamespaceNames.findIdx? (fun known =>
      iequals known.toList (kNamespaceNames.getD i "").toList) = some i := by
  decide +kernel

theorem not_digit_of_eq {c d : Char} (hd : d.isDigit = false) (hc : c.isDigit = true) : c ≠ d := by
  rintro rfl
  rw [hd] at hc
  cases hc

theorem dot_notMem_namespaceText (namespaceIndex : ℕ) : '.' ∉ namespaceText namespaceIndex := by
  unfold namespaceText
  split
  · intro hmem
    have hdigit : '.' ∈ Nat.toDigits 10 namespaceIndex := by simpa using hmem
    exact absurd rfl (not_digit_of_eq rfl ((isNumeral_toDigits namespaceIndex).2 _ hdigit))
  · rename_i hname
    rw [getNamespaceName] at hname ⊢
    by_cases hlt : namespaceIndex < kNamespaceNames.length
    · rw [List.getD_eq_getElem _ _ hlt]
      exact dot_notMem_names _ (List.getElem_mem hlt)
    · rw [List.getD_eq_default _ _ (not_lt.mp hlt)] at hname
      exact absurd rfl hname

theorem toNamespaceIndex_natCast (h : namespaceIndex < 2 ^ 16) :
    toNamespaceIndex (namespaceIndex : ℤ) = namespaceIndex := by
  unfold toNamespaceIndex
  omega

/-- A known name is found as a name. -/
theorem findNamespaceIndexByName_of_lt (hparse : parse.AcceptsNumerals)
    (hlt : namespaceIndex < kNamespaceNames.length) :
    findNamespaceIndexByName parse (getNamespaceName namespaceIndex).toList =
      (namespaceIndex : ℤ) := by
  have hmem : getNamespaceName namespaceIndex ∈ kNamespaceNames := by
    rw [getNamespaceName, List.getD_eq_getElem _ _ hlt]
    exact List.getElem_mem hlt
  obtain ⟨c, hc, hother⟩ := names_are_no_integers _ hmem
  have hfind := findIdx?_iequals namespaceIndex hlt
  rw [← getNamespaceName] at hfind
  cases hname : (getNamespaceName namespaceIndex).toList with
  | nil =>
      rw [hname] at hc
      cases hc
  | cons first rest =>
      rw [hname] at hc hfind
      have hrest : parse.int rest = none := hparse.int_eq_none hc hother
      have hwhole : parse.int (first :: rest) = none :=
        hparse.int_eq_none (List.mem_cons_of_mem _ hc) hother
      simp only [findNamespaceIndexByName, hrest, hwhole, ite_self, hfind]

/-- The only name that starts like a text without a name is that of the namespace
zero. -/
theorem names_with_NS : ∀ name ∈ kNamespaceNames, ∀ rest,
    name.toList.map Char.toUpper = 'N' :: 'S' :: rest → rest = ['0'] := by
  intro name hname rest hrest
  have hdrop := (namespaceNames_spelled name hname).2.2 (by rw [hrest]; rfl)
  rwa [hrest] at hdrop

theorem toUpper_of_isDigit {c : Char} (hc : c.isDigit = true) : c.toUpper = c := by
  unfold Char.toUpper
  rw [dif_neg]
  rintro ⟨hlow, -⟩
  have hhigh : c.val ≤ 57 := by
    rw [Char.isDigit, Bool.and_eq_true, decide_eq_true_eq, decide_eq_true_eq] at hc
    exact hc.2
  have hle : (97 : UInt32) ≤ 57 := UInt32.le_trans hlow hhigh
  exact absurd hle (by decide)

/-- A text without a name is not found as a name. -/
theorem findNamespaceIndexByName_of_le (hparse : parse.AcceptsNumerals)
    (hle : kNamespaceNames.length ≤ namespaceIndex) :
    findNamespaceIndexByName parse ('N' :: 'S' :: Nat.toDigits 10 namespaceIndex) = -1 := by
  have hwhole : parse.int ('N' :: 'S' :: Nat.toDigits 10 namespaceIndex) = none :=
    hparse.int_eq_none List.mem_cons_self (by decide)
  have hfind : kNamespaceNames.findIdx? (fun known =>
      iequals known.toList ('N' :: 'S' :: Nat.toDigits 10 namespaceIndex)) = none := by
    refine List.findIdx?_eq_none_iff.mpr fun known hknown => ?_
    rw [Bool.eq_false_iff]
    intro hequal
    have hupper := of_decide_eq_true hequal
    have hdigits : (Nat.toDigits 10 namespaceIndex).map Char.toUpper =
        Nat.toDigits 10 namespaceIndex := by
      refine (List.map_congr_left fun c hc => ?_).trans (List.map_id _)
      exact toUpper_of_isDigit ((isNumeral_toDigits namespaceIndex).2 c hc)
    have hzero := names_with_NS known hknown _ hupper
    rw [hdigits] at hzero
    have hvalue := numeralValue_toDigits namespaceIndex
    rw [hzero] at hvalue
    rw [← hvalue] at hle
    exact absurd hle (by decide)
  simp [findNamespaceIndexByName, hwhole, hfind]

theorem getNamespaceName_eq_empty :
    getNamespaceName namespaceIndex = "" ↔ kNamespaceNames.length ≤ namespaceIndex := by
  constructor
  · intro hname
    by_contra hlt
    rw [getNamespaceName, List.getD_eq_getElem _ _ (not_le.mp hlt)] at hname
    have hnone : ∀ name ∈ kNamespaceNames, name ≠ "" := by decide
    exact hnone _ (List.getElem_mem _) hname
  · exact fun hle => List.getD_eq_default _ _ hle

/-- **The text of a namespace means the namespace.** -/
theorem namespaceOfText_namespaceText (hparse : parse.AcceptsNumerals)
    (hlt : namespaceIndex < 2 ^ 16) :
    namespaceOfText parse (namespaceText namespaceIndex) = some namespaceIndex := by
  unfold namespaceText
  split
  · rename_i hname
    have hdigits : parse.int (Nat.toDigits 10 namespaceIndex) = some (namespaceIndex : ℤ) := by
      have hsmall : namespaceIndex < 2 ^ 31 := hlt.trans (by decide)
      have hint := hparse.int _ (isNumeral_toDigits namespaceIndex)
      rw [numeralValue_toDigits] at hint
      exact hint hsmall
    have hfind := findNamespaceIndexByName_of_le hparse (getNamespaceName_eq_empty.mp hname)
    have hstart : istartsWith ('N' :: 'S' :: Nat.toDigits 10 namespaceIndex) ['N', 'S'] = true := by
      simp [istartsWith, iequals]
    rw [namespaceOfText, if_neg (not_not.mpr hfind), if_pos hstart]
    simp [hdigits, toNamespaceIndex_natCast hlt]
  · rename_i hname
    rw [getNamespaceName_eq_empty, not_le] at hname
    have hfind := findNamespaceIndexByName_of_lt hparse hname
    rw [namespaceOfText, hfind, if_pos (by omega), toNamespaceIndex_natCast hlt]

end

/-! ## §5  The way back -/

namespace NodeId

/-- The fields of an id are of 32 and of 16 bits. -/
def Representable : NodeId → Prop
  | .null => True
  | .numeric id namespaceIndex =>
      id < 2 ^ 32 ∧ namespaceIndex < 2 ^ 16 ∧ ¬ (id = 0 ∧ namespaceIndex = 0)
  | .string _ namespaceIndex => namespaceIndex < 2 ^ 16
  | .opaqueId _ namespaceIndex => namespaceIndex < 2 ^ 16

/-- The id is a text that a number could be read from. -/
def LooksNumeric : NodeId → Prop
  | .string id _ => IsNumeral id.toList ∧ numeralValue id.toList < 2 ^ 32
  | .null | .numeric _ _ | .opaqueId _ _ => False

theorem ofNumeric_ne_string {id namespaceIndex namespaceIndex' : ℕ} {text : String} :
    ofNumeric id namespaceIndex ≠ .string text namespaceIndex' := by
  unfold ofNumeric
  split <;> nofun

theorem Representable.namespaceIndex_lt {nodeId : NodeId} (h : nodeId.Representable) :
    nodeId.namespaceIndex < 2 ^ 16 := by
  cases nodeId with
  | null => decide
  | numeric id namespaceIndex => exact h.2.1
  | string id namespaceIndex => exact h
  | opaqueId id namespaceIndex => exact h

theorem HasText.exists_identifier {nodeId : NodeId} (h : nodeId.HasText) :
    ∃ identifier, nodeId.identifier = some identifier := by
  cases nodeId with
  | null => exact ⟨_, rfl⟩
  | numeric id namespaceIndex => exact ⟨_, rfl⟩
  | string id namespaceIndex => exact ⟨_, rfl⟩
  | opaqueId id namespaceIndex => exact absurd rfl (h id namespaceIndex)

end NodeId

section

variable {parse : Parsing} {nodeId : NodeId} {identifier : List Char}

theorem predefinedScadaStrings_spelled : ∀ predefined ∈ kPredefinedScadaStrings,
    kPredefinedScadaStrings.find? (·.1 = predefined.1) = some predefined ∧
      '.' ∉ predefined.1.toList := by
  decide +kernel

theorem predefined_from_scadaString : ∀ predefined ∈ kPredefinedScadaStrings,
    kPredefinedScadaStrings.find? (·.1 = predefined.1) = some predefined :=
  fun predefined h => (predefinedScadaStrings_spelled predefined h).1

theorem dot_notMem_predefined : ∀ predefined ∈ kPredefinedScadaStrings,
    '.' ∉ predefined.1.toList :=
  fun predefined h => (predefinedScadaStrings_spelled predefined h).2

/-- A predefined string means the id that it was made of. -/
theorem nodeIdFromScadaString_predefined {predefined : String × NodeId}
    (h : kPredefinedScadaStrings.find? (·.2 = nodeId) = some predefined) :
    nodeIdFromScadaString parse (nodeIdToScadaString nodeId) = nodeId := by
  have hfound := predefined_from_scadaString predefined (List.mem_of_find?_eq_some h)
  have hid : predefined.2 = nodeId := by simpa using List.find?_some h
  simp only [nodeIdToScadaString, h, nodeIdFromScadaString, hfound]
  exact hid

/-- The other strings are taken apart where they were put together. -/
theorem nodeIdFromScadaString_plain (hparse : parse.AcceptsNumerals)
    (hrepresentable : nodeId.Representable) (hidentifier : nodeId.identifier = some identifier)
    (hplain : kPredefinedScadaStrings.find? (·.2 = nodeId) = none) :
    nodeIdFromScadaString parse (nodeIdToScadaString nodeId) =
      nodeIdOfIdentifier parse identifier nodeId.namespaceIndex := by
  have hnone : kPredefinedScadaStrings.find? (·.1 = String.ofList
      (namespaceText nodeId.namespaceIndex ++ '.' :: identifier)) = none := by
    refine List.find?_eq_none.mpr fun predefined hmem hequal => ?_
    refine dot_notMem_predefined predefined hmem ?_
    rw [of_decide_eq_true hequal, String.toList_ofList]
    exact List.mem_append_right _ List.mem_cons_self
  have hsplit := splitFirst_append (r := identifier)
    (dot_notMem_namespaceText nodeId.namespaceIndex)
  have hnamespace := namespaceOfText_namespaceText hparse hrepresentable.namespaceIndex_lt
  simp only [nodeIdToScadaString, hplain, hidentifier, nodeIdFromScadaString, hnone,
    String.toList_ofList, hsplit, hnamespace]

/-- Only ids of bytes have no scada string. -/
theorem nodeIdToScadaString_eq_empty : nodeIdToScadaString nodeId = "" ↔ ¬ nodeId.HasText := by
  unfold nodeIdToScadaString
  split
  · rename_i scadaString found hfound
    have hnamed : ∀ predefined ∈ kPredefinedScadaStrings,
        predefined.1 ≠ "" ∧ predefined.2.HasText := by
      simp [kPredefinedScadaStrings, NodeId.HasText]
    obtain ⟨hstring, htext⟩ := hnamed _ (List.mem_of_find?_eq_some hfound)
    have hid : found = nodeId := by simpa using List.find?_some hfound
    exact iff_of_false hstring (not_not.mpr (hid ▸ htext))
  · split
    · rename_i identifier hidentifier
      refine iff_of_false (fun hempty => ?_) (not_not.mpr ?_)
      · have hchars := congrArg String.toList hempty
        simp at hchars
      · rintro id namespaceIndex rfl
        cases hidentifier
    · rename_i hnone
      refine iff_of_true rfl fun htext => ?_
      obtain ⟨identifier, hidentifier⟩ := htext.exists_identifier
      cases hnone.symm.trans hidentifier

theorem exclamation_notMem_toDigits (n : ℕ) : '!' ∉ Nat.toDigits 10 n := fun hmem =>
  absurd rfl (not_digit_of_eq rfl ((isNumeral_toDigits n).2 _ hmem))

theorem nodeIdOfIdentifier_toDigits (hparse : parse.AcceptsNumerals) {id namespaceIndex : ℕ}
    (hid : id < 2 ^ 32) :
    nodeIdOfIdentifier parse (Nat.toDigits 10 id) namespaceIndex =
      .ofNumeric id namespaceIndex := by
  have hnumeric : parse.numericId (Nat.toDigits 10 id) = some id :=
    (hparse.numericId _ _).mpr ⟨isNumeral_toDigits id, by simpa using hid, by simp⟩
  rw [nodeIdOfIdentifier, if_neg (exclamation_notMem_toDigits id), hnumeric]

theorem nodeIdOfIdentifier_eq_string_iff (hparse : parse.AcceptsNumerals) {id : String}
    {namespaceIndex : ℕ} :
    nodeIdOfIdentifier parse id.toList namespaceIndex = .string id namespaceIndex ↔
      ¬ (NodeId.string id namespaceIndex).LooksNumeric := by
  unfold nodeIdOfIdentifier NodeId.LooksNumeric
  split
  · rename_i hmem
    rw [String.ofList_toList]
    refine iff_of_true rfl fun hnumeral => ?_
    exact absurd rfl (not_digit_of_eq rfl (hnumeral.1.2 _ hmem))
  · cases hnumeric : parse.numericId id.toList with
    | some number =>
        obtain ⟨hnumeral, hlt, -⟩ := (hparse.numericId _ _).mp hnumeric
        exact iff_of_false NodeId.ofNumeric_ne_string (not_not.mpr ⟨hnumeral, hlt⟩)
    | none =>
        rw [String.ofList_toList]
        refine iff_of_true rfl fun hnumeral => ?_
        have hsome := (hparse.numericId _ _).mpr ⟨hnumeral.1, hnumeral.2, rfl⟩
        rw [hnumeric] at hsome
        cases hsome

/-- A text that is read as a text is kept. -/
theorem identifier_of_nodeIdOfIdentifier {text : List Char} {id : String} {namespaceIndex index : ℕ}
    (h : nodeIdOfIdentifier parse text namespaceIndex = .string id index) : id.toList = text := by
  unfold nodeIdOfIdentifier at h
  split at h
  · cases h
    exact String.toList_ofList
  · split at h
    · exact absurd h NodeId.ofNumeric_ne_string
    · cases h
      exact String.toList_ofList

theorem not_looksNumeric_of_predefined {predefined : String × NodeId}
    (h : kPredefinedScadaStrings.find? (·.2 = nodeId) = some predefined) :
    ¬ nodeId.LooksNumeric := by
  have hnone : ∀ predefined ∈ kPredefinedScadaStrings, ¬ predefined.2.LooksNumeric := by
    simp [kPredefinedScadaStrings, NodeId.LooksNumeric]
  have hid : predefined.2 = nodeId := by simpa using List.find?_some h
  rw [← hid]
  exact hnone predefined (List.mem_of_find?_eq_some h)

/-- The text of an identifier means the id unless it looks like a number and is none. -/
theorem nodeIdOfIdentifier_eq_iff (hparse : parse.AcceptsNumerals)
    (hrepresentable : nodeId.Representable) (hnull : nodeId ≠ .null)
    (hidentifier : nodeId.identifier = some identifier) :
    nodeIdOfIdentifier parse identifier nodeId.namespaceIndex = nodeId ↔
      ¬ nodeId.LooksNumeric := by
  cases nodeId with
  | null => exact absurd rfl hnull
  | numeric id namespaceIndex =>
      cases hidentifier
      obtain ⟨hid, -, hzero⟩ := hrepresentable
      refine iff_of_true ?_ not_false
      rw [nodeIdOfIdentifier_toDigits hparse hid, NodeId.ofNumeric, NodeId.namespaceIndex,
        if_neg hzero]
  | string id namespaceIndex =>
      cases hidentifier
      exact nodeIdOfIdentifier_eq_string_iff hparse
  | opaqueId id namespaceIndex => cases hidentifier

theorem nodeId_comes_back_iff (hparse : parse.AcceptsNumerals)
    (hrepresentable : nodeId.Representable) (hnull : nodeId ≠ .null) (htext : nodeId.HasText) :
    nodeIdFromScadaString parse (nodeIdToScadaString nodeId) = nodeId ↔
      ¬ nodeId.LooksNumeric := by
  cases hplain : kPredefinedScadaStrings.find? (·.2 = nodeId) with
  | some predefined =>
      exact iff_of_true (nodeIdFromScadaString_predefined hplain)
        (not_looksNumeric_of_predefined hplain)
  | none =>
      obtain ⟨identifier, hidentifier⟩ := htext.exists_identifier
      rw [nodeIdFromScadaString_plain hparse hrepresentable hidentifier hplain]
      exact nodeIdOfIdentifier_eq_iff hparse hrepresentable hnull hidentifier

/-- **The scada string of an id** means the id unless that is a text that looks like a
number, and these ids apart no two ids have the same string. -/
theorem scada_string_roundTrip_iff (hparse : parse.AcceptsNumerals)
    (hrepresentable : nodeId.Representable) (hnull : nodeId ≠ .null) (htext : nodeId.HasText) :
    (nodeIdFromScadaString parse (nodeIdToScadaString nodeId) = nodeId ↔
      ¬ nodeId.LooksNumeric) ∧
    ∀ other : NodeId, other.Representable → other ≠ .null → other.HasText →
      ¬ nodeId.LooksNumeric → ¬ other.LooksNumeric →
        nodeIdToScadaString nodeId = nodeIdToScadaString other → nodeId = other := by
  have hback := nodeId_comes_back_iff hparse hrepresentable hnull htext
  refine ⟨hback, fun other hrepresentable' hnull' htext' hlooks hlooks' heq => ?_⟩
  have hback' := nodeId_comes_back_iff hparse hrepresentable' hnull' htext'
  calc nodeId = nodeIdFromScadaString parse (nodeIdToScadaString nodeId) :=
        (hback.mpr hlooks).symm
    _ = nodeIdFromScadaString parse (nodeIdToScadaString other) := by rw [heq]
    _ = other := hback'.mpr hlooks'

end

/-- Decimal numerals without a sign. -/
def Parsing.decimal : Parsing where
  int text :=
    if IsNumeral text ∧ numeralValue text < 2 ^ 31 then some (numeralValue text) else none
  numericId text :=
    if IsNumeral text ∧ numeralValue text < 2 ^ 32 then some (numeralValue text) else none

theorem Parsing.decimal_acceptsNumerals : Parsing.decimal.AcceptsNumerals where
  int text hnumeral hlt := if_pos ⟨hnumeral, hlt⟩
  intChars text n h c hc := by
    obtain ⟨hnumeral, -⟩ := Option.ite_none_right_eq_some.mp h
    exact .inl (hnumeral.1.2 c hc)
  numericId text n := by
    rw [Parsing.decimal, Option.ite_none_right_eq_some, Option.some_inj, and_assoc]

theorem scada_string_roundTrip_iff_tag :
    nodeIdFromScadaString .decimal (nodeIdToScadaString (.string "Pump.1" 40)) =
      .string "Pump.1" 40 := by
  have hrepresentable : (NodeId.string "Pump.1" 40).Representable := by
    show 40 < 2 ^ 16
    decide
  refine (scada_string_roundTrip_iff Parsing.decimal_acceptsNumerals hrepresentable nofun
    (fun _ _ => nofun)).1.mpr ?_
  rintro ⟨hnumeral, -⟩
  exact absurd hnumeral (by decide)

/-- The text `53` comes back as the number, which has the same string. -/
theorem text_comes_back_as_number : Parsing.decimal.AcceptsNumerals ∧
    nodeIdFromScadaString .decimal (nodeIdToScadaString (.string "53" 1)) = .numeric 53 1 ∧
      nodeIdToScadaString (.string "53" 1) = nodeIdToScadaString (.numeric 53 1) :=
  ⟨Parsing.decimal_acceptsNumerals, by decide, by decide⟩

end ScadaCommon
