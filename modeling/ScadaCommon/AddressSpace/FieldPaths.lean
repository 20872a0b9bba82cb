import ScadaCommon.Model.NodeIdUtil

/-!
# Paths of the fields of a value

A path is the string of a node id, or that, `!` and the name of a field. It is taken apart
at its first `!`, and the strings of nested and of predefined ids have one of their own.

§1 fields · §2 strings with a separator · §3 paths.
-/

namespace ScadaCommon.AddressSpace

open Foundation

/-! ## §1  Fields -/

inductive DataValueFieldId where
  | qualifier
  | sourceTimeStamp
  | serverTimeStamp
  | count
deriving DecidableEq

/-- The names of the fields, in the order of their comparison. -/
def fieldNames : List (String × DataValueFieldId) := [
  ("Quality", .qualifier),
  ("ServerTimeStamp", .serverTimeStamp),
  ("SourceTimeStamp", .sourceTimeStamp)]

/-- The field of a name, in any letter case. -/
def fieldOfName (propertyName : List Char) : Option DataValueFieldId :=
  (fieldNames.find? fun known => iequals propertyName known.1.toList).map (·.2)

/-- The pair of a default-constructed id and the first field. -/
def noField : NodeId × DataValueFieldId :=
  (.null, .qualifier)

def parseDataValueFieldString (parse : Parsing) (path : String) : NodeId × DataValueFieldId :=
  match splitFirst '!' path.toList with
  | none =>
      let nodeId := nodeIdFromScadaString parse path
      if nodeId = .null then noField else (nodeId, .count)
  | some (str, propertyName) =>
      let nodeId := nodeIdFromScadaString parse (String.ofList str)
      if nodeId = .null then noField
      else
        match fieldOfName propertyName with
        | some field => (nodeId, field)
        | none => noField

section

variable {propertyName : List Char} {field : DataValueFieldId}

theorem separator_notMem_fieldNames : ∀ known ∈ fieldNames,
    '!' ∉ known.1.toList.map Char.toUpper := by
  decide +kernel

/-- No name of a field has a separator. -/
theorem fieldOfName_separator (h : '!' ∈ propertyName) : fieldOfName propertyName = none := by
  rw [fieldOfName, Option.map_eq_none_iff, List.find?_eq_none]
  intro known hknown hequal
  apply separator_notMem_fieldNames known hknown
  rw [← of_decide_eq_true hequal]
  exact List.mem_map.mpr ⟨'!', h, rfl⟩

theorem count_notMem_fieldOfName (propertyName : List Char) :
    fieldOfName propertyName ≠ some .count := by
  intro h
  obtain ⟨known, hfound, hcount⟩ := Option.map_eq_some_iff.mp h
  have hnone : ∀ known ∈ fieldNames, known.2 ≠ .count := by decide +kernel
  exact hnone known (List.mem_of_find?_eq_some hfound) hcount

end

/-! ## §2  Strings with a separator -/

/-- The id is neither predefined nor a text with a separator. -/
structure IsPlain (nodeId : NodeId) : Prop where
  text : ∀ id namespaceIndex, nodeId = .string id namespaceIndex → '!' ∉ id.toList
  notPredefined : ∀ predefined ∈ kPredefinedScadaStrings, predefined.2 ≠ nodeId

section

variable {nodeId : NodeId} {identifier : List Char}

theorem separator_notMem_names : ∀ name ∈ kNamespaceNames, '!' ∉ name.toList := by
  decide +kernel

theorem separator_mem_predefined : ∀ predefined ∈ kPredefinedScadaStrings,
    '!' ∈ predefined.1.toList := by
  decide +kernel

theorem separator_notMem_namespaceText (namespaceIndex : ℕ) :
    '!' ∉ namespaceText namespaceIndex := by
  unfold namespaceText
  split
  · simp [exclamation_notMem_toDigits]
  · rename_i hname
    rw [getNamespaceName_eq_empty, not_le] at hname
    apply separator_notMem_names
    rw [getNamespaceName, List.getD_eq_getElem _ _ hname]
    exact List.getElem_mem hname

/-- Only a text has a separator in its identifier. -/
theorem separator_mem_identifier (hidentifier : nodeId.identifier = some identifier) :
    '!' ∈ identifier ↔ ∃ id namespaceIndex, nodeId = .string id namespaceIndex ∧
      '!' ∈ id.toList := by
  cases nodeId with
  | null =>
      cases hidentifier
      simp
  | numeric id namespaceIndex =>
      cases hidentifier
      simp [exclamation_notMem_toDigits]
  | string id namespaceIndex =>
      cases hidentifier
      simp
  | opaqueId id namespaceIndex => cases hidentifier

/-- **The string of a plain id has no separator**, and that of another id has one. -/
theorem separator_mem_nodeIdToScadaString (htext : nodeId.HasText) :
    '!' ∈ (nodeIdToScadaString nodeId).toList ↔ ¬ IsPlain nodeId := by
  cases hfound : kPredefinedScadaStrings.find? (·.2 = nodeId) with
  | some predefined =>
      have hmem := List.mem_of_find?_eq_some hfound
      have hid : predefined.2 = nodeId := by simpa using List.find?_some hfound
      rw [nodeIdToScadaString, hfound]
      exact iff_of_true (separator_mem_predefined _ hmem)
        fun hplain => hplain.notPredefined _ hmem hid
  | none =>
      obtain ⟨identifier, hidentifier⟩ := htext.exists_identifier
      have hother : ∀ predefined ∈ kPredefinedScadaStrings, predefined.2 ≠ nodeId := by
        simpa using List.find?_eq_none.mp hfound
      rw [nodeIdToScadaString, hfound, hidentifier]
      have hmem : '!' ∈ (String.ofList
          (namespaceText nodeId.namespaceIndex ++ '.' :: identifier)).toList ↔
            '!' ∈ identifier := by
        simp [separator_notMem_namespaceText]
      refine hmem.trans ((separator_mem_identifier hidentifier).trans ?_)
      constructor
      · rintro ⟨id, namespaceIndex, heq, hseparator⟩ hplain
        exact hplain.text id namespaceIndex heq hseparator
      · intro hplain
        by_contra hnone
        push Not at hnone
        exact hplain ⟨hnone, hother⟩

end

/-! ## §3  Paths -/

section

variable {parse : Parsing} {nodeId : NodeId} {path : String}

theorem hasText_of_comesBack
    (hback : nodeIdFromScadaString parse (nodeIdToScadaString nodeId) = nodeId) :
    nodeId.HasText := by
  by_contra htext
  rw [nodeIdToScadaString_eq_empty.mpr htext] at hback
  apply htext
  rintro id namespaceIndex rfl
  cases hback

theorem isPlain_null : IsPlain .null where
  text _ _ := nofun
  notPredefined := by simp [kPredefinedScadaStrings]

/-- Behind the first separator there is no name of a field if there is another one. -/
theorem parseDataValueFieldString_separator {before after : List Char}
    (hpath : path.toList = before ++ '!' :: after) (hbefore : '!' ∉ before) :
    parseDataValueFieldString parse path =
      if nodeIdFromScadaString parse (String.ofList before) = .null then noField
      else
        match fieldOfName after with
        | some field => (nodeIdFromScadaString parse (String.ofList before), field)
        | none => noField := by
  rw [parseDataValueFieldString, hpath, splitFirst_append hbefore]

theorem parseDataValueFieldString_plain (h : '!' ∉ path.toList) :
    parseDataValueFieldString parse path =
      if nodeIdFromScadaString parse path = .null then noField
      else (nodeIdFromScadaString parse path, .count) := by
  rw [parseDataValueFieldString, splitFirst_eq_none.mpr h]

/-- The path of a whole value. -/
theorem parseDataValueFieldString_value_iff
    (hback : nodeIdFromScadaString parse (nodeIdToScadaString nodeId) = nodeId) :
    parseDataValueFieldString parse (nodeIdToScadaString nodeId) = (nodeId, .count) ↔
      IsPlain nodeId ∧ nodeId ≠ .null := by
  have hplain := separator_mem_nodeIdToScadaString (hasText_of_comesBack hback)
  by_cases hseparator : '!' ∈ (nodeIdToScadaString nodeId).toList
  · obtain ⟨before, after, hpath, hbefore⟩ := List.eq_append_cons_of_mem hseparator
    rw [parseDataValueFieldString_separator hpath hbefore]
    refine iff_of_false (fun h => ?_) fun h => hplain.mp hseparator h.1
    -- behind a separator there is a name of a field, or none
    have hfield := congrArg Prod.snd h
    split at hfield
    · cases hfield
    · split at hfield
      · rename_i field hname
        exact count_notMem_fieldOfName after (hname.trans (congrArg some hfield))
      · cases hfield
  · rw [parseDataValueFieldString_plain hseparator, hback]
    have hisPlain := not_not.mp (mt hplain.mpr hseparator)
    by_cases hnull : nodeId = .null
    · simp [hnull, noField]
    · simp [hnull, hisPlain]

/-- The path of a field. -/
theorem parseDataValueFieldString_field_iff
    (hback : nodeIdFromScadaString parse (nodeIdToScadaString nodeId) = nodeId)
    {fieldName : String} {field : DataValueFieldId}
    (hfield : fieldOfName fieldName.toList = some field) :
    parseDataValueFieldString parse (nodeIdToScadaString nodeId ++ "!" ++ fieldName) =
        (nodeId, field) ↔
      IsPlain nodeId ∧ (nodeId ≠ .null ∨ field = .qualifier) := by
  have hplain := separator_mem_nodeIdToScadaString (hasText_of_comesBack hback)
  by_cases hseparator : '!' ∈ (nodeIdToScadaString nodeId).toList
  · obtain ⟨before, after, hscada, hbefore⟩ := List.eq_append_cons_of_mem hseparator
    have hpath : (nodeIdToScadaString nodeId ++ "!" ++ fieldName).toList =
        before ++ '!' :: (after ++ '!' :: fieldName.toList) := by
      simp [hscada]
    have hnone : fieldOfName (after ++ '!' :: fieldName.toList) = none :=
      fieldOfName_separator (by simp)
    rw [parseDataValueFieldString_separator hpath hbefore, hnone]
    simp only [ite_self]
    refine iff_of_false (fun h => ?_) fun h => hplain.mp hseparator h.1
    have hnull : .null = nodeId := congrArg Prod.fst h
    exact hplain.mp hseparator (hnull ▸ isPlain_null)
  · have hpath : (nodeIdToScadaString nodeId ++ "!" ++ fieldName).toList =
        (nodeIdToScadaString nodeId).toList ++ '!' :: fieldName.toList := by
      simp
    rw [parseDataValueFieldString_separator hpath hseparator, String.ofList_toList, hback, hfield]
    have hisPlain := not_not.mp (mt hplain.mpr hseparator)
    by_cases hnull : nodeId = .null
    · simp [hnull, noField, isPlain_null, eq_comm]
    · simp [hnull, hisPlain]

/-- **Paths of fields are parsed back** exactly for plain ids: nested ids and the predefined
ones have a separator in their own string. -/
theorem field_path_iff
    (hback : nodeIdFromScadaString parse (nodeIdToScadaString nodeId) = nodeId) :
    (parseDataValueFieldString parse (nodeIdToScadaString nodeId) = (nodeId, .count) ↔
      IsPlain nodeId ∧ nodeId ≠ .null) ∧
    ∀ fieldName field, fieldOfName fieldName.toList = some field →
      (parseDataValueFieldString parse (nodeIdToScadaString nodeId ++ "!" ++ fieldName) =
          (nodeId, field) ↔
        IsPlain nodeId ∧ (nodeId ≠ .null ∨ field = .qualifier)) :=
  ⟨parseDataValueFieldString_value_iff hback,
    fun _ _ hfield => parseDataValueFieldString_field_iff hback hfield⟩

end

theorem field_path_iff_tag :
    parseDataValueFieldString .decimal
        (nodeIdToScadaString (.string "Pump.1" 40) ++ "!" ++ "qUALITY") =
      (.string "Pump.1" 40, .qualifier) := by
  have hback : nodeIdFromScadaString .decimal (nodeIdToScadaString (.string "Pump.1" 40)) =
      .string "Pump.1" 40 := by
    decide +kernel
  have hfield : fieldOfName "qUALITY".toList = some .qualifier := by decide +kernel
  refine ((field_path_iff hback).2 "qUALITY" .qualifier hfield).mpr ⟨⟨?_, ?_⟩, .inr rfl⟩
  · rintro id namespaceIndex heq
    cases heq
    decide +kernel
  · simp [kPredefinedScadaStrings]

/-- The strings of both ids come back, and as paths they mean no node. -/
theorem nested_paths_are_lost :
    nodeIdFromScadaString .decimal (nodeIdToScadaString (.string "32!Online" 12)) =
      .string "32!Online" 12 ∧
    parseDataValueFieldString .decimal (nodeIdToScadaString (.string "32!Online" 12)) =
      (.null, .qualifier) ∧
    parseDataValueFieldString .decimal
        (nodeIdToScadaString (.string "32!Online" 12) ++ "!" ++ "ServerTimeStamp") =
      (.null, .qualifier) ∧
    nodeIdToScadaString (.numeric 228 7) = "Server!CPU" ∧
    parseDataValueFieldString .decimal "Server!CPU" = (.null, .qualifier) := by
  decide +kernel

end ScadaCommon.AddressSpace
