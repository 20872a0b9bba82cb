import ScadaCommon.TimedData.FormulaTimedData

/-!
# Formulas of one node

`MakeNodeIdFormula` puts the string of a text id in braces, as it stands;
`GetFormulaSingleNodeId` takes the name of a formula that is one name, without its braces,
for the string of an id. The lexer ends a name in braces at the first brace that closes, and
a text at its first zero.

§1 single names · §2 what can be read · §3 formulas of numbers · §4 the way back.
-/

namespace ScadaCommon

open Foundation

/-! ## §1  Single names -/

/-- `ScadaExpression::IsSingleName` of a text, over a lexer that skips nothing and is at the end
when no text is left. -/
def isSingleName (formula : String) : Option String :=
  match readLexem (cString formula.toList) with
  | some (.lexName name, []) => some name
  | _ => none

/-- `GetFormulaSingleName`, empty for other formulas. -/
def getFormulaSingleName (formula : String) : String :=
  match isSingleName formula with
  | some name => unbraced name
  | none => ""

def getFormulaSingleNodeId (parse : Parsing) (formula : String) : NodeId :=
  if getFormulaSingleName formula = "" then .null
  else nodeIdFromScadaString parse (getFormulaSingleName formula)

/-- The characters that a text in braces can have. -/
def IsPathChar (c : Char) : Prop :=
  c ≠ '}' ∧ c.toNat ≠ 0

section

variable {parse : Parsing} {formula name : String}

theorem isSingleName_eq_some (h : isSingleName formula = some name) :
    cString formula.toList = name.toList ∧ (IsBare name ∨ IsBraced name) := by
  unfold isSingleName at h
  split at h
  · rename_i hread
    cases h
    simpa using readLexem_name hread
  · cases h

/-- A text that is a name is a single name. -/
theorem isSingleName_self (h : IsBare name ∨ IsBraced name)
    (hzero : ∀ c ∈ name.toList, c.toNat ≠ 0) : isSingleName name = some name := by
  rw [isSingleName, cString_eq_self.mpr hzero, readLexem_self h]

theorem getFormulaSingleNodeId_of_name (h : isSingleName formula = some name)
    (hname : unbraced name ≠ "") :
    getFormulaSingleNodeId parse formula = nodeIdFromScadaString parse (unbraced name) := by
  simp [getFormulaSingleNodeId, getFormulaSingleName, h, hname]

end

/-! ## §2  What can be read -/

section

variable {parse : Parsing} {formula name id : String} {namespaceIndex : ℕ}

/-- The ASCII characters of names. -/
theorem isNameChar_of_lt {c : Char} (h : c.toNat < 128) :
    isNameChar c = (c = '_' || c = '.' || c = '!' || c.isAlphanum) := by
  rw [isNameChar, wpIsAlnum, wpIsAlpha_of_lt h, Char.isAlphanum]

theorem isNameChar_closingBrace : isNameChar '}' = false := by
  rw [isNameChar_of_lt (by decide)]
  decide

theorem wpIsAlpha_closingBrace : wpIsAlpha '}' = false := by
  rw [wpIsAlpha_of_lt (by decide)]
  decide

/-- A text id has the text behind the dot. -/
theorem toList_suffix_of_nodeIdFromScadaString
    (h : nodeIdFromScadaString parse name = .string id namespaceIndex) :
    id.toList <:+ name.toList := by
  unfold nodeIdFromScadaString at h
  split at h
  · rename_i scadaString nodeId hfound
    have hnumeric : ∀ predefined ∈ kPredefinedScadaStrings,
        predefined.2 ≠ .string id namespaceIndex := by
      simp [kPredefinedScadaStrings]
    exact absurd h (hnumeric _ (List.mem_of_find?_eq_some hfound))
  · split at h
    · cases h
    · rename_i namespaceName identifier hsplit
      obtain ⟨hname, -⟩ := splitFirst_eq_some.mp hsplit
      split at h
      · rw [identifier_of_nodeIdOfIdentifier h, hname]
        exact ⟨namespaceName ++ ['.'], by simp⟩
      · cases h

/-- The name without its braces has no brace that closes. -/
theorem closingBrace_notMem_unbraced (h : IsBare name ∨ IsBraced name) :
    '}' ∉ (unbraced name).toList := by
  rcases h with hbare | ⟨path, hname, hpath⟩
  · rw [unbraced_of_isBare hbare]
    obtain ⟨c, chars, hname, hletter, hchars⟩ := hbare.chars
    rw [hname, List.mem_cons, not_or]
    constructor
    · rintro rfl
      rw [wpIsAlpha_closingBrace] at hletter
      simp at hletter
    · intro hmem
      have hchar := hchars _ hmem
      rw [isNameChar_closingBrace] at hchar
      cases hchar
  · rw [unbraced_of_isBraced hname, String.toList_ofList]
    exact hpath

theorem unbraced_subset (h : IsBare name ∨ IsBraced name) :
    (unbraced name).toList ⊆ name.toList := by
  rcases h with hbare | ⟨path, hname, -⟩
  · rw [unbraced_of_isBare hbare]
    exact List.Subset.refl _
  · rw [unbraced_of_isBraced hname, String.toList_ofList, hname]
    intro c hc
    simp [hc]

/-- **A text id that a formula means** has no brace that closes, and no zero. -/
theorem isPathChar_of_getFormulaSingleNodeId
    (h : getFormulaSingleNodeId parse formula = .string id namespaceIndex) :
    ∀ c ∈ id.toList, IsPathChar c := by
  unfold getFormulaSingleNodeId at h
  split at h
  · cases h
  · rename_i hname
    cases hsingle : isSingleName formula with
    | none =>
        rw [getFormulaSingleName, hsingle] at hname
        exact absurd rfl hname
    | some name =>
        obtain ⟨htext, hshape⟩ := isSingleName_eq_some hsingle
        rw [getFormulaSingleName, hsingle] at h
        have hsuffix := toList_suffix_of_nodeIdFromScadaString h
        intro c hc
        have hread := hsuffix.subset hc
        constructor
        · rintro rfl
          exact closingBrace_notMem_unbraced hshape hread
        · have hmem := unbraced_subset hshape hread
          rw [← htext] at hmem
          simpa using List.mem_takeWhile_imp hmem

end

/-! ## §3  Formulas of numbers -/

/-- The text starts like a name and goes on like one. -/
def ReadsAsName (text : List Char) : Bool :=
  text.head?.any wpIsAlpha && text.all isNameChar

/-- A name of ASCII characters. -/
def IsAsciiName (text : List Char) : Bool :=
  text.head?.any Char.isAlpha &&
    text.all fun c => c.toNat < 128 && (c = '_' || c = '.' || c = '!' || c.isAlphanum)

section

variable {nodeId : NodeId} {text rest : List Char} {c : Char}

theorem isNameChar_ne_zero (h : isNameChar c = true) : c.toNat ≠ 0 := by
  have hzero : isNameChar '\x00' = false := by
    rw [isNameChar_of_lt (by decide)]
    decide
  intro hc
  have heq : c = '\x00' := Char.toNat_inj.mp hc
  rw [heq, hzero] at h
  cases h

theorem readsAsName_append (h : ReadsAsName text = true) (hrest : rest.all isNameChar = true) :
    ReadsAsName (text ++ rest) = true := by
  cases text with
  | nil => cases h
  | cons c text => simp_all [ReadsAsName]

theorem readsAsName_of_ascii (h : IsAsciiName text = true) : ReadsAsName text = true := by
  simp only [IsAsciiName, Bool.and_eq_true, List.all_eq_true, decide_eq_true_eq] at h
  obtain ⟨hstart, hall⟩ := h
  rw [ReadsAsName, Bool.and_eq_true, List.all_eq_true]
  constructor
  · cases text with
    | nil => cases hstart
    | cons c rest =>
        rw [List.head?_cons, Option.any_some] at hstart ⊢
        rw [wpIsAlpha_of_lt (hall c List.mem_cons_self).1]
        exact hstart
  · intro c hc
    rw [isNameChar_of_lt (hall c hc).1]
    exact (hall c hc).2

theorem readsAsName_names : ∀ name ∈ kNamespaceNames, ReadsAsName name.toList = true := by
  have hascii : ∀ name ∈ kNamespaceNames, IsAsciiName name.toList = true := by decide +kernel
  exact fun name hname => readsAsName_of_ascii (hascii name hname)

theorem readsAsName_predefined : ∀ predefined ∈ kPredefinedScadaStrings,
    ReadsAsName predefined.1.toList = true ∧ '!' ∈ predefined.1.toList := by
  have hascii : ∀ predefined ∈ kPredefinedScadaStrings,
      IsAsciiName predefined.1.toList = true ∧ '!' ∈ predefined.1.toList := by
    decide +kernel
  exact fun predefined hmem =>
    ⟨readsAsName_of_ascii (hascii predefined hmem).1, (hascii predefined hmem).2⟩

theorem isNameChar_of_isDigit (h : c.isDigit = true) : isNameChar c = true := by
  simp [isNameChar, wpIsAlnum, h]

theorem all_isNameChar_toDigits (n : ℕ) : (Nat.toDigits 10 n).all isNameChar = true :=
  List.all_eq_true.mpr fun c hc => isNameChar_of_isDigit ((isNumeral_toDigits n).2 c hc)

theorem readsAsName_namespaceText (namespaceIndex : ℕ) :
    ReadsAsName (namespaceText namespaceIndex) = true := by
  unfold namespaceText
  split
  · have hstart : ReadsAsName ['N', 'S'] = true := readsAsName_of_ascii (by decide)
    exact readsAsName_append hstart (all_isNameChar_toDigits namespaceIndex)
  · rename_i hname
    rw [getNamespaceName_eq_empty, not_le] at hname
    apply readsAsName_names
    rw [getNamespaceName, List.getD_eq_getElem _ _ hname]
    exact List.getElem_mem hname

/-- A constant has letters only. -/
theorem iequals_eq_false {constant : List Char} (hc : c ∈ text)
    (hnone : c.toUpper ∉ constant.map Char.toUpper) : iequals text constant = false := by
  rw [iequals, decide_eq_false_iff_not]
  intro heq
  apply hnone
  rw [← heq]
  exact List.mem_map_of_mem hc

theorem isBare_of_readsAsName {name : String} (h : ReadsAsName name.toList = true)
    (hc : '.' ∈ name.toList ∨ '!' ∈ name.toList) : IsBare name := by
  constructor
  · cases hname : name.toList with
    | nil =>
        rw [hname] at h
        cases h
    | cons first chars =>
        rw [hname] at h
        simp only [ReadsAsName, List.head?_cons, Option.any_some, List.all_cons, Bool.and_eq_true,
          List.all_eq_true] at h
        exact ⟨first, chars, rfl, .inr h.1, h.2.2⟩
  · rcases hc with hc | hc
    · exact iequals_eq_false hc (by decide)
    · exact iequals_eq_false hc (by decide)
  · rcases hc with hc | hc
    · exact iequals_eq_false hc (by decide)
    · exact iequals_eq_false hc (by decide)

/-- **The string of a number is a bare name.** -/
theorem isBare_nodeIdToScadaString {identifier : List Char}
    (hidentifier : nodeId.identifier = some identifier)
    (hchars : identifier.all isNameChar = true) : IsBare (nodeIdToScadaString nodeId) := by
  cases hfound : kPredefinedScadaStrings.find? (·.2 = nodeId) with
  | some predefined =>
      obtain ⟨hreads, hseparator⟩ := readsAsName_predefined _ (List.mem_of_find?_eq_some hfound)
      rw [nodeIdToScadaString, hfound]
      exact isBare_of_readsAsName hreads (.inr hseparator)
  | none =>
      rw [nodeIdToScadaString, hfound, hidentifier]
      refine isBare_of_readsAsName ?_ (.inl ?_)
      · rw [String.toList_ofList]
        apply readsAsName_append (readsAsName_namespaceText nodeId.namespaceIndex)
        have hdot : isNameChar '.' = true := by simp [isNameChar]
        simp [hdot, hchars]
      · simp

/-- A bare name has no zero. -/
theorem IsBare.ne_zero {name : String} (h : IsBare name) : ∀ c ∈ name.toList, c.toNat ≠ 0 := by
  obtain ⟨first, chars, hname, hletter, hchars⟩ := h.chars
  rw [hname]
  intro c hc
  rcases List.mem_cons.mp hc with rfl | hc
  · apply isNameChar_ne_zero
    rcases hletter with rfl | halpha
    · simp [isNameChar]
    · simp [isNameChar, wpIsAlnum, halpha]
  · exact isNameChar_ne_zero (hchars c hc)

theorem IsBare.ne_empty {name : String} (h : IsBare name) : name ≠ "" := by
  rintro rfl
  obtain ⟨first, chars, hname, -⟩ := h.chars
  cases hname

end

/-! ## §4  The way back -/

/-- What a formula has to read the id from. -/
def FitsFormula : NodeId → Prop
  | .string id _ => ∀ c ∈ id.toList, IsPathChar c
  | .null | .numeric _ _ | .opaqueId _ _ => True

section

variable {parse : Parsing} {nodeId : NodeId}

/-- The formula of a number is its string. -/
theorem getFormulaSingleNodeId_number (parse : Parsing) {identifier : List Char}
    (hidentifier : nodeId.identifier = some identifier)
    (hchars : identifier.all isNameChar = true) :
    isSingleName (nodeIdToScadaString nodeId) = some (nodeIdToScadaString nodeId) ∧
      getFormulaSingleNodeId parse (nodeIdToScadaString nodeId) =
        nodeIdFromScadaString parse (nodeIdToScadaString nodeId) := by
  have hbare := isBare_nodeIdToScadaString hidentifier hchars
  have hsingle := isSingleName_self (.inl hbare) hbare.ne_zero
  refine ⟨hsingle, ?_⟩
  have hname := unbraced_of_isBare hbare
  rw [getFormulaSingleNodeId_of_name hsingle (by rw [hname]; exact hbare.ne_empty), hname]

theorem nodeIdToScadaString_string (id : String) (namespaceIndex : ℕ) :
    nodeIdToScadaString (.string id namespaceIndex) =
      String.ofList (namespaceText namespaceIndex ++ '.' :: id.toList) := by
  have hnone : kPredefinedScadaStrings.find? (·.2 = .string id namespaceIndex) = none := by
    simp [kPredefinedScadaStrings]
  rw [nodeIdToScadaString, hnone]
  rfl

theorem isPathChar_of_isNameChar {c : Char} (h : isNameChar c = true) : IsPathChar c := by
  refine ⟨?_, isNameChar_ne_zero h⟩
  rintro rfl
  rw [isNameChar_closingBrace] at h
  cases h

theorem isPathChar_nodeIdToScadaString {id : String} (namespaceIndex : ℕ)
    (h : ∀ c ∈ id.toList, IsPathChar c) :
    ∀ c ∈ (nodeIdToScadaString (.string id namespaceIndex)).toList, IsPathChar c := by
  have hnamespace := readsAsName_namespaceText namespaceIndex
  rw [ReadsAsName, Bool.and_eq_true, List.all_eq_true] at hnamespace
  rw [nodeIdToScadaString_string, String.toList_ofList]
  intro c hc
  rcases List.mem_append.mp hc with hc | hc
  · exact isPathChar_of_isNameChar (hnamespace.2 c hc)
  · rcases List.mem_cons.mp hc with rfl | hc
    · exact ⟨by decide, by decide⟩
    · exact h c hc

/-- **The formula of a text** is its string in braces. -/
theorem getFormulaSingleNodeId_text (parse : Parsing) {id : String} (namespaceIndex : ℕ)
    (h : ∀ c ∈ id.toList, IsPathChar c) :
    isSingleName (makeNodeIdFormula (.string id namespaceIndex)) =
        some (makeNodeIdFormula (.string id namespaceIndex)) ∧
      getFormulaSingleNodeId parse (makeNodeIdFormula (.string id namespaceIndex)) =
        nodeIdFromScadaString parse (nodeIdToScadaString (.string id namespaceIndex)) := by
  have hpath := isPathChar_nodeIdToScadaString namespaceIndex h
  have hformula : (makeNodeIdFormula (.string id namespaceIndex)).toList =
      '{' :: ((nodeIdToScadaString (.string id namespaceIndex)).toList ++ ['}']) := by
    simp [makeNodeIdFormula]
  have hbraced : IsBraced (makeNodeIdFormula (.string id namespaceIndex)) :=
    ⟨_, hformula, fun hmem => (hpath _ hmem).1 rfl⟩
  have hzero : ∀ c ∈ (makeNodeIdFormula (.string id namespaceIndex)).toList, c.toNat ≠ 0 := by
    intro c hc
    rw [hformula, List.mem_cons, List.mem_append, List.mem_singleton] at hc
    rcases hc with rfl | hc | rfl
    · decide
    · exact (hpath c hc).2
    · decide
  have hname := unbraced_of_isBraced hformula
  rw [String.ofList_toList] at hname
  have hsingle := isSingleName_self (.inr hbraced) hzero
  refine ⟨hsingle, ?_⟩
  rw [getFormulaSingleNodeId_of_name hsingle, hname]
  rw [hname, nodeIdToScadaString_string]
  simp

/-- **A formula of one node is parsed back** unless it is that of a text with a brace that
closes, or with a zero. -/
theorem single_node_formula_iff (htext : nodeId.HasText)
    (hback : nodeIdFromScadaString parse (nodeIdToScadaString nodeId) = nodeId) :
    getFormulaSingleNodeId parse (makeNodeIdFormula nodeId) = nodeId ∧
        isSingleName (makeNodeIdFormula nodeId) = some (makeNodeIdFormula nodeId) ↔
      FitsFormula nodeId := by
  cases nodeId with
  | null =>
      have hidentifier : NodeId.null.identifier = some (Nat.toDigits 10 0) := rfl
      obtain ⟨hsingle, hread⟩ := getFormulaSingleNodeId_number parse hidentifier
        (all_isNameChar_toDigits 0)
      exact iff_of_true ⟨hread.trans hback, hsingle⟩ trivial
  | numeric id namespaceIndex =>
      have hidentifier : (NodeId.numeric id namespaceIndex).identifier =
          some (Nat.toDigits 10 id) := rfl
      obtain ⟨hsingle, hread⟩ := getFormulaSingleNodeId_number parse hidentifier
        (all_isNameChar_toDigits id)
      exact iff_of_true ⟨hread.trans hback, hsingle⟩ trivial
  | string id namespaceIndex =>
      constructor
      · rintro ⟨hread, -⟩
        exact isPathChar_of_getFormulaSingleNodeId hread
      · intro hfits
        obtain ⟨hsingle, hread⟩ := getFormulaSingleNodeId_text parse namespaceIndex hfits
        exact ⟨hread.trans hback, hsingle⟩
  | opaqueId id namespaceIndex => exact absurd rfl (htext id namespaceIndex)

end

theorem single_node_formula_iff_tag :
    getFormulaSingleNodeId .decimal (makeNodeIdFormula (.string "Pump.1" 40)) =
      .string "Pump.1" 40 := by
  have hback : nodeIdFromScadaString .decimal (nodeIdToScadaString (.string "Pump.1" 40)) =
      .string "Pump.1" 40 := by
    decide +kernel
  have htext : (NodeId.string "Pump.1" 40).HasText := nofun
  refine ((single_node_formula_iff htext hback).mpr ?_).1
  have hchars : ∀ c ∈ "Pump.1".toList, c ≠ '}' ∧ c.toNat ≠ 0 := by simp
  exact hchars

/-- The string of the id comes back, and its formula is no single name. -/
theorem formula_with_brace_is_lost :
    nodeIdFromScadaString .decimal (nodeIdToScadaString (.string "a\x7db" 1)) = .string "a\x7db" 1 ∧
      makeNodeIdFormula (.string "a\x7db" 1) = "\x7bTS.a\x7db\x7d" ∧
      isSingleName "\x7bTS.a\x7db\x7d" = none ∧
      getFormulaSingleNodeId .decimal "\x7bTS.a\x7db\x7d" = .null := by
  have hsingle : isSingleName "\x7bTS.a\x7db\x7d" = none := by decide +kernel
  refine ⟨by decide +kernel, by decide, hsingle, ?_⟩
  simp [getFormulaSingleNodeId, getFormulaSingleName, hsingle]

end ScadaCommon
