import Mathlib.Data.List.TakeWhile
import ScadaCommon.Model.NodeIdUtil

/-!
# Nested ids, made and taken apart

The id of a nested node is the text of its parent's id, `!` and a name. The parent's namespace
is written before it, with a colon, where it is another one than that of the nested id.
Nothing marks a colon that the text of the parent has itself, nor a text that could be a
number.

§1 parents of nested ids · §2 made ids · §3 the root · §4 nestings · §5 what the root of a
nested text is · §6 the way back.
-/

namespace ScadaCommon

open Foundation

/-! ## §1  Parents of nested ids -/

/-- The id of the parent in a nested id that has the text before its last separator. -/
def parentOfText (parse : Parsing) (text : List Char) (namespaceIndex : ℕ) : Option NodeId :=
  (parentNamespace parse text namespaceIndex).map fun (parentText, parentNamespaceIndex) =>
    if '!' ∈ text then .string (String.ofList parentText) parentNamespaceIndex
    else
      match parse.numericId parentText with
      | some id => .ofNumeric id parentNamespaceIndex
      | none => .string (String.ofList parentText) parentNamespaceIndex

section

variable {parse : Parsing} {nodeId parentId : NodeId} {name : String} {text : List Char}
variable {namespaceIndex : ℕ}

theorem isNestedNodeId_string (text : String) (namespaceIndex : ℕ) :
    isNestedNodeId parse (.string text namespaceIndex) =
      (splitLast '!' text.toList).bind fun (parentText, nestedName) =>
        (parentOfText parse parentText namespaceIndex).bind fun parentId =>
          if nestedName = [] then none else some (parentId, String.ofList nestedName) := by
  rw [isNestedNodeId]
  cases splitLast '!' text.toList with
  | none => rfl
  | some parts =>
      obtain ⟨parentText, nestedName⟩ := parts
      simp only [Option.bind_some, parentOfText, Option.bind_map]
      rfl

theorem isNestedNodeId_eq_some {text : String} :
    isNestedNodeId parse (.string text namespaceIndex) = some (parentId, name) ↔
      ∃ parentText, splitLast '!' text.toList = some (parentText, name.toList) ∧ name ≠ "" ∧
        parentOfText parse parentText namespaceIndex = some parentId := by
  rw [isNestedNodeId_string, Option.bind_eq_some_iff]
  constructor
  · rintro ⟨⟨parentText, nestedName⟩, hsplit, h⟩
    obtain ⟨parentId', hparent, h⟩ := Option.bind_eq_some_iff.mp h
    obtain ⟨hname, h⟩ := Option.ite_none_left_eq_some.mp h
    cases h
    refine ⟨parentText, by rw [hsplit, String.toList_ofList], fun heq => hname ?_, hparent⟩
    rw [← String.toList_ofList (l := nestedName), heq]
    rfl
  · rintro ⟨parentText, hsplit, hname, hparent⟩
    refine ⟨(parentText, name.toList), hsplit, Option.bind_eq_some_iff.mpr ⟨parentId, hparent, ?_⟩⟩
    rw [if_neg (mt String.toList_eq_nil_iff.mp hname), String.ofList_toList]

/-- A nested name has no separator and is not empty. -/
theorem isNestedNodeId_name (h : isNestedNodeId parse nodeId = some (parentId, name)) :
    '!' ∉ name.toList ∧ name ≠ "" := by
  cases nodeId with
  | string id namespaceIndex =>
      obtain ⟨parentText, hsplit, hname, -⟩ := isNestedNodeId_eq_some.mp h
      exact ⟨(splitLast_eq_some.mp hsplit).2, hname⟩
  | null => cases h
  | numeric id namespaceIndex => cases h
  | opaqueId id namespaceIndex => cases h

/-- A name that was appended is taken off, and the text before it means the parent. -/
theorem isNestedNodeId_ofList (hseparator : '!' ∉ name.toList) (hname : name ≠ "") :
    isNestedNodeId parse (.string (String.ofList (text ++ '!' :: name.toList)) namespaceIndex) =
      (parentOfText parse text namespaceIndex).map (·, name) := by
  rw [isNestedNodeId_string, String.toList_ofList, splitLast_append hseparator]
  rw [Option.bind_some, Option.map_eq_bind]
  simp [mt String.toList_eq_nil_iff.mp hname]

theorem parentNamespace_of_notMem (h : ':' ∉ text) (namespaceIndex : ℕ) :
    parentNamespace parse text namespaceIndex = some (text, namespaceIndex) := by
  rw [parentNamespace, splitFirst_eq_none.mpr h]

theorem parentOfText_of_notMem (h : ':' ∉ text) (namespaceIndex : ℕ) :
    parentOfText parse text namespaceIndex =
      some (nodeIdOfIdentifier parse text namespaceIndex) := by
  rw [parentOfText, parentNamespace_of_notMem h]
  rfl

theorem separator_notMem_upper_names : ∀ known ∈ kNamespaceNames,
    '!' ∉ known.toList.map Char.toUpper := by
  decide +kernel

/-- No name of a namespace has a separator. -/
theorem findNamespaceIndexByName_separator (hparse : parse.AcceptsNumerals) (h : '!' ∈ text) :
    findNamespaceIndexByName parse text = -1 := by
  cases text with
  | nil => rfl
  | cons c rest =>
      have hwhole : parse.int (c :: rest) = none := hparse.int_eq_none h (by decide)
      have hindex : (if c = 'T' then parse.int rest else none) = none := by
        split
        · rename_i hc
          apply hparse.int_eq_none (c := '!') _ (by decide)
          simpa [hc] using h
        · rfl
      have hfind : kNamespaceNames.findIdx? (fun known => iequals known.toList (c :: rest)) =
          none := by
        refine List.findIdx?_eq_none_iff.mpr fun known hknown => ?_
        rw [Bool.eq_false_iff]
        intro hequal
        have hupper := of_decide_eq_true hequal
        apply separator_notMem_upper_names known hknown
        rw [hupper]
        exact List.mem_map.mpr ⟨'!', h, rfl⟩
      simp only [findNamespaceIndexByName, hindex, hwhole, hfind]

/-- A number is the index of a namespace. -/
theorem findNamespaceIndexByName_toDigits (hparse : parse.AcceptsNumerals)
    (hlt : namespaceIndex < 2 ^ 16) :
    findNamespaceIndexByName parse (Nat.toDigits 10 namespaceIndex) = (namespaceIndex : ℤ) := by
  have hnumeral := isNumeral_toDigits namespaceIndex
  have hint := hparse.int _ hnumeral
  rw [numeralValue_toDigits] at hint
  have hvalue := hint (hlt.trans (by decide))
  cases hdigits : Nat.toDigits 10 namespaceIndex with
  | nil => exact absurd hdigits hnumeral.1
  | cons c rest =>
      rw [hdigits] at hvalue hnumeral
      have hc : c ≠ 'T' := not_digit_of_eq rfl (hnumeral.2 c List.mem_cons_self)
      simp [findNamespaceIndexByName, hc, hvalue]

theorem colon_notMem_toDigits (n : ℕ) : ':' ∉ Nat.toDigits 10 n := fun hmem =>
  absurd rfl (not_digit_of_eq rfl ((isNumeral_toDigits n).2 _ hmem))

/-- A namespace that was written before a text is read again. -/
theorem parentNamespace_toDigits (hparse : parse.AcceptsNumerals) {n : ℕ} (hlt : n < 2 ^ 16)
    (text : List Char) (namespaceIndex : ℕ) :
    parentNamespace parse (Nat.toDigits 10 n ++ ':' :: text) namespaceIndex = some (text, n) := by
  rw [parentNamespace, splitFirst_append (colon_notMem_toDigits n)]
  dsimp only
  rw [findNamespaceIndexByName_toDigits hparse hlt, if_neg (by omega), toNamespaceIndex_natCast hlt]

theorem parentOfText_toDigits (hparse : parse.AcceptsNumerals) {n : ℕ} (hlt : n < 2 ^ 16)
    (text : List Char) (namespaceIndex : ℕ) :
    parentOfText parse (Nat.toDigits 10 n ++ ':' :: text) namespaceIndex =
      some (nodeIdOfIdentifier parse text n) := by
  have hmem : '!' ∈ Nat.toDigits 10 n ++ ':' :: text ↔ '!' ∈ text := by
    simp [exclamation_notMem_toDigits]
  rw [parentOfText, parentNamespace_toDigits hparse hlt]
  by_cases htext : '!' ∈ text
  · simp [nodeIdOfIdentifier, hmem, htext]
  · cases hnumeric : parse.numericId text with
    | none => simp [nodeIdOfIdentifier, hmem, htext, hnumeric]
    | some id => simp [nodeIdOfIdentifier, hmem, htext, hnumeric]

/-- A colon of the text itself is never one of the parent's text. -/
theorem parentOfText_of_mem (hparse : parse.AcceptsNumerals) (hcolon : ':' ∈ text)
    (h : parentOfText parse text namespaceIndex = some parentId) :
    ∃ before after, text = before ++ ':' :: after ∧ ':' ∉ before ∧ '!' ∉ before ∧
      ∃ parentNamespaceIndex, parentId = nodeIdOfIdentifier parse after parentNamespaceIndex := by
  obtain ⟨⟨parentText, index⟩, hnamespace, rfl⟩ := Option.map_eq_some_iff.mp h
  unfold parentNamespace at hnamespace
  split at hnamespace
  · rename_i hsplit
    exact absurd hcolon (splitFirst_eq_none.mp hsplit)
  · rename_i before after hsplit
    obtain ⟨rfl, hbefore⟩ := splitFirst_eq_some.mp hsplit
    obtain ⟨hname, heq⟩ := Option.ite_none_left_eq_some.mp hnamespace
    cases heq
    have hseparator : '!' ∉ before := fun hmem =>
      hname (findNamespaceIndexByName_separator hparse hmem)
    refine ⟨before, parentText, rfl, hbefore, hseparator,
      toNamespaceIndex (findNamespaceIndexByName parse before), ?_⟩
    by_cases hparent : '!' ∈ parentText
    · simp [nodeIdOfIdentifier, hseparator, hparent]
    · cases hnumeric : parse.numericId parentText with
      | none => simp [nodeIdOfIdentifier, hseparator, hparent, hnumeric]
      | some id => simp [nodeIdOfIdentifier, hseparator, hparent, hnumeric]

end

/-! ## §2  Made ids -/

/-- The namespace of the parent, where it has to be written. -/
def parentMark (parentNamespaceIndex namespaceIndex : ℕ) : List Char :=
  if namespaceIndex ≠ parentNamespaceIndex then
    Nat.toDigits 10 parentNamespaceIndex ++ [':']
  else []

/-- `MakeNestedNodeId` with the namespace of the nested id. The process stops without a
parent or a name; an id of bytes has no text that a name could be appended to. -/
def makeNestedNodeIdIn (parentId : NodeId) (nestedName : String) (namespaceIndex : ℕ) :
    Option NodeId :=
  if parentId = .null ∨ nestedName = "" then none
  else parentId.identifier.map fun parentIdentifier =>
    .string (String.ofList (parentMark parentId.namespaceIndex namespaceIndex ++
      parentIdentifier ++ '!' :: nestedName.toList)) namespaceIndex

section

variable {parse : Parsing} {parentId : NodeId} {name : String} {identifier : List Char}
variable {namespaceIndex : ℕ}

theorem makeNestedNodeIdIn_eq (hnull : parentId ≠ .null) (hname : name ≠ "")
    (hidentifier : parentId.identifier = some identifier) :
    makeNestedNodeIdIn parentId name namespaceIndex =
      some (.string (String.ofList (parentMark parentId.namespaceIndex namespaceIndex ++
        identifier ++ '!' :: name.toList)) namespaceIndex) := by
  simp [makeNestedNodeIdIn, hnull, hname, hidentifier]

/-- No number has a colon. -/
theorem eq_string_of_colon (hidentifier : parentId.identifier = some identifier)
    (hcolon : ':' ∈ identifier) :
    parentId = .string (String.ofList identifier) parentId.namespaceIndex := by
  cases parentId with
  | null =>
      cases hidentifier
      exact absurd hcolon (colon_notMem_toDigits 0)
  | numeric id index =>
      cases hidentifier
      exact absurd hcolon (colon_notMem_toDigits id)
  | string id index =>
      cases hidentifier
      rw [String.ofList_toList]
      rfl
  | opaqueId id index => cases hidentifier

/-- A colon of the parent's text is taken for the end of a namespace, where none was
written before it. -/
theorem parentOfText_ne (hparse : parse.AcceptsNumerals)
    (hidentifier : parentId.identifier = some identifier) (hcolon : ':' ∈ identifier) :
    parentOfText parse identifier namespaceIndex ≠ some parentId := by
  intro h
  obtain ⟨before, after, heq, -, -, index, hparent⟩ := parentOfText_of_mem hparse hcolon h
  rw [eq_string_of_colon hidentifier hcolon] at hparent
  have hafter := identifier_of_nodeIdOfIdentifier hparent.symm
  rw [← hafter, String.toList_ofList] at heq
  have hlength := congrArg List.length heq
  simp at hlength
  omega

/-- **A name comes off the id that it was appended to** if the parent is not a text that
looks like a number, and if it has no colon or its namespace is written. -/
theorem isNestedNodeId_makeNestedNodeIdIn_iff (hparse : parse.AcceptsNumerals)
    (hrepresentable : parentId.Representable) (hnull : parentId ≠ .null)
    (hidentifier : parentId.identifier = some identifier)
    (hname : name ≠ "") (hseparator : '!' ∉ name.toList) :
    (makeNestedNodeIdIn parentId name namespaceIndex).bind (isNestedNodeId parse) =
        some (parentId, name) ↔
      ¬ parentId.LooksNumeric ∧
        (namespaceIndex ≠ parentId.namespaceIndex ∨ ':' ∉ identifier) := by
  rw [makeNestedNodeIdIn_eq hnull hname hidentifier, Option.bind_some,
    isNestedNodeId_ofList hseparator hname, Option.map_eq_some_iff]
  have hwhole := nodeIdOfIdentifier_eq_iff hparse hrepresentable hnull hidentifier
  simp only [Prod.mk.injEq, and_true, exists_eq_right]
  by_cases hmark : namespaceIndex = parentId.namespaceIndex
  · rw [parentMark, if_neg (not_not.mpr hmark), List.nil_append]
    by_cases hcolon : ':' ∈ identifier
    · refine iff_of_false (parentOfText_ne hparse hidentifier hcolon) ?_
      rintro ⟨-, hne | hnone⟩
      · exact hne hmark
      · exact hnone hcolon
    · rw [parentOfText_of_notMem hcolon, hmark, Option.some_inj, hwhole]
      simp [hcolon]
  · rw [parentMark, if_pos hmark, List.append_assoc, List.singleton_append,
      parentOfText_toDigits hparse hrepresentable.namespaceIndex_lt, Option.some_inj, hwhole]
    simp [hmark]

end

/-! ## §3  The root -/

/-- The loop of `GetRootNestedNodeId`: every turn takes a name off. The name is a part of the
id that the turn then overwrites; `overwritten` is what is read in its place. -/
def rootLoop (parse : Parsing) (overwritten : String → String) :
    ℕ → NodeId × String → NodeId × String
  | 0, nested => nested
  | fuel + 1, (parentId, nestedName) =>
      match isNestedNodeId parse parentId with
      | none => (parentId, nestedName)
      | some (nextParentId, nextNestedName) =>
          rootLoop parse overwritten fuel (nextParentId, overwritten nextNestedName)

/-- The characters that are left to take names off. -/
def stringLength : NodeId → ℕ
  | .string id _ => id.toList.length
  | .null | .numeric _ _ | .opaqueId _ _ => 0

def getRootNestedNodeId (parse : Parsing) (overwritten : String → String) (nodeId : NodeId) :
    Option (NodeId × String) :=
  (isNestedNodeId parse nodeId).map (rootLoop parse overwritten (stringLength nodeId))

section

variable {parse : Parsing} {nodeId parentId : NodeId} {name : String}

theorem stringLength_ofNumeric (id namespaceIndex : ℕ) :
    stringLength (.ofNumeric id namespaceIndex) = 0 := by
  unfold NodeId.ofNumeric
  split <;> rfl

theorem stringLength_parentOfText {text : List Char} {namespaceIndex : ℕ}
    (h : parentOfText parse text namespaceIndex = some parentId) :
    stringLength parentId ≤ text.length := by
  obtain ⟨⟨parentText, index⟩, hnamespace, rfl⟩ := Option.map_eq_some_iff.mp h
  have hlength : parentText.length ≤ text.length := by
    unfold parentNamespace at hnamespace
    split at hnamespace
    · cases hnamespace
      exact le_rfl
    · rename_i before after hsplit
      obtain ⟨rfl, -⟩ := splitFirst_eq_some.mp hsplit
      obtain ⟨-, heq⟩ := Option.ite_none_left_eq_some.mp hnamespace
      cases heq
      simp
      omega
  dsimp only
  split
  · simpa [stringLength] using hlength
  · split
    · rw [stringLength_ofNumeric]
      exact Nat.zero_le _
    · simpa [stringLength] using hlength

/-- A name and its separator are taken off. -/
theorem stringLength_lt (h : isNestedNodeId parse nodeId = some (parentId, name)) :
    stringLength parentId < stringLength nodeId := by
  cases nodeId with
  | string id namespaceIndex =>
      obtain ⟨text, hsplit, -, hparent⟩ := isNestedNodeId_eq_some.mp h
      obtain ⟨hid, -⟩ := splitLast_eq_some.mp hsplit
      have hle := stringLength_parentOfText hparent
      rw [stringLength, hid, List.length_append, List.length_cons]
      omega
  | null => cases h
  | numeric id namespaceIndex => cases h
  | opaqueId id namespaceIndex => cases h

theorem rootLoop_of_none (h : isNestedNodeId parse parentId = none)
    {overwritten : String → String} (fuel : ℕ) :
    rootLoop parse overwritten fuel (parentId, name) = (parentId, name) := by
  cases fuel with
  | zero => rfl
  | succ fuel => rw [rootLoop, h]

theorem rootLoop_of_some {next : NodeId × String}
    (h : isNestedNodeId parse parentId = some next) (fuel : ℕ) :
    rootLoop parse id (fuel + 1) (parentId, name) = rootLoop parse id fuel next := by
  rw [rootLoop, h]
  rfl

/-- Enough fuel takes all names off. -/
theorem rootLoop_stable (fuel fuel' : ℕ) (hle : stringLength parentId ≤ fuel)
    (hle' : stringLength parentId ≤ fuel') :
    rootLoop parse id fuel (parentId, name) = rootLoop parse id fuel' (parentId, name) := by
  induction fuel generalizing fuel' parentId name with
  | zero =>
      cases hnested : isNestedNodeId parse parentId with
      | none => rw [rootLoop_of_none hnested, rootLoop_of_none hnested]
      | some next =>
          have hlt := stringLength_lt hnested
          omega
  | succ fuel ih =>
      cases hnested : isNestedNodeId parse parentId with
      | none => rw [rootLoop_of_none hnested, rootLoop_of_none hnested]
      | some next =>
          have hlt := stringLength_lt hnested
          obtain ⟨more, rfl⟩ := Nat.exists_eq_succ_of_ne_zero (show fuel' ≠ 0 by omega)
          rw [rootLoop_of_some hnested, Nat.succ_eq_add_one, rootLoop_of_some hnested]
          apply ih <;> omega

/-- **The root of a nested id** is that of its parent, or the parent itself. -/
theorem getRootNestedNodeId_eq (h : isNestedNodeId parse nodeId = some (parentId, name)) :
    getRootNestedNodeId parse id nodeId =
      some ((getRootNestedNodeId parse id parentId).getD (parentId, name)) := by
  have hlt := stringLength_lt h
  rw [getRootNestedNodeId, h, Option.map_some, Option.some_inj, getRootNestedNodeId]
  cases hnested : isNestedNodeId parse parentId with
  | none =>
      rw [rootLoop_of_none hnested]
      rfl
  | some next =>
      have hlt' := stringLength_lt hnested
      obtain ⟨fuel, hfuel⟩ := Nat.exists_eq_succ_of_ne_zero (show stringLength nodeId ≠ 0 by omega)
      rw [hfuel, Nat.succ_eq_add_one, rootLoop_of_some hnested, Option.map_some, Option.getD_some]
      apply rootLoop_stable <;> omega

theorem getRootNestedNodeId_eq_none (h : isNestedNodeId parse nodeId = none)
    (overwritten : String → String) : getRootNestedNodeId parse overwritten nodeId = none := by
  rw [getRootNestedNodeId, h, Option.map_none]

theorem getRootNestedNodeId_of_none (h : isNestedNodeId parse nodeId = some (parentId, name))
    (hparent : isNestedNodeId parse parentId = none) (overwritten : String → String) :
    getRootNestedNodeId parse overwritten nodeId = some (parentId, name) := by
  rw [getRootNestedNodeId, h, Option.map_some, rootLoop_of_none hparent]

/-- The loop goes the same way, whatever is read of its names. -/
theorem rootLoop_overwritten (overwritten : String → String) (fuel : ℕ) :
    rootLoop parse overwritten fuel (parentId, overwritten name) =
      Prod.map id overwritten (rootLoop parse id fuel (parentId, name)) := by
  induction fuel generalizing parentId name with
  | zero => rfl
  | succ fuel ih =>
      cases hnested : isNestedNodeId parse parentId with
      | none => rw [rootLoop_of_none hnested, rootLoop_of_none hnested, Prod.map_apply, id]
      | some next =>
          rw [rootLoop_of_some hnested, rootLoop, hnested]
          exact ih

variable (parse) in
/-- **The name at the root** is read where it has been overwritten, if the parent is nested
as well. -/
theorem getRootNestedNodeId_overwritten (overwritten : String → String) (nodeId : NodeId) :
    ∃ read, getRootNestedNodeId parse overwritten nodeId =
        (getRootNestedNodeId parse id nodeId).map (Prod.map id read) ∧
      ∀ parentId name, isNestedNodeId parse nodeId = some (parentId, name) →
        read = if (isNestedNodeId parse parentId).isSome then overwritten else id := by
  cases hnested : isNestedNodeId parse nodeId with
  | none => exact ⟨id, by simp [getRootNestedNodeId, hnested], nofun⟩
  | some nested =>
      obtain ⟨parentId, name⟩ := nested
      refine ⟨_, ?_, by rintro _ _ ⟨⟩; rfl⟩
      have hlt := stringLength_lt hnested
      obtain ⟨fuel, hfuel⟩ := Nat.exists_eq_succ_of_ne_zero (show stringLength nodeId ≠ 0 by omega)
      simp only [getRootNestedNodeId, hnested, Option.map_some, hfuel, Nat.succ_eq_add_one,
        Option.some_inj]
      cases hparent : isNestedNodeId parse parentId with
      | none => simp [rootLoop_of_none hparent]
      | some next =>
          rw [rootLoop_of_some hparent, rootLoop, hparent]
          exact rootLoop_overwritten overwritten fuel

end

/-! ## §4  Nestings -/

/-- A name and the namespace of the id that it is appended in. -/
structure Nesting where
  nestedName : String
  namespaceIndex : ℕ
deriving DecidableEq

/-- The id that nestings make of a root; the last nesting stands first. -/
def nestedIn (root : NodeId) : List Nesting → Option NodeId
  | [] => some root
  | nesting :: before =>
      (nestedIn root before).bind
        (makeNestedNodeIdIn · nesting.nestedName nesting.namespaceIndex)

/-- The namespace after the nestings. -/
def lastNamespace (root : NodeId) : List Nesting → ℕ
  | [] => root.namespaceIndex
  | nesting :: _ => nesting.namespaceIndex

/-- The namespaces that are written before the text, as they stand there. -/
def marks (root : NodeId) : List Nesting → List ℕ
  | [] => []
  | nesting :: before =>
      if nesting.namespaceIndex = lastNamespace root before then marks root before
      else lastNamespace root before :: marks root before

/-- What the namespaces are written as. -/
def marksText : List ℕ → List Char
  | [] => []
  | mark :: marks => Nat.toDigits 10 mark ++ ':' :: marksText marks

/-- What the names are appended as. -/
def namesText : List Nesting → List Char
  | [] => []
  | nesting :: before => namesText before ++ '!' :: nesting.nestedName.toList

/-- The text of nestings. -/
def nestedText (marks : List ℕ) (root : List Char) (nestings : List Nesting) : List Char :=
  marksText marks ++ (root ++ namesText nestings)

section

variable {root : NodeId} {identifier : List Char} {nestings : List Nesting} {nesting : Nesting}

theorem length_marks_le (root : NodeId) (nestings : List Nesting) :
    (marks root nestings).length ≤ nestings.length := by
  induction nestings with
  | nil => exact Nat.zero_le _
  | cons nesting before ih =>
      rw [marks, List.length_cons]
      split
      · omega
      · rw [List.length_cons]
        omega

/-- The innermost mark is the namespace of the root. -/
theorem getLast?_marks (root : NodeId) (nestings : List Nesting) :
    (marks root nestings).getLast?.getD (lastNamespace root nestings) = root.namespaceIndex := by
  induction nestings with
  | nil => rfl
  | cons nesting before ih =>
      rw [marks]
      split
      · rename_i heq
        rw [lastNamespace, heq, ih]
      · rw [List.getLast?_cons, Option.getD_some, ih]

theorem nestedText_cons (root : NodeId) (identifier : List Char) (nesting : Nesting)
    (before : List Nesting) :
    parentMark (lastNamespace root before) nesting.namespaceIndex ++
        nestedText (marks root before) identifier before ++ '!' :: nesting.nestedName.toList =
      nestedText (marks root (nesting :: before)) identifier (nesting :: before) := by
  unfold parentMark
  rw [marks]
  by_cases heq : nesting.namespaceIndex = lastNamespace root before
  · simp [heq, nestedText, namesText]
  · simp [heq, nestedText, namesText, marksText]

/-- The id has the text of the nestings, in the last namespace. -/
structure HasNestedText (root : NodeId) (identifier : List Char) (nestings : List Nesting)
    (nestedId : NodeId) : Prop where
  ne_null : nestedId ≠ .null
  identifier : nestedId.identifier = some (nestedText (marks root nestings) identifier nestings)
  namespaceIndex : nestedId.namespaceIndex = lastNamespace root nestings

theorem HasNestedText.nest {parentId : NodeId}
    (h : HasNestedText root identifier nestings parentId) (hname : nesting.nestedName ≠ "") :
    makeNestedNodeIdIn parentId nesting.nestedName nesting.namespaceIndex = some (.string
      (String.ofList (nestedText (marks root (nesting :: nestings)) identifier
        (nesting :: nestings))) nesting.namespaceIndex) := by
  rw [makeNestedNodeIdIn_eq h.ne_null hname h.identifier, h.namespaceIndex, nestedText_cons]

/-- Nestings make an id with their text. -/
theorem exists_nestedIn (hnull : root ≠ .null) (hidentifier : root.identifier = some identifier)
    (hnames : ∀ nesting ∈ nestings, nesting.nestedName ≠ "") :
    ∃ nestedId, nestedIn root nestings = some nestedId ∧
      HasNestedText root identifier nestings nestedId := by
  induction nestings with
  | nil => exact ⟨root, rfl, hnull, by simpa [nestedText, marks, marksText, namesText], rfl⟩
  | cons nesting before ih =>
      obtain ⟨hname, hnames⟩ := List.forall_mem_cons.mp hnames
      obtain ⟨parentId, hparent, htext⟩ := ih hnames
      have hmade := htext.nest hname
      refine ⟨.string (String.ofList (nestedText (marks root (nesting :: before)) identifier
        (nesting :: before))) nesting.namespaceIndex, ?_, nofun, ?_, rfl⟩
      · rw [nestedIn, hparent, Option.bind_some, hmade]
      · rw [NodeId.identifier, String.toList_ofList]

theorem nestedIn_cons (hnull : root ≠ .null) (hidentifier : root.identifier = some identifier)
    (hnames : ∀ other ∈ nesting :: nestings, other.nestedName ≠ "") :
    nestedIn root (nesting :: nestings) = some (.string
      (String.ofList (nestedText (marks root (nesting :: nestings)) identifier
        (nesting :: nestings))) nesting.namespaceIndex) := by
  obtain ⟨hname, hnames⟩ := List.forall_mem_cons.mp hnames
  obtain ⟨parentId, hparent, htext⟩ := exists_nestedIn hnull hidentifier hnames
  rw [nestedIn, hparent, Option.bind_some, htext.nest hname]

end

/-! ## §5  What the root of a nested text is -/

/-- The characters before the first separator. -/
def topText (text : List Char) : List Char :=
  text.takeWhile (· ≠ '!')

def topLength : NodeId → ℕ
  | .string id _ => (topText id.toList).length
  | .null | .numeric _ _ | .opaqueId _ _ => 0

section

variable {parse : Parsing} {nodeId parentId : NodeId} {name : String} {text before after : List Char}
variable {namespaceIndex : ℕ}

theorem topText_of_notMem (h : '!' ∉ text) : topText text = text := by
  refine List.takeWhile_eq_self_iff.mpr fun c hc => ?_
  rw [decide_eq_true_eq]
  rintro rfl
  exact h hc

theorem topText_append (h : '!' ∉ before) : topText (before ++ after) = before ++ topText after := by
  apply List.takeWhile_append_of_pos
  intro c hc
  rw [decide_eq_true_eq]
  rintro rfl
  exact h hc

theorem topText_colon : topText (':' :: text) = ':' :: topText text := rfl

/-- What stands behind a separator does not count. -/
theorem topText_append_separator : topText (before ++ '!' :: after) = topText before := by
  induction before with
  | nil => rfl
  | cons c before ih =>
      by_cases hc : c = '!'
      · rw [hc]
        rfl
      · simp only [topText, List.cons_append] at ih ⊢
        rw [List.takeWhile_cons_of_pos (by simpa using hc),
          List.takeWhile_cons_of_pos (by simpa using hc), ih]

theorem topLength_nodeIdOfIdentifier_le (parse : Parsing) (text : List Char)
    (namespaceIndex : ℕ) :
    topLength (nodeIdOfIdentifier parse text namespaceIndex) ≤ (topText text).length := by
  unfold nodeIdOfIdentifier
  split
  · simp [topLength]
  · split
    · unfold NodeId.ofNumeric
      split <;> exact Nat.zero_le _
    · simp [topLength]

theorem topLength_parentOfText (hparse : parse.AcceptsNumerals)
    (h : parentOfText parse text namespaceIndex = some parentId) :
    topLength parentId ≤ (topText text).length := by
  by_cases hcolon : ':' ∈ text
  · obtain ⟨before, after, rfl, -, hseparator, index, rfl⟩ := parentOfText_of_mem hparse hcolon h
    have hle := topLength_nodeIdOfIdentifier_le parse after index
    rw [topText_append hseparator, topText_colon, List.length_append, List.length_cons]
    omega
  · rw [parentOfText_of_notMem hcolon] at h
    cases h
    exact topLength_nodeIdOfIdentifier_le parse text namespaceIndex

theorem topLength_of_isNestedNodeId (hparse : parse.AcceptsNumerals)
    (h : isNestedNodeId parse nodeId = some (parentId, name)) :
    topLength parentId ≤ topLength nodeId := by
  cases nodeId with
  | string id namespaceIndex =>
      obtain ⟨text, hsplit, -, hparent⟩ := isNestedNodeId_eq_some.mp h
      obtain ⟨hid, -⟩ := splitLast_eq_some.mp hsplit
      rw [topLength, hid, topText_append_separator]
      exact topLength_parentOfText hparse hparent
  | null => cases h
  | numeric id namespaceIndex => cases h
  | opaqueId id namespaceIndex => cases h

/-- **The text before the first separator only gets shorter** on the way to the root. -/
theorem topLength_of_getRootNestedNodeId (hparse : parse.AcceptsNumerals) {root : NodeId}
    (h : getRootNestedNodeId parse id nodeId = some (root, name)) :
    topLength root ≤ topLength nodeId := by
  induction hlength : stringLength nodeId using Nat.strong_induction_on generalizing nodeId with
  | _ length ih =>
      cases hnested : isNestedNodeId parse nodeId with
      | none =>
          rw [getRootNestedNodeId_eq_none hnested] at h
          cases h
      | some nested =>
          obtain ⟨parentId, parentName⟩ := nested
          have hle := topLength_of_isNestedNodeId hparse hnested
          rw [getRootNestedNodeId_eq hnested, Option.some_inj] at h
          cases hroot : getRootNestedNodeId parse id parentId with
          | none =>
              rw [hroot] at h
              cases h
              exact hle
          | some found =>
              rw [hroot] at h
              cases h
              have hlt := stringLength_lt hnested
              exact le_trans (ih _ (hlength ▸ hlt) hroot rfl) hle

end

/-- The colons of the text are those of its marks, or there is a mark to take off with
every name. -/
def ColonsMarked (count : ℕ) (identifier : List Char) (nestings : List Nesting) : Prop :=
  nestings.length ≤ count ∨
    (':' ∉ identifier ∧ ∀ nesting ∈ nestings.drop (count + 1), ':' ∉ nesting.nestedName.toList)

section

variable {parse : Parsing} {root : NodeId} {identifier : List Char} {before : List Nesting}
variable {nesting : Nesting} {namespaceIndex mark : ℕ} {name : String} {marks : List ℕ}

theorem separator_mem_nestedText (inner : Nesting) :
    '!' ∈ nestedText marks identifier (inner :: before) := by
  simp [nestedText, namesText]

theorem nestedText_nil : nestedText [] identifier [] = identifier := by
  simp [nestedText, marksText, namesText]

theorem colon_mem_namesText :
    ':' ∈ namesText before ↔ ∃ nesting ∈ before, ':' ∈ nesting.nestedName.toList := by
  induction before with
  | nil => simp [namesText]
  | cons nesting before ih => simp [namesText, ih, or_comm]

/-- Without marks there may be no colon before the last name. -/
theorem colonsMarked_zero :
    ColonsMarked 0 identifier (nesting :: before) ↔ ':' ∉ nestedText [] identifier before := by
  simp [ColonsMarked, nestedText, marksText, colon_mem_namesText]

theorem topText_nestedText (before : List Nesting) (hidentifier : '!' ∉ identifier) :
    topText (nestedText [] identifier before) = identifier := by
  induction before with
  | nil =>
      rw [nestedText, marksText, namesText, List.nil_append, List.append_nil,
        topText_of_notMem hidentifier]
  | cons nesting before ih =>
      rw [nestedText, marksText, List.nil_append] at ih
      rw [nestedText, marksText, namesText, List.nil_append, ← List.append_assoc,
        topText_append_separator, ih]

variable (parse identifier before namespaceIndex marks) in
/-- One name is taken off a nested text. -/
theorem isNestedNodeId_nestedText (hname : nesting.nestedName ≠ "")
    (hseparator : '!' ∉ nesting.nestedName.toList) :
    isNestedNodeId parse (.string
        (String.ofList (nestedText marks identifier (nesting :: before))) namespaceIndex) =
      (parentOfText parse (nestedText marks identifier before) namespaceIndex).map
        (·, nesting.nestedName) := by
  rw [← isNestedNodeId_ofList hseparator hname]
  simp [nestedText, namesText]

/-- The first mark is read as a namespace; without marks there may be no colon. -/
theorem parentOfText_nestedText (hparse : parse.AcceptsNumerals)
    (hmarks : ∀ mark ∈ marks, mark < 2 ^ 16)
    (hcolon : marks = [] → ':' ∉ nestedText [] identifier before) :
    parentOfText parse (nestedText marks identifier before) namespaceIndex =
      some (nodeIdOfIdentifier parse (nestedText marks.tail identifier before)
        (marks.headD namespaceIndex)) := by
  cases marks with
  | nil => exact parentOfText_of_notMem (hcolon rfl) namespaceIndex
  | cons mark marks =>
      rw [List.tail_cons, List.headD_cons,
        ← parentOfText_toDigits hparse (hmarks mark List.mem_cons_self) _ namespaceIndex]
      simp [nestedText, marksText]

theorem getLast?_tail (marks : List ℕ) (namespaceIndex : ℕ) :
    marks.tail.getLast?.getD (marks.headD namespaceIndex) =
      marks.getLast?.getD namespaceIndex := by
  cases marks with
  | nil => rfl
  | cons mark marks =>
      rw [List.getLast?_cons]
      rfl

/-- A name comes off with its mark. -/
theorem colonsMarked_tail {inner : Nesting}
    (hcolon : marks = [] → ':' ∉ nestedText [] identifier (inner :: before)) :
    ColonsMarked marks.length identifier (nesting :: inner :: before) ↔
      ColonsMarked marks.tail.length identifier (inner :: before) := by
  cases marks with
  | nil =>
      have hnone := hcolon rfl
      rw [List.tail_nil, List.length_nil, colonsMarked_zero, colonsMarked_zero]
      refine iff_of_true hnone fun hmem => hnone ?_
      simp only [nestedText, namesText, List.mem_append] at hmem ⊢
      tauto
  | cons mark marks => simp [ColonsMarked]

/-- Without a separator there is nothing to take off. -/
theorem isNestedNodeId_of_notMem (h : '!' ∉ identifier) :
    isNestedNodeId parse (nodeIdOfIdentifier parse identifier namespaceIndex) = none := by
  rw [nodeIdOfIdentifier, if_neg h]
  split
  · unfold NodeId.ofNumeric
    split <;> rfl
  · rw [isNestedNodeId_string, String.toList_ofList, splitLast, splitFirst_eq_none.mpr (by simpa)]
    rfl

variable {nodeId : NodeId} {first : String}

/-- The last name comes off the root. -/
theorem getRootNestedNodeId_top (hparse : parse.AcceptsNumerals)
    (hrepresentable : root.Representable) (hnull : root ≠ .null)
    (hidentifier : root.identifier = some identifier) (hseparator : '!' ∉ identifier)
    (hnested : isNestedNodeId parse nodeId =
      some (nodeIdOfIdentifier parse identifier root.namespaceIndex, name)) :
    getRootNestedNodeId parse id nodeId = some (root, first) ↔
      first = name ∧ ¬ root.LooksNumeric := by
  rw [getRootNestedNodeId_of_none hnested (isNestedNodeId_of_notMem hseparator),
    ← nodeIdOfIdentifier_eq_iff hparse hrepresentable hnull hidentifier, Option.some_inj,
    Prod.mk.injEq, and_comm, eq_comm (a := name)]

/-- A parent that is nested itself is not the root. -/
theorem getRootNestedNodeId_inner {text : List Char}
    (hidentifier : root.identifier = some identifier) (hseparator : '!' ∉ identifier)
    (htext : '!' ∈ text)
    (hnested : isNestedNodeId parse nodeId =
      some (.string (String.ofList text) namespaceIndex, name)) :
    getRootNestedNodeId parse id nodeId = some (root, first) ↔
      getRootNestedNodeId parse id (.string (String.ofList text) namespaceIndex) =
        some (root, first) := by
  rw [getRootNestedNodeId_eq hnested, Option.some_inj]
  cases getRootNestedNodeId parse id (.string (String.ofList text) namespaceIndex) with
  | none =>
      refine iff_of_false (fun h => ?_) nofun
      cases h
      rw [NodeId.identifier, String.toList_ofList, Option.some_inj] at hidentifier
      exact hseparator (hidentifier ▸ htext)
  | some found => rw [Option.getD_some, Option.some_inj]

/-- A colon without a mark hides the root. -/
theorem getRootNestedNodeId_hidden (hparse : parse.AcceptsNumerals)
    (hidentifier : root.identifier = some identifier) (hseparator : '!' ∉ identifier)
    (hname : nesting.nestedName ≠ "") (hnameSeparator : '!' ∉ nesting.nestedName.toList)
    (hcolon : ':' ∈ nestedText [] identifier before) :
    getRootNestedNodeId parse id (.string
      (String.ofList (nestedText [] identifier (nesting :: before))) namespaceIndex) =
        some (root, first) ↔
      first = name ∧ ¬ root.LooksNumeric ∧ ColonsMarked 0 identifier (nesting :: before) := by
  refine iff_of_false (fun hroot => ?_) fun h => colonsMarked_zero.mp h.2.2 hcolon
  have hnested := isNestedNodeId_nestedText parse identifier before namespaceIndex [] hname
    hnameSeparator
  cases hparent : parentOfText parse (nestedText [] identifier before) namespaceIndex with
  | none =>
      rw [hparent, Option.map_none] at hnested
      rw [getRootNestedNodeId_eq_none hnested] at hroot
      cases hroot
  | some parentId =>
      rw [hparent, Option.map_some] at hnested
      obtain ⟨start, rest, heq, -, hstart, index, rfl⟩ := parentOfText_of_mem hparse hcolon hparent
      -- the colon stands in the text of the root, which is cut
      have htop := topText_nestedText before hseparator
      rw [heq, topText_append hstart, topText_colon] at htop
      have hle : topLength root ≤
          topLength (nodeIdOfIdentifier parse rest index) := by
        rw [getRootNestedNodeId_eq hnested, Option.some_inj] at hroot
        cases hfound : getRootNestedNodeId parse id (nodeIdOfIdentifier parse rest index) with
        | none =>
            rw [hfound, Option.getD_none, Prod.mk.injEq] at hroot
            rw [hroot.1]
        | some found =>
            rw [hfound, Option.getD_some] at hroot
            rw [hroot] at hfound
            exact topLength_of_getRootNestedNodeId hparse hfound
      have hrest := topLength_nodeIdOfIdentifier_le parse rest index
      have hmem : ':' ∈ identifier := by
        rw [← htop]
        simp
      rw [eq_string_of_colon hidentifier hmem, topLength, String.toList_ofList,
        topText_of_notMem hseparator, ← htop, List.length_append, List.length_cons] at hle
      omega

variable (hparse : parse.AcceptsNumerals) (hrepresentable : root.Representable)
  (hnull : root ≠ .null) (hidentifier : root.identifier = some identifier)
  (hseparator : '!' ∉ identifier)
  (hnames : ∀ other ∈ nesting :: before, other.nestedName ≠ "" ∧ '!' ∉ other.nestedName.toList)
  (hmarks : ∀ mark ∈ marks, mark < 2 ^ 16) (hcount : marks.length ≤ before.length + 1)
  (hnamespace : marks.getLast?.getD namespaceIndex = root.namespaceIndex)
include hparse hrepresentable hnull hidentifier hseparator hnames hmarks hcount hnamespace

variable (first) in
/-- **The root of a nested text** is found if it does not look like a number, and if the
colons of the text are marked. -/
theorem getRootNestedNodeId_nestedText_iff :
    getRootNestedNodeId parse id (.string
        (String.ofList (nestedText marks identifier (nesting :: before))) namespaceIndex) =
          some (root, first) ↔
      first = ((nesting :: before).getLast (List.cons_ne_nil _ _)).nestedName ∧
        ¬ root.LooksNumeric ∧ ColonsMarked marks.length identifier (nesting :: before) := by
  induction before generalizing nesting marks namespaceIndex with
  | nil =>
      obtain ⟨hname, hnameSeparator⟩ := hnames nesting List.mem_cons_self
      by_cases hcolon : marks = [] → ':' ∉ nestedText [] identifier []
      · have htail : marks.tail = [] := by
          rw [← List.length_eq_zero_iff, List.length_tail]
          exact Nat.sub_eq_zero_of_le hcount
        have hnested := isNestedNodeId_nestedText parse identifier [] namespaceIndex marks hname
          hnameSeparator
        have htop := getLast?_tail marks namespaceIndex
        rw [htail, List.getLast?_nil, Option.getD_none, hnamespace] at htop
        rw [parentOfText_nestedText hparse hmarks hcolon, htail, nestedText_nil, htop,
          Option.map_some] at hnested
        rw [List.getLast_singleton,
          getRootNestedNodeId_top hparse hrepresentable hnull hidentifier hseparator hnested]
        refine and_congr_right fun _ => (and_iff_left ?_).symm
        cases marks with
        | nil => exact colonsMarked_zero.mpr (hcolon rfl)
        | cons mark marks => exact .inl (by simp)
      · obtain ⟨rfl, hfound⟩ := Classical.not_imp.mp hcolon
        exact getRootNestedNodeId_hidden hparse hidentifier hseparator hname hnameSeparator
          (not_not.mp hfound)
  | cons inner before ih =>
      obtain ⟨⟨hname, hnameSeparator⟩, hnames⟩ := List.forall_mem_cons.mp hnames
      rw [List.getLast_cons_cons]
      by_cases hcolon : marks = [] → ':' ∉ nestedText [] identifier (inner :: before)
      · have hnested := isNestedNodeId_nestedText parse identifier (inner :: before)
          namespaceIndex marks hname hnameSeparator
        rw [parentOfText_nestedText hparse hmarks hcolon, nodeIdOfIdentifier,
          if_pos (separator_mem_nestedText inner), Option.map_some] at hnested
        rw [getRootNestedNodeId_inner hidentifier hseparator (separator_mem_nestedText inner)
          hnested, colonsMarked_tail hcolon]
        apply ih hnames
        · exact fun mark hmark => hmarks mark (List.mem_of_mem_tail hmark)
        · rw [List.length_tail]
          exact Nat.sub_le_of_le_add hcount
        · rw [getLast?_tail, hnamespace]
      · obtain ⟨rfl, hfound⟩ := Classical.not_imp.mp hcolon
        exact getRootNestedNodeId_hidden hparse hidentifier hseparator hname hnameSeparator
          (not_not.mp hfound)

/-- **The root with its name**: the name at the root of an inner id has to be readable where
it has been overwritten. -/
theorem getRootNestedNodeId_overwritten_iff (overwritten : String → String)
    (hfirst : first = ((nesting :: before).getLast (List.cons_ne_nil _ _)).nestedName) :
    getRootNestedNodeId parse overwritten (.string
        (String.ofList (nestedText marks identifier (nesting :: before))) namespaceIndex) =
          some (root, first) ↔
      ¬ root.LooksNumeric ∧ ColonsMarked marks.length identifier (nesting :: before) ∧
        (before = [] ∨ overwritten first = first) := by
  obtain ⟨read, hread, hnames'⟩ := getRootNestedNodeId_overwritten parse overwritten
    (.string (String.ofList (nestedText marks identifier (nesting :: before))) namespaceIndex)
  have hvalues : ∀ found, _ ↔ _ := fun found =>
    getRootNestedNodeId_nestedText_iff found hparse hrepresentable hnull hidentifier
      hseparator hnames hmarks hcount hnamespace
  rw [← hfirst] at hvalues
  have hiff : getRootNestedNodeId parse overwritten (.string
      (String.ofList (nestedText marks identifier (nesting :: before))) namespaceIndex) =
        some (root, first) ↔
      ¬ root.LooksNumeric ∧ ColonsMarked marks.length identifier (nesting :: before) ∧
        read first = first := by
    rw [hread, Option.map_eq_some_iff]
    constructor
    · rintro ⟨⟨_, found⟩, hfound, heq⟩
      obtain ⟨rfl, hfirst'⟩ := Prod.mk.inj heq
      obtain ⟨rfl, hnumeric, hmarked⟩ := (hvalues found).mp hfound
      exact ⟨hnumeric, hmarked, hfirst'⟩
    · rintro ⟨hnumeric, hmarked, hfirst'⟩
      exact ⟨(root, first), (hvalues first).mpr ⟨rfl, hnumeric, hmarked⟩, by simp [hfirst']⟩
  rw [hiff]
  refine and_congr_right fun hnumeric => and_congr_right fun hmarked => ?_
  have hroot := (hvalues first).mpr ⟨rfl, hnumeric, hmarked⟩
  obtain ⟨hname, hnameSeparator⟩ := hnames nesting List.mem_cons_self
  have hcolon : marks = [] → ':' ∉ nestedText [] identifier before := by
    rintro rfl
    exact colonsMarked_zero.mp hmarked
  have hnested := isNestedNodeId_nestedText parse identifier before namespaceIndex marks hname
    hnameSeparator
  rw [parentOfText_nestedText hparse hmarks hcolon, Option.map_some] at hnested
  rw [hnames' _ _ hnested]
  cases before with
  | nil =>
      have htail : marks.tail = [] := by
        rw [← List.length_eq_zero_iff, List.length_tail]
        exact Nat.sub_eq_zero_of_le hcount
      rw [htail, nestedText_nil, isNestedNodeId_of_notMem hseparator]
      simp
  | cons inner before =>
      rw [nodeIdOfIdentifier, if_pos (separator_mem_nestedText inner)] at hnested ⊢
      have hinner := (getRootNestedNodeId_inner hidentifier hseparator
        (separator_mem_nestedText inner) hnested).mp hroot
      have hsome : (isNestedNodeId parse (.string
          (String.ofList (nestedText marks.tail identifier (inner :: before)))
            (marks.headD namespaceIndex))).isSome = true := by
        rw [Option.isSome_iff_ne_none]
        intro hnone
        rw [getRootNestedNodeId_eq_none hnone] at hinner
        cases hinner
      rw [if_pos hsome]
      simp

end

/-! ## §6  The way back -/

section

variable {parse : Parsing}

theorem marks_lt {root : NodeId} {nestings : List Nesting}
    (hroot : root.namespaceIndex < 2 ^ 16)
    (hnestings : ∀ nesting ∈ nestings, nesting.namespaceIndex < 2 ^ 16) :
    ∀ mark ∈ marks root nestings, mark < 2 ^ 16 := by
  induction nestings with
  | nil => nofun
  | cons nesting before ih =>
      obtain ⟨-, hbefore⟩ := List.forall_mem_cons.mp hnestings
      have hlast : lastNamespace root before < 2 ^ 16 := by
        cases before with
        | nil => exact hroot
        | cons inner before => exact hbefore inner List.mem_cons_self
      rw [marks]
      split
      · exact ih hbefore
      · exact List.forall_mem_cons.mpr ⟨hlast, ih hbefore⟩

/-- **Nested ids come apart** where colons cannot be taken for the end of a namespace, and
where the root is not a text that looks like a number. -/
theorem nested_ids_come_apart_iff (hparse : parse.AcceptsNumerals)
    (overwritten : String → String) (parentId : NodeId)
    (identifier : List Char) (hrepresentable : parentId.Representable) (hnull : parentId ≠ .null)
    (hidentifier : parentId.identifier = some identifier) :
    (∀ nestedName namespaceIndex, nestedName ≠ "" → '!' ∉ nestedName.toList →
      ((makeNestedNodeIdIn parentId nestedName namespaceIndex).bind (isNestedNodeId parse) =
          some (parentId, nestedName) ↔
        ¬ parentId.LooksNumeric ∧
          (namespaceIndex ≠ parentId.namespaceIndex ∨ ':' ∉ identifier))) ∧
    ∀ nesting before, '!' ∉ identifier →
      (∀ other ∈ nesting :: before, other.nestedName ≠ "" ∧ '!' ∉ other.nestedName.toList ∧
        other.namespaceIndex < 2 ^ 16) →
      ∀ first, first = ((nesting :: before).getLast (List.cons_ne_nil _ _)).nestedName →
        ((nestedIn parentId (nesting :: before)).bind (getRootNestedNodeId parse overwritten) =
            some (parentId, first) ↔
          ¬ parentId.LooksNumeric ∧
            ColonsMarked (marks parentId (nesting :: before)).length identifier
              (nesting :: before) ∧
            (before = [] ∨ overwritten first = first)) := by
  refine ⟨fun nestedName namespaceIndex hname hseparator => ?_,
    fun nesting before hseparator hnestings first hfirst => ?_⟩
  · exact isNestedNodeId_makeNestedNodeIdIn_iff hparse hrepresentable hnull hidentifier hname
      hseparator
  · have hmade := nestedIn_cons hnull hidentifier fun other hother => (hnestings other hother).1
    rw [hmade, Option.bind_some]
    apply getRootNestedNodeId_overwritten_iff hparse hrepresentable hnull hidentifier hseparator
    · exact fun other hother => ⟨(hnestings other hother).1, (hnestings other hother).2.1⟩
    · exact marks_lt hrepresentable.namespaceIndex_lt fun other hother =>
        (hnestings other hother).2.2
    · exact length_marks_le parentId (nesting :: before)
    · exact getLast?_marks parentId (nesting :: before)
    · exact hfirst

end

theorem nested_ids_come_apart_iff_device :
    (makeNestedNodeIdIn (.numeric 456 3) "ConnectCount" 7).bind (isNestedNodeId .decimal) =
        some (.numeric 456 3, "ConnectCount") ∧
      (nestedIn (.numeric 456 3) [⟨"Max", 7⟩, ⟨"Count", 7⟩]).bind
          (getRootNestedNodeId .decimal id) = some (.numeric 456 3, "Count") := by
  have hrepresentable : (NodeId.numeric 456 3).Representable := by
    refine ⟨?_, ?_, ?_⟩ <;> decide
  have hdevice := nested_ids_come_apart_iff Parsing.decimal_acceptsNumerals id (.numeric 456 3) _
    hrepresentable nofun rfl
  refine ⟨(hdevice.1 "ConnectCount" 7 (by decide) (by decide)).mpr ⟨id, .inl (by decide)⟩, ?_⟩
  refine (hdevice.2 ⟨"Max", 7⟩ [⟨"Count", 7⟩] (by decide) (by decide) "Count" rfl).mpr
    ⟨id, .inr ⟨?_, ?_⟩, .inr rfl⟩
  · decide
  · decide

/-- A bit of a coil has a colon in its name and loses its children; a counter of a device in
another namespace is not the parent of its own children; a text of digits becomes a number. -/
theorem nested_ids_do_not_come_apart : Parsing.decimal.AcceptsNumerals ∧
    (makeNestedNodeIdIn (.string "32!BIT:4" 12) "Online" 12).bind (isNestedNodeId .decimal) =
      none ∧
    (makeNestedNodeIdIn (.string "3:456!Count" 7) "Max" 7).bind (isNestedNodeId .decimal) =
      some (.string "456!Count" 3, "Max") ∧
    (makeNestedNodeIdIn (.string "53" 1) "Online" 1).bind (isNestedNodeId .decimal) =
      some (.numeric 53 1, "Online") ∧
    (nestedIn (.numeric 32 12) [⟨"Online", 12⟩, ⟨"BIT:4", 12⟩]).bind
      (getRootNestedNodeId .decimal id) = none :=
  ⟨Parsing.decimal_acceptsNumerals, by decide +kernel, by decide +kernel, by decide +kernel, by decide +kernel⟩

end ScadaCommon
