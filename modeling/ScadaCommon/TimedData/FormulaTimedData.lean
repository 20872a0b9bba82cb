import Mathlib.Data.List.TakeWhile
import ScadaCommon.Model.NodeIdUtil

/-!
# Formulas and their operands

`GetFormulaTimedData` gives the data of a name, or an expression over the data of its
operands. A path of a channel stands in braces, which are taken off a formula that is one
name, and not off an operand.

§1 the lexer · §2 the service · §3 names · §4 braces · §5 operands · §6 sums of names.
-/

namespace ScadaCommon

open Foundation

/-! ## §1  The lexer -/

def kLetters : String :=
  "abcdefghijklmnopqrstuvwxyzABCDEFGHIJKLMNOPQRSTUVWXYZ" ++
    "абвгдеёжзийклмнопрстуфхцчшщьыъэюяАБВГДЕЁЖЗИЙКЛМНОПРСТУФХЦЧШЩЬЫЪЭЮЯ"

/-- `wp_isalpha`, which `strchr` decides byte by byte. -/
def wpIsAlpha (c : Char) : Bool :=
  (String.utf8EncodeChar c).all fun byte => kLetters.toUTF8.data.toList.contains byte

/-- The ASCII letters come first. -/
theorem kLetters_bytes :
    kLetters.toUTF8.data.toList.take 52 =
        (List.range' 97 26 ++ List.range' 65 26).map UInt8.ofNat ∧
      ∀ byte ∈ kLetters.toUTF8.data.toList.drop 52, 128 ≤ byte := by
  decide +kernel

/-- The bytes below 128 are the ASCII letters. -/
theorem mem_kLetters_iff {byte : UInt8} (h : byte.toNat < 128) :
    byte ∈ kLetters.toUTF8.data.toList ↔
      65 ≤ byte.toNat ∧ byte.toNat ≤ 90 ∨ 97 ≤ byte.toNat ∧ byte.toNat ≤ 122 := by
  obtain ⟨htake, hdrop⟩ := kLetters_bytes
  have hnone : byte ∉ kLetters.toUTF8.data.toList.drop 52 := by
    intro hmem
    have hle := UInt8.le_iff_toNat_le.mp (hdrop byte hmem)
    exact absurd h (Nat.not_lt.mpr hle)
  rw [← List.take_append_drop 52 kLetters.toUTF8.data.toList, List.mem_append, or_iff_left hnone,
    htake, List.mem_map]
  constructor
  · rintro ⟨n, hn, rfl⟩
    rw [List.mem_append, List.mem_range'_1, List.mem_range'_1] at hn
    rw [UInt8.toNat_ofNat']
    omega
  · intro hletter
    refine ⟨byte.toNat, ?_, UInt8.ofNat_toNat⟩
    rw [List.mem_append, List.mem_range'_1, List.mem_range'_1]
    omega

/-- An ASCII character is what its byte is. -/
theorem wpIsAlpha_of_lt {c : Char} (h : c.toNat < 128) : wpIsAlpha c = c.isAlpha := by
  have hsize : c.utf8Size = 1 := by
    rw [Char.utf8Size_eq_one_iff, UInt32.le_iff_toNat_le]
    exact Nat.le_of_lt_succ h
  have hbyte : c.val.toUInt8.toNat = c.toNat := by
    show c.val.toNat % 256 = c.val.toNat
    exact Nat.mod_eq_of_lt (Nat.lt_trans h (by decide))
  have hmem := mem_kLetters_iff (hbyte.trans_lt h)
  rw [hbyte] at hmem
  rw [wpIsAlpha, String.utf8EncodeChar_eq_singleton hsize, List.all_cons, List.all_nil,
    Bool.and_true, Bool.eq_iff_iff, List.contains_iff_mem, hmem]
  show _ ↔ (decide (65 ≤ c.val ∧ c.val ≤ 90) || (decide (97 ≤ c.val) && decide (c.val ≤ 122))) = true
  simp only [Bool.or_eq_true, Bool.and_eq_true, decide_eq_true_eq, UInt32.le_iff_toNat_le]
  rfl

/-- `wp_isalnum` -/
def wpIsAlnum (c : Char) : Bool :=
  wpIsAlpha c || c.isDigit

/-- What a name goes on with. -/
def isNameChar (c : Char) : Bool :=
  c = '_' || c = '.' || c = '!' || wpIsAlnum c

/-- The lexemes of the delegate. -/
inductive Lexem where
  | lexTrue
  | lexFalse
  | lexName (string : String)
deriving DecidableEq

/-- `ScadaLexerDelegate::ReadLexem`, with what it leaves. -/
def readLexem : List Char → Option (Lexem × List Char)
  | [] => none
  | c :: text =>
      if c = '_' ∨ wpIsAlpha c = true then
        let name := c :: text.takeWhile isNameChar
        let rest := text.dropWhile isNameChar
        if iequals name "true".toList then some (.lexTrue, rest)
        else if iequals name "false".toList then some (.lexFalse, rest)
        else some (.lexName (String.ofList name), rest)
      else if c = '{' then
        -- the path of a channel
        match splitFirst '}' text with
        | none => none
        | some (path, rest) => some (.lexName (String.ofList ('{' :: (path ++ ['}']))), rest)
      else none

/-! ## §2  The service -/

/-- What a formula was parsed to: the names of its items, the number of its nodes, and
whether the first of these is an item. -/
structure ScadaExpression where
  items : List String
  nodeCount : ℕ
  startsWithItem : Bool
deriving DecidableEq

/-- `IsSingleName`. -/
def ScadaExpression.singleName (expression : ScadaExpression) : Option String :=
  if expression.nodeCount = 1 then
    match expression.items with
    | [name] => if expression.startsWithItem then some name else none
    | _ => none
  else none

/-- The parser of the library, over the lexer; it fails when the library throws. -/
structure Express where
  parse : List Char → Option ScadaExpression

/-- In which cache the data is looked up, and under what. -/
inductive DataKey (A : Type) where
  | node (nodeId : NodeId) (aggregation : A)
  | alias (text : String) (aggregation : A)
deriving DecidableEq

inductive FormulaData (A : Type) where
  | error (formula : String)
  | single (key : DataKey A)
  | expression (operands : List (DataKey A))
deriving DecidableEq

section

variable {A : Type} (parse : Parsing) (express : Express)

def getAliasTimedData (name : String) (aggregation : A) : DataKey A :=
  if nodeIdFromScadaString parse name = .null then .alias name aggregation
  else .node (nodeIdFromScadaString parse name) aggregation

/-- A name without its braces. -/
def unbraced (name : String) : String :=
  match name.toList with
  | '{' :: text => if text.getLast? = some '}' then String.ofList text.dropLast else name
  | _ => name

def getFormulaTimedData (formula : String) (aggregation : A) : FormulaData A :=
  match express.parse (cString formula.toList) with
  | none => .error formula
  | some expression =>
      match expression.singleName with
      | some name => .single (getAliasTimedData parse (unbraced name) aggregation)
      | none => .expression (expression.items.map (getAliasTimedData parse · aggregation))

/-- `MakeNodeIdFormula`. -/
def makeNodeIdFormula (nodeId : NodeId) : String :=
  match nodeId with
  | .null | .numeric _ _ => nodeIdToScadaString nodeId
  | .string _ _ => "\x7b" ++ nodeIdToScadaString nodeId ++ "\x7d"
  | .opaqueId _ _ => ""

end

/-! ## §3  Names -/

/-- What the library makes of names: the items of an expression are names that the lexer has
read, and a text that is one name is parsed to its item. -/
structure Express.DeliversNames (express : Express) : Prop where
  names : ∀ text expression, express.parse text = some expression →
    ∀ name ∈ expression.items, ∃ before lexemText rest,
      text = before ++ lexemText ∧ readLexem lexemText = some (.lexName name, rest)
  oneName : ∀ text name, readLexem text = some (.lexName name, []) →
    express.parse text = some ⟨[name], 1, true⟩

section

variable {text rest : List Char} {name : String}

theorem openBrace_no_letter : ¬ ('{' = '_' ∨ wpIsAlpha '{' = true) := by
  rw [wpIsAlpha_of_lt (by decide)]
  decide

/-- A path of a channel, in braces. -/
def IsBraced (name : String) : Prop :=
  ∃ path, name.toList = '{' :: (path ++ ['}']) ∧ '}' ∉ path

/-- A bare name, which is none of the two constants. -/
structure IsBare (name : String) : Prop where
  chars : ∃ c chars, name.toList = c :: chars ∧ (c = '_' ∨ wpIsAlpha c = true) ∧
    ∀ d ∈ chars, isNameChar d = true
  noTrue : iequals name.toList "true".toList = false
  noFalse : iequals name.toList "false".toList = false

/-- The lexer reads bare names and paths in braces. -/
theorem readLexem_name (h : readLexem text = some (.lexName name, rest)) :
    text = name.toList ++ rest ∧ (IsBare name ∨ IsBraced name) := by
  cases text with
  | nil => cases h
  | cons c text =>
      rw [readLexem] at h
      by_cases hletter : c = '_' ∨ wpIsAlpha c = true
      · rw [if_pos hletter] at h
        dsimp only at h
        split at h
        · cases h
        · rename_i hnoTrue
          split at h
          · cases h
          · rename_i hnoFalse
            cases h
            have hname : (String.ofList (c :: text.takeWhile isNameChar)).toList =
                c :: text.takeWhile isNameChar := String.toList_ofList
            refine ⟨?_, .inl ⟨⟨c, _, hname, hletter, fun d hd => List.mem_takeWhile_imp hd⟩, ?_, ?_⟩⟩
            · rw [hname, List.cons_append, List.takeWhile_append_dropWhile]
            · rw [hname]
              exact Bool.eq_false_iff.mpr hnoTrue
            · rw [hname]
              exact Bool.eq_false_iff.mpr hnoFalse
      · rw [if_neg hletter] at h
        by_cases hbrace : c = '{'
        · rw [if_pos hbrace] at h
          split at h
          · cases h
          · rename_i path after hsplit
            cases h
            obtain ⟨rfl, hpath⟩ := splitFirst_eq_some.mp hsplit
            refine ⟨?_, .inr ⟨path, String.toList_ofList, hpath⟩⟩
            rw [hbrace, String.toList_ofList, List.cons_append, List.append_assoc]
            rfl
        · rw [if_neg hbrace] at h
          cases h

/-- A name that was read is a text of its own. -/
theorem readLexem_self (h : IsBare name ∨ IsBraced name) :
    readLexem name.toList = some (.lexName name, []) := by
  rcases h with ⟨⟨c, chars, hname, hletter, hchars⟩, hnoTrue, hnoFalse⟩ | ⟨path, hname, hpath⟩
  · have htake : chars.takeWhile isNameChar = chars := List.takeWhile_eq_self_iff.mpr hchars
    have hdrop : chars.dropWhile isNameChar = [] := List.dropWhile_eq_nil_iff.mpr hchars
    have hself : String.ofList (c :: chars) = name := by rw [← hname, String.ofList_toList]
    rw [hname] at hnoTrue hnoFalse
    rw [hname, readLexem, if_pos hletter]
    dsimp only
    rw [htake, hdrop, if_neg (Bool.eq_false_iff.mp hnoTrue), if_neg (Bool.eq_false_iff.mp hnoFalse),
      hself]
  · have hself : String.ofList ('{' :: (path ++ ['}'])) = name := by
      rw [← hname, String.ofList_toList]
    rw [hname, readLexem, if_neg openBrace_no_letter, if_pos rfl, splitFirst_append hpath]
    dsimp only
    rw [hself]

end

/-! ## §4  Braces -/

section

variable {parse : Parsing} {A : Type} {name : String} {path rest : List Char} {aggregation : A}

theorem openBrace_starts_no_name : ∀ known ∈ kNamespaceNames,
    (known.toList.map Char.toUpper).head? ≠ some '{' := by
  decide +kernel

theorem findNamespaceIndexByName_openBrace (hparse : parse.AcceptsNumerals) :
    findNamespaceIndexByName parse ('{' :: rest) = -1 := by
  have hint : parse.int ('{' :: rest) = none :=
    hparse.int_eq_none List.mem_cons_self (by decide)
  have hfind : kNamespaceNames.findIdx? (fun known => iequals known.toList ('{' :: rest)) =
      none := by
    refine List.findIdx?_eq_none_iff.mpr fun known hknown => ?_
    rw [Bool.eq_false_iff]
    intro hequal
    have hupper := of_decide_eq_true hequal
    apply openBrace_starts_no_name known hknown
    rw [hupper]
    rfl
  have hother : ¬ '{' = 'T' := by decide
  simp only [findNamespaceIndexByName, if_neg hother, hint, hfind]

/-- A text in braces names no namespace. -/
theorem namespaceOfText_openBrace (hparse : parse.AcceptsNumerals) :
    namespaceOfText parse ('{' :: rest) = none := by
  have hstart : istartsWith ('{' :: rest) ['N', 'S'] = false := by
    rw [Bool.eq_false_iff]
    intro hequal
    have hupper : ('{' :: rest.take 1).map Char.toUpper = ['N', 'S'] := of_decide_eq_true hequal
    cases hupper
  rw [namespaceOfText, findNamespaceIndexByName_openBrace hparse, if_neg (by decide), hstart,
    if_neg Bool.false_ne_true]

theorem openBrace_starts_no_predefined : ∀ predefined ∈ kPredefinedScadaStrings,
    predefined.1.toList.head? ≠ some '{' := by
  decide

/-- **A text in braces is the string of no node.** -/
theorem nodeIdFromScadaString_openBrace (hparse : parse.AcceptsNumerals)
    (hname : name.toList = '{' :: rest) : nodeIdFromScadaString parse name = .null := by
  have hnone : kPredefinedScadaStrings.find? (·.1 = name) = none := by
    refine List.find?_eq_none.mpr fun predefined hmem hequal => ?_
    apply openBrace_starts_no_predefined predefined hmem
    rw [of_decide_eq_true hequal, hname]
    rfl
  rw [nodeIdFromScadaString, hnone]
  cases hsplit : splitFirst '.' name.toList with
  | none => rfl
  | some parts =>
      obtain ⟨namespaceName, identifier⟩ := parts
      obtain ⟨hparts, -⟩ := splitFirst_eq_some.mp hsplit
      rw [hname] at hparts
      dsimp only
      cases namespaceName with
      | nil =>
          rw [List.nil_append, List.cons.injEq] at hparts
          exact absurd hparts.1 (by decide)
      | cons first namespaceName =>
          rw [List.cons_append, List.cons.injEq] at hparts
          rw [← hparts.1, namespaceOfText_openBrace hparse]

/-- A path in braces is looked up as an alias. -/
theorem getAliasTimedData_openBrace (hparse : parse.AcceptsNumerals)
    (hname : name.toList = '{' :: rest) :
    getAliasTimedData parse name aggregation = .alias name aggregation :=
  if_pos (nodeIdFromScadaString_openBrace hparse hname)

theorem unbraced_of_isBraced (hname : name.toList = '{' :: (path ++ ['}'])) :
    unbraced name = String.ofList path := by
  rw [unbraced, hname]
  simp only
  rw [List.getLast?_concat, if_pos rfl, List.dropLast_concat]

theorem unbraced_of_isBare (h : IsBare name) : unbraced name = name := by
  obtain ⟨c, chars, hname, hletter, -⟩ := h.chars
  rw [unbraced, hname]
  split
  · rename_i heq
    rw [List.cons.injEq] at heq
    rw [heq.1] at hletter
    exact absurd hletter openBrace_no_letter
  · rfl

/-- **Without its braces a path is looked up as something else.** -/
theorem getAliasTimedData_unbraced_ne (hparse : parse.AcceptsNumerals) (h : IsBraced name) :
    getAliasTimedData parse (unbraced name) aggregation ≠
      getAliasTimedData parse name aggregation := by
  obtain ⟨path, hname, -⟩ := h
  rw [getAliasTimedData_openBrace hparse hname, unbraced_of_isBraced hname, getAliasTimedData]
  split
  · intro heq
    cases heq
    rw [String.toList_ofList] at hname
    have hlength := congrArg List.length hname
    rw [List.length_cons, List.length_append] at hlength
    omega
  · exact nofun

end

/-! ## §5  Operands -/

section

variable {parse : Parsing} {express : Express} {A : Type} {name formula : String}
variable {expression : ScadaExpression}

/-- A name of an item is parsed as a formula of its own. -/
theorem Express.DeliversNames.parse_item (hexpress : express.DeliversNames)
    (hparsed : express.parse (cString formula.toList) = some expression)
    (hname : name ∈ expression.items) :
    (IsBare name ∨ IsBraced name) ∧
      express.parse (cString name.toList) = some ⟨[name], 1, true⟩ := by
  obtain ⟨before, lexemText, rest, htext, hread⟩ := hexpress.names _ _ hparsed name hname
  obtain ⟨hlexem, hshape⟩ := readLexem_name hread
  have hself : cString name.toList = name.toList := by
    refine cString_eq_self.mpr fun c hc => ?_
    have hmem : c ∈ cString formula.toList := by
      rw [htext, hlexem]
      exact List.mem_append_right _ (List.mem_append_left _ hc)
    simpa using List.mem_takeWhile_imp hmem
  rw [hself]
  exact ⟨hshape, hexpress.oneName _ _ (readLexem_self hshape)⟩

/-- A formula of one name looks the name up without its braces. -/
theorem getFormulaTimedData_name {aggregation : A}
    (hparsed : express.parse (cString name.toList) = some ⟨[name], 1, true⟩) :
    getFormulaTimedData parse express name aggregation =
      .single (getAliasTimedData parse (unbraced name) aggregation) := by
  rw [getFormulaTimedData, hparsed]
  rfl

/-- **An operand is looked up as it is alone exactly if it is a bare name.** The braces are
taken off a formula that is one name, and are left on an operand. -/
theorem operand_as_alone_iff_bare (hparse : parse.AcceptsNumerals)
    (hexpress : express.DeliversNames)
    (hparsed : express.parse (cString formula.toList) = some expression)
    (hcompound : expression.singleName = none) (aggregation : A) :
    getFormulaTimedData parse express formula aggregation =
        .expression (expression.items.map (getAliasTimedData parse · aggregation)) ∧
      ∀ name ∈ expression.items,
        (getFormulaTimedData parse express name aggregation =
            .single (getAliasTimedData parse name aggregation) ↔
          ¬ IsBraced name) := by
  refine ⟨?_, fun name hname => ?_⟩
  · rw [getFormulaTimedData, hparsed]
    dsimp only
    rw [hcompound]
  · obtain ⟨hshape, halone⟩ := hexpress.parse_item hparsed hname
    rw [getFormulaTimedData_name halone, FormulaData.single.injEq]
    constructor
    · exact fun heq hbraced => getAliasTimedData_unbraced_ne hparse hbraced heq
    · intro hbare
      rw [unbraced_of_isBare (hshape.resolve_right hbare)]

end

/-! ## §6  Sums of names -/

/-- The names of a sum. -/
def namesOfSum : ℕ → List Char → Option (List String)
  | 0, _ => none
  | fuel + 1, text =>
      match readLexem text with
      | some (.lexName name, []) => some [name]
      | some (.lexName name, '+' :: rest) => (namesOfSum fuel rest).map (name :: ·)
      | _ => none

/-- A parser of sums of names. -/
def Express.sums : Express where
  parse text := (namesOfSum text.length text).map fun names =>
    ⟨names, 2 * names.length - 1, names.length = 1⟩

theorem namesOfSum_names {fuel : ℕ} {text : List Char} {names : List String}
    (h : namesOfSum fuel text = some names) : ∀ name ∈ names, ∃ before lexemText rest,
      text = before ++ lexemText ∧ readLexem lexemText = some (.lexName name, rest) := by
  induction fuel generalizing text names with
  | zero => cases h
  | succ fuel ih =>
      rw [namesOfSum] at h
      intro name hname
      split at h
      · rename_i found hread
        cases h
        rw [List.mem_singleton] at hname
        exact ⟨[], text, [], rfl, hname ▸ hread⟩
      · rename_i found rest hread
        obtain ⟨others, hothers, rfl⟩ := Option.map_eq_some_iff.mp h
        rcases List.mem_cons.mp hname with rfl | hother
        · exact ⟨[], text, _, rfl, hread⟩
        · obtain ⟨before, lexemText, after, rfl, hlexem⟩ := ih hothers name hother
          obtain ⟨htext, -⟩ := readLexem_name hread
          refine ⟨found.toList ++ '+' :: before, lexemText, after, ?_, hlexem⟩
          rw [htext, List.append_assoc, List.cons_append]
      · cases h

theorem Express.sums_deliversNames : Express.sums.DeliversNames where
  names text expression h := by
    obtain ⟨names, hnames, rfl⟩ := Option.map_eq_some_iff.mp h
    exact namesOfSum_names hnames
  oneName text name h := by
    cases text with
    | nil => cases h
    | cons c text =>
        have hnames : namesOfSum (c :: text).length (c :: text) = some [name] := by
          rw [List.length_cons, namesOfSum, h]
        show (namesOfSum (c :: text).length (c :: text)).map _ = _
        rw [hnames]
        rfl

theorem parse_sum_of_tags : Express.sums.parse (cString "TS.1+\x7bTS.Pump.1\x7d".toList) =
    some ⟨["TS.1", "\x7bTS.Pump.1\x7d"], 3, false⟩ := by
  decide +kernel

theorem operand_as_alone_iff_bare_sum :
    getFormulaTimedData .decimal .sums "TS.1+\x7bTS.Pump.1\x7d" () =
        .expression [getAliasTimedData .decimal "TS.1" (),
          getAliasTimedData .decimal "\x7bTS.Pump.1\x7d" ()] ∧
      (getFormulaTimedData .decimal .sums "TS.1" () =
          .single (getAliasTimedData .decimal "TS.1" ()) ↔ ¬ IsBraced "TS.1") := by
  have hsum := operand_as_alone_iff_bare Parsing.decimal_acceptsNumerals
    Express.sums_deliversNames parse_sum_of_tags rfl ()
  exact ⟨hsum.1, hsum.2 "TS.1" List.mem_cons_self⟩

/-- The formula of a tag is the data of its node, and as an operand that of an alias. -/
theorem formula_of_tag_as_operand : Parsing.decimal.AcceptsNumerals ∧
    Express.sums.DeliversNames ∧
    makeNodeIdFormula (.string "Pump.1" 1) = "\x7bTS.Pump.1\x7d" ∧
    getFormulaTimedData .decimal .sums "\x7bTS.Pump.1\x7d" () =
      .single (.node (.string "Pump.1" 1) ()) ∧
    getFormulaTimedData .decimal .sums "TS.1+\x7bTS.Pump.1\x7d" () =
      .expression [.node (.numeric 1 1) (), .alias "\x7bTS.Pump.1\x7d" ()] := by
  refine ⟨Parsing.decimal_acceptsNumerals, Express.sums_deliversNames, by decide +kernel, ?_, ?_⟩
  · have hbraced : IsBraced "\x7bTS.Pump.1\x7d" := ⟨"TS.Pump.1".toList, by decide, by decide⟩
    have hparsed := Express.sums_deliversNames.oneName _ _ (readLexem_self (.inr hbraced))
    have hcString : cString "\x7bTS.Pump.1\x7d".toList = "\x7bTS.Pump.1\x7d".toList :=
      cString_eq_self.mpr (by simp)
    rw [getFormulaTimedData_name (by rw [hcString, hparsed])]
    decide +kernel
  · unfold getFormulaTimedData
    rw [parse_sum_of_tags]
    decide +kernel

end ScadaCommon
