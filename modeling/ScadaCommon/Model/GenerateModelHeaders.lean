import Mathlib.Data.List.DropRight
import ScadaCommon.AddressSpace.UaNodeSet

/-!
# The constants of the header generator

The generator of the headers does not parse the files of nodes: it looks for the tags of
nodes in their texts, and for attributes in the tags. What it yields becomes a constant.
Where the tags of a node set are written plainly it finds the attributes that the loader
reads.

§1 characters · §2 the generator · §3 plain texts · §4 what is found in a tag · §5 what is
found in a text · §6 constants and ids.
-/

namespace ScadaCommon.NodeStateXml

open Foundation

/-! ## §1  Characters -/

/-- What is a letter or a digit, white space, or a decimal digit and of which value, beyond
ASCII. -/
structure UnicodeClasses where
  word : Char → Bool
  space : Char → Bool
  digit : Char → Option ℕ
  disjoint : ∀ c, word c = true → space c = false

namespace UnicodeClasses

variable (classes : UnicodeClasses)

/-- `\w`. -/
def isWord (c : Char) : Bool :=
  if c.toNat < 128 then c.isAlphanum || c = '_' else classes.word c

/-- `\s`. -/
def isSpace (c : Char) : Bool :=
  if c.toNat < 128 then 9 ≤ c.toNat && c.toNat ≤ 13 || 28 ≤ c.toNat && c.toNat ≤ 32
  else classes.space c

/-- The value of what `\d` matches. -/
def digitValue (c : Char) : Option ℕ :=
  if c.toNat < 128 then if c.isDigit then some (c.toNat - '0'.toNat) else none
  else classes.digit c

/-- `\d`. -/
def isDigit (c : Char) : Bool := (classes.digitValue c).isSome

/-- `int` of a text of digits. -/
def intValue (digits : List Char) : ℕ :=
  digits.foldl (fun value c => 10 * value + (classes.digitValue c).getD 0) 0

end UnicodeClasses

/-! ## §2  The generator -/

section

variable (classes : UnicodeClasses)

/-- `<UA\w+` at the start of a text, of which the rest is given. -/
def matchUaName : List Char → Option (List Char)
  | '<' :: 'U' :: 'A' :: text =>
      if text.takeWhile classes.isWord = [] then none else some (text.dropWhile classes.isWord)
  | _ => none

/-- `<Node`. -/
def matchNodeName : List Char → Option (List Char)
  | '<' :: 'N' :: 'o' :: 'd' :: 'e' :: text => some text
  | _ => none

/-- The slash before the end of a tag is none of what stands in it. -/
def dropSlash (inside : List Char) : List Char :=
  if inside.getLast? = some '/' then inside.dropLast else inside

/-- `\s+([^>]*?)/?>` behind the name of a tag: the group, and the rest of the text. -/
def matchTagEnd (text : List Char) : Option (List Char × List Char) :=
  if text.takeWhile classes.isSpace = [] then none
  else
    let text := text.dropWhile classes.isSpace
    match text.dropWhile (· ≠ '>') with
    | [] => none
    | _ :: rest => some (dropSlash (text.takeWhile (· ≠ '>')), rest)

/-- A whole tag, and how long it is. -/
def matchTag (matchName : List Char → Option (List Char)) (text : List Char) :
    Option (List Char × ℕ) :=
  ((matchName text).bind (matchTagEnd classes)).map fun found =>
    (found.1, text.length - found.2.length)

/-- `(\w+)="([^"]*)"`. -/
def matchAttribute (text : List Char) : Option ((List Char × List Char) × ℕ) :=
  let name := text.takeWhile classes.isWord
  if name = [] then none
  else
    match text.dropWhile classes.isWord with
    | '=' :: '"' :: text =>
        let value := text.takeWhile (· ≠ '"')
        match text.dropWhile (· ≠ '"') with
        | [] => none
        | _ :: _ => some ((name, value), name.length + value.length + 3)
    | _ => none

/-- What is in a `dict` that is made of a list: of entries for one name the last. -/
def dictGet (attributes : List (List Char × List Char)) (name : String) : Option (List Char) :=
  (attributes.reverse.find? (·.1 = name.toList)).map (·.2)

/-- `(?:ns=(\d+);)?i=(\d+)` at the start of a text: the digits behind `ns=`, if that is
there, and those behind `i=`. -/
def matchUaId : List Char → Option (Option (List Char) × List Char)
  | 'n' :: 's' :: '=' :: text =>
      match text.dropWhile classes.isDigit with
      | ';' :: 'i' :: '=' :: rest =>
          if text.takeWhile classes.isDigit ≠ [] ∧ rest.takeWhile classes.isDigit ≠ [] then
            some (some (text.takeWhile classes.isDigit), rest.takeWhile classes.isDigit)
          else none
      | _ => none
  | 'i' :: '=' :: rest =>
      if rest.takeWhile classes.isDigit ≠ [] then some (none, rest.takeWhile classes.isDigit)
      else none
  | _ => none

/-- `([A-Z0-9]+)\.(\d+)` at the start of a text. -/
def matchNodeId (text : List Char) : Option (List Char × List Char) :=
  let prefixed := text.takeWhile fun c => c.isUpper || c.isDigit
  match text.dropWhile fun c => c.isUpper || c.isDigit with
  | '.' :: rest =>
      if prefixed ≠ [] ∧ rest.takeWhile classes.isDigit ≠ [] then
        some (prefixed, rest.takeWhile classes.isDigit)
      else none
  | _ => none

/-- `NS_PREFIX`, and -1 for a prefix that is not there. -/
def nsPrefix (text : List Char) : ℤ :=
  if text = "NS0".toList then 0 else if text = "SCADA".toList then 7 else -1

/-- What is yielded for the attributes of a tag of a node set: the symbolic name, the index
of the namespace and the number. -/
def uaSymbolicNode (attributes : List (List Char × List Char)) : Option (String × ℤ × ℕ) :=
  match dictGet attributes "SymbolicName",
    matchUaId classes ((dictGet attributes "NodeId").getD []) with
  | some sym, some (index, number) =>
      if sym = [] then none
      else
        some (String.ofList sym, if index.getD ['0'] = ['1'] then 7 else 0,
          classes.intValue number)
  | _, _ => none

/-- The same for a tag of the other format. -/
def nodeSymbolicNode (attributes : List (List Char × List Char)) : Option (String × ℤ × ℕ) :=
  match dictGet attributes "symbolicName",
    matchNodeId classes ((dictGet attributes "id").getD []) with
  | some sym, some (namespacePrefix, number) =>
      if sym = [] then none
      else some (String.ofList sym, nsPrefix namespacePrefix, classes.intValue number)
  | _, _ => none

/-- `<UANodeSet\b` somewhere in a text. -/
def isUaNodeSet (text : List Char) : Bool :=
  text.tails.any fun rest =>
    "<UANodeSet".toList.isPrefixOf rest && !(rest.drop 10).head?.any classes.isWord

/-- The branch for node sets. -/
def uaSymbolicNodes (text : List Char) : List (String × ℤ × ℕ) :=
  (findAll (matchTag classes (matchUaName classes)) text).filterMap fun inside =>
    uaSymbolicNode classes (findAll (matchAttribute classes) inside)

def readSymbolicNodes (text : List Char) : List (String × ℤ × ℕ) :=
  if isUaNodeSet classes text then uaSymbolicNodes classes text
  else
    (findAll (matchTag classes matchNodeName) text).filterMap fun inside =>
      nodeSymbolicNode classes (findAll (matchAttribute classes) inside)

end

/-! ## §3  Plain texts -/

/-- The white space of XML. -/
def xmlSpaces : List Char := [' ', '\t', '\n', '\r']

/-- Attributes as they stand in a tag, in double quotes and with their values as they are. -/
inductive AttributesText : List (String × String) → List Char → Prop
  | done {spaces : List Char} (hspaces : ∀ c ∈ spaces, c ∈ xmlSpaces) : AttributesText [] spaces
  | entry {name value : String} {attributes : List (String × String)}
      {spaces text : List Char} (hspaces : ∀ c ∈ spaces, c ∈ xmlSpaces) (hne : spaces ≠ []) :
      AttributesText attributes text →
      AttributesText ((name, value) :: attributes)
        (spaces ++ (name.toList ++ ('=' :: '"' :: (value.toList ++ ['"'])) ++ text))

/-- The start of an element. -/
inductive TagText (element : XmlNode) : List Char → Prop
  | mk {text ending : List Char} (hattributes : AttributesText element.attributes text)
      (hending : ending ∈ [['>'], ['/', '>']]) :
      TagText element ('<' :: (element.name.toList ++ (text ++ ending)))

/-- A text in which these elements are written in this order, and no other tag that begins
with `<UA`, not even in a comment. -/
inductive NodeSetText : List XmlNode → List Char → Prop
  | done {gap : List Char} (hgap : ¬ ['<', 'U', 'A'] <:+: gap) : NodeSetText [] gap
  | element {element : XmlNode} {elements : List XmlNode} {gap tag text : List Char}
      (hgap : ¬ ['<', 'U', 'A'] <:+: gap) (htag : TagText element tag) :
      NodeSetText elements text → NodeSetText (element :: elements) (gap ++ (tag ++ text))

/-- The end of a name that `\w+` matches. -/
def keyOf (classes : UnicodeClasses) (name : String) : List Char :=
  name.toList.rtakeWhile classes.isWord

/-- An attribute that a scan can tell from others. -/
@[mk_iff] structure PlainAttribute (classes : UnicodeClasses) (entry : String × String) : Prop where
  name : '=' ∉ entry.1.toList ∧ '>' ∉ entry.1.toList
  key : keyOf classes entry.1 ≠ []
  value : '"' ∉ entry.2.toList ∧ '>' ∉ entry.2.toList
  noNul : NoNul entry.2
  /-- No prefix stands before the names that are looked for. -/
  bare : ∀ name ∈ ["NodeId", "SymbolicName"],
    keyOf classes entry.1 = name.toList → entry.1 = name

instance (classes : UnicodeClasses) (entry : String × String) :
    Decidable (PlainAttribute classes entry) :=
  decidable_of_iff' _ (plainAttribute_iff classes entry)

@[mk_iff] structure PlainElement (classes : UnicodeClasses) (element : XmlNode) : Prop where
  attributes : ∀ entry ∈ element.attributes, PlainAttribute classes entry
  distinct : (element.attributes.map (·.1)).Nodup

instance (classes : UnicodeClasses) (element : XmlNode) :
    Decidable (PlainElement classes element) :=
  decidable_of_iff' _ (plainElement_iff classes element)

/-! ## §4  What is found in a tag -/

namespace UnicodeClasses

variable {classes : UnicodeClasses} {c : Char}

theorem isAlphanum_iff : c.isAlphanum = true ↔ (65 ≤ c.toNat ∧ c.toNat ≤ 90 ∨
    97 ≤ c.toNat ∧ c.toNat ≤ 122) ∨ 48 ≤ c.toNat ∧ c.toNat ≤ 57 := by
  show (decide (65 ≤ c.val ∧ c.val ≤ 90) || (decide (97 ≤ c.val) && decide (c.val ≤ 122)) ||
    (decide (48 ≤ c.val) && decide (c.val ≤ 57))) = true ↔ _
  simp only [Bool.or_eq_true, Bool.and_eq_true, decide_eq_true_eq, UInt32.le_iff_toNat_le]
  rfl

theorem isWord_of_isAlphanum (h : c.isAlphanum = true) : classes.isWord c = true := by
  have hascii : c.toNat < 128 := by
    have hcases := isAlphanum_iff.mp h
    omega
  unfold isWord
  rw [if_pos hascii, h, Bool.true_or]

theorem isSpace_of_mem (h : c ∈ xmlSpaces) : classes.isSpace c = true := by
  have hcases : c = ' ' ∨ c = '\t' ∨ c = '\n' ∨ c = '\r' := by simpa [xmlSpaces] using h
  rcases hcases with rfl | rfl | rfl | rfl <;> rfl

theorem isWord_of_isSpace (h : classes.isSpace c = true) : classes.isWord c = false := by
  unfold isSpace at h
  unfold isWord
  split at h
  · rename_i hascii
    rw [if_pos hascii]
    have hother : c ≠ '_' := by
      rintro rfl
      exact absurd h (by decide)
    have hplain : ¬ c.isAlphanum = true := by
      rw [isAlphanum_iff]
      simp [← Char.toNat_val] at h ⊢
      omega
    simp [hother, hplain]
  · rename_i hascii
    rw [if_neg hascii]
    by_contra hword
    have hspace := classes.disjoint c (by simpa using hword)
    rw [h] at hspace
    cases hspace

theorem digitValue_of_isDigit (h : c.isDigit = true) :
    classes.digitValue c = some (c.toNat - '0'.toNat) := by
  have hascii : c.toNat < 128 := by
    simp [Char.isDigit, UInt32.le_iff_toNat_le] at h
    omega
  unfold digitValue
  rw [if_pos hascii, if_pos h]

theorem isDigit_of_isDigit (h : c.isDigit = true) : classes.isDigit c = true := by
  unfold isDigit
  rw [digitValue_of_isDigit h]
  rfl

theorem intValue_eq {digits : List Char} (h : ∀ c ∈ digits, c.isDigit = true) :
    classes.intValue digits = numeralValue digits := by
  unfold intValue numeralValue
  rw [Nat.ofDigitChars_eq_foldl]
  exact List.foldl_ext _ _ 0 fun value c hc => by rw [digitValue_of_isDigit (h c hc)]; rfl

end UnicodeClasses

section

variable {classes : UnicodeClasses} {text piece : List Char} {element : XmlNode}
  {attributes : List (String × String)}

theorem matchAttribute_of_head (h : ∀ c ∈ text.head?, classes.isWord c = false) :
    matchAttribute classes text = none := by
  have hrun : ([] ++ text).takeWhile classes.isWord = [] := (split_run text (by simp) h).1
  unfold matchAttribute
  exact if_pos hrun

/-- No attribute begins where the run of letters does not end at an equals sign. -/
theorem matchAttribute_of_run (hstop : ∃ c ∈ piece, classes.isWord c = false)
    (hequals : '=' ∉ piece) : matchAttribute classes (piece ++ text) = none := by
  have hdrop : piece.dropWhile classes.isWord ≠ [] := by
    obtain ⟨c, hc, hother⟩ := hstop
    intro hnil
    rw [List.dropWhile_eq_nil_iff.mp hnil c hc] at hother
    cases hother
  obtain ⟨c, rest, hrest⟩ := List.exists_cons_of_ne_nil hdrop
  have hc : c ≠ '=' := by
    rintro rfl
    exact hequals ((List.dropWhile_suffix _).subset (hrest ▸ List.mem_cons_self ..))
  have hbehind : (piece ++ text).dropWhile classes.isWord = c :: (rest ++ text) := by
    rw [List.dropWhile_append, hrest]
    rfl
  unfold matchAttribute
  dsimp only
  rw [hbehind]
  split
  · rfl
  · split
    · rename_i heq
      exact absurd (List.cons.inj heq).1 hc
    · rfl

theorem findAll_spaces (h : ∀ c ∈ piece, classes.isSpace c = true) :
    findAll (matchAttribute classes) (piece ++ text) = findAll (matchAttribute classes) text := by
  refine findAll_append_of_none fun rest hne hrest => matchAttribute_of_head fun c hc => ?_
  obtain ⟨d, rest, rfl⟩ := List.exists_cons_of_ne_nil hne
  obtain rfl : d = c := Option.some.inj hc
  exact UnicodeClasses.isWord_of_isSpace (h d (hrest.subset (List.mem_cons_self ..)))

/-- One entry. -/
theorem findAll_attribute {entry : String × String} (h : PlainAttribute classes entry) :
    findAll (matchAttribute classes)
        (entry.1.toList ++ ('=' :: '"' :: (entry.2.toList ++ ['"'])) ++ text) =
      (keyOf classes entry.1, entry.2.toList) ::
        findAll (matchAttribute classes) text := by
  have hname : entry.1.toList.rdropWhile classes.isWord ++ keyOf classes entry.1 =
      entry.1.toList := List.rdropWhile_append_rtakeWhile
  have hkey : ∀ c ∈ keyOf classes entry.1, classes.isWord c = true := fun c hc =>
    List.mem_rtakeWhile_imp hc
  have hbefore : findAll (matchAttribute classes)
      (entry.1.toList.rdropWhile classes.isWord ++ (keyOf classes entry.1 ++
        ('=' :: '"' :: (entry.2.toList ++ ['"'])) ++ text)) =
      findAll (matchAttribute classes) (keyOf classes entry.1 ++
        ('=' :: '"' :: (entry.2.toList ++ ['"'])) ++ text) := by
    refine findAll_append_of_none fun rest hne hrest => matchAttribute_of_run ?_ ?_
    · -- The last character before the key is of none.
      have hlast := List.rdropWhile_last_not classes.isWord entry.1.toList
        (List.IsSuffix.ne_nil hrest hne)
      refine ⟨rest.getLast hne, List.getLast_mem hne, ?_⟩
      rw [hrest.getLast hne]
      simpa using hlast
    · intro hmem
      exact h.name.1 ( ( List.rdropWhile_prefix _ _).subset (hrest.subset hmem))
  have hfound : matchAttribute classes ((keyOf classes entry.1 ++
      ('=' :: '"' :: (entry.2.toList ++ ['"']))) ++ text) =
      some ((keyOf classes entry.1, entry.2.toList), (keyOf classes entry.1 ++
        ('=' :: '"' :: (entry.2.toList ++ ['"']))).length) := by
    have hsplit : (keyOf classes entry.1 ++ ('=' :: '"' :: (entry.2.toList ++ ['"']))) ++
        text = keyOf classes entry.1 ++ '=' :: '"' :: (entry.2.toList ++ '"' :: text) := by
      simp
    obtain ⟨htake, hdrop⟩ := split_run ('=' :: '"' :: (entry.2.toList ++ '"' :: text))
      hkey (by rintro c ⟨⟩; rfl)
    obtain ⟨hvalue, hrest⟩ := split_run (p := (· ≠ '"')) ('"' :: text)
      (fun c (hc : c ∈ entry.2.toList) => decide_eq_true fun heq => h.value.1 (heq ▸ hc))
      (by rintro c ⟨⟩; rfl)
    rw [hsplit]
    unfold matchAttribute
    simp only [htake, hdrop, hvalue, hrest, if_neg h.key]
    simp
    omega
  rw [← hname, List.append_assoc, List.append_assoc, ← List.append_assoc (keyOf _ _)]
  rw [hbefore]
  exact findAll_append_of_some hfound (List.append_ne_nil_of_right_ne_nil _ (List.cons_ne_nil _ _))

/-- All attributes. -/
theorem findAll_attributes (h : AttributesText attributes text)
    (hplain : ∀ entry ∈ attributes, PlainAttribute classes entry) :
    findAll (matchAttribute classes) text =
      attributes.map fun entry => (keyOf classes entry.1, entry.2.toList) := by
  induction h with
  | @done spaces hspaces =>
      have hnothing : findAll (matchAttribute classes) (spaces ++ []) = [] :=
        findAll_spaces fun c hc => UnicodeClasses.isSpace_of_mem (hspaces c hc)
      rw [List.append_nil] at hnothing
      exact hnothing
  | @entry name value attributes spaces text hspaces hne _ ih =>
      obtain ⟨hfirst, hrest⟩ := List.forall_mem_cons.mp hplain
      rw [findAll_spaces fun c hc => UnicodeClasses.isSpace_of_mem (hspaces c hc),
        findAll_attribute hfirst, ih hrest]
      rfl

/-- Spaces before the first attribute do not matter. -/
theorem findAll_dropWhile (text : List Char) :
    findAll (matchAttribute classes) (text.dropWhile classes.isSpace) =
      findAll (matchAttribute classes) text := by
  conv_rhs => rw [← List.takeWhile_append_dropWhile (p := classes.isSpace) (l := text)]
  exact (findAll_spaces fun c hc => List.mem_takeWhile_imp hc).symm

namespace AttributesText

theorem head (h : AttributesText attributes text) :
    text = [] ∧ attributes = [] ∨ ∃ c rest, text = c :: rest ∧ c ∈ xmlSpaces := by
  cases h with
  | done hspaces =>
      cases text with
      | nil => exact Or.inl ⟨rfl, rfl⟩
      | cons c rest => exact Or.inr ⟨c, rest, rfl, hspaces c (List.mem_cons_self ..)⟩
  | entry hspaces hne _ =>
      obtain ⟨c, rest, rfl⟩ := List.exists_cons_of_ne_nil hne
      exact Or.inr ⟨c, _, rfl, hspaces c (List.mem_cons_self ..)⟩

/-- No tag ends in its attributes. -/
theorem no_end (h : AttributesText attributes text)
    (hplain : ∀ entry ∈ attributes, PlainAttribute classes entry) : '>' ∉ text := by
  induction h with
  | done hspaces => exact fun hmem => absurd (hspaces '>' hmem) (by decide)
  | @entry name value attributes spaces text hspaces hne _ ih =>
      obtain ⟨hfirst, hrest⟩ := List.forall_mem_cons.mp hplain
      have hspace : '>' ∉ spaces := fun hmem => absurd (hspaces '>' hmem) (by decide)
      simp [hspace, hfirst.name.2, hfirst.value.2, ih hrest]

/-- The slash of a tag is not one of its attributes. -/
theorem last (h : AttributesText attributes text) : ∀ c ∈ text.getLast?, c ≠ '/' := by
  induction h with
  | done hspaces =>
      rintro c hc rfl
      exact absurd (hspaces '/' (List.mem_of_getLast? hc)) (by decide)
  | @entry name value attributes spaces text hspaces hne _ ih =>
      intro c hc
      rw [← List.append_assoc, List.getLast?_append, Option.mem_def, Option.or_eq_some_iff] at hc
      rcases hc with hc | ⟨-, hc⟩
      · exact ih c hc
      · have hquote : c = '"' := by simpa [List.getLast?_append, List.getLast?_cons] using hc.symm
        rw [hquote]
        decide

end AttributesText

/-- What is found behind the name of a tag. -/
theorem matchTagEnd_of_attributes {ending rest : List Char} (h : AttributesText attributes text)
    (hplain : ∀ entry ∈ attributes, PlainAttribute classes entry) (hne : text ≠ [])
    (hending : ending ∈ [['>'], ['/', '>']]) :
    matchTagEnd classes (text ++ (ending ++ rest)) =
      some (text.dropWhile classes.isSpace, rest) := by
  have hrun : (text ++ (ending ++ rest)).takeWhile classes.isSpace ≠ [] := by
    rcases h.head with ⟨hnil, -⟩ | ⟨c, text, rfl, hc⟩
    · exact absurd hnil hne
    · rw [List.cons_append, List.takeWhile_cons_of_pos (UnicodeClasses.isSpace_of_mem hc)]
      exact List.cons_ne_nil _ _
  have hending : ending = ['>'] ∨ ending = ['/', '>'] := by simpa using hending
  have hbehind : (text ++ (ending ++ rest)).dropWhile classes.isSpace =
      text.dropWhile classes.isSpace ++ (ending ++ rest) := by
    rw [List.dropWhile_append]
    split
    · rename_i hnil
      rw [List.isEmpty_iff.mp hnil]
      rcases hending with rfl | rfl <;> rfl
    · rfl
  have hno : ∀ c ∈ text.dropWhile classes.isSpace, decide (c ≠ '>') = true := fun c hc =>
    decide_eq_true fun heq =>
      h.no_end hplain (heq ▸ (List.dropWhile_suffix classes.isSpace).subset hc)
  have hlast : (text.dropWhile classes.isSpace).getLast? ≠ some '/' := by
    intro hslash
    refine h.last '/' ?_ rfl
    rw [← List.takeWhile_append_dropWhile (p := classes.isSpace) (l := text),
      List.getLast?_append, hslash]
    rfl
  unfold matchTagEnd
  rw [if_neg hrun]
  dsimp only
  rw [hbehind]
  rcases hending with rfl | rfl
  · obtain ⟨htake, hdrop⟩ := split_run ('>' :: rest) hno (by rintro c ⟨⟩; rfl)
    rw [List.singleton_append, htake, hdrop]
    simp [dropSlash, hlast]
  · have hno' : ∀ c ∈ text.dropWhile classes.isSpace ++ ['/'], decide (c ≠ '>') = true := by
      intro c hc
      rcases List.mem_append.mp hc with hc | hc
      · exact hno c hc
      · rw [List.mem_singleton.mp hc]
        rfl
    obtain ⟨htake, hdrop⟩ := split_run ('>' :: rest) hno' (by rintro c ⟨⟩; rfl)
    rw [List.append_assoc] at htake hdrop
    have hjoin : ['/', '>'] ++ rest = ['/'] ++ '>' :: rest := rfl
    rw [hjoin, htake, hdrop]
    simp [dropSlash]

end

/-! ## §5  What is found in a text -/

/-- A name that `UA\w+` matches as a whole. -/
def UaName (name : String) : Prop :=
  ∃ word, name.toList = 'U' :: 'A' :: word ∧ word ≠ [] ∧ ∀ c ∈ word, c.isAlphanum = true

/-- What the generator reads of an element that is written plainly. -/
def symbolicNode (classes : UnicodeClasses) (element : XmlNode) : Option (String × ℤ × ℕ) :=
  match matchUaId classes (element.asString "NodeId").toList with
  | none => none
  | some (index, number) =>
      if element.asString "SymbolicName" = "" then none
      else
        some (element.asString "SymbolicName", if index.getD ['0'] = ['1'] then 7 else 0,
          classes.intValue number)

section

variable {classes : UnicodeClasses} {text tag gap : List Char} {element : XmlNode}
  {elements : List XmlNode}

theorem matchUaName_of_head (h : ∀ c ∈ text.head?, c ≠ '<') : matchUaName classes text = none := by
  unfold matchUaName
  split
  · exact absurd rfl (h '<' rfl)
  · rfl

theorem matchTag_of_name (h : matchUaName classes text = none) :
    matchTag classes (matchUaName classes) text = none := by
  unfold matchTag
  rw [h]
  rfl

/-- Between tags nothing is found. -/
theorem uaSymbolicNodes_gap (hgap : ¬ ['<', 'U', 'A'] <:+: gap)
    (htext : ∀ c ∈ text.head?, c = '<') :
    uaSymbolicNodes classes (gap ++ text) = uaSymbolicNodes classes text := by
  unfold uaSymbolicNodes
  rw [findAll_append_of_none]
  intro rest hne hrest
  apply matchTag_of_name
  unfold matchUaName
  split
  · rename_i behind heq
    -- A name that begins in the gap is cut by the next tag, or is all in the gap.
    match rest, hne, hrest, heq with
    | [a], _, _, heq =>
        obtain ⟨-, htail⟩ : a = '<' ∧ text = 'U' :: 'A' :: behind := by simpa using heq
        exact absurd (htext 'U' (by rw [htail]; rfl)) (by decide)
    | [a, b], _, _, heq =>
        obtain ⟨-, -, htail⟩ : a = '<' ∧ b = 'U' ∧ text = 'A' :: behind := by simpa using heq
        exact absurd (htext 'A' (by rw [htail]; rfl)) (by decide)
    | a :: b :: c :: rest, _, hrest, heq =>
        obtain ⟨rfl, rfl, rfl, -⟩ : a = '<' ∧ b = 'U' ∧ c = 'A' ∧ rest ++ text = behind := by
          simpa using heq
        have hpiece : ['<', 'U', 'A'] <:+: '<' :: 'U' :: 'A' :: rest := ⟨[], rest, rfl⟩
        exact absurd (List.IsInfix.trans hpiece hrest.isInfix) hgap
  · rfl

/-- The tag of a node is found, with its attributes. -/
theorem uaSymbolicNodes_tag (hplain : PlainElement classes element) (hname : UaName element.name)
    (htag : TagText element tag) :
    uaSymbolicNodes classes (tag ++ text) =
      (uaSymbolicNode classes (element.attributes.map fun entry =>
        (keyOf classes entry.1, entry.2.toList))).toList ++ uaSymbolicNodes classes text := by
  cases htag with
  | @mk inside ending hattributes hending =>
  obtain ⟨word, hname, hne, hword⟩ := hname
  have hcases : ending = ['>'] ∨ ending = ['/', '>'] := by simpa using hending
  have hrun : ∀ c ∈ (inside ++ (ending ++ text)).head?, classes.isWord c = false := by
    rcases hattributes.head with ⟨rfl, -⟩ | ⟨c, rest, rfl, hc⟩
    · rcases hcases with rfl | rfl <;> (rintro c ⟨⟩; rfl)
    · rintro d ⟨⟩
      exact UnicodeClasses.isWord_of_isSpace (UnicodeClasses.isSpace_of_mem hc)
  obtain ⟨htake, hdrop⟩ := split_run (p := classes.isWord) _
    (fun c hc => UnicodeClasses.isWord_of_isAlphanum (hword c hc)) hrun
  have hmatch : matchUaName classes
      ('<' :: (element.name.toList ++ (inside ++ ending)) ++ text) =
      some (inside ++ (ending ++ text)) := by
    have hsplit : '<' :: (element.name.toList ++ (inside ++ ending)) ++ text =
        '<' :: 'U' :: 'A' :: (word ++ (inside ++ (ending ++ text))) := by
      rw [hname]
      simp
    rw [hsplit, matchUaName, htake, hdrop, if_neg hne]
  by_cases hinside : inside = []
  · -- Without white space behind the name it is no tag for the generator.
    have hnone : element.attributes = [] := by
      rcases hattributes.head with ⟨-, hnone⟩ | ⟨c, rest, hcons, -⟩
      · exact hnone
      · exact absurd (hinside.symm.trans hcons) (List.cons_ne_nil c rest).symm
    have hskip : findAll (matchTag classes (matchUaName classes))
        ('<' :: (element.name.toList ++ (inside ++ ending)) ++ text) =
        findAll (matchTag classes (matchUaName classes)) text := by
      refine findAll_append_of_none fun rest hrest hsuffix => ?_
      rcases List.suffix_cons_iff.mp hsuffix with rfl | hsuffix
      · unfold matchTag
        rw [hmatch, hinside]
        rcases hcases with rfl | rfl <;> rfl
      · refine matchTag_of_name (matchUaName_of_head fun c hc => ?_)
        obtain ⟨d, rest, rfl⟩ := List.exists_cons_of_ne_nil hrest
        obtain rfl : d = c := Option.some.inj hc
        have hmem := hsuffix.subset (List.mem_cons_self ..)
        rintro rfl
        rw [hname, hinside] at hmem
        have hword' : '<' ∉ word := fun hmem => absurd (hword '<' hmem) (by decide)
        rcases hcases with rfl | rfl <;> simp [hword'] at hmem
    unfold uaSymbolicNodes
    rw [hskip, hnone]
    rfl
  · have hfound : matchTag classes (matchUaName classes)
        ('<' :: (element.name.toList ++ (inside ++ ending)) ++ text) =
        some (inside.dropWhile classes.isSpace,
          ('<' :: (element.name.toList ++ (inside ++ ending))).length) := by
      unfold matchTag
      rw [hmatch, Option.bind_some,
        matchTagEnd_of_attributes hattributes hplain.attributes hinside hending, Option.map_some,
        List.length_append, Nat.add_sub_cancel]
    unfold uaSymbolicNodes
    rw [findAll_append_of_some hfound (List.cons_ne_nil _ _), List.filterMap_cons,
      findAll_dropWhile, findAll_attributes hattributes hplain.attributes]
    cases uaSymbolicNode classes (element.attributes.map fun entry =>
      (keyOf classes entry.1, entry.2.toList)) <;> rfl

/-- What is looked for in a tag is the attribute of that name. -/
theorem PlainElement.dictGet (hplain : PlainElement classes element) {name : String}
    (hname : name ∈ ["NodeId", "SymbolicName"]) :
    NodeStateXml.dictGet (element.attributes.map fun entry =>
      (keyOf classes entry.1, entry.2.toList)) name =
      (element.xmlAttribute name).map String.toList := by
  obtain ⟨hentries, hdistinct⟩ := hplain
  have hself : keyOf classes name = name.toList := by
    refine List.rtakeWhile_eq_self_iff.mpr fun c hc => UnicodeClasses.isWord_of_isAlphanum ?_
    have hall : ∀ name ∈ ["NodeId", "SymbolicName"], name.toList.all Char.isAlphanum = true := by
      decide
    exact List.all_eq_true.mp (hall name hname) c hc
  unfold NodeStateXml.dictGet XmlNode.xmlAttribute
  generalize element.attributes = attributes at hentries hdistinct
  induction attributes with
  | nil => rfl
  | cons entry attributes ih =>
      obtain ⟨hfirst, hrest⟩ := List.forall_mem_cons.mp hentries
      obtain ⟨hnew, hdistinct⟩ := List.nodup_cons.mp hdistinct
      have ih := ih hrest hdistinct
      rw [List.map_cons, List.reverse_cons, List.find?_append, Option.map_or, ih]
      by_cases heq : entry.1 = name
      · have hnone : attributes.find? (·.1 = name) = none := by
          rw [List.find?_eq_none]
          intro other hother hsame
          have hsame : other.1 = name := by simpa using hsame
          exact hnew (List.mem_map.mpr ⟨other, hother, hsame.trans heq.symm⟩)
        simp [hnone, heq, hself]
      · have hkey : keyOf classes entry.1 ≠ name.toList := fun hkey =>
          heq (hfirst.bare name hname hkey)
        simp [hkey, heq]

theorem PlainElement.asString (hplain : PlainElement classes element) (name : String) :
    element.asString name = (element.xmlAttribute name).getD "" := by
  unfold XmlNode.asString XmlNode.xmlAttribute
  cases hfind : element.attributes.find? (·.1 = name) with
  | none => rfl
  | some entry => exact (hplain.attributes entry (List.mem_of_find?_eq_some hfind)).noNul.cText_eq

theorem PlainElement.uaSymbolicNode (hplain : PlainElement classes element) :
    NodeStateXml.uaSymbolicNode classes (element.attributes.map fun entry =>
      (keyOf classes entry.1, entry.2.toList)) = symbolicNode classes element := by
  have hid : ((element.xmlAttribute "NodeId").map String.toList).getD [] =
      (element.asString "NodeId").toList := by
    rw [hplain.asString]
    cases element.xmlAttribute "NodeId" <;> rfl
  unfold NodeStateXml.uaSymbolicNode symbolicNode
  rw [hplain.dictGet (by decide), hplain.dictGet (by decide), hid, hplain.asString "SymbolicName"]
  cases element.xmlAttribute "SymbolicName" with
  | none => cases matchUaId classes (element.asString "NodeId").toList <;> rfl
  | some sym =>
      cases matchUaId classes (element.asString "NodeId").toList with
      | none => rfl
      | some found =>
          show (if sym.toList = [] then none else some (String.ofList sym.toList, _, _)) =
            if sym = "" then none else some (sym, _, _)
          rw [String.ofList_toList]
          exact if_congr String.toList_eq_nil_iff rfl rfl

/-- **The generator yields** the symbolic nodes of the elements that are written. -/
theorem uaSymbolicNodes_eq (h : NodeSetText elements text)
    (hplain : ∀ element ∈ elements, PlainElement classes element)
    (hnames : ∀ element ∈ elements, UaName element.name) :
    uaSymbolicNodes classes text = elements.filterMap (symbolicNode classes) := by
  induction h with
  | @done gap hgap =>
      have hnothing : uaSymbolicNodes classes (gap ++ []) = [] :=
        uaSymbolicNodes_gap hgap (by rintro c ⟨⟩)
      rw [List.append_nil] at hnothing
      exact hnothing
  | @element element elements gap tag text hgap htag _ ih =>
      obtain ⟨hplain, hplains⟩ := List.forall_mem_cons.mp hplain
      obtain ⟨hname, hnames⟩ := List.forall_mem_cons.mp hnames
      have htext : ∀ c ∈ (tag ++ text).head?, c = '<' := by
        cases htag
        rintro c ⟨⟩
        rfl
      rw [uaSymbolicNodes_gap hgap htext, uaSymbolicNodes_tag hplain hname htag,
        hplain.uaSymbolicNode, ih hplains hnames, List.filterMap_cons]
      cases symbolicNode classes element <;> rfl

/-- A text that begins with the root is a node set for the generator. -/
theorem isUaNodeSet_of_text (h : NodeSetText (element :: elements) text)
    (hname : element.name = kUaRootTag) : isUaNodeSet classes text = true := by
  cases h with
  | @element _ _ gap tag rest hgap htag _ =>
      cases htag with
      | @mk inside ending hattributes hending =>
      have hcases : ending = ['>'] ∨ ending = ['/', '>'] := by simpa using hending
      refine List.any_eq_true.mpr ⟨_, ( List.mem_tails _ _).mpr (List.suffix_append gap _), ?_⟩
      have hletters : '<' :: element.name.toList = "<UANodeSet".toList := by
        rw [hname]
        rfl
      have hsplit : '<' :: (element.name.toList ++ (inside ++ ending)) ++ rest =
          "<UANodeSet".toList ++ (inside ++ (ending ++ rest)) := by
        rw [← hletters]
        simp
      have hend : ((inside ++ (ending ++ rest)).head?.any classes.isWord) = false := by
        rcases hattributes.head with ⟨rfl, -⟩ | ⟨c, inside, rfl, hc⟩
        · rcases hcases with rfl | rfl <;> rfl
        · exact UnicodeClasses.isWord_of_isSpace (UnicodeClasses.isSpace_of_mem hc)
      rw [hsplit, Bool.and_eq_true, List.isPrefixOf_iff_prefix]
      refine ⟨List.prefix_append _ _, ?_⟩
      rw [show (10 : ℕ) = "<UANodeSet".toList.length from rfl, List.drop_left, hend]
      rfl

end

/-! ## §6  Constants and ids -/

/-- The digits of the index that an element is written with. -/
def writtenIndex (classes : UnicodeClasses) (element : XmlNode) : Option (List Char) :=
  (matchUaId classes (element.asString "NodeId").toList).bind (·.1)

/-- The generator reads every text that means an id. -/
theorem UaIdText.matched (classes : UnicodeClasses) {index number : ℕ} {text : List Char}
    (h : UaIdText index number text) :
    ∃ written digits, matchUaId classes text = some (written, digits) ∧
      classes.intValue digits = number ∧
      written.elim 0 (fun written => numeralValue written % 2 ^ 16) = index := by
  have hend : ∀ {digits : List Char}, IsNumeral digits →
      digits.takeWhile classes.isDigit = digits := fun hdigits =>
    List.takeWhile_eq_self_iff.mpr fun c hc => UnicodeClasses.isDigit_of_isDigit (hdigits.2 c hc)
  cases h with
  | @plain digits hdigits hlt =>
      refine ⟨none, digits, ?_, UnicodeClasses.intValue_eq hdigits.2, rfl⟩
      rw [matchUaId, hend hdigits, if_pos hdigits.1]
  | @qualified written digits hindex hindexLt hdigits hlt =>
      refine ⟨some written, digits, ?_, UnicodeClasses.intValue_eq hdigits.2, rfl⟩
      obtain ⟨htake, hdrop⟩ := split_run (p := classes.isDigit)
        (';' :: 'i' :: '=' :: digits)
        (fun c hc => UnicodeClasses.isDigit_of_isDigit (hindex.2 c hc)) (by rintro c ⟨⟩; rfl)
      simp only [matchUaId, htake, hdrop, hend hdigits]
      rw [if_pos ⟨hindex.1, hdigits.1⟩]

theorem ofNumeric_inj {number namespaceIndex namespaceIndex' : ℕ} :
    NodeId.ofNumeric number namespaceIndex = .ofNumeric number namespaceIndex' ↔
      namespaceIndex = namespaceIndex' := by
  refine ⟨fun h => ?_, fun h => by rw [h]⟩
  have hindex : ∀ namespaceIndex,
      (NodeId.ofNumeric number namespaceIndex).namespaceIndex = namespaceIndex := by
    intro namespaceIndex
    unfold NodeId.ofNumeric
    split
    · rename_i hzero
      exact hzero.2.symm
    · rfl
  rw [← hindex namespaceIndex, h, hindex]

/-- A name that stands for nothing stands for itself. -/
theorem UaTables.resolve_eq_self {tables : UaTables} {text : String}
    (h : ∀ entry ∈ tables.aliases, entry.1 ≠ text) : tables.resolve text = text := by
  have hnone : tables.aliases.find? (·.1 = text) = none := by
    rw [List.find?_eq_none]
    intro entry hentry
    simpa using h entry hentry
  unfold UaTables.resolve
  rw [hnone]
  rfl

/-- The namespace of a constant is the one that the index of its node means. -/
theorem constant_namespace_iff {tables : UaTables} {written : Option (List Char)}
    (hnamespaces : tables.namespaces = [0, scadaNamespaceIndex]) :
    (if written.getD ['0'] = ['1'] then 7 else 0) =
        tables.globalNamespace (written.elim 0 fun index => numeralValue index % 2 ^ 16) ↔
      ∀ index ∈ written, index = ['1'] ∨ numeralValue index % 2 ^ 16 = 0 := by
  have hzero : ∀ index, 0 = tables.globalNamespace index ↔ index = 0 := by
    intro index
    unfold UaTables.globalNamespace
    rw [hnamespaces]
    cases index with
    | zero => exact iff_of_true rfl rfl
    | succ index =>
        refine iff_of_false ?_ (Nat.succ_ne_zero index)
        cases index with
        | zero => exact Nat.zero_ne_add_one 6
        | succ index => exact Nat.zero_ne_add_one (index + 1)
  have hone : tables.globalNamespace (numeralValue ['1'] % 2 ^ 16) = 7 := by
    have hvalue : numeralValue ['1'] % 2 ^ 16 = 1 := by decide
    rw [hvalue, UaTables.globalNamespace, hnamespaces]
    rfl
  cases written with
  | none => exact iff_of_true ((hzero 0).mpr rfl) (by simp)
  | some index =>
      simp only [Option.getD_some, Option.elim_some, Option.mem_some_iff, forall_eq']
      by_cases hwritten : index = ['1']
      · rw [if_pos hwritten, hwritten]
        exact iff_of_true hone.symm (Or.inl rfl)
      · rw [if_neg hwritten, hzero, or_iff_right hwritten]

/-- The elements that stand for nodes have names of their own. -/
theorem uaName_of_mem {root element : XmlNode} (h : element ∈ root.uaElements) :
    UaName element.name := by
  have hclass := (List.mem_filter.mp h).2
  unfold parseUaElementClass at hclass
  obtain ⟨nodeClass, hclass⟩ := Option.isSome_iff_exists.mp hclass
  obtain ⟨entry, hfind, -⟩ := Option.map_eq_some_iff.mp hclass
  have hname : entry.1 = element.name := by simpa using List.find?_some hfind
  have hall : ∀ entry ∈ kUaElements, entry.1.toList.take 2 = ['U', 'A'] ∧
      entry.1.toList.drop 2 ≠ [] ∧ (entry.1.toList.drop 2).all Char.isAlphanum = true := by
    decide
  obtain ⟨htake, hne, hword⟩ := hall entry (List.mem_of_find?_eq_some hfind)
  refine ⟨entry.1.toList.drop 2, ?_, hne, List.all_eq_true.mp hword⟩
  rw [← hname]
  conv_lhs => rw [← List.take_append_drop 2 entry.1.toList, htake]
  rfl

section

variable {D X : Type} {library : Library D} {tables : UaTables} {element : XmlNode}
  {state : NodeState D X} {classes : UnicodeClasses}

theorem Says.constant (h : Says library tables element state)
    (hnamespaces : tables.namespaces = [0, scadaNamespaceIndex])
    (haliases : ∀ entry ∈ tables.aliases, entry.1 ≠ element.asString "NodeId")
    (hname : element.asString "SymbolicName" ≠ "") :
    ∃ nsIndex number : ℕ,
      symbolicNode classes element = some (element.asString "SymbolicName", (nsIndex : ℤ), number) ∧
      (NodeId.ofNumeric number nsIndex = state.nodeId ↔
        ∀ index ∈ writtenIndex classes element,
          index = ['1'] ∨ numeralValue index % 2 ^ 16 = 0) := by
  obtain ⟨-, index, number, hmeans, hid⟩ := h.nodeId
  rw [UaTables.resolve_eq_self haliases] at hmeans
  obtain ⟨written, digits, hmatch, rfl, rfl⟩ := hmeans.matched classes
  refine ⟨if written.getD ['0'] = ['1'] then 7 else 0, classes.intValue digits, ?_, ?_⟩
  · unfold symbolicNode
    rw [hmatch, apply_ite Nat.cast]
    exact if_neg hname
  · rw [hid, ofNumeric_inj, constant_namespace_iff hnamespaces]
    unfold writtenIndex
    rw [hmatch]
    rfl

end

/-- A file of two objects, of which the second is in a namespace that is not listed. -/
def categoriesRoot : XmlNode where
  name := "UANodeSet"
  attributes := [("xmlns:uax", "http://opcfoundation.org/UA/2008/02/Types.xsd")]
  children := [
    { name := "NamespaceUris"
      children := [{ name := "Uri", text := "http://telecontrol.ru/opcua/scada" }] },
    { name := "Aliases"
      children := [{ name := "Alias", attributes := [("Alias", "Organizes")], text := "i=35" }] },
    { name := "UAObject"
      attributes := [("NodeId", "ns=1;i=310"), ("BrowseName", "PropertyCategories"),
        ("SymbolicName", "PropertyCategories")] },
    { name := "UAObject"
      attributes := [("NodeId", "ns=2;i=312"), ("SymbolicName", "GeneralPropertyCategory")] }]

def categoriesFile : XmlNode := { name := "", children := [categoriesRoot] }

/-- Nothing is known beyond ASCII. -/
def UnicodeClasses.ascii : UnicodeClasses where
  word _ := false
  space _ := false
  digit _ := none
  disjoint _ h := by cases h

/-- One way to write the start of an element. -/
def writeTag (element : XmlNode) (ending : List Char) : List Char :=
  '<' :: (element.name.toList ++ (element.attributes.flatMap (fun entry =>
    ' ' :: (entry.1.toList ++ ('=' :: '"' :: (entry.2.toList ++ ['"'])))) ++ ending))

theorem tagText_writeTag (element : XmlNode) {ending : List Char}
    (hending : ending ∈ [['>'], ['/', '>']]) : TagText element (writeTag element ending) := by
  refine .mk ?_ hending
  generalize element.attributes = attributes
  induction attributes with
  | nil => exact .done (by simp)
  | cons entry attributes ih =>
      exact @AttributesText.entry entry.1 entry.2 attributes [' '] _ (by simp [xmlSpaces])
        (by decide) ih

def categoriesText : List Char :=
  writeTag categoriesRoot ['>'] ++ ("\n<Aliases/> <!-- Categories -->\n".toList ++
    (writeTag categoriesRoot.children[2] ['>'] ++ ("</UAObject>\n".toList ++
      (writeTag categoriesRoot.children[3] ['/', '>'] ++ "\n</UANodeSet>\n".toList))))

theorem nodeSetText_categories :
    NodeSetText (categoriesRoot :: categoriesRoot.uaElements) categoriesText := by
  have hobjects : NodeSetText categoriesRoot.uaElements
      ("\n<Aliases/> <!-- Categories -->\n".toList ++
        (writeTag categoriesRoot.children[2] ['>'] ++ ("</UAObject>\n".toList ++
          (writeTag categoriesRoot.children[3] ['/', '>'] ++ "\n</UANodeSet>\n".toList)))) :=
    .element (by decide +kernel) (tagText_writeTag _ (by decide))
      (.element (by decide +kernel) (tagText_writeTag _ (by decide)) (.done (by decide +kernel)))
  exact @NodeSetText.element categoriesRoot _ [] _ _ (by decide)
    (tagText_writeTag categoriesRoot (by decide)) hobjects

end ScadaCommon.NodeStateXml
