import ScadaCommon.Foundation.Decimals
import ScadaCommon.Model.NodeIdUtil

/-!
# Formatted numbers

`FormatFloat` prints a number with as many decimals as the format has characters behind its
dot, and strips the zeros that stand for `#` at its end. The length of the part behind the
dot is what is left of the whole format; the `#` that stand first are skipped, and counted.

§1 numbers · §2 the function · §3 stripped zeros · §4 formats · §5 the law.
-/

namespace ScadaCommon

open Foundation

/-! ## §1  Numbers -/

/-- A finite `double`: a sign, and a mantissa times a power of two. -/
structure FiniteDouble where
  negative : Bool
  mantissa : ℕ
  exponent : ℤ
deriving DecidableEq

namespace FiniteDouble

/-- The magnitude in units of the last of these decimals. -/
def rounded (val : FiniteDouble) (decimals : ℕ) : ℕ :=
  divideToEven (val.mantissa * 2 ^ val.exponent.toNat * 10 ^ decimals)
    (2 ^ (-val.exponent).toNat)

def sign (val : FiniteDouble) : List Char :=
  if val.negative then ['-'] else []

/-- The digits before the dot. -/
def whole (val : FiniteDouble) (decimals : ℕ) : List Char :=
  Nat.toDigits 10 (val.rounded decimals / 10 ^ decimals)

/-- The digits behind the dot. -/
def decimalDigits (val : FiniteDouble) (decimals : ℕ) : List Char :=
  lastDigits decimals (val.rounded decimals)

end FiniteDouble

/-- Decimals with their dot; there is none without decimals. -/
def pointed (decimals : List Char) : List Char :=
  if decimals = [] then [] else '.' :: decimals

/-- `snprintf` of `%.*f`. -/
def printFixed (precision : ℕ) (val : FiniteDouble) : List Char :=
  val.sign ++ val.whole precision ++ pointed (val.decimalDigits precision)

/-! ## §2  The function -/

/-- The size of the buffer. -/
def kBufferSize : ℕ := 64

/-- The loop that strips zeros: where the text stops, and its decimals. -/
def stripZeros (buffer : List Char) (minDecimals : ℕ) : ℕ → ℕ → ℕ × ℕ
  | stop, 0 => (stop, 0)
  | stop, decimals + 1 =>
      if minDecimals < decimals + 1 ∧ buffer[stop - 1]? = some '0' then
        stripZeros buffer minDecimals (stop - 1) decimals
      else (stop, decimals + 1)

/-- Where the text stops without zeros and without a dangling dot. -/
def strippedEnd (buffer : List Char) (minDecimals : ℕ) : ℕ :=
  let dotPos := buffer.findIdx (· = '.')
  let (stop, decimals) :=
    stripZeros buffer minDecimals buffer.length (buffer.length - dotPos - 1)
  if decimals = 0 ∧ 0 < stop ∧ buffer[stop - 1]? = some '.' then stop - 1 else stop

/-- `FormatFloat` -/
def formatFloat (val : FiniteDouble) (fmt : String) : String :=
  let chars := cString fmt.toList
  let left := chars.dropWhile (· = '#')
  match splitFirst '.' left with
  | none =>
      let buffer := printFixed 0 val
      if kBufferSize ≤ buffer.length then "" else String.ofList buffer
  | some (beforeDot, afterDot) =>
      -- the whole format is counted here, with the `#` that were skipped
      let rlen := chars.length - beforeDot.length - 1
      let buffer := printFixed rlen val
      if kBufferSize ≤ buffer.length then ""
      else
        let optionalDigits := (afterDot.reverse.takeWhile (· = '#')).length
        if 0 < rlen ∧ 0 < optionalDigits then
          String.ofList (buffer.take (strippedEnd buffer (rlen - optionalDigits)))
        else String.ofList buffer

example : formatFloat ⟨false, 21, -1⟩ "0.00##" = "10.50" := by decide

example : formatFloat ⟨false, 10, 0⟩ "0.####" = "10" := by decide

/-! ## §3  Stripped zeros -/

section

variable {buffer front digits after : List Char} {minDecimals : ℕ}

/-- The loop strips zeros from the end until there are no more, or too few decimals. -/
theorem stripZeros_spec (hmin : minDecimals ≤ digits.length)
    (hbuffer : buffer = front ++ digits ++ after) :
    ∃ kept removed, digits = kept ++ List.replicate removed '0' ∧
      stripZeros buffer minDecimals (front.length + digits.length) digits.length =
        (front.length + kept.length, kept.length) ∧
      minDecimals ≤ kept.length ∧
        (kept.length = minDecimals ∨ kept.getLast? ≠ some '0') := by
  induction digits using List.reverseRecOn generalizing after with
  | nil =>
      refine ⟨[], 0, rfl, rfl, hmin, .inl ?_⟩
      exact (Nat.zero_le _).antisymm hmin
  | append_singleton digits d ih =>
      rw [List.length_append, List.length_singleton] at hmin
      have hlast : buffer[front.length + digits.length]? = some d := by
        rw [hbuffer]
        simp
      rw [List.length_append, List.length_singleton, ← add_assoc, stripZeros,
        Nat.add_sub_cancel, hlast]
      by_cases hstrip : minDecimals < digits.length + 1 ∧ d = '0'
      · obtain ⟨hlt, rfl⟩ := hstrip
        rw [if_pos ⟨hlt, rfl⟩]
        obtain ⟨kept, removed, hdigits, hloop, hkept, hstop⟩ :=
          @ih ('0' :: after) (Nat.le_of_lt_succ hlt) (by rw [hbuffer]; simp)
        refine ⟨kept, removed + 1, ?_, hloop, hkept, hstop⟩
        rw [hdigits, List.replicate_succ', List.append_assoc]
      · rw [if_neg (by simpa using hstrip)]
        refine ⟨digits ++ [d], 0, by simp, by simp [add_assoc], by simpa using hmin, ?_⟩
        rw [List.getLast?_concat, List.length_append, List.length_singleton]
        by_cases hlt : minDecimals < digits.length + 1
        · exact .inr fun heq => hstrip ⟨hlt, Option.some_inj.mp heq⟩
        · exact .inl (by omega)

/-- **What is kept of a printed number** is its digits without the optional zeros, and
without a dangling dot. -/
theorem take_strippedEnd {optionalDigits : ℕ} (hfront : '.' ∉ front)
    (hle : optionalDigits ≤ digits.length) :
    ∃ kept, IsStripped '0' optionalDigits digits kept ∧
      (front ++ '.' :: digits).take
          (strippedEnd (front ++ '.' :: digits) (digits.length - optionalDigits)) =
        front ++ pointed kept := by
  have hdot : (front ++ '.' :: digits).findIdx (· = '.') = front.length := by
    have hnone : front.findIdx (· = '.') = front.length := by
      rw [List.findIdx_eq_length_of_false]
      intro c hc
      rw [decide_eq_false_iff_not]
      rintro rfl
      exact hfront hc
    rw [List.findIdx_append, hnone, if_neg (lt_irrefl _), List.findIdx_cons]
    simp
  obtain ⟨kept, removed, hdigits, hloop, hkept, hstop⟩ := stripZeros_spec
    (Nat.sub_le digits.length optionalDigits)
    (show front ++ '.' :: digits = (front ++ ['.']) ++ digits ++ [] by simp)
  have hcount := congrArg List.length hdigits
  rw [List.length_append, List.length_replicate] at hcount
  have hlength : (front ++ '.' :: digits).length = front.length + 1 + digits.length := by
    rw [List.length_append, List.length_cons]
    omega
  rw [List.length_append, List.length_singleton] at hloop
  refine ⟨kept, ⟨removed, by omega, hdigits, ?_⟩, ?_⟩
  · rcases hstop with heq | hne
    · exact .inl (by omega)
    · exact .inr hne
  · have hdecimals : front.length + 1 + digits.length - front.length - 1 = digits.length := by
      omega
    rw [strippedEnd, hdot, hlength]
    simp only [hdecimals, hloop]
    cases kept with
    | nil => simp [pointed]
    | cons d kept =>
        rw [if_neg (by simp), pointed, if_neg (by simp), hdigits]
        have hsplit : front ++ '.' :: (d :: kept ++ List.replicate removed '0') =
            (front ++ '.' :: d :: kept) ++ List.replicate removed '0' := by
          simp
        rw [hsplit, List.take_left']
        simp
        omega

end

/-! ## §4  Formats -/

/-- `#` and `0` before the dot, and `0` and `#` behind it, if there is one. -/
structure FloatFormat where
  hashes : ℕ
  zeros : ℕ
  decimals : Option (ℕ × ℕ)
deriving DecidableEq

namespace FloatFormat

def beforeDot (fmt : FloatFormat) : List Char :=
  List.replicate fmt.hashes '#' ++ List.replicate fmt.zeros '0'

def afterDot (required optional : ℕ) : List Char :=
  List.replicate required '0' ++ List.replicate optional '#'

def text (fmt : FloatFormat) : String :=
  String.ofList (fmt.beforeDot ++
    match fmt.decimals with
    | none => []
    | some (required, optional) => '.' :: afterDot required optional)

/-- The decimals that are printed. -/
def printed (fmt : FloatFormat) : ℕ :=
  match fmt.decimals with
  | none => 0
  | some (required, optional) => fmt.hashes + required + optional

/-- The decimals that have to be printed, and those that may be stripped. -/
def required (fmt : FloatFormat) : ℕ :=
  (fmt.decimals.getD (0, 0)).1

def optional (fmt : FloatFormat) : ℕ :=
  (fmt.decimals.getD (0, 0)).2

end FloatFormat

/-- The text is the number, rounded to the decimals, without zeros at its end that are
optional. -/
def ObeysFormat (val : FiniteDouble) (required optional : ℕ) (text : String) : Prop :=
  ∃ kept, IsStripped '0' optional (val.decimalDigits (required + optional)) kept ∧
    text.toList = val.sign ++ val.whole (required + optional) ++ pointed kept

/-- Where the characters that are skipped do not show: the number needs the decimals that
they add, and has as many optional ones. -/
def NeedsDecimals (val : FiniteDouble) (more required optional : ℕ) : Prop :=
  more ≤ optional ∧
    val.rounded (required + optional + more) = val.rounded (required + optional) * 10 ^ more ∧
    ¬ 10 ^ (optional + 1 - more) ∣ val.rounded (required + optional)

/-- No characters are skipped before a dot, or they do not show. -/
def FloatFormat.Fits (fmt : FloatFormat) (val : FiniteDouble) : Prop :=
  fmt.decimals = none ∨ fmt.hashes = 0 ∨
    NeedsDecimals val fmt.hashes fmt.required fmt.optional

section

variable {val : FiniteDouble} {hashes zeros required optional : ℕ}

theorem dropWhile_hashes {rest : List Char} (h : rest.head? ≠ some '#') :
    (List.replicate hashes '#' ++ rest).dropWhile (· = '#') = rest := by
  induction hashes with
  | zero =>
      cases rest with
      | nil => rfl
      | cons c rest =>
          have hc : c ≠ '#' := by simpa using h
          simp [hc]
  | succ hashes ih => simpa [List.replicate_succ] using ih

theorem takeWhile_hashes (required optional : ℕ) :
    ((FloatFormat.afterDot required optional).reverse.takeWhile (· = '#')).length = optional := by
  rw [FloatFormat.afterDot, List.reverse_append, List.reverse_replicate, List.reverse_replicate,
    List.takeWhile_append_of_pos (by simp)]
  simp

theorem dot_notMem_zeros (zeros : ℕ) : '.' ∉ List.replicate zeros '0' := by
  simp [List.mem_replicate]

theorem dot_notMem_whole (val : FiniteDouble) (decimals : ℕ) :
    '.' ∉ val.sign ++ val.whole decimals := by
  rw [List.mem_append, not_or]
  constructor
  · unfold FiniteDouble.sign
    split <;> simp
  · exact fun hmem => absurd rfl (not_digit_of_eq rfl ((isNumeral_toDigits _).2 _ hmem))

theorem cString_format (fmt : FloatFormat) : cString fmt.text.toList = fmt.text.toList := by
  rw [cString_eq_self, FloatFormat.text, String.toList_ofList]
  intro c hc
  have hchar : c = '#' ∨ c = '0' ∨ c = '.' := by
    cases hdecimals : fmt.decimals with
    | none =>
        rw [hdecimals] at hc
        simp only [FloatFormat.beforeDot, List.append_nil, List.mem_append,
          List.mem_replicate] at hc
        tauto
    | some decimals =>
        rw [hdecimals] at hc
        simp only [FloatFormat.beforeDot, FloatFormat.afterDot, List.mem_append, List.mem_cons,
          List.mem_replicate] at hc
        tauto
  rcases hchar with rfl | rfl | rfl <;> decide

/-- Without a dot the number is printed as it is. -/
theorem formatFloat_none (hfits : (printFixed 0 val).length < kBufferSize) :
    formatFloat val (FloatFormat.mk hashes zeros none).text =
      String.ofList (printFixed 0 val) := by
  have hleft : (FloatFormat.mk hashes zeros none).text.toList.dropWhile (· = '#') =
      List.replicate zeros '0' := by
    rw [FloatFormat.text, String.toList_ofList, FloatFormat.beforeDot, List.append_nil]
    apply dropWhile_hashes
    cases zeros <;> simp [List.replicate_succ]
  rw [formatFloat, cString_format]
  simp only [hleft, splitFirst_eq_none.mpr (dot_notMem_zeros zeros), if_neg (not_le.mpr hfits)]

/-- With a dot the skipped characters are counted as decimals. -/
theorem formatFloat_some
    (hfits : (printFixed (hashes + required + optional) val).length < kBufferSize) :
    formatFloat val (FloatFormat.mk hashes zeros (some (required, optional))).text =
      if 0 < hashes + required + optional ∧ 0 < optional then
        String.ofList ((printFixed (hashes + required + optional) val).take
          (strippedEnd (printFixed (hashes + required + optional) val) (hashes + required)))
      else String.ofList (printFixed (hashes + required + optional) val) := by
  have htext : (FloatFormat.mk hashes zeros (some (required, optional))).text.toList =
      List.replicate hashes '#' ++
        (List.replicate zeros '0' ++ '.' :: FloatFormat.afterDot required optional) := by
    simp [FloatFormat.text, FloatFormat.beforeDot]
  have hleft : (FloatFormat.mk hashes zeros (some (required, optional))).text.toList.dropWhile
      (· = '#') = List.replicate zeros '0' ++ '.' :: FloatFormat.afterDot required optional := by
    rw [htext]
    apply dropWhile_hashes
    cases zeros <;> simp [List.replicate_succ]
  have hlength : (FloatFormat.mk hashes zeros (some (required, optional))).text.toList.length -
      (List.replicate zeros '0').length - 1 = hashes + required + optional := by
    rw [htext]
    simp [FloatFormat.afterDot]
    omega
  have hmin : hashes + required + optional - optional = hashes + required := by omega
  rw [formatFloat, cString_format]
  simp only [hleft, splitFirst_append (dot_notMem_zeros zeros), hlength,
    if_neg (not_le.mpr hfits), takeWhile_hashes, hmin]

end

/-! ## §5  The law -/

section

variable {val : FiniteDouble} {hashes zeros required optional : ℕ}

/-- A dot stands before decimals only. -/
theorem pointed_inj {front front' kept kept' : List Char} (hfront : '.' ∉ front)
    (hfront' : '.' ∉ front') :
    front ++ pointed kept = front' ++ pointed kept' ↔ front = front' ∧ kept = kept' := by
  have hsplit : ∀ (front kept : List Char), '.' ∉ front →
      splitFirst '.' (front ++ pointed kept) =
        if kept = [] then none else some (front, kept) := by
    intro front kept hfront
    by_cases hkept : kept = []
    · rw [if_pos hkept, splitFirst_eq_none]
      simpa [pointed, hkept] using hfront
    · rw [if_neg hkept, pointed, if_neg hkept, splitFirst_append hfront]
  constructor
  · intro h
    have hboth := (hsplit front kept hfront).symm.trans (h ▸ hsplit front' kept' hfront')
    by_cases hkept : kept = []
    · by_cases hkept' : kept' = []
      · simpa [pointed, hkept, hkept'] using h
      · simp [hkept, hkept'] at hboth
    · by_cases hkept' : kept' = []
      · simp [hkept, hkept'] at hboth
      · simpa [hkept, hkept'] using hboth
  · rintro ⟨rfl, rfl⟩
    rfl

/-- All decimals are kept where none is optional. -/
theorem obeysFormat_printFixed (val : FiniteDouble) (decimals : ℕ) :
    ObeysFormat val decimals 0 (String.ofList (printFixed decimals val)) := by
  refine ⟨val.decimalDigits decimals, ⟨0, le_rfl, ?_, .inl rfl⟩, ?_⟩
  · simp
  · simp [printFixed]

/-- **The text obeys the format with its leading characters moved behind the dot.** -/
theorem obeysFormat_formatFloat
    (hfits : (printFixed (hashes + required + optional) val).length < kBufferSize) :
    ObeysFormat val (hashes + required) optional
      (formatFloat val (FloatFormat.mk hashes zeros (some (required, optional))).text) := by
  rw [formatFloat_some hfits]
  split
  · rename_i hstripped
    have hdigits : val.decimalDigits (hashes + required + optional) ≠ [] := by
      rw [← List.length_pos_iff, FiniteDouble.decimalDigits, length_lastDigits]
      exact hstripped.1
    have hle : optional ≤ (val.decimalDigits (hashes + required + optional)).length := by
      rw [FiniteDouble.decimalDigits, length_lastDigits]
      exact Nat.le_add_left _ _
    obtain ⟨kept, hkept, htake⟩ :=
      take_strippedEnd (dot_notMem_whole val (hashes + required + optional)) hle
    have hmin : (val.decimalDigits (hashes + required + optional)).length - optional =
        hashes + required := by
      rw [FiniteDouble.decimalDigits, length_lastDigits, Nat.add_sub_cancel]
    refine ⟨kept, hkept, ?_⟩
    rw [hmin] at htake
    rw [String.toList_ofList, printFixed, pointed, if_neg hdigits, htake]
  · rename_i hwhole
    obtain rfl : optional = 0 := by omega
    exact obeysFormat_printFixed val (hashes + required)

theorem toDigits_inj {n m : ℕ} : Nat.toDigits 10 n = Nat.toDigits 10 m ↔ n = m := by
  constructor
  · intro h
    rw [← numeralValue_toDigits n, h, numeralValue_toDigits]
  · rintro rfl
    rfl

/-- Whole part and decimals tell the number. -/
theorem digits_eq_iff {n m decimals more : ℕ} :
    (Nat.toDigits 10 (n / 10 ^ (decimals + more)) = Nat.toDigits 10 (m / 10 ^ decimals) ∧
      lastDigits (decimals + more) n =
        lastDigits decimals m ++ List.replicate more '0') ↔ n = m * 10 ^ more := by
  have hpos : 0 < 10 ^ more := Nat.pow_pos (by decide)
  have hdiv : m / 10 ^ decimals = m * 10 ^ more / 10 ^ (decimals + more) := by
    rw [pow_add, Nat.mul_div_mul_right _ _ hpos]
  rw [← lastDigits_mul_pow, lastDigits_inj, toDigits_inj, hdiv]
  constructor
  · rintro ⟨hwhole, hrest⟩
    rw [← Nat.div_add_mod n (10 ^ (decimals + more)), hwhole, hrest, Nat.div_add_mod]
  · rintro rfl
    exact ⟨rfl, rfl⟩

/-- **Obeying both formats**, with the leading characters counted as decimals and without. -/
theorem obeysFormat_iff {more : ℕ} {text : String}
    (h : ObeysFormat val (more + required) optional text) :
    ObeysFormat val required optional text ↔
      more = 0 ∨ NeedsDecimals val more required optional := by
  obtain ⟨kept, hkept, htext⟩ := h
  have hdecimals : more + required + optional = required + optional + more := by omega
  rw [hdecimals] at hkept htext
  have hother : ∀ other : List Char,
      text.toList = val.sign ++ val.whole (required + optional) ++ pointed other ↔
        val.whole (required + optional + more) = val.whole (required + optional) ∧
          kept = other := by
    intro other
    rw [htext, pointed_inj (dot_notMem_whole _ _) (dot_notMem_whole _ _), List.append_cancel_left_eq]
  have hlength : (val.decimalDigits (required + optional + more)).length =
      (val.decimalDigits (required + optional)).length + more := by
    simp [FiniteDouble.decimalDigits]
  have hneeds : IsStripped '0' optional (val.decimalDigits (required + optional)) kept ∧
      val.whole (required + optional + more) = val.whole (required + optional) ↔
        val.rounded (required + optional + more) = val.rounded (required + optional) * 10 ^ more ∧
          (more = 0 ∨ (more ≤ optional ∧
            ¬ EndsIn '0' (optional + 1 - more) (val.decimalDigits (required + optional)))) := by
    rw [isStripped_iff_of_longer hkept hlength, ← digits_eq_iff]
    constructor
    · rintro ⟨⟨hlonger, hmore⟩, hwhole⟩
      exact ⟨⟨hwhole, hlonger⟩, hmore⟩
    · rintro ⟨⟨hwhole, hlonger⟩, hmore⟩
      exact ⟨⟨hlonger, hmore⟩, hwhole⟩
  have hends : more ≠ 0 → (EndsIn '0' (optional + 1 - more)
      (val.decimalDigits (required + optional)) ↔
        10 ^ (optional + 1 - more) ∣ val.rounded (required + optional)) := fun hmore =>
    endsIn_lastDigits_iff (by omega)
  have hexists : ObeysFormat val required optional text ↔
      IsStripped '0' optional (val.decimalDigits (required + optional)) kept ∧
        val.whole (required + optional + more) = val.whole (required + optional) := by
    simp only [ObeysFormat, hother]
    constructor
    · rintro ⟨other, hstripped, hwhole, rfl⟩
      exact ⟨hstripped, hwhole⟩
    · rintro ⟨hstripped, hwhole⟩
      exact ⟨kept, hstripped, hwhole, rfl⟩
  rw [hexists, hneeds]
  by_cases hmore : more = 0
  · subst hmore
    simp
  · simp only [hmore, false_or, NeedsDecimals, hends hmore]
    tauto

/-- **The number is printed as the format says** exactly if the format has no `#` before a
dot, or if the number needs the decimals that these add. -/
theorem number_format_iff (val : FiniteDouble) (fmt : FloatFormat)
    (hfits : (printFixed fmt.printed val).length < kBufferSize) :
    ObeysFormat val fmt.required fmt.optional (formatFloat val fmt.text) ↔ fmt.Fits val := by
  obtain ⟨hashes, zeros, decimals⟩ := fmt
  cases decimals with
  | none =>
      refine iff_of_true ?_ (.inl rfl)
      rw [formatFloat_none hfits]
      exact obeysFormat_printFixed val 0
  | some decimals =>
      obtain ⟨required, optional⟩ := decimals
      have hobeys : ObeysFormat val (hashes + required) optional
          (formatFloat val (FloatFormat.mk hashes zeros (some (required, optional))).text) :=
        obeysFormat_formatFloat hfits
      refine (obeysFormat_iff hobeys).trans ?_
      simp [FloatFormat.Fits, FloatFormat.required, FloatFormat.optional]

end

theorem number_format_iff_optional :
    ObeysFormat ⟨false, 21, -1⟩ 0 4 (formatFloat ⟨false, 21, -1⟩ "0.####") :=
  (number_format_iff ⟨false, 21, -1⟩ ⟨0, 1, some (0, 4)⟩ (by decide)).mpr (.inr (.inl rfl))

/-- Two decimals are asked for, and three are printed. -/
theorem hash_adds_decimal :
    (FloatFormat.mk 1 1 (some (2, 0))).text = "#0.00" ∧
      formatFloat ⟨false, 21, -1⟩ "#0.00" = "10.500" ∧
      ObeysFormat ⟨false, 21, -1⟩ 2 0 "10.50" ∧
      ¬ ObeysFormat ⟨false, 21, -1⟩ 2 0 (formatFloat ⟨false, 21, -1⟩ "#0.00") := by
  refine ⟨by decide, by decide, obeysFormat_printFixed ⟨false, 21, -1⟩ 2, ?_⟩
  intro hobeys
  have hprinted : ObeysFormat ⟨false, 21, -1⟩ (1 + 2) 0 (formatFloat ⟨false, 21, -1⟩ "#0.00") :=
    obeysFormat_printFixed ⟨false, 21, -1⟩ 3
  rcases (obeysFormat_iff hprinted).mp hobeys with hzero | hneeds
  · exact absurd hzero (by decide)
  · exact absurd hneeds.1 (by decide)

end ScadaCommon
