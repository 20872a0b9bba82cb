import Mathlib.Algebra.BigOperators.Group.List.Basic
import Mathlib.Algebra.Order.Field.Rat
import Mathlib.Order.Bounds.Basic
import ScadaCommon.Common.Aggregation

/-!
# The smallest, the largest and the mean value

What the aggregators make of the numbers of a bucket, in exact arithmetic. A value
that is not a number is not compared by its value, and it is counted.

§1 numbers · §2 the smallest · §3 the largest · §4 the mean · §5 all three.
-/

namespace ScadaCommon

open Foundation

variable {V : Type} {core : AggregationCore V ℚ} {values rest : List (DataValue V)}
  {chunks : List (List (DataValue V))} {v first : DataValue V} {interval : DateTimeRange}

/-! ## §1  Numbers -/

/-- Rational numbers in place of doubles; the smallest normal double is positive. -/
structure AggregationCore.Exact (core : AggregationCore V ℚ) : Prop where
  zero : core.zero = 0
  add : ∀ a b, core.add a b = a + b
  divCount : ∀ a n, core.divCount a n = a / (n : ℚ)
  less : ∀ a b, core.less a b = decide (a < b)
  doubleMin : 0 < core.doubleMin

/-- The numeric values among the samples. -/
def numbers (core : AggregationCore V ℚ) (values : List (DataValue V)) : List ℚ :=
  values.filterMap fun v => core.get v.value

/-- The values of the samples behind the last one that is not a number. -/
def trailing (core : AggregationCore V ℚ) (values : List (DataValue V)) : List ℚ :=
  numbers core (values.reverse.takeWhile fun v => (core.get v.value).isSome).reverse

/-- The values of the samples, if the first one is a number. -/
def leading (core : AggregationCore V ℚ) : List (DataValue V) → List ℚ
  | [] => []
  | v :: values => if (core.get v.value).isSome then numbers core (v :: values) else []

/-- The value after the last chunk of a bucket. -/
def Aggregator.callAll (core : AggregationCore V ℚ) (aggregator : Aggregator V ℚ) :
    List (List (DataValue V)) → Option (DataValue V)
  | [] => none
  | [values] => (aggregator.call core values).map Prod.snd
  | values :: chunks => (aggregator.call core values).bind fun r => r.1.callAll core chunks

theorem numbers_cons_of_some {d : ℚ} (hd : core.get v.value = some d) :
    numbers core (v :: values) = d :: numbers core values :=
  List.filterMap_cons_some hd

theorem numbers_cons_of_none (hv : core.get v.value = none) :
    numbers core (v :: values) = numbers core values :=
  List.filterMap_cons_none hv

section

variable {α : Type*} [Preorder α] {m m' x d e : α} {A B : List α}

/-- What is above the first element of a list may be put before it. -/
theorem isLeast_cons (h : IsLeast {c | c ∈ e :: A} m) (hle : e ≤ d) :
    IsLeast {c | c ∈ d :: e :: A} m := by
  refine ⟨List.mem_cons_of_mem d h.1, fun c hc => ?_⟩
  rcases List.mem_cons.mp hc with rfl | hc
  · exact (h.2 List.mem_cons_self).trans hle
  · exact h.2 hc

/-- What is above the first element of a list may be put behind it. -/
theorem isLeast_cons_cons (h : IsLeast {c | c ∈ d :: A} m) (hle : d ≤ e) :
    IsLeast {c | c ∈ d :: e :: A} m := by
  have hperm : {c | c ∈ d :: e :: A} = {c | c ∈ e :: d :: A} :=
    Set.ext fun c => (List.Perm.swap e d A).mem_iff
  rw [hperm]
  exact isLeast_cons h hle

theorem isGreatest_cons (h : IsGreatest {c | c ∈ e :: A} m) (hle : d ≤ e) :
    IsGreatest {c | c ∈ d :: e :: A} m :=
  isLeast_cons (α := αᵒᵈ) h hle

theorem isGreatest_cons_cons (h : IsGreatest {c | c ∈ d :: A} m) (hle : e ≤ d) :
    IsGreatest {c | c ∈ d :: e :: A} m :=
  isLeast_cons_cons (α := αᵒᵈ) h hle

/-- The least of a least one and more. -/
theorem isLeast_append (h : IsLeast {d | d ∈ m :: A} m') (h' : IsLeast {d | d ∈ m' :: B} x) :
    IsLeast {d | d ∈ m :: (A ++ B)} x := by
  constructor
  · rcases List.mem_cons.mp h'.1 with rfl | hmem
    · rcases List.mem_cons.mp h.1 with rfl | hmem
      · exact List.mem_cons_self
      · exact List.mem_cons_of_mem m (List.mem_append_left B hmem)
    · exact List.mem_cons_of_mem m (List.mem_append_right A hmem)
  · intro d hd
    have hx : x ≤ m' := h'.2 List.mem_cons_self
    rcases List.mem_cons.mp hd with rfl | hd
    · exact hx.trans (h.2 List.mem_cons_self)
    · rcases List.mem_append.mp hd with hd | hd
      · exact hx.trans (h.2 (List.mem_cons_of_mem m hd))
      · exact h'.2 (List.mem_cons_of_mem m' hd)

theorem isGreatest_append (h : IsGreatest {d | d ∈ m :: A} m')
    (h' : IsGreatest {d | d ∈ m' :: B} x) : IsGreatest {d | d ∈ m :: (A ++ B)} x :=
  isLeast_append (α := αᵒᵈ) h h'

end

/-! ## §2  The smallest -/

theorem compareVariants_number (hexact : core.Exact) {u : DataValue V} {d e : ℚ}
    (hu : core.get u.value = some d) (hv : core.get v.value = some e) (addressLess : Bool) :
    core.compareVariants u.value v.value addressLess = decide (d < e) := by
  simp [AggregationCore.compareVariants, hu, hv, hexact.less]

/-- If the first sample is a number the smallest one is found, and otherwise the
first sample is taken for it. -/
theorem minElement_number (hexact : core.Exact) (first : DataValue V) (rest : List (DataValue V)) :
    match core.get first.value with
    | none => core.get (core.minElement first rest).value = none
    | some _ => ∃ m, core.get (core.minElement first rest).value = some m ∧
        IsLeast {d | d ∈ numbers core (first :: rest)} m := by
  induction rest generalizing first with
  | nil =>
      cases hfirst : core.get first.value with
      | none => exact hfirst
      | some d => exact ⟨d, hfirst, by simp [numbers, hfirst]⟩
  | cons v rest ih =>
      rw [AggregationCore.minElement]
      cases hfirst : core.get first.value with
      | none =>
          have hkept := ih first
          rw [hfirst] at hkept
          simpa [AggregationCore.compareVariants, hfirst] using hkept
      | some d =>
          cases hv : core.get v.value with
          | none =>
              have hkept := ih first
              rw [hfirst] at hkept
              obtain ⟨m, hm, hleast⟩ := hkept
              refine ⟨m, by simpa [AggregationCore.compareVariants, hv] using hm, ?_⟩
              rw [numbers_cons_of_some hfirst] at hleast ⊢
              rwa [numbers_cons_of_none hv]
          | some e =>
              rw [compareVariants_number hexact hv hfirst, numbers_cons_of_some hfirst, numbers_cons_of_some hv]
              by_cases hlt : e < d
              · have hnext := ih v
                rw [hv] at hnext
                obtain ⟨m, hm, hleast⟩ := hnext
                rw [numbers_cons_of_some hv] at hleast
                exact ⟨m, by simpa [hlt] using hm, isLeast_cons hleast hlt.le⟩
              · have hkept := ih first
                rw [hfirst] at hkept
                obtain ⟨m, hm, hleast⟩ := hkept
                rw [numbers_cons_of_some hfirst] at hleast
                exact ⟨m, by simpa [hlt] using hm, isLeast_cons_cons hleast (not_lt.mp hlt)⟩

theorem isLeast_lowered (hexact : core.Exact) (m : ℚ) (first : DataValue V)
    (rest : List (DataValue V)) :
    IsLeast {d | d ∈ m :: leading core (first :: rest)}
      (core.lowered m (core.minElement first rest)) := by
  have hnumber := minElement_number hexact first rest
  unfold AggregationCore.lowered
  cases hfirst : core.get first.value with
  | none =>
      rw [hfirst] at hnumber
      have hleading : leading core (first :: rest) = [] := by simp [leading, hfirst]
      rw [hnumber, hleading]
      simp
  | some d =>
      rw [hfirst] at hnumber
      obtain ⟨least, hleast, hmem, hle⟩ := hnumber
      have hleading : leading core (first :: rest) = numbers core (first :: rest) := by
        simp [leading, hfirst]
      rw [hleast, hleading]
      dsimp only
      have hmin : core.min m least = min m least := by
        rw [AggregationCore.min, hexact.less, min_comm, min_def_lt]
        simp
      rw [hmin]
      constructor
      · rcases min_choice m least with heq | heq
        · rw [heq]
          exact List.mem_cons_self
        · rw [heq]
          exact List.mem_cons_of_mem m hmem
      · intro c hc
        rcases List.mem_cons.mp hc with rfl | hc
        · exact min_le_left _ _
        · exact (min_le_right _ _).trans (hle hc)

variable (interval) in
/-- What is emitted for the smallest value in the end. -/
theorem callAll_minimum (hexact : core.Exact) (m : ℚ) (hne : chunks ≠ [])
    (hchunks : ∀ values ∈ chunks, values ≠ []) :
    ∃ value x, Aggregator.callAll core ⟨interval, .minimum m⟩ chunks = some value ∧
      value.value = core.ofDouble x ∧ IsLeast {d | d ∈ m :: chunks.flatMap (leading core)} x := by
  induction chunks generalizing m with
  | nil => exact absurd rfl hne
  | cons values chunks ih =>
      obtain ⟨hvalues, hlater⟩ := List.forall_mem_cons.mp hchunks
      obtain ⟨first, rest, rfl⟩ := List.exists_cons_of_ne_nil hvalues
      have hlowered := isLeast_lowered hexact m first rest
      cases chunks with
      | nil =>
          exact ⟨_, _, rfl, rfl, by simpa using hlowered⟩
      | cons values' chunks =>
          obtain ⟨value, x, hcall, hvalue, hleast⟩ := ih
            (core.lowered m (core.minElement first rest)) (List.cons_ne_nil _ _) hlater
          refine ⟨value, x, hcall, hvalue, ?_⟩
          rw [List.flatMap_cons]
          exact isLeast_append hlowered hleast

/-! ## §3  The largest -/

theorem trailing_of_number {values : List (DataValue V)}
    (h : ∀ v ∈ values, (core.get v.value).isSome = true) : trailing core values = numbers core values := by
  unfold trailing
  rw [List.takeWhile_eq_self_iff.mpr fun v hv => h v (List.mem_reverse.mp hv), List.reverse_reverse]

/-- A sample that is not a number hides those before it. -/
theorem trailing_append_cons {before : List (DataValue V)} (hv : core.get v.value = none) :
    trailing core (before ++ v :: values) = trailing core values := by
  have hreverse : (before ++ v :: values).reverse = values.reverse ++ v :: before.reverse := by simp
  unfold trailing
  rw [hreverse, takeWhile_append_of_head (by simp [hv])]

/-- Among numbers the largest is found. -/
theorem maxElement_numbers (hexact : core.Exact) (largest : DataValue V)
    (rest : List (DataValue V)) (h : ∀ v ∈ largest :: rest, (core.get v.value).isSome = true) :
    ∃ m, core.get (core.maxElement largest rest).value = some m ∧
      IsGreatest {d | d ∈ numbers core (largest :: rest)} m := by
  induction rest generalizing largest with
  | nil =>
      obtain ⟨d, hd⟩ := Option.isSome_iff_exists.mp (h largest List.mem_cons_self)
      exact ⟨d, hd, by simp [numbers, hd]⟩
  | cons v rest ih =>
      obtain ⟨hlargest, hlater⟩ := List.forall_mem_cons.mp h
      obtain ⟨hv, hrest⟩ := List.forall_mem_cons.mp hlater
      obtain ⟨d, hd⟩ := Option.isSome_iff_exists.mp hlargest
      obtain ⟨e, he⟩ := Option.isSome_iff_exists.mp hv
      rw [AggregationCore.maxElement, compareVariants_number hexact hd he,
        numbers_cons_of_some hd, numbers_cons_of_some he]
      by_cases hlt : d < e
      · obtain ⟨m, hm, hgreatest⟩ := ih v hlater
        rw [numbers_cons_of_some he] at hgreatest
        exact ⟨m, by simpa [hlt] using hm, isGreatest_cons hgreatest hlt.le⟩
      · obtain ⟨m, hm, hgreatest⟩ := ih largest (List.forall_mem_cons.mpr ⟨hlargest, hrest⟩)
        rw [numbers_cons_of_some hd] at hgreatest
        exact ⟨m, by simpa [hlt] using hm, isGreatest_cons_cons hgreatest (not_lt.mp hlt)⟩

/-- A sample that is not a number is taken, whatever came before it. -/
theorem maxElement_append_cons (largest : DataValue V) (before : List (DataValue V))
    (hv : core.get v.value = none) (rest : List (DataValue V)) :
    core.maxElement largest (before ++ v :: rest) = core.maxElement v rest := by
  induction before generalizing largest with
  | nil =>
      rw [List.nil_append, AggregationCore.maxElement]
      simp [AggregationCore.compareVariants, hv]
  | cons u before ih =>
      rw [List.cons_append, AggregationCore.maxElement]
      exact ih _

/-- The last sample that is not a number. -/
theorem exists_last_not_number {values : List (DataValue V)}
    (h : ¬ ∀ v ∈ values, (core.get v.value).isSome = true) :
    ∃ before u after, values = before ++ u :: after ∧ core.get u.value = none ∧
      ∀ v ∈ after, (core.get v.value).isSome = true := by
  induction values with
  | nil => exact absurd (fun _ hv => absurd hv List.not_mem_nil) h
  | cons v values ih =>
      by_cases hall : ∀ v ∈ values, (core.get v.value).isSome = true
      · refine ⟨[], v, values, rfl, ?_, hall⟩
        by_contra hv
        exact h (List.forall_mem_cons.mpr ⟨Option.isSome_iff_ne_none.mpr hv, hall⟩)
      · obtain ⟨before, u, after, rfl, hu, hafter⟩ := ih hall
        exact ⟨v :: before, u, after, rfl, hu, hafter⟩

/-- The largest number behind the last sample that is not one is found. -/
theorem maxElement_number (hexact : core.Exact) (largest : DataValue V)
    (rest : List (DataValue V)) :
    match core.get (core.maxElement largest rest).value with
    | none => trailing core (largest :: rest) = []
    | some m => IsGreatest {d | d ∈ trailing core (largest :: rest)} m := by
  by_cases hall : ∀ v ∈ largest :: rest, (core.get v.value).isSome = true
  · obtain ⟨m, hm, hgreatest⟩ := maxElement_numbers hexact largest rest hall
    rw [hm, trailing_of_number hall]
    exact hgreatest
  · obtain ⟨before, u, after, hsplit, hu, hafter⟩ := exists_last_not_number hall
    have hfound : core.maxElement largest rest = core.maxElement u after := by
      cases before with
      | nil =>
          obtain ⟨rfl, rfl⟩ := List.cons.inj hsplit
          rfl
      | cons w before =>
          obtain ⟨rfl, rfl⟩ := List.cons.inj hsplit
          exact maxElement_append_cons largest before hu after
    rw [hfound, hsplit, trailing_append_cons hu, trailing_of_number hafter]
    cases after with
    | nil =>
        rw [AggregationCore.maxElement, hu]
        rfl
    | cons w after =>
        obtain ⟨m, hm, hgreatest⟩ := maxElement_numbers hexact w after hafter
        have hnext : core.maxElement u (w :: after) = core.maxElement w after := by
          simp [AggregationCore.maxElement, AggregationCore.compareVariants, hu]
        rw [hnext, hm]
        exact hgreatest

theorem isGreatest_raised (hexact : core.Exact) (m : ℚ) (first : DataValue V)
    (rest : List (DataValue V)) :
    IsGreatest {d | d ∈ m :: trailing core (first :: rest)}
      (core.raised m (core.maxElement first rest)) := by
  have hnumber := maxElement_number hexact first rest
  unfold AggregationCore.raised
  split
  · rename_i d hd
    rw [hd] at hnumber
    have hmax : core.max m d = max m d := by
      rw [AggregationCore.max, hexact.less, max_def_lt]
      simp
    rw [hmax]
    constructor
    · rcases max_choice m d with heq | heq
      · rw [heq]
        exact List.mem_cons_self
      · rw [heq]
        exact List.mem_cons_of_mem m hnumber.1
    · intro c hc
      rcases List.mem_cons.mp hc with rfl | hc
      · exact le_max_left _ _
      · exact (hnumber.2 hc).trans (le_max_right _ _)
  · rename_i hnone
    rw [hnone] at hnumber
    rw [hnumber]
    simp

variable (interval) in
/-- What is emitted for the largest value in the end. -/
theorem callAll_maximum (hexact : core.Exact) (m : ℚ) (hne : chunks ≠ [])
    (hchunks : ∀ values ∈ chunks, values ≠ []) :
    ∃ value x, Aggregator.callAll core ⟨interval, .maximum m⟩ chunks = some value ∧
      value.value = core.ofDouble x ∧
        IsGreatest {d | d ∈ m :: chunks.flatMap (trailing core)} x := by
  induction chunks generalizing m with
  | nil => exact absurd rfl hne
  | cons values chunks ih =>
      obtain ⟨hvalues, hlater⟩ := List.forall_mem_cons.mp hchunks
      obtain ⟨first, rest, rfl⟩ := List.exists_cons_of_ne_nil hvalues
      have hraised := isGreatest_raised hexact m first rest
      cases chunks with
      | nil =>
          exact ⟨_, _, rfl, rfl, by simpa using hraised⟩
      | cons values' chunks =>
          obtain ⟨value, x, hcall, hvalue, hgreatest⟩ := ih
            (core.raised m (core.maxElement first rest)) (List.cons_ne_nil _ _) hlater
          refine ⟨value, x, hcall, hvalue, ?_⟩
          rw [List.flatMap_cons]
          exact isGreatest_append hraised hgreatest

/-! ## §4  The mean -/

theorem calculateTotal_eq_sum (hexact : core.Exact) (values : List (DataValue V)) :
    core.calculateTotal values = (numbers core values).sum := by
  have hfold : ∀ (values : List (DataValue V)) (sum : ℚ), values.foldl (fun prevSum v =>
      match core.get v.value with
      | some doubleValue => core.add prevSum doubleValue
      | none => prevSum) sum = sum + (numbers core values).sum := by
    intro values
    induction values with
    | nil => simp [numbers]
    | cons v values ih =>
        intro sum
        rw [List.foldl_cons, ih]
        cases hv : core.get v.value with
        | none => rw [numbers_cons_of_none hv]
        | some d =>
            show core.add sum d + (numbers core values).sum = _
            rw [numbers_cons_of_some hv, List.sum_cons, hexact.add, add_assoc]
  have htotal := hfold values core.zero
  rw [hexact.zero, zero_add] at htotal
  rw [← htotal, AggregationCore.calculateTotal, hexact.zero]
  congr 1
  funext prevSum v
  cases core.get v.value <;> rfl

variable (interval) in
/-- What is emitted for the mean in the end: all samples are counted. -/
theorem callAll_average (hexact : core.Exact) (total : ℚ) (count : ℕ) (hne : chunks ≠ [])
    (hchunks : ∀ values ∈ chunks, values ≠ []) :
    ∃ value, Aggregator.callAll core ⟨interval, .average total count⟩ chunks = some value ∧
      value.value = core.ofDouble
        ((total + (numbers core chunks.flatten).sum) / ((count + chunks.flatten.length : ℕ) : ℚ)) := by
  induction chunks generalizing total count with
  | nil => exact absurd rfl hne
  | cons values chunks ih =>
      obtain ⟨hvalues, hlater⟩ := List.forall_mem_cons.mp hchunks
      have hlength : values.length ≠ 0 := by simpa using hvalues
      have hcount : count + values.length ≠ 0 := by omega
      have hcall : Aggregator.call core ⟨interval, .average total count⟩ values =
          some (⟨interval, .average (total + (numbers core values).sum) (count + values.length)⟩,
            .atInterval (core.ofDouble ((total + (numbers core values).sum) /
              ((count + values.length : ℕ) : ℚ))) 0 interval) := by
        simp only [Aggregator.call, check_of hcount, calculateTotal_eq_sum hexact, hexact.add,
          hexact.divCount]
        rfl
      cases chunks with
      | nil =>
          rw [Aggregator.callAll, hcall]
          exact ⟨_, rfl, by simp [DataValue.atInterval]⟩
      | cons values' chunks =>
          obtain ⟨value, hlast, hvalue⟩ := ih (total + (numbers core values).sum)
            (count + values.length) (List.cons_ne_nil _ _) hlater
          refine ⟨value, ?_, ?_⟩
          · rw [Aggregator.callAll, hcall]
            · exact hlast
            · exact List.cons_ne_nil _ _
          · have hnumbers : numbers core (values :: values' :: chunks).flatten =
                numbers core values ++ numbers core (values' :: chunks).flatten :=
              List.filterMap_append
            rw [hvalue, hnumbers, List.sum_append, add_assoc, Nat.add_assoc, ← List.length_append]
            rfl

/-! ## §5  All three -/

/-- The value after the last chunk of a bucket. -/
def bucketValue (core : AggregationCore V ℚ) (function : AggregateFunction)
    (interval : DateTimeRange) (forward : Bool) (chunks : List (List (DataValue V))) : Option V :=
  (Aggregator.callAll core (getAggregator core function interval forward) chunks).map
    DataValue.value

/-- The emitted value is the least number of the bucket. -/
def TrueMinimum (core : AggregationCore V ℚ) (interval : DateTimeRange) (forward : Bool)
    (chunks : List (List (DataValue V))) : Prop :=
  ∃ x, IsLeast {d | d ∈ numbers core chunks.flatten} x ∧
    bucketValue core .functionMinimum interval forward chunks = some (core.ofDouble x)

def TrueMaximum (core : AggregationCore V ℚ) (interval : DateTimeRange) (forward : Bool)
    (chunks : List (List (DataValue V))) : Prop :=
  ∃ x, IsGreatest {d | d ∈ numbers core chunks.flatten} x ∧
    bucketValue core .functionMaximum interval forward chunks = some (core.ofDouble x)

def TrueAverage (core : AggregationCore V ℚ) (interval : DateTimeRange) (forward : Bool)
    (chunks : List (List (DataValue V))) : Prop :=
  bucketValue core .functionAverage interval forward chunks =
    some (core.ofDouble
      ((numbers core chunks.flatten).sum / ((numbers core chunks.flatten).length : ℚ)))

theorem numbers_append (values rest : List (DataValue V)) :
    numbers core (values ++ rest) = numbers core values ++ numbers core rest :=
  List.filterMap_append

theorem numbers_flatten (chunks : List (List (DataValue V))) :
    numbers core chunks.flatten = chunks.flatMap (numbers core) := by
  induction chunks with
  | nil => rfl
  | cons values chunks ih => rw [List.flatten_cons, numbers_append, ih, List.flatMap_cons]

theorem leading_subset (values : List (DataValue V)) :
    leading core values ⊆ numbers core values := by
  cases values with
  | nil => exact List.Subset.refl _
  | cons v values =>
      rw [leading]
      split
      · exact List.Subset.refl _
      · exact List.nil_subset _

theorem trailing_subset (values : List (DataValue V)) :
    trailing core values ⊆ numbers core values := by
  intro d hd
  obtain ⟨v, hv, hget⟩ := List.mem_filterMap.mp hd
  have hmem := (List.takeWhile_sublist _).subset (List.mem_reverse.mp hv)
  exact List.mem_filterMap.mpr ⟨v, List.mem_reverse.mp hmem, hget⟩

theorem flatMap_subset {f : List (DataValue V) → List ℚ}
    (hf : ∀ values, f values ⊆ numbers core values) :
    chunks.flatMap f ⊆ numbers core chunks.flatten := by
  rw [numbers_flatten]
  intro d hd
  obtain ⟨values, hvalues, hmem⟩ := List.mem_flatMap.mp hd
  exact List.mem_flatMap.mpr ⟨values, hvalues, hf values hmem⟩

theorem length_numbers (core : AggregationCore V ℚ) (values : List (DataValue V)) :
    (numbers core values).length ≤ values.length ∧
      ((numbers core values).length = values.length ↔
        ∀ v ∈ values, (core.get v.value).isSome = true) := by
  induction values with
  | nil => simp [numbers]
  | cons v values ih =>
      obtain ⟨hle, hiff⟩ := ih
      cases hv : core.get v.value with
      | none =>
          rw [numbers_cons_of_none hv]
          refine ⟨hle.trans (Nat.le_succ _), iff_of_false ?_ ?_⟩
          · rw [List.length_cons]
            omega
          · intro hall
            have hfirst := hall v List.mem_cons_self
            rw [hv] at hfirst
            cases hfirst
      | some d =>
          rw [numbers_cons_of_some hv, List.length_cons, List.length_cons, List.forall_mem_cons, hv]
          simpa using ⟨hle, hiff⟩

variable (core interval) in
theorem trueMinimum_iff (forward : Bool) (hexact : core.Exact) (hne : chunks ≠ [])
    (hchunks : ∀ values ∈ chunks, values ≠ [])
    (hbound : ∀ d ∈ numbers core chunks.flatten, d ≤ core.doubleMax) :
    TrueMinimum core interval forward chunks ↔
      ∃ d ∈ core.doubleMax :: chunks.flatMap (leading core),
        IsLeast {d | d ∈ numbers core chunks.flatten} d := by
  obtain ⟨value, x, hcall, hvalue, hmem, hle⟩ :=
    callAll_minimum interval hexact core.doubleMax hne hchunks
  have hbucket : bucketValue core .functionMinimum interval forward chunks =
      some (core.ofDouble x) := by
    rw [bucketValue, getAggregator, hcall, Option.map_some, hvalue]
  unfold TrueMinimum
  rw [hbucket]
  constructor
  · rintro ⟨least, hleast, heq⟩
    rw [Option.some_inj] at heq
    obtain rfl := core.ofDouble_injective heq
    exact ⟨x, hmem, hleast⟩
  · rintro ⟨least, hlisted, hleast⟩
    refine ⟨least, hleast, congrArg _ (congrArg _ (le_antisymm (hle hlisted) ?_))⟩
    rcases List.mem_cons.mp hmem with rfl | hmem
    · exact hbound least hleast.1
    · exact hleast.2 (flatMap_subset leading_subset hmem)

variable (core interval) in
theorem trueMaximum_iff (forward : Bool) (hexact : core.Exact) (hne : chunks ≠ [])
    (hchunks : ∀ values ∈ chunks, values ≠ []) :
    TrueMaximum core interval forward chunks ↔
      ∃ d ∈ core.doubleMin :: chunks.flatMap (trailing core),
        IsGreatest {d | d ∈ numbers core chunks.flatten} d ∧ core.doubleMin ≤ d := by
  obtain ⟨value, x, hcall, hvalue, hmem, hle⟩ :=
    callAll_maximum interval hexact core.doubleMin hne hchunks
  have hbucket : bucketValue core .functionMaximum interval forward chunks =
      some (core.ofDouble x) := by
    rw [bucketValue, getAggregator, hcall, Option.map_some, hvalue]
  unfold TrueMaximum
  rw [hbucket]
  constructor
  · rintro ⟨greatest, hgreatest, heq⟩
    rw [Option.some_inj] at heq
    obtain rfl := core.ofDouble_injective heq
    exact ⟨x, hmem, hgreatest, hle List.mem_cons_self⟩
  · rintro ⟨greatest, hlisted, hgreatest, hmin⟩
    refine ⟨greatest, hgreatest, congrArg _ (congrArg _ (le_antisymm ?_ (hle hlisted)))⟩
    rcases List.mem_cons.mp hmem with rfl | hmem
    · exact hmin
    · exact hgreatest.2 (flatMap_subset trailing_subset hmem)

variable (core interval) in
theorem trueAverage_iff (forward : Bool) (hexact : core.Exact) (hne : chunks ≠ [])
    (hchunks : ∀ values ∈ chunks, values ≠ []) (hnumber : numbers core chunks.flatten ≠ []) :
    TrueAverage core interval forward chunks ↔
      (numbers core chunks.flatten).sum = 0 ∨
        ∀ v ∈ chunks.flatten, (core.get v.value).isSome = true := by
  obtain ⟨value, hcall, hvalue⟩ := callAll_average interval hexact 0 0 hne hchunks
  have hbucket : bucketValue core .functionAverage interval forward chunks =
      some (core.ofDouble ((numbers core chunks.flatten).sum / (chunks.flatten.length : ℚ))) := by
    rw [bucketValue, getAggregator, hexact.zero, hcall, Option.map_some, hvalue, zero_add, zero_add]
  obtain ⟨hlen, hall⟩ := length_numbers core chunks.flatten
  have hpos : 0 < (numbers core chunks.flatten).length := List.length_pos_iff.mpr hnumber
  unfold TrueAverage
  rw [hbucket, Option.some_inj, core.ofDouble_injective.eq_iff, ← hall]
  have hcount : (chunks.flatten.length : ℚ) ≠ 0 := by
    exact_mod_cast (hpos.trans_le hlen).ne'
  have hcount' : ((numbers core chunks.flatten).length : ℚ) ≠ 0 := by
    exact_mod_cast hpos.ne'
  rw [div_eq_div_iff hcount hcount', mul_eq_mul_left_iff, or_comm, Nat.cast_inj]

/-- **When the extremes and the mean are the true ones.** -/
theorem extremes_iff (core : AggregationCore V ℚ) (interval : DateTimeRange) (forward : Bool)
    (chunks : List (List (DataValue V))) (hexact : core.Exact)
    (hchunks : ∀ values ∈ chunks, values ≠ []) (hnumber : numbers core chunks.flatten ≠ [])
    (hbound : ∀ d ∈ numbers core chunks.flatten, d ≤ core.doubleMax) :
    (TrueMinimum core interval forward chunks ↔
        ∃ d ∈ core.doubleMax :: chunks.flatMap (leading core),
          IsLeast {d | d ∈ numbers core chunks.flatten} d) ∧
      (TrueMaximum core interval forward chunks ↔
        ∃ d ∈ core.doubleMin :: chunks.flatMap (trailing core),
          IsGreatest {d | d ∈ numbers core chunks.flatten} d ∧ core.doubleMin ≤ d) ∧
      (TrueAverage core interval forward chunks ↔
        (numbers core chunks.flatten).sum = 0 ∨
          ∀ v ∈ chunks.flatten, (core.get v.value).isSome = true) := by
  have hne : chunks ≠ [] := by
    rintro rfl
    exact hnumber rfl
  exact ⟨trueMinimum_iff core interval forward hexact hne hchunks hbound,
    trueMaximum_iff core interval forward hexact hne hchunks,
    trueAverage_iff core interval forward hexact hne hchunks hnumber⟩

/-- Rational numbers between the limits of doubles. -/
def rationals : AggregationCore (Option (ℚ ⊕ ℕ)) ℚ where
  zero := 0
  add := (· + ·)
  divCount total count := total / count
  less a b := a < b
  doubleMax := 2 ^ 1024 - 2 ^ 971
  doubleMin := 1 / 2 ^ 1022
  nullVariant := none
  get
    | some (.inl d) => some d
    | some (.inr n) => some n
    | none => none
  ofDouble d := some (.inl d)
  ofUInt64 n := some (.inr n)
  isNull v := v.value.isNone
  isNull_default := rfl
  isNull_ofDouble _ _ _ _ := rfl
  isNull_ofUInt64 _ _ _ _ := rfl
  ofDouble_injective _ _ h := Sum.inl.inj (Option.some.inj h)
  ofUInt64_injective _ _ h := Sum.inr.inj (Option.some.inj h)

theorem exact_rationals : rationals.Exact where
  zero := rfl
  add _ _ := rfl
  divCount _ _ := rfl
  less _ _ := rfl
  doubleMin := one_div_pos.mpr (pow_pos two_pos 1022)

/-- A sample with a number. -/
def numberOf (d : ℚ) : DataValue (Option (ℚ ⊕ ℕ)) := ⟨some (.inl d), 0, 5, 5⟩

/-- A sample without one. -/
def noNumber : DataValue (Option (ℚ ⊕ ℕ)) := ⟨none, 0, 5, 5⟩

theorem extremes_iff_two_chunks :
    (TrueMinimum rationals ⟨0, 10⟩ true [[numberOf 3], [numberOf 5, noNumber]] ↔
        ∃ d ∈ rationals.doubleMax ::
            [[numberOf 3], [numberOf 5, noNumber]].flatMap (leading rationals),
          IsLeast {d | d ∈ numbers rationals [[numberOf 3], [numberOf 5, noNumber]].flatten} d) ∧
      (TrueMaximum rationals ⟨0, 10⟩ true [[numberOf 3], [numberOf 5, noNumber]] ↔
        ∃ d ∈ rationals.doubleMin ::
            [[numberOf 3], [numberOf 5, noNumber]].flatMap (trailing rationals),
          IsGreatest {d | d ∈ numbers rationals [[numberOf 3], [numberOf 5, noNumber]].flatten} d ∧
            rationals.doubleMin ≤ d) ∧
      (TrueAverage rationals ⟨0, 10⟩ true [[numberOf 3], [numberOf 5, noNumber]] ↔
        (numbers rationals [[numberOf 3], [numberOf 5, noNumber]].flatten).sum = 0 ∨
          ∀ v ∈ [[numberOf 3], [numberOf 5, noNumber]].flatten,
            (rationals.get v.value).isSome = true) :=
  extremes_iff rationals ⟨0, 10⟩ true [[numberOf 3], [numberOf 5, noNumber]] exact_rationals
    (by decide) (by decide) (by decide +kernel)

/-- The largest of negative numbers is said to be positive, a sample without a number
hides a smaller and a larger one, and it is counted for the mean. -/
theorem extremes_are_wrong :
    ¬ TrueMaximum rationals ⟨0, 10⟩ true [[numberOf (-1)]] ∧
      ¬ TrueMaximum rationals ⟨0, 10⟩ true [[numberOf 7, noNumber, numberOf 3]] ∧
      ¬ TrueMinimum rationals ⟨0, 10⟩ true [[noNumber, numberOf 5]] ∧
      ¬ TrueAverage rationals ⟨0, 10⟩ true [[numberOf 5, noNumber]] := by
  refine ⟨?_, ?_, ?_, ?_⟩
  · rintro ⟨x, hx, hvalue⟩
    have hrun : bucketValue rationals .functionMaximum ⟨0, 10⟩ true [[numberOf (-1)]] =
        some (some (.inl (1 / 2 ^ 1022))) := by
      decide +kernel
    rw [hrun] at hvalue
    cases hvalue
    exact absurd hx.1 (by decide +kernel)
  · rintro ⟨x, hx, hvalue⟩
    have hrun : bucketValue rationals .functionMaximum ⟨0, 10⟩ true
        [[numberOf 7, noNumber, numberOf 3]] = some (some (.inl 3)) := by
      decide +kernel
    rw [hrun] at hvalue
    cases hvalue
    have hle : (7 : ℚ) ≤ 3 := hx.2 (by decide)
    exact absurd hle (by decide)
  · rintro ⟨x, hx, hvalue⟩
    have hrun : bucketValue rationals .functionMinimum ⟨0, 10⟩ true [[noNumber, numberOf 5]] =
        some (some (.inl (2 ^ 1024 - 2 ^ 971))) := by
      decide +kernel
    rw [hrun] at hvalue
    cases hvalue
    exact absurd hx.1 (by decide +kernel)
  · have hrun : bucketValue rationals .functionAverage ⟨0, 10⟩ true [[numberOf 5, noNumber]] =
        some (some (.inl (5 / 2))) := by
      decide +kernel
    unfold TrueAverage
    rw [hrun]
    decide +kernel

end ScadaCommon
