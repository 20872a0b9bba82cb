import Mathlib.Tactic.SplitIfs
import ScadaCommon.OpcuaBridge.ServiceConversion

/-!
# The bridge of times

Microseconds and ticks of 100 ns are both kept in 64 bits, so the core has times that have
no ticks. These become the ends of time, which stand for each other.

§1 saturation · §2 truncation · §3 the bridge.
-/

namespace ScadaCommon.OpcuaBridge

namespace DateTime

/-! ## §1  Saturation -/

/-- The internal value is an `int64_t`. -/
def IsInt64 {side : Side} (t : DateTime side) : Prop :=
  int64Min ≤ t.internalValue ∧ t.internalValue ≤ int64Max

instance {side : Side} (t : DateTime side) : Decidable t.IsInt64 :=
  inferInstanceAs (Decidable (_ ∧ _))

/-- The nearest `int64_t`. -/
def saturated (value : ℤ) : ℤ :=
  if value > int64Max then int64Max else if value < int64Min then int64Min else value

theorem saturated_mono {value value' : ℤ} (h : value ≤ value') :
    saturated value ≤ saturated value' := by
  unfold saturated int64Max int64Min
  split_ifs <;> omega

theorem isInt64_saturated (value : ℤ) :
    int64Min ≤ saturated value ∧ saturated value ≤ int64Max := by
  unfold saturated int64Max int64Min
  split_ifs <;> omega

theorem tdiv_int64Max : int64Max.tdiv kTicksPerMicrosecond = 922337203685477580 := by
  decide

theorem tdiv_int64Min : int64Min.tdiv kTicksPerMicrosecond = -922337203685477580 := by
  decide

section

variable {t t' : DateTime .scada}

/-- **Ticks are saturated**: the ends of time are the ends of the range. -/
theorem internalValue_toOpcua (ht : t.IsInt64) :
    t.toOpcua.internalValue = saturated (t.internalValue * kTicksPerMicrosecond) := by
  obtain ⟨value⟩ := t
  obtain ⟨hlow, hhigh⟩ := ht
  simp only [toOpcua, max, min, mk.injEq, tdiv_int64Max, tdiv_int64Min, saturated]
  unfold int64Max int64Min kTicksPerMicrosecond at *
  split_ifs <;> simp only <;> omega

theorem toOpcua_isInt64 (ht : t.IsInt64) : t.toOpcua.IsInt64 := by
  unfold IsInt64
  rw [internalValue_toOpcua ht]
  exact isInt64_saturated _

theorem toOpcua_mono (ht : t.IsInt64) (ht' : t'.IsInt64)
    (h : t.internalValue ≤ t'.internalValue) :
    t.toOpcua.internalValue ≤ t'.toOpcua.internalValue := by
  rw [internalValue_toOpcua ht, internalValue_toOpcua ht']
  apply saturated_mono
  exact Int.mul_le_mul_of_nonneg_right h (by decide)

end

/-! ## §2  Truncation -/

/-- A multiple of the ticks is less than one microsecond away, towards zero. -/
def TruncatedTo (value back : ℤ) : Prop :=
  (0 ≤ value → 0 ≤ back ∧ back ≤ value ∧ value < back + kTicksPerMicrosecond) ∧
    (value ≤ 0 → value ≤ back ∧ back ≤ 0 ∧ back - kTicksPerMicrosecond < value)

theorem truncatedTo_tdiv (value : ℤ) :
    TruncatedTo value (value.tdiv kTicksPerMicrosecond * kTicksPerMicrosecond) := by
  unfold TruncatedTo kTicksPerMicrosecond
  rw [Int.tdiv_eq_ediv]
  constructor
  · intro hpos
    rw [if_pos (.inl hpos)]
    omega
  · intro hneg
    split
    · omega
    · rw [show (10 : ℤ).sign = 1 from rfl]
      omega

theorem truncatedTo_self (value : ℤ) : TruncatedTo value value := by
  unfold TruncatedTo kTicksPerMicrosecond
  omega

/-- A later value is truncated to a later one. -/
theorem tdiv_mono {value value' : ℤ} (h : value ≤ value') :
    value.tdiv kTicksPerMicrosecond ≤ value'.tdiv kTicksPerMicrosecond := by
  have hvalue := truncatedTo_tdiv value
  have hvalue' := truncatedTo_tdiv value'
  unfold TruncatedTo kTicksPerMicrosecond at *
  omega

section

variable {u u' : DateTime .opcua}

theorem toScada_cases (u : DateTime .opcua) :
    (u = max .opcua ∧ u.toScada = max .scada) ∨
      (u = min .opcua ∧ u.toScada = min .scada) ∨
      (u ≠ max .opcua ∧ u ≠ min .opcua ∧
        u.toScada.internalValue = u.internalValue.tdiv kTicksPerMicrosecond) := by
  unfold toScada
  split
  · rename_i hmax
    exact .inl ⟨hmax, rfl⟩
  · rename_i hmax
    split
    · rename_i hmin
      exact .inr (.inl ⟨hmin, rfl⟩)
    · rename_i hmin
      exact .inr (.inr ⟨hmax, hmin, rfl⟩)

/-- A truncated time is far from the ends of time. -/
theorem tdiv_bounds (hu : u.IsInt64) :
    int64Min.tdiv kTicksPerMicrosecond ≤ u.internalValue.tdiv kTicksPerMicrosecond ∧
      u.internalValue.tdiv kTicksPerMicrosecond ≤ int64Max.tdiv kTicksPerMicrosecond :=
  ⟨tdiv_mono hu.1, tdiv_mono hu.2⟩

theorem toScada_isInt64 (hu : u.IsInt64) : u.toScada.IsInt64 := by
  obtain ⟨hlow, hhigh⟩ := tdiv_bounds hu
  rw [tdiv_int64Min] at hlow
  rw [tdiv_int64Max] at hhigh
  rcases toScada_cases u with ⟨-, h⟩ | ⟨-, h⟩ | ⟨-, -, h⟩
  · rw [h]
    decide
  · rw [h]
    decide
  · unfold IsInt64
    rw [h]
    unfold int64Min int64Max
    omega

theorem toScada_mono (hu : u.IsInt64) (hu' : u'.IsInt64)
    (h : u.internalValue ≤ u'.internalValue) :
    u.toScada.internalValue ≤ u'.toScada.internalValue := by
  have hresult := toScada_isInt64 hu
  have hresult' := toScada_isInt64 hu'
  rcases toScada_cases u' with ⟨-, hmax⟩ | ⟨rfl, -⟩ | ⟨hnotMax, -, hvalue'⟩
  · rw [hmax]
    exact hresult.2
  · have hmin : u = min .opcua := by
      obtain ⟨value⟩ := u
      simp only [min, mk.injEq] at h ⊢
      exact le_antisymm h hu.1
    rw [hmin]
  · rcases toScada_cases u with ⟨rfl, -⟩ | ⟨-, hmin⟩ | ⟨-, -, hvalue⟩
    · exfalso
      apply hnotMax
      obtain ⟨value⟩ := u'
      simp only [max, mk.injEq] at h ⊢
      exact le_antisymm hu'.2 h
    · rw [hmin]
      exact hresult'.1
    · rw [hvalue, hvalue']
      exact tdiv_mono h

end

/-! ## §3  The bridge -/

section

variable {t : DateTime .scada} {u : DateTime .opcua}

theorem eq_of_internalValue {side : Side} {t t' : DateTime side}
    (h : t.internalValue = t'.internalValue) : t = t' := by
  cases t
  cases t'
  cases h
  rfl

/-- **The way back to the core** is saturated. -/
theorem toScada_toOpcua_eq (ht : t.IsInt64) :
    t.toOpcua.toScada =
      if t.internalValue * kTicksPerMicrosecond > int64Max then max .scada
      else if t.internalValue * kTicksPerMicrosecond < int64Min then min .scada
      else t := by
  have hticks := internalValue_toOpcua ht
  unfold saturated at hticks
  split
  · rename_i hover
    rw [if_pos hover] at hticks
    have hmax : t.toOpcua = max .opcua := eq_of_internalValue hticks
    rw [hmax, toScada_max]
  · rename_i hover
    rw [if_neg hover] at hticks
    split
    · rename_i hunder
      rw [if_pos hunder] at hticks
      have hmin : t.toOpcua = min .opcua := eq_of_internalValue hticks
      rw [hmin, toScada_min]
    · rename_i hunder
      refine (toScada_toOpcua_iff t).mpr (.inr (.inr ?_))
      rw [tdiv_int64Max, tdiv_int64Min]
      unfold int64Max kTicksPerMicrosecond at hover
      unfold int64Min kTicksPerMicrosecond at hunder
      omega

/-- **The way back to the ticks** is truncated. -/
theorem truncatedTo_toOpcua_toScada (hu : u.IsInt64) :
    TruncatedTo u.internalValue u.toScada.toOpcua.internalValue := by
  rcases toScada_cases u with ⟨rfl, h⟩ | ⟨rfl, h⟩ | ⟨-, -, h⟩
  · rw [h]
    exact truncatedTo_self _
  · rw [h]
    exact truncatedTo_self _
  · obtain ⟨hlow, hhigh⟩ := tdiv_bounds hu
    rw [tdiv_int64Min] at hlow
    rw [tdiv_int64Max] at hhigh
    have hsaturated : saturated (u.internalValue.tdiv kTicksPerMicrosecond * kTicksPerMicrosecond) =
        u.internalValue.tdiv kTicksPerMicrosecond * kTicksPerMicrosecond := by
      unfold saturated int64Max int64Min kTicksPerMicrosecond at *
      split_ifs <;> omega
    rw [internalValue_toOpcua (toScada_isInt64 hu), h, hsaturated]
    exact truncatedTo_tdiv _

/-- **The bridge of times** stays in 64 bits, keeps the order and the ends of time, and loses
less than a microsecond of what fits. -/
theorem date_times_cross_the_bridge :
    (∀ t : DateTime .scada, t.IsInt64 → t.toOpcua.IsInt64 ∧
      t.toOpcua.toScada =
        (if t.internalValue * kTicksPerMicrosecond > int64Max then max .scada
        else if t.internalValue * kTicksPerMicrosecond < int64Min then min .scada
        else t)) ∧
    (∀ u : DateTime .opcua, u.IsInt64 → u.toScada.IsInt64 ∧
      TruncatedTo u.internalValue u.toScada.toOpcua.internalValue) ∧
    (∀ t t' : DateTime .scada, t.IsInt64 → t'.IsInt64 → t.internalValue ≤ t'.internalValue →
      t.toOpcua.internalValue ≤ t'.toOpcua.internalValue) ∧
    (∀ u u' : DateTime .opcua, u.IsInt64 → u'.IsInt64 → u.internalValue ≤ u'.internalValue →
      u.toScada.internalValue ≤ u'.toScada.internalValue) ∧
    (max .scada).toOpcua = max .opcua ∧ (min .scada).toOpcua = min .opcua ∧
    (max .opcua).toScada = max .scada ∧ (min .opcua).toScada = min .scada := by
  refine ⟨fun t ht => ⟨toOpcua_isInt64 ht, toScada_toOpcua_eq ht⟩,
    fun u hu => ⟨toScada_isInt64 hu, truncatedTo_toOpcua_toScada hu⟩,
    fun t t' ht ht' => toOpcua_mono ht ht', fun u u' hu hu' => toScada_mono hu hu',
    by decide, by decide, toScada_max, toScada_min⟩

end

/-- A time of 2009, and one tick before the end of time. -/
theorem date_times_cross_the_bridge_example :
    (⟨123456789⟩ : DateTime .scada).toOpcua.toScada = ⟨123456789⟩ ∧
      TruncatedTo (int64Max - 1) (⟨int64Max - 1⟩ : DateTime .opcua).toScada.toOpcua.internalValue := by
  have hsmall : (⟨123456789⟩ : DateTime .scada).IsInt64 := by decide
  have hlarge : (⟨int64Max - 1⟩ : DateTime .opcua).IsInt64 := by decide
  exact ⟨(date_times_cross_the_bridge.1 _ hsmall).2, (date_times_cross_the_bridge.2.1 _ hlarge).2⟩

end DateTime

end ScadaCommon.OpcuaBridge
