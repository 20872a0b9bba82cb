import Mathlib.Data.List.Basic
import Mathlib.Data.Nat.Basic
import Mathlib.Tactic.Ring

/-!
# Decimal digits

The last digits of a number, fixed in their count, and the lists of digits that are left
when zeros are taken off their end.

§1 last digits · §2 zeros at the end · §3 division to the nearest.
-/

namespace ScadaCommon.Foundation

/-! ## §1  Last digits -/

/-- The last decimal digits of a number, with leading zeros. -/
def lastDigits : ℕ → ℕ → List Char
  | 0, _ => []
  | count + 1, n => lastDigits count (n / 10) ++ [Nat.digitChar (n % 10)]

section

variable {count n m zeros : ℕ}

@[simp] theorem length_lastDigits (count n : ℕ) : (lastDigits count n).length = count := by
  induction count generalizing n with
  | zero => rfl
  | succ count ih => simp [lastDigits, ih]

theorem digitChar_inj : ∀ a < 10, ∀ b < 10, Nat.digitChar a = Nat.digitChar b → a = b := by
  decide

/-- Digits tell the number up to the power of ten. -/
theorem lastDigits_inj :
    lastDigits count n = lastDigits count m ↔ n % 10 ^ count = m % 10 ^ count := by
  induction count generalizing n m with
  | zero => simp [lastDigits, Nat.mod_one]
  | succ count ih =>
      rw [lastDigits, lastDigits, pow_succ', Nat.mod_mul, Nat.mod_mul]
      constructor
      · intro h
        obtain ⟨hrest, hlast⟩ := List.append_inj' h rfl
        have hdigit := digitChar_inj _ (Nat.mod_lt n (by decide)) _ (Nat.mod_lt m (by decide))
          (List.singleton_inj.mp hlast)
        rw [ih.mp hrest, hdigit]
      · intro h
        have hlast : n % 10 = m % 10 := by omega
        have hrest : n / 10 % 10 ^ count = m / 10 % 10 ^ count := by omega
        rw [ih.mpr hrest, hlast]

/-- The last digits are the last ones of a longer list. -/
theorem lastDigits_add (count zeros n : ℕ) :
    lastDigits (count + zeros) n = lastDigits count (n / 10 ^ zeros) ++ lastDigits zeros n := by
  induction zeros generalizing n with
  | zero => simp [lastDigits]
  | succ zeros ih =>
      rw [← add_assoc, lastDigits, ih, lastDigits, Nat.div_div_eq_div_mul, ← pow_succ',
        List.append_assoc]

theorem lastDigits_zero (count : ℕ) : lastDigits count 0 = List.replicate count '0' := by
  induction count with
  | zero => rfl
  | succ count ih =>
      rw [lastDigits, Nat.zero_div, ih, List.replicate_succ']
      rfl

theorem lastDigits_eq_replicate_iff :
    lastDigits zeros n = List.replicate zeros '0' ↔ 10 ^ zeros ∣ n := by
  rw [← lastDigits_zero, lastDigits_inj, Nat.zero_mod, Nat.dvd_iff_mod_eq_zero]

/-- A power of ten appends zeros. -/
theorem lastDigits_mul_pow (count zeros n : ℕ) :
    lastDigits (count + zeros) (n * 10 ^ zeros) =
      lastDigits count n ++ List.replicate zeros '0' := by
  have hpos : 0 < 10 ^ zeros := Nat.pow_pos (by decide)
  rw [lastDigits_add, Nat.mul_div_cancel _ hpos,
    lastDigits_eq_replicate_iff.mpr (Nat.dvd_mul_left _ _)]

end

/-! ## §2  Zeros at the end -/

section

variable {α : Type} {zero : α} {digits kept longer : List α} {optional more : ℕ}

/-- The digits without their zeros at the end, of which at most so many are optional. -/
def IsStripped (zero : α) (optional : ℕ) (digits kept : List α) : Prop :=
  ∃ removed ≤ optional, digits = kept ++ List.replicate removed zero ∧
    (removed = optional ∨ kept.getLast? ≠ some zero)

def EndsIn (zero : α) (count : ℕ) (digits : List α) : Prop :=
  ∃ before, digits = before ++ List.replicate count zero

theorem getLast?_of_endsIn {before : List α} {count removed : ℕ} (hlt : removed < count)
    (h : kept ++ List.replicate removed zero = before ++ List.replicate count zero) :
    kept.getLast? = some zero := by
  obtain ⟨others, rfl⟩ := Nat.exists_eq_add_of_lt hlt
  rw [show removed + others + 1 = (others + 1) + removed by omega, List.replicate_add,
    ← List.append_assoc] at h
  rw [List.append_cancel_right h, List.replicate_succ', ← List.append_assoc,
    List.getLast?_concat]

/-- **More optional places**: what is left of the longer list is what is left of the list
itself exactly if the list is the longer one without zeros, and needs the places. -/
theorem isStripped_iff_of_longer (hlonger : IsStripped zero optional longer kept)
    (hlength : longer.length = digits.length + more) :
    IsStripped zero optional digits kept ↔
      longer = digits ++ List.replicate more zero ∧
        (more = 0 ∨ (more ≤ optional ∧ ¬ EndsIn zero (optional + 1 - more) digits)) := by
  obtain ⟨removed, hle, rfl, hlast⟩ := hlonger
  rw [List.length_append, List.length_replicate] at hlength
  constructor
  · rintro ⟨fewer, hfewer, rfl, hfewerLast⟩
    rw [List.length_append, List.length_replicate] at hlength
    obtain rfl : removed = fewer + more := by omega
    refine ⟨by rw [List.append_assoc, List.replicate_append_replicate], ?_⟩
    rcases Nat.eq_zero_or_pos more with hzero | hpos
    · exact .inl hzero
    · refine .inr ⟨by omega, ?_⟩
      rintro ⟨before, hbefore⟩
      rcases hfewerLast with heq | hne
      · omega
      · exact hne (getLast?_of_endsIn (by omega) hbefore)
  · rintro ⟨heq, hmore⟩
    rcases hmore with rfl | ⟨hmoreLe, hnot⟩
    · rw [List.replicate_zero, List.append_nil] at heq
      exact ⟨removed, hle, heq.symm, hlast⟩
    · have hremoved : more ≤ removed := by
        by_contra hlt
        rcases hlast with hall | hne
        · omega
        · exact hne (getLast?_of_endsIn (not_le.mp hlt) heq)
      obtain ⟨fewer, rfl⟩ := Nat.exists_eq_add_of_le' hremoved
      rw [List.replicate_add, ← List.append_assoc] at heq
      have hdigits := List.append_cancel_right heq
      refine ⟨fewer, by omega, hdigits.symm, .inr fun hkept => hnot ?_⟩
      rcases hlast with hall | hne
      · obtain ⟨before, rfl⟩ := List.getLast?_eq_some_iff.mp hkept
        refine ⟨before, ?_⟩
        rw [← hdigits, show optional + 1 - more = fewer + 1 by omega, List.replicate_succ,
          List.append_assoc, List.singleton_append]
      · exact absurd hkept hne

/-- **Digits end in zeros** where the number is divided by the power of ten. -/
theorem endsIn_lastDigits_iff {count n zeros : ℕ} (hle : zeros ≤ count) :
    EndsIn '0' zeros (lastDigits count n) ↔ 10 ^ zeros ∣ n := by
  obtain ⟨others, rfl⟩ := Nat.exists_eq_add_of_le' hle
  rw [EndsIn, lastDigits_add, ← lastDigits_eq_replicate_iff]
  constructor
  · rintro ⟨before, hbefore⟩
    exact (List.append_inj' hbefore (by simp)).2
  · intro h
    rw [h]
    exact ⟨_, rfl⟩

end

/-! ## §3  Division to the nearest -/

/-- The nearest quotient, and of two the even one. -/
def divideToEven (n d : ℕ) : ℕ :=
  if 2 * (n % d) < d ∨ (2 * (n % d) = d ∧ n / d % 2 = 0) then n / d else n / d + 1

end ScadaCommon.Foundation
