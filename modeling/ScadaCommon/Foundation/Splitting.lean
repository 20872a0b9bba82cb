import Mathlib.Data.List.Basic

/-!
# Splitting at a separator

The first and the last place of a separator cut a list into what stands before it and
what stands after it.
-/

namespace ScadaCommon.Foundation

variable {α : Type} [DecidableEq α] {a : α} {as l r : List α}

/-- What stands before and after the first `a`. -/
def splitFirst (a : α) : List α → Option (List α × List α)
  | [] => none
  | b :: as => if b = a then some ([], as) else (splitFirst a as).map fun (l, r) => (b :: l, r)

/-- What stands before and after the last `a`. -/
def splitLast (a : α) (as : List α) : Option (List α × List α) :=
  (splitFirst a as.reverse).map fun (r, l) => (l.reverse, r.reverse)

theorem splitFirst_append (h : a ∉ l) : splitFirst a (l ++ a :: r) = some (l, r) := by
  induction l with
  | nil => simp [splitFirst]
  | cons b l ih =>
      rw [List.mem_cons, not_or] at h
      rw [List.cons_append, splitFirst, if_neg (Ne.symm h.1), ih h.2]
      rfl

theorem splitFirst_eq_some : splitFirst a as = some (l, r) ↔ as = l ++ a :: r ∧ a ∉ l := by
  constructor
  · intro h
    induction as generalizing l with
    | nil => cases h
    | cons b as ih =>
        rw [splitFirst] at h
        split at h
        · rename_i heq
          cases h
          exact ⟨by rw [heq, List.nil_append], List.not_mem_nil⟩
        · rename_i hne
          obtain ⟨⟨l', r'⟩, hrest, heq⟩ := Option.map_eq_some_iff.mp h
          cases heq
          obtain ⟨rfl, hmem⟩ := ih hrest
          exact ⟨rfl, List.not_mem_cons_of_ne_of_not_mem (Ne.symm hne) hmem⟩
  · rintro ⟨rfl, h⟩
    exact splitFirst_append h

theorem splitFirst_eq_none : splitFirst a as = none ↔ a ∉ as := by
  rw [← not_iff_not, ← Ne, Option.ne_none_iff_exists', not_not]
  constructor
  · rintro ⟨⟨l, r⟩, h⟩
    rw [(splitFirst_eq_some.mp h).1]
    exact List.mem_append_right _ List.mem_cons_self
  · intro h
    obtain ⟨l, r, rfl, hmem⟩ := List.eq_append_cons_of_mem h
    exact ⟨(l, r), splitFirst_append hmem⟩

theorem splitLast_eq_some : splitLast a as = some (l, r) ↔ as = l ++ a :: r ∧ a ∉ r := by
  rw [splitLast, Option.map_eq_some_iff]
  constructor
  · rintro ⟨⟨r', l'⟩, h, heq⟩
    cases heq
    obtain ⟨hreverse, hmem⟩ := splitFirst_eq_some.mp h
    refine ⟨?_, by simpa using hmem⟩
    rw [← List.reverse_reverse as, hreverse]
    simp
  · rintro ⟨rfl, h⟩
    refine ⟨(r.reverse, l.reverse), splitFirst_eq_some.mpr ⟨by simp, by simpa using h⟩, by simp⟩

theorem splitLast_append (h : a ∉ r) : splitLast a (l ++ a :: r) = some (l, r) :=
  splitLast_eq_some.mpr ⟨rfl, h⟩

end ScadaCommon.Foundation
