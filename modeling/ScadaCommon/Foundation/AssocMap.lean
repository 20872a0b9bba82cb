import Mathlib.Algebra.GroupWithZero.Nat
import Mathlib.Data.List.AList

/-!
# Finite maps

Operations on `AList` maps of one value type, beside those of the library:
filtering and rewriting every value in one pass, and adding up what the values
count for.
-/

namespace ScadaCommon.Foundation

abbrev AssocMap (α β : Type*) := AList fun _ : α => β

namespace AssocMap

variable {α β γ : Type*} [DecidableEq α]

/-- The pass of `filterMap` over the entries. -/
def filterMapEntries (f : α → β → Option γ) : List (Sigma fun _ : α => β) →
    List (Sigma fun _ : α => γ)
  | [] => []
  | e :: entries =>
      match f e.1 e.2 with
      | some c => ⟨e.1, c⟩ :: filterMapEntries f entries
      | none => filterMapEntries f entries

omit [DecidableEq α] in
theorem keys_filterMapEntries (f : α → β → Option γ) (entries : List (Sigma fun _ : α => β)) :
    (filterMapEntries f entries).keys.Sublist entries.keys := by
  induction entries with
  | nil => exact List.Sublist.refl _
  | cons e entries ih =>
      unfold filterMapEntries
      split
      · exact ih.cons_cons _
      · exact ih.cons _

/-- Keeps the keys whose value `f` maps, with their new values. -/
def filterMap (f : α → β → Option γ) (m : AssocMap α β) : AssocMap α γ :=
  ⟨filterMapEntries f m.entries,
    List.Nodup.sublist (keys_filterMapEntries f m.entries) m.nodupKeys⟩

theorem lookup_filterMap (f : α → β → Option γ) (m : AssocMap α β) (a : α) :
    (filterMap f m).lookup a = (m.lookup a).bind (f a) := by
  obtain ⟨entries, hnodup⟩ := m
  change (filterMapEntries f entries).dlookup a = (entries.dlookup a).bind (f a)
  induction entries with
  | nil => rfl
  | cons e entries ih =>
      obtain ⟨k, b⟩ := e
      have ih := ih (List.nodupKeys_of_nodupKeys_cons hnodup)
      have hk : k ∉ entries.keys := List.notMem_keys_of_nodupKeys_cons hnodup
      by_cases hka : a = k
      · subst hka
        rw [List.dlookup_cons_eq, Option.bind_some]
        unfold filterMapEntries
        split
        · rename_i c hc
          rw [List.dlookup_cons_eq, hc]
        · rename_i hc
          rw [hc, List.dlookup_eq_none]
          exact fun hmem => hk ((keys_filterMapEntries f entries).mem hmem)
      · rw [List.dlookup_cons_ne _ _ hka, ← ih]
        rw [filterMapEntries]
        split
        · rw [List.dlookup_cons_ne _ _ hka]
        · rfl

theorem lookup_insert_cases {m : AssocMap α β} {a a' : α} {b b' : β}
    (h : (m.insert a b).lookup a' = some b') :
    a' = a ∧ b' = b ∨ a' ≠ a ∧ m.lookup a' = some b' := by
  by_cases ha : a' = a
  · subst ha
    rw [AList.lookup_insert] at h
    exact Or.inl ⟨rfl, (Option.some.inj h).symm⟩
  · rw [AList.lookup_insert_ne ha] at h
    exact Or.inr ⟨ha, h⟩

theorem lookup_of_erase {m : AssocMap α β} {a a' : α} {b : β}
    (h : (m.erase a).lookup a' = some b) : m.lookup a' = some b := by
  by_cases ha : a' = a
  · rw [ha, AList.lookup_erase] at h
    cases h
  · rwa [AList.lookup_erase_ne ha] at h

/-- Adds up what the values count for. -/
def sumValues (f : β → ℕ) (m : AssocMap α β) : ℕ :=
  (m.entries.map fun e => f e.2).sum

/-- What a key counts for, taken out. -/
theorem sumValues_eq_add_erase (f : β → ℕ) {m : AssocMap α β} {a : α} {b : β}
    (h : m.lookup a = some b) : sumValues f m = f b + sumValues f (m.erase a) := by
  obtain ⟨entries, hnodup⟩ := m
  change entries.dlookup a = some b at h
  show (entries.map fun e => f e.2).sum = f b + ((entries.kerase a).map fun e => f e.2).sum
  clear hnodup
  induction entries with
  | nil => cases h
  | cons e entries ih =>
      obtain ⟨k, c⟩ := e
      by_cases hka : a = k
      · subst hka
        rw [List.dlookup_cons_eq] at h
        cases h
        have herase : List.kerase a (⟨a, b⟩ :: entries) = entries := List.kerase_cons_eq rfl
        rw [herase, List.map_cons, List.sum_cons]
      · rw [List.dlookup_cons_ne _ _ hka] at h
        have herase : List.kerase a (⟨k, c⟩ :: entries) = ⟨k, c⟩ :: entries.kerase a :=
          List.kerase_cons_ne hka
        rw [herase, List.map_cons, List.map_cons, List.sum_cons, List.sum_cons, ih h]
        omega

theorem sumValues_insert (f : β → ℕ) (m : AssocMap α β) (a : α) (b : β) :
    sumValues f (m.insert a b) = f b + sumValues f (m.erase a) := by
  unfold sumValues
  rw [AList.entries_insert, List.map_cons, List.sum_cons]
  rfl

theorem erase_of_notMem {m : AssocMap α β} {a : α} (h : a ∉ m) : m.erase a = m := by
  refine AList.ext ?_
  show m.entries.kerase a = m.entries
  exact List.kerase_of_notMem_keys fun hmem => h hmem

theorem sumValues_insert_new (f : β → ℕ) {m : AssocMap α β} {a : α} (h : a ∉ m) (b : β) :
    sumValues f (m.insert a b) = f b + sumValues f m := by
  rw [sumValues_insert, erase_of_notMem h]

/-- A value takes the place of another one. -/
theorem sumValues_insert_add (f : β → ℕ) {m : AssocMap α β} {a : α} {b : β}
    (h : m.lookup a = some b) (c : β) :
    sumValues f (m.insert a c) + f b = f c + sumValues f m := by
  rw [sumValues_insert, sumValues_eq_add_erase f h]
  omega

end AssocMap

end ScadaCommon.Foundation
