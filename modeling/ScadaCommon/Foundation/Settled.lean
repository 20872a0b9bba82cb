import Mathlib.Logic.Relation
import Mathlib.Data.Set.Basic

/-!
# Settled elements

An element is settled when it and everything it depends on, directly or not, meets
a condition. Dependencies may go round in circles. Settled elements can be taken out
without a change for the others.
-/

namespace ScadaCommon.Foundation

open Relation (ReflTransGen)

variable {α : Type*} {dep dep' : α → α → Prop} {p p' : α → Prop} {a b : α} {S : Set α}

def Settled (dep : α → α → Prop) (p : α → Prop) (a : α) : Prop :=
  ∀ b, ReflTransGen dep a b → p b

theorem Settled.self (h : Settled dep p a) : p a := h a ReflTransGen.refl

theorem Settled.of_dep (h : Settled dep p a) (hab : dep a b) : Settled dep p b :=
  fun _ hbc => h _ (ReflTransGen.head hab hbc)

/-- A set that is closed under dependencies and meets the condition. -/
theorem Settled.of_closed (hp : ∀ x ∈ S, p x) (hclosed : ∀ x ∈ S, ∀ y, dep x y → y ∈ S)
    (ha : a ∈ S) : Settled dep p a := by
  intro b hab
  have hb : b ∈ S := by
    induction hab with
    | refl => exact ha
    | tail _ hbc ih => exact hclosed _ ih _ hbc
  exact hp b hb

theorem Settled.congr (hdep : ∀ x y, dep' x y ↔ dep x y) :
    Settled dep' p a ↔ Settled dep p a := by
  have heq : dep' = dep := by
    funext x y
    exact propext (hdep x y)
  rw [heq]

/-- **Settled elements may be taken out.** -/
theorem Settled.cut_iff (hcut : ∀ x y, dep' x y ↔ dep x y ∧ x ∉ S ∧ y ∉ S)
    (hp : ∀ x ∉ S, p' x ↔ p x) (hS : ∀ x ∈ S, Settled dep p x) (ha : a ∉ S) :
    Settled dep' p' a ↔ Settled dep p a := by
  constructor
  · intro h b hab
    -- What is reached is reached without the elements taken out, or settled by them.
    have hreach : (ReflTransGen dep' a b ∧ b ∉ S) ∨ Settled dep p b := by
      induction hab with
      | refl => exact Or.inl ⟨ReflTransGen.refl, ha⟩
      | @tail b c _ hbc ih =>
          rcases ih with ⟨hab', hb⟩ | hsettled
          · by_cases hc : c ∈ S
            · exact Or.inr (hS c hc)
            · exact Or.inl ⟨hab'.tail ((hcut b c).mpr ⟨hbc, hb, hc⟩), hc⟩
          · exact Or.inr (hsettled.of_dep hbc)
    rcases hreach with ⟨hab', hb⟩ | hsettled
    · exact (hp b hb).mp (h b hab')
    · exact hsettled.self
  · intro h b hab
    have hreach : ReflTransGen dep a b ∧ b ∉ S := by
      induction hab with
      | refl => exact ⟨ReflTransGen.refl, ha⟩
      | tail _ hbc ih =>
          obtain ⟨hdep, -, hc⟩ := (hcut _ _).mp hbc
          exact ⟨ih.1.tail hdep, hc⟩
    exact (hp b hreach.2).mpr (h b hreach.1)

end ScadaCommon.Foundation
