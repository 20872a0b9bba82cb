import Mathlib.Logic.Relation

/-!
# Post-order

A recursion gets done with the children of a place before the place, and passes over
what is done. A place on the way is not done yet, so the recursion does not come back
from a cycle.

§1 visits · §2 turns.
-/

namespace ScadaCommon.Foundation

open Relation

variable {α : Type*} {children : α → List α} {todo done done' before : List α} {a b t : α}

/-! ## §1  Visits -/

/-- What is done when the places of a list have been visited one after the other. -/
inductive Visits (children : α → List α) : List α → List α → List α → Prop
  | nil {done : List α} : Visits children [] done done
  | skip {c : α} {cs done done' : List α} : c ∈ done → Visits children cs done done' →
      Visits children (c :: cs) done done'
  | visit {c : α} {cs done between done' : List α} : c ∉ done →
      Visits children (children c) done between →
      Visits children cs (c :: between) done' → Visits children (c :: cs) done done'

/-- The places that a list leads to. -/
def LeadsTo (children : α → List α) (todo : List α) (b : α) : Prop :=
  ∃ a ∈ todo, ReflTransGen (fun a b => b ∈ children a) a b

theorem LeadsTo.of_mem (h : a ∈ todo) : LeadsTo children todo a :=
  ⟨a, h, .refl⟩

theorem LeadsTo.tail (h : LeadsTo children todo b) : LeadsTo children (a :: todo) b := by
  obtain ⟨c, hc, hcb⟩ := h
  exact ⟨c, List.mem_cons_of_mem _ hc, hcb⟩

theorem LeadsTo.below (h : LeadsTo children (children a) b) : LeadsTo children (a :: todo) b := by
  obtain ⟨c, hac, hcb⟩ := h
  exact ⟨a, List.mem_cons_self, hcb.head hac⟩

theorem Visits.subset (h : Visits children todo done done') : done ⊆ done' := by
  induction h with
  | nil => exact List.Subset.refl _
  | skip _ _ ih => exact ih
  | visit _ _ _ ih ih' => exact fun a ha => ih' (List.mem_cons_of_mem _ (ih ha))

theorem Visits.todo_subset (h : Visits children todo done done') : todo ⊆ done' := by
  induction h with
  | nil => exact List.nil_subset _
  | skip hc hrest ih => exact List.cons_subset.mpr ⟨hrest.subset hc, ih⟩
  | visit _ _ hrest _ ih => exact List.cons_subset.mpr ⟨hrest.subset List.mem_cons_self, ih⟩

/-- Only what the list leads to gets done. -/
theorem Visits.leadsTo (h : Visits children todo done done') :
    ∀ b ∈ done', b ∈ done ∨ LeadsTo children todo b := by
  induction h with
  | nil => exact fun b hb => .inl hb
  | skip _ _ ih => exact fun b hb => (ih b hb).imp_right LeadsTo.tail
  | visit _ _ _ ih ih' =>
      intro b hb
      rcases ih' b hb with hb | hb
      · rcases List.mem_cons.mp hb with rfl | hb
        · exact .inr (.of_mem List.mem_cons_self)
        · exact (ih b hb).imp_right LeadsTo.below
      · exact .inr hb.tail

theorem Visits.of_single (h : Visits children [a] done done') (ha : a ∉ done) :
    ∃ between, Visits children (children a) done between ∧ done' = a :: between := by
  cases h with
  | skip hdone _ => exact absurd hdone ha
  | visit _ hbelow hrest =>
      cases hrest
      exact ⟨_, hbelow, rfl⟩

/-! ## §2  Turns -/

/-- What is done when the turn of a place comes: its children are, and it is next. -/
inductive Turn (children : α → List α) : List α → List α → α → List α → Prop
  | skip {c t : α} {cs done before : List α} : c ∈ done → Turn children cs done t before →
      Turn children (c :: cs) done t before
  | child {c t : α} {cs done before : List α} : c ∉ done →
      Turn children (children c) done t before → Turn children (c :: cs) done t before
  | here {c : α} {cs done before : List α} : c ∉ done → Visits children (children c) done before →
      Turn children (c :: cs) done c before
  | after {c t : α} {cs done between before : List α} : c ∉ done →
      Visits children (children c) done between → Turn children cs (c :: between) t before →
      Turn children (c :: cs) done t before

theorem Turn.leadsTo (h : Turn children todo done t before) : LeadsTo children todo t := by
  induction h with
  | skip _ _ ih => exact ih.tail
  | child _ _ ih => exact ih.below
  | here _ _ => exact .of_mem List.mem_cons_self
  | after _ _ _ ih => exact ih.tail

theorem Turn.of_single (h : Turn children [a] done t before) :
    Turn children (a :: todo) done t before := by
  cases h with
  | skip _ h => cases h
  | child hnew h => exact .child hnew h
  | here hnew h => exact .here hnew h
  | after _ _ h => cases h

end ScadaCommon.Foundation
