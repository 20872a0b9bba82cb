import Mathlib.Order.RelClasses
import Mathlib.Data.List.Pairwise

/-!
# Ordered sets

A set kept in a list in the order of a comparer, as a balanced tree keeps it:
elements neither of which is less than the other are one element. The comparer
is a parameter of every operation, so that a set can outlive a change of what
the comparer looks at; `Sorted.congr` and the lemmas on `find` say what is left
of it then.
-/

namespace ScadaCommon.Foundation

namespace OrderedSet

variable {α : Type*} (less : α → α → Prop) [DecidableRel less]

/-- The element of the set equivalent to `a`. -/
def find (a : α) : List α → Option α
  | [] => none
  | b :: set => if less b a then find a set else if less a b then none else some b

/-- Leaves the set alone when an equivalent element is there. -/
def insert (a : α) : List α → List α
  | [] => [a]
  | b :: set =>
      if less b a then b :: insert a set
      else if less a b then a :: b :: set
      else b :: set

/-- Where an iterator on `a` gets to. -/
def next [DecidableEq α] (a : α) : List α → Option α
  | [] => none
  | b :: set => if a = b then set.head? else next a set

abbrev Sorted (set : List α) : Prop := set.Pairwise less

variable {less} {less' : α → α → Prop} {a b : α} {set : List α}

omit [DecidableRel less] in
/-- A set stays sorted under any comparer that agrees on its elements. -/
theorem Sorted.congr (h : Sorted less set)
    (hagree : ∀ a ∈ set, ∀ b ∈ set, less a b → less' a b) : Sorted less' set :=
  List.Pairwise.imp_of_mem (fun ha hb hab => hagree _ ha _ hb hab) h

section

variable [IsStrictTotalOrder α less]

omit [DecidableRel less] in
theorem Sorted.nodup (h : Sorted less set) : set.Nodup := by
  refine List.Pairwise.imp ?_ h
  rintro a _ hab rfl
  exact irrefl a hab

theorem mem_insert : b ∈ insert less a set ↔ b = a ∨ b ∈ set := by
  induction set with
  | nil => simp [insert]
  | cons c set ih =>
      unfold insert
      split
      · rw [List.mem_cons, ih, List.mem_cons]
        exact or_left_comm
      · split
        · simp
        · rename_i hca hac
          have hEq : a = c := Std.Trichotomous.trichotomous a c hac hca
          simp [hEq]

theorem Sorted.insert (h : Sorted less set) (a : α) : Sorted less (insert less a set) := by
  induction set with
  | nil => exact List.pairwise_singleton _ _
  | cons c set ih =>
      obtain ⟨hc, htail⟩ := List.pairwise_cons.mp h
      unfold OrderedSet.insert
      split
      · rename_i hca
        refine List.pairwise_cons.mpr ⟨?_, ih htail⟩
        intro b hb
        rcases mem_insert.mp hb with rfl | hb
        · exact hca
        · exact hc b hb
      · split
        · rename_i hac
          refine List.pairwise_cons.mpr ⟨?_, h⟩
          intro b hb
          rcases List.mem_cons.mp hb with rfl | hb
          · exact hac
          · exact trans_of less hac (hc b hb)
        · exact h

/-- The search passes the lesser elements and stops at the element itself. -/
theorem find_of_mem (h : Sorted less set) (ha : a ∈ set) : find less a set = some a := by
  induction set with
  | nil => cases ha
  | cons c set ih =>
      obtain ⟨hc, htail⟩ := List.pairwise_cons.mp h
      unfold find
      rcases List.mem_cons.mp ha with rfl | hmem
      · rw [if_neg (irrefl a), if_neg (irrefl a)]
      · rw [if_pos (hc a hmem), ih htail hmem]

omit [DecidableRel less] in
theorem mem_erase [DecidableEq α] (h : Sorted less set) : b ∈ set.erase a ↔ b ≠ a ∧ b ∈ set :=
  h.nodup.mem_erase_iff

omit [DecidableRel less] [IsStrictTotalOrder α less] in
theorem Sorted.erase [DecidableEq α] (h : Sorted less set) (a : α) :
    Sorted less (set.erase a) :=
  List.Pairwise.sublist List.erase_sublist h

omit [DecidableRel less] [IsStrictTotalOrder α less] in
/-- The first element is the least. -/
theorem Sorted.head? (h : Sorted less set) (hb : set.head? = some b) :
    b ∈ set ∧ ∀ c ∈ set, c = b ∨ less b c := by
  cases set with
  | nil => cases hb
  | cons d set =>
      cases hb
      refine ⟨List.mem_cons_self, fun c hc => ?_⟩
      rcases List.mem_cons.mp hc with rfl | hc
      · exact Or.inl rfl
      · exact Or.inr ((List.pairwise_cons.mp h).1 c hc)

omit [DecidableRel less] in
/-- An iterator gets to the end behind the greatest element. -/
theorem Sorted.next_eq_none [DecidableEq α] (h : Sorted less set) (ha : a ∈ set)
    (hnext : next a set = none) : ∀ c ∈ set, ¬ less a c := by
  induction set with
  | nil => cases ha
  | cons d set ih =>
      obtain ⟨hd, htail⟩ := List.pairwise_cons.mp h
      rw [next] at hnext
      split at hnext
      · rename_i had
        subst had
        rw [List.head?_eq_none_iff] at hnext
        subst hnext
        intro c hc
        obtain rfl := List.mem_singleton.mp hc
        exact irrefl c
      · rename_i had
        have hrest := (List.mem_cons.mp ha).resolve_left had
        intro c hc
        rcases List.mem_cons.mp hc with rfl | hc
        · exact fun hac => asymm hac (hd a hrest)
        · exact ih htail hrest hnext c hc

omit [DecidableRel less] in
/-- An iterator gets to the least of the greater elements. -/
theorem Sorted.next_eq_some [DecidableEq α] (h : Sorted less set) (ha : a ∈ set)
    (hnext : next a set = some b) :
    b ∈ set ∧ less a b ∧ ∀ c ∈ set, less a c → c = b ∨ less b c := by
  induction set with
  | nil => cases ha
  | cons d set ih =>
      obtain ⟨hd, htail⟩ := List.pairwise_cons.mp h
      rw [next] at hnext
      split at hnext
      · rename_i had
        subst had
        obtain ⟨hb, hleast⟩ := Sorted.head? htail hnext
        refine ⟨List.mem_cons_of_mem _ hb, hd b hb, fun c hc hac => ?_⟩
        rcases List.mem_cons.mp hc with rfl | hc
        · exact absurd hac (irrefl c)
        · exact hleast c hc
      · rename_i had
        have hrest := (List.mem_cons.mp ha).resolve_left had
        obtain ⟨hb, hab, hleast⟩ := ih htail hrest hnext
        refine ⟨List.mem_cons_of_mem _ hb, hab, fun c hc hac => ?_⟩
        rcases List.mem_cons.mp hc with rfl | hc
        · exact absurd (hd a hrest) (asymm hac)
        · exact hleast c hc hac

end

end OrderedSet

end ScadaCommon.Foundation
