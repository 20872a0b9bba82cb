import Mathlib.Data.Finset.Max
import Mathlib.Data.List.Nodup

/-!
# Loops over sets that change

`for (auto i = s.begin(); i != s.end();) f(*i++);` over an ordered set that `f` may
change. The iterator is on the element after the one that `f` works on: `f` may erase
any element but that one. What it adds is visited if it is ahead.

§1 the iterator · §2 what a loop keeps · §3 what one step keeps.
-/

namespace ScadaCommon.Foundation

variable {α : Type*} [LinearOrder α]

/-! ## §1  The iterator -/

/-- `begin()`, `none` for `end()`. -/
def firstOf (s : Finset α) : Option α :=
  if h : s.Nonempty then some (s.min' h) else none

/-- Where an iterator on `a` gets to. -/
def nextOf (s : Finset α) (a : α) : Option α := firstOf (s.filter (a < ·))

theorem firstOf_eq_some {s : Finset α} {a : α} (h : firstOf s = some a) :
    a ∈ s ∧ ∀ b ∈ s, a ≤ b := by
  unfold firstOf at h
  split at h
  · rename_i hs
    cases h
    exact ⟨s.min'_mem hs, fun b hb => s.min'_le b hb⟩
  · cases h

theorem firstOf_eq_none {s : Finset α} (h : firstOf s = none) : s = ∅ := by
  unfold firstOf at h
  split at h
  · cases h
  · rename_i hs
    exact Finset.not_nonempty_iff_eq_empty.mp hs

/-- Where an iterator gets to: the least of the greater elements. -/
theorem nextOf_eq_some {s : Finset α} {a b : α} (h : nextOf s a = some b) :
    b ∈ s ∧ a < b ∧ ∀ c ∈ s, a < c → b ≤ c := by
  obtain ⟨hmem, hleast⟩ := firstOf_eq_some h
  obtain ⟨hb, hab⟩ := Finset.mem_filter.mp hmem
  exact ⟨hb, hab, fun c hc hac => hleast c (Finset.mem_filter.mpr ⟨hc, hac⟩)⟩

theorem nextOf_eq_none {s : Finset α} {a b : α} (h : nextOf s a = none) (hb : b ∈ s) : ¬ a < b :=
  fun hab => absurd (firstOf_eq_none h ▸ Finset.mem_filter.mpr ⟨hb, hab⟩) (Finset.notMem_empty b)

/-- Behind the first element is nothing. -/
theorem not_forall_firstOf_lt {s : Finset α} {a : α} (ha : a ∈ s) :
    ¬ ∀ b ∈ firstOf s, a < b := by
  intro hbehind
  cases hfirst : firstOf s with
  | none => exact absurd (firstOf_eq_none hfirst ▸ ha) (Finset.notMem_empty a)
  | some b =>
      have hb := hbehind b hfirst
      exact absurd hb (not_lt.mpr ((firstOf_eq_some hfirst).2 a ha))

/-- The iterator steps over one element. -/
theorem behind_nextOf {s : Finset α} {a b : α} (hb : b ∈ s) (h : ∀ c ∈ nextOf s a, b < c) :
    b ≤ a := by
  by_contra hlt
  exact not_forall_firstOf_lt (Finset.mem_filter.mpr ⟨hb, not_le.mp hlt⟩) h

/-- A loop whose body is at work. -/
structure LiveLoop (α : Type*) where
  /-- The element that the iterator is on, `none` at the end. -/
  next : Option α
  /-- That element has not been erased. -/
  intact : Bool := true
  /-- What was there when the loop began. -/
  started : Finset α
  visited : List α := []
deriving DecidableEq

namespace LiveLoop

def start (s : Finset α) : LiveLoop α := { next := firstOf s, started := s }

def erased (l : LiveLoop α) (a : α) : LiveLoop α :=
  { l with intact := l.intact ∧ l.next ≠ some a }

/-- Takes the element and steps over it. -/
def visit (l : LiveLoop α) (s : Finset α) (a : α) : LiveLoop α :=
  { l with next := nextOf s a, visited := l.visited ++ [a] }

/-- The iterator is past the element. -/
def Behind (l : LiveLoop α) (a : α) : Prop := ∀ b ∈ l.next, a < b

instance (l : LiveLoop α) (a : α) : Decidable (l.Behind a) :=
  inferInstanceAs (Decidable (∀ b ∈ l.next, a < b))

/-! ## §2  What a loop keeps -/

/-- A loop over a set that is like this now. -/
structure Inv (l : LiveLoop α) (s : Finset α) : Prop where
  intact : l.intact = true
  next : ∀ a ∈ l.next, a ∈ s
  /-- Nothing that has been there from the beginning is stepped over. -/
  started : ∀ a ∈ l.started, a ∈ s → l.Behind a → a ∈ l.visited
  behind : ∀ a ∈ l.visited, l.Behind a
  nodup : l.visited.Nodup

/-! ## §3  What one step keeps -/

variable {l : LiveLoop α} {s : Finset α} {a : α}

theorem Inv.start (s : Finset α) : Inv (start s) s where
  intact := rfl
  next := fun _ ha => (firstOf_eq_some ha).1
  started := fun _ ha _ hbehind => absurd hbehind (not_forall_firstOf_lt ha)
  behind := fun _ ha => absurd ha List.not_mem_nil
  nodup := List.nodup_nil

/-- The element is one that the loop has already left behind, unvisited. -/
def StepsOver (l : LiveLoop α) (a : α) : Prop := a ∈ l.started ∧ a ∉ l.visited ∧ l.Behind a

instance (l : LiveLoop α) (a : α) : Decidable (l.StepsOver a) :=
  inferInstanceAs (Decidable (_ ∧ _ ∧ _))

theorem Inv.insert (h : Inv l s) (hover : ¬ l.StepsOver a) : Inv l (insert a s) where
  intact := h.intact
  next := fun b hb => Finset.mem_insert_of_mem (h.next b hb)
  started := by
    intro b hb hmem hbehind
    rcases Finset.mem_insert.mp hmem with rfl | hmem
    · by_contra hvisited
      exact hover ⟨hb, hvisited, hbehind⟩
    · exact h.started b hb hmem hbehind
  behind := h.behind
  nodup := h.nodup

theorem Inv.erase (h : Inv l s) (hnext : l.next ≠ some a) : Inv (l.erased a) (s.erase a) where
  intact := by simp [erased, h.intact, hnext]
  next := fun b hb =>
    Finset.mem_erase.mpr ⟨fun hba => hnext (hba ▸ hb), h.next b hb⟩
  started := fun b hb hmem hbehind => h.started b hb (Finset.mem_of_mem_erase hmem) hbehind
  behind := h.behind
  nodup := h.nodup

/-- The body gets the next element. -/
theorem Inv.visit (h : Inv l s) (hnext : l.next = some a) : Inv (l.visit s a) s where
  intact := h.intact
  next := fun _ hb => (nextOf_eq_some hb).1
  started := by
    intro b hb hmem hbehind
    have hle : b ≤ a := behind_nextOf hmem hbehind
    rcases hle.eq_or_lt with rfl | hlt
    · exact List.mem_append_right _ (List.mem_singleton_self b)
    · have hbehind : l.Behind b := fun c hc => by
        cases hnext.symm.trans hc
        exact hlt
      exact List.mem_append_left _ (h.started b hb hmem hbehind)
  behind := by
    intro b hb c hc
    rcases List.mem_append.mp hb with hb | hb
    · exact (h.behind b hb a hnext).trans (nextOf_eq_some hc).2.1
    · exact List.mem_singleton.mp hb ▸ (nextOf_eq_some hc).2.1
  nodup := by
    refine List.nodup_append.mpr ⟨h.nodup, List.nodup_singleton a, ?_⟩
    rintro b hb c hc rfl
    obtain rfl := List.mem_singleton.mp hc
    exact lt_irrefl b (h.behind b hb b hnext)

/-- Each element that has been there from the beginning is visited once. -/
theorem Inv.count_visited (h : Inv l s) (hstarted : a ∈ l.started) (ha : a ∈ s)
    (hbehind : l.Behind a) : l.visited.count a = 1 :=
  List.count_eq_one_of_mem h.nodup (h.started a hstarted ha hbehind)

end LiveLoop

end ScadaCommon.Foundation
