import Mathlib.Order.WithBot
import Mathlib.Logic.Equiv.Basic

/-!
# Heaps in arrays

`push_heap`, `pop_heap` and `make_heap` on an array whose elements have ranks. The least
rank is on top. Behind the end of the array every rank is `⊤`, so that an inner place has
two children whatever the size.

§1 ranks and swaps · §2 the heap order · §3 up · §4 down · §5 the operations.
-/

namespace ScadaCommon.Foundation

namespace Heap

variable {α κ : Type*} (rank : α → κ)

/-! ## §1  Ranks and swaps -/

/-- The rank at a place. -/
def rankAt (v : Array α) (i : ℕ) : WithTop κ :=
  match v[i]? with
  | some a => rank a
  | none => ⊤

def parent (i : ℕ) : ℕ := (i - 1) / 2

variable {rank} {v : Array α} {i j : ℕ}

theorem parent_lt (h : 0 < i) : parent i < i := by
  unfold parent
  omega

theorem child_of_parent_eq (hj : 0 < j) (h : parent j = i) : j = 2 * i + 1 ∨ j = 2 * i + 2 := by
  unfold parent at h
  omega

theorem rankAt_of_getElem? {a : α} (h : v[i]? = some a) : rankAt rank v i = rank a := by
  simp [rankAt, h]

theorem rankAt_of_size_le (h : v.size ≤ i) : rankAt rank v i = ⊤ := by
  simp [rankAt, h]

variable [LinearOrder κ]

/-- Only a place of the array has a rank below another one. -/
theorem lt_size_of_rankAt_lt {r : WithTop κ} (h : rankAt rank v i < r) : i < v.size := by
  by_contra hsize
  rw [rankAt_of_size_le (Nat.le_of_not_lt hsize)] at h
  exact not_top_lt h

omit [LinearOrder κ] in
theorem getElem?_swapIfInBounds (hi : i < v.size) (hj : j < v.size) (k : ℕ) :
    (v.swapIfInBounds i j)[k]? = v[Equiv.swap i j k]? := by
  rw [Array.swapIfInBounds_def, dif_pos hi, dif_pos hj, Array.getElem?_swap]
  by_cases hkj : j = k
  · subst hkj
    rw [if_pos rfl, Equiv.swap_apply_right, Array.getElem?_eq_getElem hi]
  · rw [if_neg hkj]
    by_cases hki : i = k
    · subst hki
      rw [if_pos rfl, Equiv.swap_apply_left, Array.getElem?_eq_getElem hj]
    · rw [if_neg hki, Equiv.swap_apply_of_ne_of_ne (Ne.symm hki) (Ne.symm hkj)]

omit [LinearOrder κ] in
theorem rankAt_swapIfInBounds (hi : i < v.size) (hj : j < v.size) (k : ℕ) :
    rankAt rank (v.swapIfInBounds i j) k = rankAt rank v (Equiv.swap i j k) := by
  unfold rankAt
  rw [getElem?_swapIfInBounds hi hj]

omit [LinearOrder κ] in
theorem swapIfInBounds_perm (v : Array α) (i j : ℕ) : (v.swapIfInBounds i j).Perm v := by
  rw [Array.swapIfInBounds_def]
  split
  · split
    · exact Array.swap_perm _ _
    · exact .refl v
  · exact .refl v

/-! ## §2  The heap order -/

variable (rank) in
/-- From a place on, no place ranks below its parent. -/
def HeapFrom (v : Array α) (lo : ℕ) : Prop :=
  ∀ j, 0 < j → lo ≤ parent j → rankAt rank v (parent j) ≤ rankAt rank v j

variable (rank) in
abbrev IsHeap (v : Array α) : Prop := HeapFrom rank v 0

/-- **The front of a heap ranks least.** -/
theorem IsHeap.front_le (h : IsHeap rank v) (i : ℕ) : rankAt rank v 0 ≤ rankAt rank v i := by
  induction i using Nat.strongRecOn with
  | ind i ih =>
      by_cases hi : i = 0
      · rw [hi]
      · have hparent := parent_lt (Nat.pos_of_ne_zero hi)
        exact (ih (parent i) hparent).trans (h i (by omega) (Nat.zero_le _))

/-- The order is one of the elements. -/
theorem isHeap_iff : IsHeap rank v ↔
    ∀ j a b, 0 < j → v[parent j]? = some a → v[j]? = some b → rank a ≤ rank b := by
  constructor
  · intro h j a b hj ha hb
    have hle := h j hj (Nat.zero_le _)
    rw [rankAt_of_getElem? ha, rankAt_of_getElem? hb] at hle
    exact WithTop.coe_le_coe.mp hle
  · intro h j hj _
    have hj_gt := parent_lt hj
    by_cases hsize : j < v.size
    · have ha := Array.getElem?_eq_getElem (Nat.lt_trans hj_gt hsize)
      have hb := Array.getElem?_eq_getElem hsize
      rw [rankAt_of_getElem? ha, rankAt_of_getElem? hb]
      exact WithTop.coe_le_coe.mpr (h j _ _ hj ha hb)
    · rw [@rankAt_of_size_le _ _ rank v j (by omega)]
      exact le_top

theorem IsHeap.front_le_mem (h : IsHeap rank v) {front a : α} (hfront : v[0]? = some front)
    (ha : a ∈ v) : rank front ≤ rank a := by
  obtain ⟨i, hi⟩ := Array.mem_iff_getElem?.mp ha
  have hle := h.front_le i
  rw [rankAt_of_getElem? hfront, rankAt_of_getElem? hi] at hle
  exact WithTop.coe_le_coe.mp hle

/-! ## §3  Up -/

variable (rank) in
/-- The loop of `push_heap`. -/
def siftUp : ℕ → Array α → ℕ → Array α
  | 0, v, _ => v
  | fuel + 1, v, i =>
      if rankAt rank v i < rankAt rank v (parent i) then
        siftUp fuel (v.swapIfInBounds i (parent i)) (parent i)
      else v

/-- A heap but for one place, which may rank below its parent. -/
structure UpOrder (rank : α → κ) (v : Array α) (i : ℕ) : Prop where
  except : ∀ j, 0 < j → j ≠ i → rankAt rank v (parent j) ≤ rankAt rank v j
  grand : 0 < i → ∀ j, 0 < j → parent j = i → rankAt rank v (parent i) ≤ rankAt rank v j

theorem UpOrder.move (h : UpOrder rank v i) (hlt : rankAt rank v i < rankAt rank v (parent i)) :
    UpOrder rank (v.swapIfInBounds i (parent i)) (parent i) := by
  have hi : i < v.size := lt_size_of_rankAt_lt hlt
  have hpos : 0 < i := by
    rcases Nat.eq_zero_or_pos i with rfl | hpos
    · exact absurd hlt (lt_irrefl _)
    · exact hpos
  have hne := parent_lt hpos
  have hparent : parent i < v.size := by omega
  constructor
  · intro j hj hji
    rw [rankAt_swapIfInBounds hi hparent, rankAt_swapIfInBounds hi hparent]
    by_cases hj_eq : j = i
    · subst hj_eq
      rw [Equiv.swap_apply_right, Equiv.swap_apply_left]
      exact hlt.le
    · rw [Equiv.swap_apply_of_ne_of_ne hj_eq hji]
      by_cases hpi : parent j = i
      · rw [hpi, Equiv.swap_apply_left]
        exact h.grand hpos j hj hpi
      · have hj_le := h.except j hj hj_eq
        by_cases hpp : parent j = parent i
        · rw [hpp, Equiv.swap_apply_right]
          rw [hpp] at hj_le
          exact hlt.le.trans hj_le
        · rw [Equiv.swap_apply_of_ne_of_ne hpi hpp]
          exact hj_le
  · intro hparent_pos j hj hjp
    rw [rankAt_swapIfInBounds hi hparent, rankAt_swapIfInBounds hi hparent]
    have hgrand := parent_lt hparent_pos
    rw [Equiv.swap_apply_of_ne_of_ne (by omega) (by omega)]
    have hup : rankAt rank v (parent (parent i)) ≤ rankAt rank v (parent i) :=
      h.except (parent i) hparent_pos hne.ne
    by_cases hj_eq : j = i
    · subst hj_eq
      rw [Equiv.swap_apply_left]
      exact hup
    · have hj_gt := parent_lt hj
      rw [Equiv.swap_apply_of_ne_of_ne hj_eq (by omega)]
      have hj_le := h.except j hj hj_eq
      rw [hjp] at hj_le
      exact hup.trans hj_le

theorem siftUp_perm (fuel : ℕ) (v : Array α) (i : ℕ) : (siftUp rank fuel v i).Perm v := by
  induction fuel generalizing v i with
  | zero => exact .refl v
  | succ fuel ih =>
      unfold siftUp
      split
      · exact (ih _ _).trans (swapIfInBounds_perm _ _ _)
      · exact .refl v

theorem isHeap_siftUp {fuel : ℕ} (hfuel : i ≤ fuel) (h : UpOrder rank v i) :
    IsHeap rank (siftUp rank fuel v i) := by
  induction fuel generalizing v i with
  | zero =>
      intro j hj _
      exact h.except j hj (by omega)
  | succ fuel ih =>
      unfold siftUp
      split
      · rename_i hlt
        have hpos : i ≠ 0 := by
          rintro rfl
          exact lt_irrefl _ hlt
        have hup := parent_lt (Nat.pos_of_ne_zero hpos)
        exact ih (by omega) (h.move hlt)
      · rename_i hle
        intro j hj _
        by_cases hji : j = i
        · subst hji
          exact not_lt.mp hle
        · exact h.except j hj hji

/-! ## §4  Down -/

variable (rank) in
/-- The child with the least rank. -/
def leastChild (v : Array α) (i : ℕ) : ℕ :=
  if rankAt rank v (2 * i + 2) < rankAt rank v (2 * i + 1) then 2 * i + 2 else 2 * i + 1

variable (rank) in
/-- The loop of `pop_heap` and `make_heap`. -/
def siftDown : ℕ → Array α → ℕ → Array α
  | 0, v, _ => v
  | fuel + 1, v, i =>
      let child := leastChild rank v i
      if rankAt rank v child < rankAt rank v i then
        siftDown fuel (v.swapIfInBounds i child) child
      else v

variable (rank) in
theorem parent_leastChild (v : Array α) (i : ℕ) :
    parent (leastChild rank v i) = i ∧ i < leastChild rank v i := by
  unfold leastChild parent
  split <;> omega

theorem leastChild_le (hj : 0 < j) (h : parent j = i) :
    rankAt rank v (leastChild rank v i) ≤ rankAt rank v j := by
  have hchild := child_of_parent_eq hj h
  unfold leastChild
  split
  · rename_i hlt
    rcases hchild with rfl | rfl
    · exact hlt.le
    · exact le_refl _
  · rename_i hle
    rcases hchild with rfl | rfl
    · exact le_refl _
    · exact not_lt.mp hle

/-- A heap from `lo` on but for one place, which may rank above its children. -/
structure DownOrder (rank : α → κ) (v : Array α) (lo i : ℕ) : Prop where
  except : ∀ j, 0 < j → lo ≤ parent j → parent j ≠ i → rankAt rank v (parent j) ≤ rankAt rank v j
  grand : 0 < i → lo ≤ parent i → ∀ j, 0 < j → parent j = i →
    rankAt rank v (parent i) ≤ rankAt rank v j

theorem DownOrder.move {lo : ℕ} (h : DownOrder rank v lo i)
    (hlt : rankAt rank v (leastChild rank v i) < rankAt rank v i) :
    DownOrder rank (v.swapIfInBounds i (leastChild rank v i)) lo (leastChild rank v i) := by
  obtain ⟨hchild, hbelow⟩ := parent_leastChild rank v i
  have hleast : ∀ j, 0 < j → parent j = i →
      rankAt rank v (leastChild rank v i) ≤ rankAt rank v j := fun j hj => leastChild_le hj
  generalize leastChild rank v i = c at *
  have hc : c < v.size := lt_size_of_rankAt_lt hlt
  have hi : i < v.size := by omega
  constructor
  · intro j hj hlo hjc
    rw [rankAt_swapIfInBounds hi hc, rankAt_swapIfInBounds hi hc]
    by_cases hji : parent j = i
    · rw [hji, Equiv.swap_apply_left]
      by_cases hj_eq : j = c
      · subst hj_eq
        rw [Equiv.swap_apply_right]
        exact hlt.le
      · have hj_gt := parent_lt hj
        rw [Equiv.swap_apply_of_ne_of_ne (by omega) hj_eq]
        exact hleast j hj hji
    · rw [Equiv.swap_apply_of_ne_of_ne hji hjc]
      by_cases hj_eq : j = i
      · subst hj_eq
        rw [Equiv.swap_apply_left]
        exact h.grand hj hlo c (by omega) hchild
      · have hj_ne : j ≠ c := by
          rintro rfl
          exact hji hchild
        rw [Equiv.swap_apply_of_ne_of_ne hj_eq hj_ne]
        exact h.except j hj hlo hji
  · intro _ hlo j hj hjc
    rw [rankAt_swapIfInBounds hi hc, rankAt_swapIfInBounds hi hc, hchild, Equiv.swap_apply_left]
    have hj_gt := parent_lt hj
    rw [Equiv.swap_apply_of_ne_of_ne (by omega) (by omega)]
    have hj_le := h.except j hj (by omega) (by omega)
    rw [hjc] at hj_le
    exact hj_le

theorem siftDown_perm (fuel : ℕ) (v : Array α) (i : ℕ) : (siftDown rank fuel v i).Perm v := by
  induction fuel generalizing v i with
  | zero => exact .refl v
  | succ fuel ih =>
      unfold siftDown
      simp only
      split
      · exact (ih _ _).trans (swapIfInBounds_perm _ _ _)
      · exact .refl v

theorem heapFrom_siftDown {fuel lo : ℕ} (hfuel : v.size ≤ i + fuel)
    (h : DownOrder rank v lo i) : HeapFrom rank (siftDown rank fuel v i) lo := by
  induction fuel generalizing v i with
  | zero =>
      intro j hj hlo
      by_cases hji : parent j = i
      · -- The place is behind the end, and so are its children.
        have hj_gt := parent_lt hj
        rw [siftDown, @rankAt_of_size_le _ _ rank v j (by omega)]
        exact le_top
      · exact h.except j hj hlo hji
  | succ fuel ih =>
      unfold siftDown
      simp only
      split
      · rename_i hlt
        have hbelow := (parent_leastChild rank v i).2
        apply ih
        · rw [Array.size_swapIfInBounds]
          omega
        · exact h.move hlt
      · rename_i hle
        intro j hj hlo
        by_cases hji : parent j = i
        · rw [hji]
          exact (not_lt.mp hle).trans (leastChild_le hj hji)
        · exact h.except j hj hlo hji

/-! ## §5  The operations -/

variable (rank)

/-- `push_heap`: the last element is new. -/
def pushHeap (v : Array α) : Array α := siftUp rank v.size v (v.size - 1)

/-- `pop_heap`: the front goes to the end, the others are a heap again. -/
def popHeap (v : Array α) : Array α :=
  match v[0]? with
  | none => v
  | some front => (siftDown rank v.size (v.swapIfInBounds 0 (v.size - 1)).pop 0).push front

def makeHeapFrom : ℕ → Array α → Array α
  | 0, v => v
  | i + 1, v => makeHeapFrom i (siftDown rank v.size v i)

def makeHeap (v : Array α) : Array α := makeHeapFrom rank (v.size / 2) v

variable {rank}

variable (rank) in
theorem pushHeap_perm (v : Array α) : (pushHeap rank v).Perm v := siftUp_perm _ _ _

theorem isHeap_pushHeap {a : α} (h : IsHeap rank v) : IsHeap rank (pushHeap rank (v.push a)) := by
  unfold pushHeap
  rw [Array.size_push, Nat.add_sub_cancel]
  have hsame : ∀ j, j ≠ v.size → rankAt rank (v.push a) j = rankAt rank v j := by
    intro j hj
    unfold rankAt
    rw [Array.getElem?_push, if_neg hj]
  have hbehind : ∀ j, v.size < j → rankAt rank (v.push a) j = ⊤ := by
    intro j hj
    apply rankAt_of_size_le
    rw [Array.size_push]
    exact hj
  apply isHeap_siftUp (Nat.le_succ _)
  constructor
  · intro j hj hne
    rw [hsame j hne]
    by_cases hparent : parent j = v.size
    · have hj_gt := parent_lt hj
      rw [@rankAt_of_size_le _ _ rank v j (by omega)]
      exact le_top
    · rw [hsame _ hparent]
      exact h j hj (Nat.zero_le _)
  · intro _ j hj hparent
    have hj_gt := parent_lt hj
    rw [hbehind j (by omega)]
    exact le_top

theorem makeHeapFrom_perm (i : ℕ) (v : Array α) : (makeHeapFrom rank i v).Perm v := by
  induction i generalizing v with
  | zero => exact .refl v
  | succ i ih => exact (ih _).trans (siftDown_perm _ _ _)

variable (rank) in
theorem makeHeap_perm (v : Array α) : (makeHeap rank v).Perm v := makeHeapFrom_perm _ _

theorem isHeap_makeHeapFrom {i : ℕ} (h : HeapFrom rank v i) :
    IsHeap rank (makeHeapFrom rank i v) := by
  induction i generalizing v with
  | zero => exact h
  | succ i ih =>
      apply ih
      apply heapFrom_siftDown (Nat.le_add_left _ _)
      constructor
      · intro j hj hlo hne
        exact h j hj (by omega)
      · intro hpos hlo
        have hi_gt := parent_lt hpos
        omega

/-- **A heap is made** of any array. -/
theorem isHeap_makeHeap (v : Array α) : IsHeap rank (makeHeap rank v) := by
  apply isHeap_makeHeapFrom
  intro j hj hlo
  have hchild := child_of_parent_eq hj rfl
  rw [@rankAt_of_size_le _ _ rank v j (by omega)]
  exact le_top

theorem pop_popHeap (v : Array α) :
    (popHeap rank v).pop = siftDown rank v.size (v.swapIfInBounds 0 (v.size - 1)).pop 0 := by
  unfold popHeap
  cases hfront : v[0]? with
  | none =>
      have hempty : v = #[] := by simpa using hfront
      subst hempty
      rfl
  | some front => exact Array.pop_push

/-- The end takes the place of the front. -/
theorem getElem?_pop_swap (hj : 0 < j) (hlt : j < v.size - 1) :
    (v.swapIfInBounds 0 (v.size - 1)).pop[j]? = v[j]? := by
  rw [Array.getElem?_pop, Array.size_swapIfInBounds, if_pos hlt,
    getElem?_swapIfInBounds (by omega) (by omega),
    Equiv.swap_apply_of_ne_of_ne (by omega) (by omega)]

theorem isHeap_pop_popHeap (h : IsHeap rank v) : IsHeap rank (popHeap rank v).pop := by
  have hsize : (v.swapIfInBounds 0 (v.size - 1)).pop.size = v.size - 1 := by
    rw [Array.size_pop, Array.size_swapIfInBounds]
  rw [pop_popHeap]
  apply heapFrom_siftDown
  · omega
  · constructor
    · intro j hj _ hparent
      have hj_gt := parent_lt hj
      by_cases hlt : j < v.size - 1
      · unfold rankAt
        rw [getElem?_pop_swap hj hlt, getElem?_pop_swap (by omega) (by omega)]
        exact h j hj (Nat.zero_le _)
      · rw [@rankAt_of_size_le _ _ rank _ j (by omega)]
        exact le_top
    · intro hpos
      omega

omit [LinearOrder κ] in
theorem push_pop_eq {a : α} (h : v[v.size - 1]? = some a) : v.pop.push a = v := by
  have hsize : v.size ≠ 0 := by
    intro hzero
    simp [hzero] at h
  obtain ⟨init, last, rfl⟩ := Array.eq_push_of_size_ne_zero hsize
  have hlast : last = a := by simpa using h
  rw [Array.pop_push, hlast]

variable (rank) in
/-- All but the front stays. -/
theorem pop_popHeap_perm {front : α} (h : v[0]? = some front) :
    ((popHeap rank v).pop.push front).Perm v := by
  have hsize : 0 < v.size := by
    by_contra hzero
    simp [Nat.eq_zero_of_not_pos hzero] at h
  have hlast : (v.swapIfInBounds 0 (v.size - 1))[(v.swapIfInBounds 0 (v.size - 1)).size - 1]? =
      some front := by
    rw [Array.size_swapIfInBounds, getElem?_swapIfInBounds hsize (by omega),
      Equiv.swap_apply_right, h]
  rw [pop_popHeap]
  refine ((siftDown_perm _ _ _).push front).trans ?_
  rw [push_pop_eq hlast]
  exact swapIfInBounds_perm _ _ _

end Heap

end ScadaCommon.Foundation
