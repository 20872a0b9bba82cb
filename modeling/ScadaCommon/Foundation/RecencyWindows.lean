import Mathlib.Data.List.Nodup

/-!
# Windows of what was used last

A window has the elements that were used last, the last one first, up to a capacity; an
element may also be withdrawn. It is kept in a list whose nodes have addresses, beside an
index that has the address for each key, so that an element is found without a search.

§1 windows · §2 order · §3 indexed lists · §4 what is done to an indexed list.
-/

namespace ScadaCommon.Foundation

/-! ## §1  Windows -/

inductive WindowEvent (α : Type*) where
  | used (a : α)
  | withdrawn (a : α)
deriving DecidableEq

namespace RecencyWindow

variable {α : Type*} [DecidableEq α] {capacity : ℕ} {a b : α} {list used : List α}

/-- What is used comes to the front, and what is over the capacity leaves at the back. -/
def use (capacity : ℕ) (a : α) (list : List α) : List α :=
  (a :: list.erase a).take capacity

/-- The window after events, of which the last one comes first. -/
def window (capacity : ℕ) : List (WindowEvent α) → List α
  | [] => []
  | .used a :: events => use capacity a (window capacity events)
  | .withdrawn a :: events => (window capacity events).erase a

omit [DecidableEq α] in
/-- The elements that were used, the last one first. -/
def uses : List (WindowEvent α) → List α
  | [] => []
  | .used a :: events => a :: uses events
  | .withdrawn _ :: events => uses events

theorem use_of_mem (ha : a ∈ list) (hlength : list.length ≤ capacity) :
    use capacity a list = a :: list.erase a := by
  apply List.take_of_length_le
  have hpos := List.length_pos_of_mem ha
  rw [List.length_cons, List.length_erase_of_mem ha]
  omega

theorem use_of_notMem (ha : a ∉ list) : use capacity a list = (a :: list).take capacity := by
  unfold use
  rw [List.erase_of_not_mem ha]

/-! ## §2  Order -/

/-- Each element once, not more than the capacity, and in the order of the last uses. -/
structure Recent (capacity : ℕ) (used list : List α) : Prop where
  nodup : list.Nodup
  length : list.length ≤ capacity
  mem : ∀ a ∈ list, a ∈ used
  order : list.Pairwise fun a b => used.idxOf a < used.idxOf b

namespace Recent

theorem nil : Recent capacity used ([] : List α) :=
  ⟨.nil, Nat.zero_le _, by simp, .nil⟩

theorem sublist {list' : List α} (h : Recent capacity used list) (hsub : list'.Sublist list) :
    Recent capacity used list' where
  nodup := h.nodup.sublist hsub
  length := Nat.le_trans hsub.length_le h.length
  mem := fun a ha => h.mem a (hsub.subset ha)
  order := h.order.sublist hsub

/-- What is used now was used after all others. -/
theorem order_cons (h : Recent capacity used list) :
    (a :: list.erase a).Pairwise fun b c => (a :: used).idxOf b < (a :: used).idxOf c := by
  have hne : ∀ b ∈ list.erase a, a ≠ b := by
    rintro b hb rfl
    exact h.nodup.not_mem_erase hb
  apply List.Pairwise.cons
  · intro b hb
    rw [List.idxOf_cons_self, List.idxOf_cons_ne _ (hne b hb)]
    apply Nat.succ_pos
  · apply List.Pairwise.imp_of_mem _ (h.order.sublist List.erase_sublist)
    intro b c hb hc hlt
    rw [List.idxOf_cons_ne _ (hne b hb), List.idxOf_cons_ne _ (hne c hc)]
    exact Nat.succ_lt_succ hlt

theorem use (h : Recent capacity used list) (a : α) :
    Recent capacity (a :: used) (use capacity a list) where
  nodup := by
    apply List.Nodup.sublist (List.take_sublist _ _)
    exact List.nodup_cons.mpr ⟨h.nodup.not_mem_erase, h.nodup.erase a⟩
  length := List.length_take_le _ _
  mem := by
    intro b hb
    rcases List.mem_cons.mp (List.mem_of_mem_take hb) with rfl | hb
    · exact List.mem_cons_self ..
    · exact List.mem_cons_of_mem _ (h.mem b (List.mem_of_mem_erase hb))
  order := h.order_cons.sublist (List.take_sublist _ _)

end Recent

/-- **Windows are in the order of the last uses.** -/
theorem recent_window (capacity : ℕ) (events : List (WindowEvent α)) :
    Recent capacity (uses events) (window capacity events) := by
  induction events with
  | nil => exact Recent.nil
  | cons event events ih =>
      cases event with
      | used a => exact ih.use a
      | withdrawn a => exact ih.sublist List.erase_sublist

end RecencyWindow

/-! ## §3  Indexed lists -/

/-- The index has the address of the node of each key in the list, and no other one. -/
structure Indexed {β κ : Type*} (key : β → κ) (list : List (ℕ × β)) (index : κ → Option ℕ) :
    Prop where
  entry : ∀ k address, index k = some address ↔ ∃ b, (address, b) ∈ list ∧ key b = k
  addresses : (list.map (·.1)).Nodup

namespace Indexed

variable {β κ : Type*} {key key' : β → κ} {list : List (ℕ × β)} {index : κ → Option ℕ}
  {address : ℕ} {b : β} {k : κ}

theorem nil : Indexed key [] fun _ => none where
  entry := by simp
  addresses := .nil

variable (h : Indexed key list index)
include h

/-- One node has an address. -/
theorem eq_of_address {x y : ℕ × β} (hx : x ∈ list) (hy : y ∈ list) (heq : x.1 = y.1) : x = y :=
  List.inj_on_of_nodup_map h.addresses hx hy heq

theorem eq_of_key {x y : ℕ × β} (hx : x ∈ list) (hy : y ∈ list) (heq : key x.2 = key y.2) :
    x = y := by
  apply h.eq_of_address hx hy
  have hindex : index (key y.2) = some x.1 := (h.entry _ _).mpr ⟨x.2, hx, heq⟩
  rw [(h.entry _ _).mpr ⟨y.2, hy, rfl⟩] at hindex
  exact (Option.some.inj hindex).symm

/-- **Each key once.** -/
theorem keys_nodup : (list.map fun x => key x.2).Nodup :=
  List.Nodup.map_on (fun _ hx _ hy heq => h.eq_of_key hx hy heq) (List.Nodup.of_map _ h.addresses)

theorem key_mem_iff :
    k ∈ list.map (fun x => key x.2) ↔ ∃ address, index k = some address := by
  rw [List.mem_map]
  constructor
  · rintro ⟨⟨address, b⟩, hmem, rfl⟩
    exact ⟨address, (h.entry _ _).mpr ⟨b, hmem, rfl⟩⟩
  · rintro ⟨address, hindex⟩
    obtain ⟨b, hmem, rfl⟩ := (h.entry _ _).mp hindex
    exact ⟨(address, b), hmem, rfl⟩

theorem key_notMem (hindex : index k = none) : k ∉ list.map fun x => key x.2 := by
  rw [h.key_mem_iff, hindex]
  rintro ⟨address, hnone⟩
  cases hnone

/-- Other keys outside of the list make no difference. -/
theorem congr (hkey : ∀ x ∈ list, key' x.2 = key x.2) : Indexed key' list index where
  entry := by
    intro k address
    rw [h.entry]
    constructor
    · rintro ⟨b, hmem, rfl⟩
      exact ⟨b, hmem, hkey _ hmem⟩
    · rintro ⟨b, hmem, rfl⟩
      exact ⟨b, hmem, (hkey _ hmem).symm⟩
  addresses := h.addresses

/-! ## §4  What is done to an indexed list -/

/-- The nodes come in another order. -/
theorem perm {list' : List (ℕ × β)} (hperm : list'.Perm list) : Indexed key list' index where
  entry := by
    intro k address
    simp only [h.entry, hperm.mem_iff]
  addresses := (hperm.map _).nodup_iff.mpr h.addresses

variable [DecidableEq κ]

/-- A new node is put in front. -/
theorem cons (hindex : index (key b) = none) (hfresh : ∀ x ∈ list, x.1 ≠ address) :
    Indexed key ((address, b) :: list) (Function.update index (key b) (some address)) where
  entry := by
    intro k other
    by_cases hk : k = key b
    · subst hk
      rw [Function.update_self, Option.some.injEq]
      constructor
      · rintro rfl
        exact ⟨b, List.mem_cons_self .., rfl⟩
      · rintro ⟨c, hmem, hkey⟩
        rcases List.mem_cons.mp hmem with heq | hmem
        · cases heq
          rfl
        · -- The key has no other node.
          have hold := (h.entry _ _).mpr ⟨c, hmem, hkey⟩
          rw [hindex] at hold
          cases hold
    · rw [Function.update_of_ne hk, h.entry]
      constructor
      · rintro ⟨c, hmem, hkey⟩
        exact ⟨c, List.mem_cons_of_mem _ hmem, hkey⟩
      · rintro ⟨c, hmem, hkey⟩
        rcases List.mem_cons.mp hmem with heq | hmem
        · cases heq
          exact absurd hkey.symm hk
        · exact ⟨c, hmem, hkey⟩
  addresses := by
    rw [List.map_cons, List.nodup_cons]
    refine ⟨?_, h.addresses⟩
    intro hmem
    obtain ⟨x, hx, heq⟩ := List.mem_map.mp hmem
    exact hfresh x hx heq

/-- A node is taken out. -/
theorem without (hmem : (address, b) ∈ list) :
    Indexed key (list.filter (·.1 ≠ address)) (Function.update index (key b) none) where
  entry := by
    intro k other
    by_cases hk : k = key b
    · subst hk
      rw [Function.update_self]
      constructor
      · rintro ⟨⟩
      · rintro ⟨c, hc, hkey⟩
        obtain ⟨hc, hne⟩ := List.mem_filter.mp hc
        cases h.eq_of_key hc hmem hkey
        simp at hne
    · rw [Function.update_of_ne hk, h.entry]
      constructor
      · rintro ⟨c, hc, hkey⟩
        refine ⟨c, List.mem_filter.mpr ⟨hc, ?_⟩, hkey⟩
        rw [decide_eq_true_eq]
        rintro rfl
        cases h.eq_of_address hc hmem rfl
        exact hk hkey.symm
      · rintro ⟨c, hc, hkey⟩
        exact ⟨c, List.mem_of_mem_filter hc, hkey⟩
  addresses := h.addresses.sublist (List.filter_sublist.map _)

omit [DecidableEq κ] in
theorem filter_eq_singleton (hmem : (address, b) ∈ list) :
    list.filter (·.1 = address) = [(address, b)] := by
  classical
  have hfilter : list.filter (·.1 = address) = list.filter (· = (address, b)) := by
    apply List.filter_congr
    intro x hx
    rw [decide_eq_decide]
    constructor
    · exact fun heq => h.eq_of_address hx hmem heq
    · rintro rfl
      rfl
  have hcount := List.count_eq_one_of_mem (List.Nodup.of_map _ h.addresses) hmem
  rw [hfilter, List.filter_eq, hcount]
  rfl

theorem keys_without (hmem : (address, b) ∈ list) :
    (list.filter (·.1 ≠ address)).map (fun x => key x.2) =
      (list.map fun x => key x.2).erase (key b) := by
  rw [h.keys_nodup.erase_eq_filter, List.filter_map]
  congr 1
  apply List.filter_congr
  intro x hx
  show decide (x.1 ≠ address) = (key x.2 != key b)
  rw [Bool.eq_iff_iff, decide_eq_true_eq, bne_iff_ne, not_iff_not]
  constructor
  · intro heq
    rw [h.eq_of_address hx hmem heq]
  · intro heq
    rw [h.eq_of_key hx hmem heq]

omit [DecidableEq κ] in
/-- A node is moved to the front. -/
theorem splice :
    Indexed key (list.filter (·.1 = address) ++ list.filter (·.1 ≠ address)) index := by
  apply h.perm
  simpa using List.filter_append_perm (fun x : ℕ × β => decide (x.1 = address)) list

theorem keys_splice (hmem : (address, b) ∈ list) :
    (list.filter (·.1 = address) ++ list.filter (·.1 ≠ address)).map (fun x => key x.2) =
      key b :: (list.map fun x => key x.2).erase (key b) := by
  rw [List.map_append, h.filter_eq_singleton hmem, h.keys_without hmem]
  rfl

omit [DecidableEq κ] in
theorem dropLast_eq_filter (hlast : list.getLast? = some (address, b)) :
    list.dropLast = list.filter (·.1 ≠ address) := by
  obtain ⟨front, rfl⟩ := List.getLast?_eq_some_iff.mp hlast
  have hfront : ∀ x ∈ front, x.1 ≠ address := by
    intro x hx heq
    have hnodup := h.addresses
    rw [List.map_append, List.nodup_append] at hnodup
    exact hnodup.2.2 x.1 (List.mem_map_of_mem hx) address (by simp) heq
  have hkeep : front.filter (·.1 ≠ address) = front := by
    rw [List.filter_eq_self]
    exact fun x hx => decide_eq_true (hfront x hx)
  rw [List.dropLast_concat, List.filter_append, hkeep]
  simp

/-- The last node is taken out. -/
theorem dropLast (hlast : list.getLast? = some (address, b)) :
    Indexed key list.dropLast (Function.update index (key b) none) := by
  rw [h.dropLast_eq_filter hlast]
  exact h.without (List.mem_of_getLast? hlast)

end Indexed

end ScadaCommon.Foundation
