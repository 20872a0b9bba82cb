import Mathlib.Data.List.Induction
import Mathlib.Data.List.Nodup
import Mathlib.Data.List.Perm.Basic

/-!
# Lists that are used as maps

Each entry of a list has a key, and the first entry with a key counts. An entry is set
where one with its key is, or at the end; one that stands for nothing takes the entry with
its key away. If no key comes twice, such a list is a map, and setting updates it.

§1 finding and setting · §2 one entry · §3 many entries.
-/

namespace ScadaCommon.Foundation

namespace KeyedList

variable {α κ : Type*} [DecidableEq κ] (key : α → κ) (isNull : α → Bool)

/-! ## §1  Finding and setting -/

def find (k : κ) (list : List α) : Option α := list.find? (key · = k)

def set (list : List α) (entry : α) : List α :=
  match list.findIdx? (key · = key entry) with
  | some i => if isNull entry then list.eraseIdx i else list.set i entry
  | none => if isNull entry then list else list ++ [entry]

def setAll (list entries : List α) : List α := entries.foldl (set key isNull) list

/-- What is found of an entry that has been set. -/
def found (entry : α) : Option α := if isNull entry then none else some entry

variable {key isNull} {list entries entries' : List α} {a entry : α} {k : κ}

theorem find_cons : find key k (a :: list) = if key a = k then some a else find key k list := by
  by_cases h : key a = k
  · simp [find, h]
  · simp [find, h]

theorem find_eq_none : find key k list = none ↔ k ∉ list.map key := by
  rw [find, List.find?_eq_none, List.mem_map]
  constructor
  · rintro h ⟨a, ha, hk⟩
    exact h a ha (decide_eq_true hk)
  · intro h a ha hk
    exact h ⟨a, ha, of_decide_eq_true hk⟩

theorem find_append {list' : List α} :
    find key k (list ++ list') = (find key k list).or (find key k list') :=
  List.find?_append

theorem find_eq_some (hnodup : (list.map key).Nodup) :
    find key k list = some a ↔ a ∈ list ∧ key a = k := by
  constructor
  · intro hfind
    exact ⟨List.mem_of_find?_eq_some hfind, by simpa using List.find?_some hfind⟩
  · rintro ⟨ha, rfl⟩
    cases hfind : find key (key a) list with
    | none => exact absurd (List.mem_map_of_mem ha) (find_eq_none.mp hfind)
    | some b =>
        have hb := List.mem_of_find?_eq_some hfind
        have hkey : key b = key a := by simpa using List.find?_some hfind
        rw [List.inj_on_of_nodup_map hnodup hb ha hkey]

/-! ## §2  One entry -/

theorem set_nil : set key isNull [] entry = (found isNull entry).toList := by
  cases h : isNull entry <;> simp [set, found, h]

theorem set_cons_of_eq (h : key a = key entry) :
    set key isNull (a :: list) entry = (found isNull entry).toList ++ list := by
  have hfirst : (a :: list).findIdx? (key · = key entry) = some 0 := by
    simp [List.findIdx?_cons, h]
  cases hnull : isNull entry <;> simp [set, found, hfirst, hnull]

theorem set_cons_of_ne (h : key a ≠ key entry) :
    set key isNull (a :: list) entry = a :: set key isNull list entry := by
  unfold set
  rw [List.findIdx?_cons]
  cases hfind : list.findIdx? (key · = key entry) <;> cases hnull : isNull entry <;> simp [h]

/-- Entries with other keys are not touched. -/
theorem find_set_of_ne (h : key entry ≠ k) :
    find key k (set key isNull list entry) = find key k list := by
  have htoList : ∀ list, find key k ((found isNull entry).toList ++ list) = find key k list := by
    intro list
    cases hnull : isNull entry <;> simp [found, hnull, find_cons, h]
  induction list with
  | nil =>
      rw [set_nil]
      simpa using htoList []
  | cons a list ih =>
      by_cases ha : key a = key entry
      · rw [set_cons_of_eq ha, htoList, find_cons, if_neg (ha.trans_ne h)]
      · rw [set_cons_of_ne ha, find_cons, find_cons, ih]

/-- What has been set is found; where it stands for nothing, nothing is found any more. -/
theorem find_set_self (hnodup : (list.map key).Nodup) :
    find key (key entry) (set key isNull list entry) = found isNull entry := by
  have htoList : ∀ list, find key (key entry) list = none →
      find key (key entry) ((found isNull entry).toList ++ list) = found isNull entry := by
    intro list hnone
    cases hnull : isNull entry <;> simp [found, hnull, find_cons, hnone]
  induction list with
  | nil =>
      rw [set_nil]
      simpa using htoList [] rfl
  | cons a list ih =>
      obtain ⟨hnotMem, hnodup⟩ := List.nodup_cons.mp hnodup
      by_cases ha : key a = key entry
      · rw [set_cons_of_eq ha]
        exact htoList list (find_eq_none.mpr (ha ▸ hnotMem))
      · rw [set_cons_of_ne ha, find_cons, if_neg ha]
        exact ih hnodup

theorem find_set (hnodup : (list.map key).Nodup) :
    find key k (set key isNull list entry) =
      if key entry = k then found isNull entry else find key k list := by
  split
  · rename_i h
    rw [← h]
    exact find_set_self hnodup
  · rename_i h
    exact find_set_of_ne h

theorem mem_keys_set (h : k ∈ (set key isNull list entry).map key) :
    k ∈ list.map key ∨ k = key entry := by
  by_contra hnot
  obtain ⟨hold, hne⟩ := not_or.mp hnot
  have hnone := find_eq_none.mpr hold
  rw [← find_set_of_ne (Ne.symm hne)] at hnone
  exact find_eq_none.mp hnone h

theorem nodup_set (hnodup : (list.map key).Nodup) :
    ((set key isNull list entry).map key).Nodup := by
  induction list with
  | nil =>
      rw [set_nil]
      cases hnull : isNull entry <;> simp [found, hnull]
  | cons a list ih =>
      obtain ⟨hnotMem, hrest⟩ := List.nodup_cons.mp hnodup
      by_cases ha : key a = key entry
      · rw [set_cons_of_eq ha]
        cases hnull : isNull entry
        · simp only [found, hnull, Bool.false_eq_true, if_false, Option.toList_some,
            List.singleton_append, List.map_cons]
          exact List.nodup_cons.mpr ⟨ha ▸ hnotMem, hrest⟩
        · simpa [found, hnull] using hrest
      · rw [set_cons_of_ne ha, List.map_cons]
        refine List.nodup_cons.mpr ⟨fun hmem => ?_, ih hrest⟩
        exact (mem_keys_set hmem).elim hnotMem ha

theorem notNull_set (h : ∀ a ∈ list, isNull a = false) :
    ∀ a ∈ set key isNull list entry, isNull a = false := by
  have htoList : ∀ a ∈ (found isNull entry).toList, isNull a = false := by
    intro a ha
    cases hnull : isNull entry <;> simp_all [found]
  induction list with
  | nil =>
      rw [set_nil]
      exact htoList
  | cons b list ih =>
      obtain ⟨hb, hlist⟩ := List.forall_mem_cons.mp h
      by_cases hkey : key b = key entry
      · rw [set_cons_of_eq hkey]
        exact List.forall_mem_append.mpr ⟨htoList, hlist⟩
      · rw [set_cons_of_ne hkey]
        exact List.forall_mem_cons.mpr ⟨hb, ih hlist⟩

/-! ## §3  Many entries -/

theorem nodup_setAll (hnodup : (list.map key).Nodup) :
    ((setAll key isNull list entries).map key).Nodup := by
  induction entries generalizing list with
  | nil => exact hnodup
  | cons entry entries ih => exact ih (nodup_set hnodup)

theorem notNull_setAll (h : ∀ a ∈ list, isNull a = false) :
    ∀ a ∈ setAll key isNull list entries, isNull a = false := by
  induction entries generalizing list with
  | nil => exact h
  | cons entry entries ih => exact ih (notNull_set h)

/-- **The last entry with a key counts.** -/
theorem find_setAll (hnodup : (list.map key).Nodup) :
    find key k (setAll key isNull list entries) =
      (find key k entries.reverse).elim (find key k list) (found isNull) := by
  induction entries using List.reverseRecOn with
  | nil => rfl
  | append_singleton entries entry ih =>
      have hsnoc : setAll key isNull list (entries ++ [entry]) =
          set key isNull (setAll key isNull list entries) entry := by
        unfold setAll
        rw [List.foldl_append]
        rfl
      rw [hsnoc, find_set (nodup_setAll hnodup), List.reverse_append, List.reverse_singleton,
        List.singleton_append, find_cons]
      split
      · rfl
      · exact ih

/-- Among entries whose keys differ, the order does not matter to what is found. -/
theorem find_perm (hperm : entries.Perm entries') (hnodup : (entries.map key).Nodup) :
    find key k entries = find key k entries' := by
  have hnodup' := (hperm.map key).nodup_iff.mp hnodup
  ext a
  show find key k entries = some a ↔ find key k entries' = some a
  rw [find_eq_some hnodup, find_eq_some hnodup', hperm.mem_iff]

/-- **Entries whose keys differ are set in any order.** -/
theorem find_setAll_perm (hlist : (list.map key).Nodup) (hperm : entries.Perm entries')
    (hnodup : (entries.map key).Nodup) :
    find key k (setAll key isNull list entries) = find key k (setAll key isNull list entries') := by
  have hreverse : (entries.reverse.map key).Nodup := by
    rw [List.map_reverse]
    exact List.nodup_reverse.mpr hnodup
  have hboth : entries.reverse.Perm entries'.reverse :=
    (List.reverse_perm entries).trans (hperm.trans (List.reverse_perm entries').symm)
  rw [find_setAll hlist, find_setAll hlist, find_perm hboth hreverse]

end KeyedList

end ScadaCommon.Foundation
