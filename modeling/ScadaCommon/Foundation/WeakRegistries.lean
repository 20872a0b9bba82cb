import Mathlib.Data.List.Count
import ScadaCommon.Foundation.AssocMap

/-!
# Registries of weak pointers

A registry finds an object by its key without owning it. The objects are shared: the
references to each are counted, and when the last one goes the object erases the record
of its key. Which references there are is known to the owners; `Owned` is the
registry together with the list of them.

§1 the registry · §2 what its owners hold · §3 references that come and go.
-/

namespace ScadaCommon.Foundation

variable {κ π : Type*} [DecidableEq κ] [DecidableEq π]

/-! ## §1  The registry -/

/-- An object, and how many references there are to it. -/
structure SharedObject (κ : Type*) where
  key : κ
  useCount : ℕ
deriving DecidableEq

structure WeakRegistry (κ π : Type*) where
  entries : AssocMap κ π := ∅
  objects : π → Option (SharedObject κ) := fun _ => none

namespace WeakRegistry

/-- The object that a key is recorded for, if it still is. -/
def lock (r : WeakRegistry κ π) (key : κ) : Option π :=
  (r.entries.lookup key).filter fun p => (r.objects p).isSome

def retain (r : WeakRegistry κ π) (p : π) : Option (WeakRegistry κ π) :=
  (r.objects p).map fun object => { r with
    objects := Function.update r.objects p
      (some { object with useCount := object.useCount + 1 }) }

/-- The last reference takes the object with it, and the record of its key. -/
def release (r : WeakRegistry κ π) (p : π) : Option (WeakRegistry κ π) :=
  (r.objects p).map fun object =>
    if object.useCount ≤ 1 then
      { entries := r.entries.erase object.key, objects := Function.update r.objects p none }
    else { r with
      objects := Function.update r.objects p
        (some { object with useCount := object.useCount - 1 }) }

/-- An object that its first owner holds. -/
def create (r : WeakRegistry κ π) (key : κ) (fresh : π) : WeakRegistry κ π :=
  { entries := r.entries.insert key fresh
    objects := Function.update r.objects fresh (some { key, useCount := 1 }) }

/-- A reference to the object of the key, which is made at `fresh` if there is none. -/
def ensure (r : WeakRegistry κ π) (key : κ) (fresh : π) : Option (π × WeakRegistry κ π) :=
  match r.lock key with
  | some p => (r.retain p).map (p, ·)
  | none => if (r.objects fresh).isNone then some (fresh, r.create key fresh) else none

/-! ## §2  What its owners hold -/

variable {r r' : WeakRegistry κ π} {owners : List π} {p q : π} {key : κ}

def useCount (r : WeakRegistry κ π) (p : π) : ℕ := ((r.objects p).map (·.useCount)).getD 0

def keyOf (r : WeakRegistry κ π) (p : π) : Option κ := (r.objects p).map (·.key)

/-- The records are of the objects that are, one for each, and these are the ones that
have owners. -/
structure Owned (r : WeakRegistry κ π) (owners : List π) : Prop where
  recorded : ∀ key p, r.entries.lookup key = some p ↔ ∃ n, r.objects p = some ⟨key, n⟩
  counted : ∀ p, r.useCount p = owners.count p
  used : ∀ p object, r.objects p = some object → 0 < object.useCount

namespace Owned

theorem init : Owned ({} : WeakRegistry κ π) [] where
  recorded key p := by simp
  counted p := by simp [useCount]
  used p object h := by cases h

theorem perm (h : Owned r owners) {owners' : List π} (hperm : owners.Perm owners') :
    Owned r owners' where
  recorded := h.recorded
  counted p := (h.counted p).trans (hperm.count_eq p)
  used := h.used

theorem isSome_iff (h : Owned r owners) : (r.objects p).isSome ↔ p ∈ owners := by
  rw [← List.count_pos_iff, ← h.counted p, useCount]
  cases hp : r.objects p with
  | none => simp
  | some object =>
      have := h.used p object hp
      simpa using this

theorem objects_of_mem (h : Owned r owners) (hp : p ∈ owners) :
    ∃ key, r.objects p = some ⟨key, owners.count p⟩ := by
  obtain ⟨object, hobject⟩ := Option.isSome_iff_exists.mp (h.isSome_iff.mpr hp)
  refine ⟨object.key, ?_⟩
  rw [hobject, ← h.counted p, useCount, hobject]
  rfl

theorem objects_eq_none (h : Owned r owners) (hp : p ∉ owners) : r.objects p = none := by
  rw [← h.isSome_iff] at hp
  exact Option.not_isSome_iff_eq_none.mp hp

/-- **No record has expired.** -/
theorem lock_eq (h : Owned r owners) (key : κ) : r.lock key = r.entries.lookup key := by
  unfold lock
  cases hlookup : r.entries.lookup key with
  | none => rfl
  | some p =>
      obtain ⟨n, hn⟩ := (h.recorded key p).mp hlookup
      simp [hn]

/-- **A key is recorded exactly while the object of that key has an owner.** -/
theorem lookup_eq_some (h : Owned r owners) :
    r.entries.lookup key = some p ↔ p ∈ owners ∧ r.keyOf p = some key := by
  rw [h.recorded]
  constructor
  · rintro ⟨n, hn⟩
    refine ⟨h.isSome_iff.mp ?_, ?_⟩
    · simp [hn]
    · simp [keyOf, hn]
  · rintro ⟨hp, hkey⟩
    obtain ⟨key', hobject⟩ := h.objects_of_mem hp
    rw [keyOf, hobject] at hkey
    cases hkey
    exact ⟨_, hobject⟩

/-! ## §3  References that come and go -/

/-- Two objects that are owned are one exactly if they are of one key. -/
theorem eq_iff (h : Owned r owners) {q : π} {key' : κ} (hp : r.keyOf p = some key)
    (hq : r.keyOf q = some key') (hmem : p ∈ owners) (hmem' : q ∈ owners) : p = q ↔ key = key' := by
  constructor
  · rintro rfl
    exact Option.some.inj (hp.symm.trans hq)
  · rintro rfl
    have hlookup := h.lookup_eq_some.mpr ⟨hmem, hp⟩
    have hlookup' := h.lookup_eq_some.mpr ⟨hmem', hq⟩
    exact Option.some.inj (hlookup.symm.trans hlookup')

/-- Only the number of references to one object changes. -/
theorem recount (h : Owned r owners) {object : SharedObject κ} (hobject : r.objects p = some object)
    {n : ℕ} (hn : 0 < n) {owners' : List π} (hp : owners'.count p = n)
    (hother : ∀ q, q ≠ p → owners'.count q = owners.count q)
    (hr' : r' = { r with
      objects := Function.update r.objects p (some { object with useCount := n }) }) :
    Owned r' owners' ∧ r'.keyOf = r.keyOf := by
  subst hr'
  refine ⟨⟨?_, ?_, ?_⟩, ?_⟩
  · intro key q
    show r.entries.lookup key = some q ↔ _
    rw [h.recorded]
    by_cases hq : q = p
    · subst hq
      obtain ⟨objectKey, m⟩ := object
      simp [hobject]
    · simp [hq]
  · intro q
    by_cases hq : q = p
    · subst hq
      simp [useCount, hp]
    · have := h.counted q
      rw [useCount] at this ⊢
      simp [hq, hother q hq, this]
  · intro q object' hq
    by_cases hqp : q = p
    · subst hqp
      simp only [Function.update_self, Option.some.injEq] at hq
      rw [← hq]
      exact hn
    · simp only [Function.update_of_ne hqp] at hq
      exact h.used q object' hq
  · funext q
    by_cases hq : q = p
    · subst hq
      simp [keyOf, hobject]
    · simp [keyOf, hq]

theorem retain (h : Owned r owners) (hp : p ∈ owners) :
    ∃ r', r.retain p = some r' ∧ Owned r' (p :: owners) ∧ r'.keyOf = r.keyOf := by
  obtain ⟨key, hobject⟩ := h.objects_of_mem hp
  refine ⟨_, by rw [WeakRegistry.retain, hobject]; rfl, ?_⟩
  apply h.recount hobject (Nat.succ_pos (owners.count p)) List.count_cons_self _ rfl
  intro q hq
  exact List.count_cons_of_ne hq.symm

theorem create (h : Owned r owners) (hkey : r.entries.lookup key = none) {fresh : π}
    (hfresh : fresh ∉ owners) :
    Owned (r.create key fresh) (fresh :: owners) := by
  have hnone := h.objects_eq_none hfresh
  refine ⟨?_, ?_, ?_⟩
  · intro key' q
    show (r.entries.insert key fresh).lookup key' = some q ↔ _
    by_cases hq : q = fresh
    · subst hq
      have hother : r.entries.lookup key' ≠ some q := by
        intro hlookup
        obtain ⟨n, hn⟩ := (h.recorded key' q).mp hlookup
        exact absurd (hnone.symm.trans hn) (by simp)
      by_cases hk : key' = key
      · subst hk
        simp [WeakRegistry.create]
      · simp [WeakRegistry.create, AList.lookup_insert_ne hk, hother, Ne.symm hk]
    · by_cases hk : key' = key
      · subst hk
        have hother : ∀ n, r.objects q ≠ some ⟨key', n⟩ := by
          intro n hn
          exact absurd (hkey.symm.trans ((h.recorded key' q).mpr ⟨n, hn⟩)) (by simp)
        simp [WeakRegistry.create, hq, Ne.symm hq, hother]
      · simp [WeakRegistry.create, AList.lookup_insert_ne hk, hq, h.recorded]
  · intro q
    by_cases hq : q = fresh
    · subst hq
      simp [useCount, WeakRegistry.create, List.count_eq_zero_of_not_mem hfresh]
    · have := h.counted q
      rw [useCount] at this ⊢
      simp [WeakRegistry.create, hq, Ne.symm hq, this]
  · intro q object hq
    by_cases hqf : q = fresh
    · subst hqf
      simp only [WeakRegistry.create, Function.update_self, Option.some.injEq] at hq
      rw [← hq]
      exact Nat.one_pos
    · simp only [WeakRegistry.create, Function.update_of_ne hqf] at hq
      exact h.used q object hq

/-- **Who asks for a key becomes an owner of its one object**, which is a fresh one only
where none was recorded. -/
theorem ensure (h : Owned r owners) (key : κ) {fresh : π} (hfresh : fresh ∉ owners) :
    ∃ p r', r.ensure key fresh = some (p, r') ∧ Owned r' (p :: owners) ∧
      r'.keyOf p = some key ∧ ∀ q ∈ owners, r'.keyOf q = r.keyOf q := by
  unfold WeakRegistry.ensure
  rw [h.lock_eq]
  cases hlookup : r.entries.lookup key with
  | none =>
      refine ⟨fresh, r.create key fresh, ?_, h.create hlookup hfresh, ?_, ?_⟩
      · simp [h.objects_eq_none hfresh]
      · simp [keyOf, WeakRegistry.create]
      · intro q hq
        have hne : q ≠ fresh := ne_of_mem_of_not_mem hq hfresh
        simp [keyOf, WeakRegistry.create, hne]
  | some p =>
      obtain ⟨hp, hkey⟩ := h.lookup_eq_some.mp hlookup
      obtain ⟨r', hretain, howned, hkeys⟩ := h.retain hp
      refine ⟨p, r', ?_, howned, ?_, ?_⟩
      · simp [hretain]
      · rw [hkeys]
        exact hkey
      · intro q _
        rw [hkeys]

/-- **The last owner that goes takes the object and its record with it**; the objects of
the others stay what they are. -/
theorem release (h : Owned r owners) (hp : p ∈ owners) :
    ∃ r', r.release p = some r' ∧ Owned r' (owners.erase p) ∧
      ∀ q ∈ owners.erase p, r'.keyOf q = r.keyOf q := by
  obtain ⟨key, hobject⟩ := h.objects_of_mem hp
  have hpos := List.count_pos_iff.mpr hp
  have hcount := List.count_erase_self (a := p) (l := owners)
  by_cases hlast : owners.count p ≤ 1
  · refine ⟨{ entries := r.entries.erase key, objects := Function.update r.objects p none },
      by simp [WeakRegistry.release, hobject, hlast], ?_⟩
    have hzero : (owners.erase p).count p = 0 := by
      rw [hcount]
      exact Nat.sub_eq_zero_of_le hlast
    have hgone : p ∉ owners.erase p := List.count_eq_zero.mp hzero
    refine ⟨⟨?_, ?_, ?_⟩, ?_⟩
    · intro key' q
      show (r.entries.erase key).lookup key' = some q ↔ _
      by_cases hq : q = p
      · subst hq
        by_cases hk : key' = key
        · subst hk
          simp [AList.lookup_erase]
        · have hother : r.entries.lookup key' ≠ some q := by
            intro hlookup
            obtain ⟨n, hn⟩ := (h.recorded key' q).mp hlookup
            rw [hobject] at hn
            cases hn
            exact hk rfl
          simp [AList.lookup_erase_ne hk, hother]
      · by_cases hk : key' = key
        · subst hk
          have hother : ∀ n, r.objects q ≠ some ⟨key', n⟩ := by
            intro n hn
            have hrecorded := (h.recorded key' p).mpr ⟨_, hobject⟩
            exact hq (Option.some.inj (((h.recorded key' q).mpr ⟨n, hn⟩).symm.trans hrecorded))
          simp [hq, hother]
        · simp [AList.lookup_erase_ne hk, hq, h.recorded]
    · intro q
      by_cases hq : q = p
      · subst hq
        simp [useCount, hzero]
      · have := h.counted q
        rw [useCount] at this ⊢
        simp [hq, List.count_erase_of_ne hq, this]
    · intro q object hq
      by_cases hqp : q = p
      · subst hqp
        simp at hq
      · simp only [Function.update_of_ne hqp] at hq
        exact h.used q object hq
    · intro q hq
      have hne : q ≠ p := ne_of_mem_of_not_mem hq hgone
      simp [keyOf, hne]
  · have hrelease : r.release p = some { r with
        objects := Function.update r.objects p (some ⟨key, owners.count p - 1⟩) } := by
      simp [WeakRegistry.release, hobject, hlast]
    have hmore : Owned _ (owners.erase p) ∧ _ := h.recount hobject
      (Nat.sub_pos_of_lt (not_le.mp hlast)) hcount (fun q hq => List.count_erase_of_ne hq) rfl
    exact ⟨_, hrelease, hmore.1, fun q _ => congrFun hmore.2 q⟩

end Owned

end WeakRegistry

end ScadaCommon.Foundation
