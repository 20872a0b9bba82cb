import Mathlib.Data.List.Nodup
import Mathlib.Data.List.Perm.Subperm
import Mathlib.Data.List.Range

/-!
# Paths along a partial function

Following pointers one by one ends, gets stuck or goes round in circles. A path
that ends visits nothing twice, so that among finitely many places as many steps
as there are places suffice, and more make no difference.
-/

namespace ScadaCommon.Foundation

variable {α : Type*}

/-- The places on the way from `a`; `next` is `none` where one gets stuck and
`some none` where the way ends. -/
def path (next : α → Option (Option α)) : ℕ → α → Option (List α)
  | 0, _ => none
  | fuel + 1, a =>
      match next a with
      | none => none
      | some none => some [a]
      | some (some b) => (path next fuel b).map (a :: ·)

variable {next : α → Option (Option α)} {a : α} {as : List α} {fuel : ℕ}

theorem path_of_end (h : next a = some none) : path next (fuel + 1) a = some [a] := by
  rw [path, h]

theorem path_of_step {b : α} {rest : List α} (h : next a = some (some b))
    (hrest : path next fuel b = some rest) : path next (fuel + 1) a = some (a :: rest) := by
  rw [path, h]
  dsimp only
  rw [hrest, Option.map_some]

/-- A path stops where it ends or takes a step. -/
theorem path_cases (h : path next (fuel + 1) a = some as) :
    (next a = some none ∧ as = [a]) ∨
      ∃ b rest, next a = some (some b) ∧ path next fuel b = some rest ∧ as = a :: rest := by
  rw [path] at h
  cases hnext : next a with
  | none =>
      rw [hnext] at h
      cases h
  | some step =>
      rw [hnext] at h
      cases step with
      | none =>
          cases h
          exact Or.inl ⟨rfl, rfl⟩
      | some b =>
          obtain ⟨rest, hrest, rfl⟩ := Option.map_eq_some_iff.mp h
          exact Or.inr ⟨b, rest, rfl, hrest, rfl⟩

/-- The length of a path is fuel enough for it. -/
theorem path_length (h : path next fuel a = some as) : path next as.length a = some as := by
  induction fuel generalizing a as with
  | zero => cases h
  | succ fuel ih =>
      rcases path_cases h with ⟨hend, rfl⟩ | ⟨b, rest, hstep, hrest, rfl⟩
      · exact path_of_end hend
      · exact path_of_step hstep (ih hrest)

theorem path_mono {more : ℕ} (h : path next fuel a = some as) (hle : fuel ≤ more) :
    path next more a = some as := by
  induction fuel generalizing a as more with
  | zero => cases h
  | succ fuel ih =>
      obtain ⟨more, rfl⟩ := Nat.exists_eq_add_of_le' (Nat.lt_of_lt_of_le fuel.succ_pos hle)
      rcases path_cases h with ⟨hend, rfl⟩ | ⟨b, rest, hstep, hrest, rfl⟩
      · exact path_of_end hend
      · exact path_of_step hstep (ih hrest (Nat.le_of_succ_le_succ hle))

theorem path_unique {fuel' : ℕ} {as' : List α} (h : path next fuel a = some as)
    (h' : path next fuel' a = some as') : as = as' := by
  have hmax := path_mono h (Nat.le_max_left fuel fuel')
  have hmax' := path_mono h' (Nat.le_max_right fuel fuel')
  exact Option.some.inj (hmax.symm.trans hmax')

/-- From each place on a path the path goes on. -/
theorem path_of_mem (h : path next fuel a = some as) {b : α} (hb : b ∈ as) :
    ∃ bs, path next bs.length b = some bs ∧ bs.length ≤ as.length := by
  induction fuel generalizing a as with
  | zero => cases h
  | succ fuel ih =>
      rcases path_cases h with ⟨hend, rfl⟩ | ⟨c, rest, hstep, hrest, rfl⟩
      · obtain rfl := List.mem_singleton.mp hb
        exact ⟨[b], path_length h, Nat.le_refl _⟩
      · rcases List.mem_cons.mp hb with rfl | hb
        · exact ⟨b :: rest, path_length h, Nat.le_refl _⟩
        · obtain ⟨bs, hbs, hle⟩ := ih hrest hb
          exact ⟨bs, hbs, Nat.le_succ_of_le hle⟩

/-- A place that comes again would come for ever. -/
theorem path_nodup (h : path next fuel a = some as) : as.Nodup := by
  induction fuel generalizing a as with
  | zero => cases h
  | succ fuel ih =>
      rcases path_cases h with ⟨hend, rfl⟩ | ⟨b, rest, hstep, hrest, rfl⟩
      · exact List.nodup_singleton a
      · refine List.nodup_cons.mpr ⟨fun hmem => ?_, ih hrest⟩
        obtain ⟨as', has', hle⟩ := path_of_mem hrest hmem
        obtain rfl := path_unique h has'
        exact absurd hle (Nat.not_succ_le_self _)

/-- A step stays in a set of places. -/
def StaysIn (next : α → Option (Option α)) (places : Set α) : Prop :=
  ∀ a ∈ places, ∀ b, next a = some (some b) → b ∈ places

theorem path_subset {places : Set α} (hstays : StaysIn next places) (ha : a ∈ places)
    (h : path next fuel a = some as) : ∀ b ∈ as, b ∈ places := by
  induction fuel generalizing a as with
  | zero => cases h
  | succ fuel ih =>
      rcases path_cases h with ⟨hend, rfl⟩ | ⟨b, rest, hstep, hrest, rfl⟩
      · exact List.forall_mem_singleton.mpr ha
      · exact List.forall_mem_cons.mpr ⟨ha, ih (hstays a ha b hstep) hrest⟩

theorem path_congr {places : Set α} {next' : α → Option (Option α)}
    (hstays : StaysIn next places) (hagree : ∀ a ∈ places, next' a = next a) (ha : a ∈ places) :
    path next' fuel a = path next fuel a := by
  induction fuel generalizing a with
  | zero => rfl
  | succ fuel ih =>
      rw [path, path, hagree a ha]
      cases hnext : next a with
      | none => rfl
      | some step =>
          cases step with
          | none => rfl
          | some b => exact congrArg (Option.map (a :: ·)) (ih (hstays a ha b hnext))

/-- **Enough fuel.** Among `n` places, more than `n` steps find nothing new. -/
theorem path_stable {next : ℕ → Option (Option ℕ)} {a n more : ℕ}
    (hstays : StaysIn next {b | b < n}) (ha : a < n) (hle : n ≤ more) :
    path next more a = path next n a := by
  cases hmore : path next more a with
  | some as =>
      have hlength : as.length ≤ n := by
        have hsub : as ⊆ List.range n := fun b hb =>
          List.mem_range.mpr (path_subset hstays ha hmore b hb)
        simpa using ((path_nodup hmore).subperm hsub).length_le
      exact (path_mono (path_length hmore) hlength).symm
  | none =>
      cases hn : path next n a with
      | none => rfl
      | some as => exact absurd (hmore.symm.trans (path_mono hn hle)) (by simp)

/-- A way does not depend on what is done elsewhere. -/
theorem path_of_eqOn {next' : α → Option (Option α)} (h : path next fuel a = some as)
    (hagree : ∀ b ∈ as, next' b = next b) : path next' fuel a = some as := by
  induction fuel generalizing a as with
  | zero => cases h
  | succ fuel ih =>
      rcases path_cases h with ⟨hend, rfl⟩ | ⟨b, rest, hstep, hrest, rfl⟩
      · exact path_of_end ((hagree a List.mem_cons_self).trans hend)
      · obtain ⟨hfirst, hagree⟩ := List.forall_mem_cons.mp hagree
        exact path_of_step (hfirst.trans hstep) (ih hrest hagree)

/-- The way from the place ends. -/
def Ends (next : α → Option (Option α)) (a : α) : Prop :=
  ∃ fuel as, path next fuel a = some as

theorem ends_of_step {b : α} (hstep : next a = some (some b)) (h : Ends next b) : Ends next a := by
  obtain ⟨fuel, as, has⟩ := h
  exact ⟨fuel + 1, a :: as, path_of_step hstep has⟩

/-- Where one place is given another way on, all ways end that ended, if this
one does. -/
theorem Ends.redirect [DecidableEq α] {next' : α → Option (Option α)} {t : α} (h : Ends next a)
    (hagree : ∀ b, b ≠ t → next' b = next b) (ht : Ends next' t) : Ends next' a := by
  obtain ⟨fuel, as, has⟩ := h
  induction fuel generalizing a as with
  | zero => cases has
  | succ fuel ih =>
      by_cases hat : a = t
      · exact hat ▸ ht
      · rcases path_cases has with ⟨hend, -⟩ | ⟨b, rest, hstep, hrest, -⟩
        · exact ⟨1, [a], path_of_end ((hagree a hat).trans hend)⟩
        · exact ends_of_step ((hagree a hat).trans hstep) (ih rest hrest)

end ScadaCommon.Foundation
