import Mathlib.Data.List.Forall2

/-!
# Writing and reading back

Some elements are written one after the other, up to the first error, and what was
written is read in the same way. What was read are the elements again exactly if this
holds of each of them.

§1 steps that can fail · §2 options and lists · §3 lists of what may be missing.
-/

namespace ScadaCommon.Foundation

/-! ## §1  Steps that can fail -/

section

variable {ε α β : Type}

theorem bind_eq_ok_iff {x : Except ε α} {f : α → Except ε β} {b : β} :
    x >>= f = .ok b ↔ ∃ a, x = .ok a ∧ f a = .ok b := by
  cases x with
  | error e => exact ⟨nofun, fun ⟨_, h, _⟩ => nomatch h⟩
  | ok a =>
      constructor
      · exact fun h => ⟨a, rfl, h⟩
      · rintro ⟨a', ha', h⟩
        cases ha'
        exact h

/-- A check that fails with an error. -/
theorem ite_error_eq_ok_iff {p : Prop} [Decidable p] {e : ε} {x : Except ε α} {a : α} :
    (if p then .error e else x) = .ok a ↔ ¬ p ∧ x = .ok a := by
  by_cases hp : p <;> simp [hp]

theorem map_eq_ok_iff {x : Except ε α} {f : α → β} {b : β} :
    f <$> x = .ok b ↔ ∃ a, x = .ok a ∧ f a = b := by
  cases x with
  | error e => exact ⟨nofun, fun ⟨_, h, _⟩ => nomatch h⟩
  | ok a =>
      constructor
      · intro h
        cases h
        exact ⟨a, rfl, rfl⟩
      · rintro ⟨a', ha', h⟩
        cases ha'
        exact congrArg Except.ok h

end

/-! ## §2  Options and lists -/

section

variable {ε α β : Type} {write : α → Except ε β} {read : β → Except ε α} {Keeps : α → Prop}

theorem exists_of_option_mapM {a? : Option α} {b : β} (h : a?.mapM write = .ok (some b)) :
    ∃ a ∈ a?, write a = .ok b := by
  cases a? with
  | none => cases h
  | some a =>
      obtain ⟨b', hb', hsome⟩ := map_eq_ok_iff.mp h
      cases hsome
      exact ⟨a, rfl, hb'⟩

/-- An optional element is read back exactly if it keeps. -/
theorem option_roundTrip_iff {a? : Option α} {b? : Option β} (hwrite : a?.mapM write = .ok b?)
    (h : ∀ a ∈ a?, ∀ b, write a = .ok b → (read b = .ok a ↔ Keeps a)) :
    b?.mapM read = .ok a? ↔ ∀ a ∈ a?, Keeps a := by
  cases a? with
  | none =>
      cases hwrite
      exact iff_of_true rfl nofun
  | some a =>
      obtain ⟨b, hb, rfl⟩ := map_eq_ok_iff.mp hwrite
      have hall : (∀ a' ∈ some a, Keeps a') ↔ Keeps a := by simp
      rw [Option.mapM_some, map_eq_ok_iff, hall, ← h a rfl b hb]
      constructor
      · rintro ⟨a', ha', hsome⟩
        cases hsome
        exact ha'
      · exact fun ha => ⟨a, ha, rfl⟩

/-- What was written was written of some element. -/
theorem exists_of_mapM {as : List α} {bs : List β} (h : as.mapM write = .ok bs) :
    ∀ b ∈ bs, ∃ a ∈ as, write a = .ok b := by
  induction as generalizing bs with
  | nil =>
      cases h
      exact nofun
  | cons a as ih =>
      rw [List.mapM_cons] at h
      obtain ⟨b, hb, h⟩ := bind_eq_ok_iff.mp h
      obtain ⟨rest, hrest, h⟩ := bind_eq_ok_iff.mp h
      cases h
      rw [List.forall_mem_cons]
      refine ⟨⟨a, List.mem_cons_self, hb⟩, fun b' hb' => ?_⟩
      obtain ⟨a', ha', hwrite⟩ := ih hrest b' hb'
      exact ⟨a', List.mem_cons_of_mem _ ha', hwrite⟩

/-- Elements are written each for itself, and in their order. -/
theorem mapM_eq_ok_iff {as : List α} {bs : List β} :
    as.mapM write = .ok bs ↔ List.Forall₂ (fun a b => write a = .ok b) as bs := by
  induction as generalizing bs with
  | nil =>
      rw [List.forall₂_nil_left_iff]
      constructor
      · intro h
        cases h
        rfl
      · rintro rfl
        rfl
  | cons a as ih =>
      rw [List.mapM_cons, bind_eq_ok_iff, List.forall₂_cons_left_iff]
      constructor
      · rintro ⟨b, hb, hrest⟩
        obtain ⟨rest, hmap, hbs⟩ := bind_eq_ok_iff.mp hrest
        cases hbs
        exact ⟨b, rest, hb, ih.mp hmap, rfl⟩
      · rintro ⟨b, rest, hb, hrest, rfl⟩
        exact ⟨b, hb, bind_eq_ok_iff.mpr ⟨rest, ih.mpr hrest, rfl⟩⟩

/-- Each element was written. -/
theorem exists_of_mem_mapM {as : List α} {bs : List β} {a : α} (h : as.mapM write = .ok bs)
    (ha : a ∈ as) : ∃ b, write a = .ok b := by
  have hall := mapM_eq_ok_iff.mp h
  induction hall with
  | nil => cases ha
  | cons hb hrest ih =>
      rcases List.mem_cons.mp ha with rfl | ha
      · exact ⟨_, hb⟩
      · exact ih (mapM_eq_ok_iff.mpr hrest) ha

/-- An error is one of some element. -/
theorem exists_of_mapM_error {as : List α} {e : ε} (h : as.mapM write = .error e) :
    ∃ a ∈ as, write a = .error e := by
  induction as with
  | nil => cases h
  | cons a as ih =>
      rw [List.mapM_cons] at h
      cases ha : write a with
      | error e' =>
          rw [ha] at h
          cases h
          exact ⟨a, List.mem_cons_self, ha⟩
      | ok b =>
          cases hrest : as.mapM write with
          | error e' =>
              simp only [ha, hrest] at h
              cases h
              obtain ⟨a', ha', herror⟩ := ih hrest
              exact ⟨a', List.mem_cons_of_mem _ ha', herror⟩
          | ok rest =>
              simp only [ha, hrest] at h
              cases h

/-- Writing without errors. -/
theorem mapM_ok {f : α → β} (as : List α) :
    as.mapM (fun a => (.ok (f a) : Except ε β)) = .ok (as.map f) := by
  induction as with
  | nil => rfl
  | cons a as ih =>
      rw [List.mapM_cons, ih]
      rfl

/-- **A list is read back exactly if each of its elements keeps.** -/
theorem list_roundTrip_iff {as : List α} {bs : List β} (hwrite : as.mapM write = .ok bs)
    (h : ∀ a ∈ as, ∀ b, write a = .ok b → (read b = .ok a ↔ Keeps a)) :
    bs.mapM read = .ok as ↔ ∀ a ∈ as, Keeps a := by
  induction as generalizing bs with
  | nil =>
      cases hwrite
      exact iff_of_true rfl nofun
  | cons a as ih =>
      rw [List.mapM_cons] at hwrite
      obtain ⟨b, hb, hwrite⟩ := bind_eq_ok_iff.mp hwrite
      obtain ⟨rest, hrest, hwrite⟩ := bind_eq_ok_iff.mp hwrite
      cases hwrite
      obtain ⟨hfirst, hothers⟩ := List.forall_mem_cons.mp h
      rw [List.mapM_cons, List.forall_mem_cons, ← hfirst b hb, ← ih hrest hothers,
        bind_eq_ok_iff]
      constructor
      · rintro ⟨a', ha', hread⟩
        obtain ⟨as', has', hread⟩ := bind_eq_ok_iff.mp hread
        cases hread
        exact ⟨ha', has'⟩
      · rintro ⟨ha, has⟩
        exact ⟨a, ha, bind_eq_ok_iff.mpr ⟨as, has, rfl⟩⟩

end

/-! ## §3  Lists of what may be missing -/

section

variable {α β : Type} {f : α → Option β} {as : List α} {bs : List β}

theorem exists_mapM (h : ∀ a ∈ as, ∃ b, f a = some b) : ∃ bs, as.mapM f = some bs := by
  induction as with
  | nil => exact ⟨[], rfl⟩
  | cons a as ih =>
      obtain ⟨⟨b, hb⟩, has⟩ := List.forall_mem_cons.mp h
      obtain ⟨bs, hbs⟩ := ih has
      exact ⟨b :: bs, by simp [hb, hbs]⟩

theorem mem_of_mapM (h : as.mapM f = some bs) {b : β} : b ∈ bs ↔ ∃ a ∈ as, f a = some b := by
  induction as generalizing bs with
  | nil =>
      cases h
      simp
  | cons a as ih =>
      rw [List.mapM_cons] at h
      obtain ⟨b', hb', h⟩ := Option.bind_eq_some_iff.mp h
      obtain ⟨rest, hrest, h⟩ := Option.bind_eq_some_iff.mp h
      cases h
      rw [List.mem_cons, ih hrest, List.exists_mem_cons_iff, hb', Option.some_inj, eq_comm]

theorem map_of_mapM {g : β → α}
    (hback : ∀ a b, f a = some b → g b = a) (h : as.mapM f = some bs) : bs.map g = as := by
  induction as generalizing bs with
  | nil =>
      cases h
      rfl
  | cons a as ih =>
      rw [List.mapM_cons] at h
      obtain ⟨b, hb, h⟩ := Option.bind_eq_some_iff.mp h
      obtain ⟨rest, hrest, h⟩ := Option.bind_eq_some_iff.mp h
      cases h
      rw [List.map_cons, hback a b hb, ih hrest]

end

end ScadaCommon.Foundation
