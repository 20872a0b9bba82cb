import Mathlib.Data.List.Basic

/-!
# Guarded machines

A machine has one initial state, an environment that says which labels may
fire where (`enabled`) and a step that the program then takes; the step is
partial, `none` standing for a failed assertion. Every nondeterministic choice
of the environment is part of the label, so that a step can be evaluated.

`Reaches ok` is reachability by runs each of whose steps meets `ok` in the
state it starts from. A safety property is proved once by `Reaches.invariant`:
it holds initially and each step preserves it.
-/

namespace ScadaCommon.Foundation

structure Machine (σ α : Type*) where
  init : σ
  enabled : σ → α → Prop
  step : σ → α → Option σ

namespace Machine

variable {σ α : Type*} {M : Machine σ α} {ok ok' : σ → α → Prop} {s s' t : σ}

/-- The states some run reaches from `s` whose steps all meet `ok`. -/
inductive ReachesFrom (M : Machine σ α) (ok : σ → α → Prop) (s : σ) : σ → Prop
  | refl : M.ReachesFrom ok s s
  | tail {t t' : σ} {a : α} : M.ReachesFrom ok s t → M.enabled t a → ok t a →
      M.step t a = some t' → M.ReachesFrom ok s t'

abbrev Reaches (M : Machine σ α) (ok : σ → α → Prop) (s : σ) : Prop :=
  M.ReachesFrom ok M.init s

/-- Reachable by any run at all. -/
abbrev Reachable (M : Machine σ α) (s : σ) : Prop :=
  M.Reaches (fun _ _ => True) s

/-- **Invariant rule**, from any starting state. -/
theorem ReachesFrom.invariant {I : σ → Prop} (hstart : I s)
    (hstep : ∀ t a t', I t → M.enabled t a → ok t a → M.step t a = some t' → I t')
    (h : M.ReachesFrom ok s t) : I t := by
  induction h with
  | refl => exact hstart
  | tail _ hen hok hs ih => exact hstep _ _ _ ih hen hok hs

theorem ReachesFrom.mono (hle : ∀ t a, ok t a → ok' t a)
    (h : M.ReachesFrom ok s t) : M.ReachesFrom ok' s t := by
  induction h with
  | refl => exact .refl
  | tail _ hen hok hs ih => exact ih.tail hen (hle _ _ hok) hs

theorem ReachesFrom.trans (h : M.ReachesFrom ok s t) (h' : M.ReachesFrom ok t s') :
    M.ReachesFrom ok s s' := by
  induction h' with
  | refl => exact h
  | tail _ hen hok hs ih => exact ih.tail hen hok hs

/-! ## Running a list of labels -/

/-- Fires the labels in order; `none` when one is not enabled or not `ok`, or
its step fails. -/
def exec (M : Machine σ α) (ok : σ → α → Prop) [∀ s a, Decidable (M.enabled s a)]
    [∀ s a, Decidable (ok s a)] : σ → List α → Option σ
  | s, [] => some s
  | s, a :: as => if M.enabled s a ∧ ok s a then (M.step s a).bind (M.exec ok · as) else none

variable [∀ s a, Decidable (M.enabled s a)] [∀ s a, Decidable (ok s a)]

theorem ReachesFrom.exec {as : List α} (h : M.ReachesFrom ok s t)
    (he : M.exec ok t as = some s') : M.ReachesFrom ok s s' := by
  induction as generalizing t with
  | nil =>
      cases he
      exact h
  | cons a as ih =>
      unfold Machine.exec at he
      split at he
      · rename_i hen
        obtain ⟨u, hu, hrest⟩ := Option.bind_eq_some_iff.mp he
        exact ih (h.tail hen.1 hen.2 hu) hrest
      · cases he

theorem exec_cons {a : α} {as : List α} (hen : M.enabled s a) (hok : ok s a)
    (hstep : M.step s a = some t) : M.exec ok s (a :: as) = M.exec ok t as := by
  rw [Machine.exec, if_pos ⟨hen, hok⟩, hstep]
  rfl

theorem exec_append {as bs : List α} (h : M.exec ok s as = some t) :
    M.exec ok s (as ++ bs) = M.exec ok t bs := by
  induction as generalizing s with
  | nil =>
      cases h
      rfl
  | cons a as ih =>
      unfold Machine.exec at h
      split at h
      · rename_i hen
        obtain ⟨u, hu, hrest⟩ := Option.bind_eq_some_iff.mp h
        rw [List.cons_append, exec_cons hen.1 hen.2 hu]
        exact ih hrest
      · cases h

/-- A property seen at the end of an executed list of labels is seen in a state
that such a run reaches. -/
theorem exists_reachesFrom_of_exec (s : σ) (ok : σ → α → Prop) [∀ s a, Decidable (ok s a)]
    {p : σ → Bool} (as : List α) (h : (M.exec ok s as).any p = true) :
    ∃ t, M.ReachesFrom ok s t ∧ p t = true := by
  cases ht : M.exec ok s as with
  | none => simp [ht] at h
  | some t => exact ⟨t, ReachesFrom.refl.exec ht, by simpa [ht] using h⟩

theorem exists_reaches_of_exec (ok : σ → α → Prop) [∀ s a, Decidable (ok s a)] {p : σ → Bool}
    (as : List α) (h : (M.exec ok M.init as).any p = true) :
    ∃ s, M.Reaches ok s ∧ p s = true :=
  exists_reachesFrom_of_exec M.init ok as h

omit [∀ s a, Decidable (ok s a)] in
theorem exists_reachable_of_exec {p : σ → Bool} (as : List α)
    (h : (M.exec (fun _ _ => True) M.init as).any p = true) :
    ∃ s, M.Reachable s ∧ p s = true :=
  exists_reaches_of_exec _ as h

end Machine

end ScadaCommon.Foundation
