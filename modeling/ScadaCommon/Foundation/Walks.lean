import Mathlib.Data.Set.Card
import Mathlib.Logic.Relation

/-!
# Walks that may not end

Loops that follow links and recursions along them are given fuel; they return
when some fuel gives a result, and more of it gives the same. Among finitely many
links a walk goes on for ever only if it gets to a place that it comes back to.

§1 results that need fuel · §2 loops over a list · §3 cycles · §4 climbing along
a link.
-/

namespace ScadaCommon.Foundation

open Relation

variable {α β γ : Type*}

/-! ## §1  Results that need fuel -/

/-- Some fuel gives a result. -/
def Converges (f : ℕ → Option β) : Prop :=
  ∃ fuel r, f fuel = some r

/-- More fuel gives the same result. -/
def Steady (f : ℕ → Option β) : Prop :=
  ∀ fuel r more, f fuel = some r → fuel ≤ more → f more = some r

theorem steady_const (r : Option β) : Steady fun _ => r :=
  fun _ _ _ hr _ => hr

theorem converges_some (r : β) : Converges fun _ => some r :=
  ⟨0, r, rfl⟩

theorem Steady.map {f : ℕ → Option β} (h : Steady f) (g : β → γ) :
    Steady fun fuel => (f fuel).map g := by
  intro fuel r more hr hle
  obtain ⟨s, hs, rfl⟩ := Option.map_eq_some_iff.mp hr
  exact Option.map_eq_some_iff.mpr ⟨s, h fuel s more hs hle, rfl⟩

theorem converges_map {f : ℕ → Option β} (g : β → γ) :
    Converges (fun fuel => (f fuel).map g) ↔ Converges f := by
  constructor
  · rintro ⟨fuel, r, hr⟩
    obtain ⟨s, hs, -⟩ := Option.map_eq_some_iff.mp hr
    exact ⟨fuel, s, hs⟩
  · rintro ⟨fuel, s, hs⟩
    exact ⟨fuel, g s, Option.map_eq_some_iff.mpr ⟨s, hs, rfl⟩⟩

theorem Steady.bind {f : ℕ → Option β} {g : ℕ → β → Option γ} (hf : Steady f)
    (hg : ∀ s, Steady (g · s)) : Steady fun fuel => (f fuel).bind (g fuel) := by
  intro fuel r more hr hle
  obtain ⟨s, hs, hr⟩ := Option.bind_eq_some_iff.mp hr
  exact Option.bind_eq_some_iff.mpr ⟨s, hf fuel s more hs hle, hg s fuel r more hr hle⟩

/-- One after the other returns when both do. -/
theorem converges_bind {f : ℕ → Option β} {g : ℕ → β → Option γ} (hf : Steady f)
    (hg : ∀ s, Steady (g · s)) :
    Converges (fun fuel => (f fuel).bind (g fuel)) ↔
      ∃ s, (∃ fuel, f fuel = some s) ∧ Converges (g · s) := by
  constructor
  · rintro ⟨fuel, r, hr⟩
    obtain ⟨s, hs, hr⟩ := Option.bind_eq_some_iff.mp hr
    exact ⟨s, ⟨fuel, hs⟩, fuel, r, hr⟩
  · rintro ⟨s, ⟨fuel, hs⟩, fuel', r, hr⟩
    refine ⟨max fuel fuel', r, Option.bind_eq_some_iff.mpr ⟨s, ?_, ?_⟩⟩
    · exact hf fuel s _ hs (le_max_left _ _)
    · exact hg s fuel' r _ hr (le_max_right _ _)

/-! ## §2  Loops over a list -/

/-- Appends what the body gives for each element. -/
def collect (body : α → Option (List β)) : List α → Option (List β)
  | [] => some []
  | a :: as => (body a).bind fun bs => (collect body as).map (bs ++ ·)

section

variable {body : ℕ → α → Option (List β)}

theorem steady_collect (h : ∀ a, Steady (body · a)) (as : List α) :
    Steady fun fuel => collect (body fuel) as := by
  induction as with
  | nil => exact steady_const _
  | cons a as ih => exact (h a).bind fun bs => ih.map _

/-- The loop returns when its body does for each element. -/
theorem converges_collect (h : ∀ a, Steady (body · a)) (as : List α) :
    Converges (fun fuel => collect (body fuel) as) ↔ ∀ a ∈ as, Converges (body · a) := by
  induction as with
  | nil => exact ⟨fun _ a ha => absurd ha List.not_mem_nil, fun _ => converges_some []⟩
  | cons a as ih =>
      rw [List.forall_mem_cons, ← ih]
      have hrest : ∀ bs : List β, Steady fun fuel => (collect (body fuel) as).map (bs ++ ·) :=
        fun bs => (steady_collect h as).map _
      refine (converges_bind (h a) hrest).trans ?_
      constructor
      · rintro ⟨bs, ⟨fuel, hbs⟩, hconverges⟩
        exact ⟨⟨fuel, bs, hbs⟩, (converges_map _).mp hconverges⟩
      · rintro ⟨⟨fuel, bs, hbs⟩, hconverges⟩
        exact ⟨bs, ⟨fuel, hbs⟩, (converges_map _).mpr hconverges⟩

theorem exists_of_collect {body : α → Option (List β)} {as : List α} {bs : List β} {a : α}
    (h : collect body as = some bs) (ha : a ∈ as) : ∃ part, body a = some part := by
  induction as generalizing bs with
  | nil => cases ha
  | cons head as ih =>
      obtain ⟨part, hpart, h⟩ := Option.bind_eq_some_iff.mp h
      obtain ⟨rest, hrest, -⟩ := Option.map_eq_some_iff.mp h
      rcases List.mem_cons.mp ha with rfl | ha
      · exact ⟨part, hpart⟩
      · exact ih hrest ha

/-- What is appended. -/
theorem mem_collect {body : α → Option (List β)} {as : List α} {bs : List β}
    (h : collect body as = some bs) (b : β) :
    b ∈ bs ↔ ∃ a ∈ as, ∃ part, body a = some part ∧ b ∈ part := by
  induction as generalizing bs with
  | nil =>
      cases h
      simp
  | cons a as ih =>
      obtain ⟨part, hpart, h⟩ := Option.bind_eq_some_iff.mp h
      obtain ⟨rest, hrest, rfl⟩ := Option.map_eq_some_iff.mp h
      simp [ih hrest, hpart]

end

/-! ## §3  Cycles -/

section

variable {step : α → α → Prop} {a b : α}

/-- A place can be reached that can be reached again from itself. -/
def MeetsCycle (step : α → α → Prop) (a : α) : Prop :=
  ∃ b, ReflTransGen step a b ∧ TransGen step b b

theorem MeetsCycle.of_step (hab : step a b) (h : MeetsCycle step b) : MeetsCycle step a := by
  obtain ⟨c, hbc, hc⟩ := h
  exact ⟨c, hbc.head hab, hc⟩

theorem MeetsCycle.exists_step (h : MeetsCycle step a) : ∃ b, step a b ∧ MeetsCycle step b := by
  obtain ⟨c, hac, hc⟩ := h
  rcases ReflTransGen.cases_head hac with rfl | ⟨b, hab, hbc⟩
  · obtain ⟨b, hab, hba⟩ := TransGen.head'_iff.mp hc
    exact ⟨b, hab, a, hba, hc⟩
  · exact ⟨b, hab, c, hbc, hc⟩

/-- **Induction along links** that do not lead into a cycle: there are fewer places
ahead after each step. -/
theorem induction_of_no_cycle {p : α → Prop} (hfinite : {a | ∃ b, step a b}.Finite)
    (hstep : ∀ a, (∀ b, step a b → p b) → p a) (h : ¬ MeetsCycle step a) : p a := by
  have hahead : ∀ a, {b | ReflTransGen step a b ∧ ∃ c, step b c}.Finite :=
    fun a => hfinite.subset fun b hb => hb.2
  induction hn : {b | ReflTransGen step a b ∧ ∃ c, step b c}.ncard using Nat.strong_induction_on
    generalizing a with
  | _ n ih =>
      refine hstep a fun b hab => ?_
      have hfewer : {c | ReflTransGen step b c ∧ ∃ d, step c d} ⊂
          {c | ReflTransGen step a c ∧ ∃ d, step c d} := by
        refine ⟨fun c hc => ⟨hc.1.head hab, hc.2⟩, fun hsub => ?_⟩
        have hback : ReflTransGen step b a := (hsub ⟨ReflTransGen.refl, b, hab⟩).1
        exact h ⟨a, ReflTransGen.refl, TransGen.head' hab hback⟩
      refine ih _ ?_ (fun hb => h (hb.of_step hab)) rfl
      rw [← hn]
      exact Set.ncard_lt_ncard hfewer (hahead a)

end

/-! ## §4  Climbing along a link -/

/-- `for (; a; a = next(a))` with a body that may break; whether it did, and what the
body has given. -/
def climb (next : α → Option α) (visit : ℕ → α → Option (Bool × List β)) :
    ℕ → Option α → Option (Bool × List β)
  | 0, _ => none
  | _ + 1, none => some (false, [])
  | fuel + 1, some a => do
      let (stop, out) ← visit fuel a
      if stop then return (true, out)
      else
        let (stop, rest) ← climb next visit fuel (next a)
        return (stop, out ++ rest)

/-- The loop gets past a place. -/
def Passes (next : α → Option α) (stops : α → Prop) (a b : α) : Prop :=
  ¬ stops a ∧ next a = some b

section

variable {next : α → Option α} {visit : ℕ → α → Option (Bool × List β)} {a b : α} {fuel : ℕ}
  {result : Bool × List β}

theorem climb_eq_some (h : climb next visit (fuel + 1) (some a) = some result) :
    (∃ out, visit fuel a = some (true, out) ∧ result = (true, out)) ∨
      ∃ out rest, visit fuel a = some (false, out) ∧
        climb next visit fuel (next a) = some rest ∧ result = (rest.1, out ++ rest.2) := by
  rw [climb] at h
  obtain ⟨⟨stop, out⟩, hvisit, h⟩ := Option.bind_eq_some_iff.mp h
  cases stop with
  | true =>
      cases h
      exact Or.inl ⟨out, hvisit, rfl⟩
  | false =>
      obtain ⟨rest, hrest, h⟩ := Option.bind_eq_some_iff.mp h
      cases h
      exact Or.inr ⟨out, rest, hvisit, hrest, rfl⟩

theorem climb_of_stop {out : List β} (h : visit fuel a = some (true, out)) :
    climb next visit (fuel + 1) (some a) = some (true, out) := by
  rw [climb, h]
  rfl

theorem climb_of_pass {out : List β} {rest : Bool × List β} (h : visit fuel a = some (false, out))
    (hrest : climb next visit fuel (next a) = some rest) :
    climb next visit (fuel + 1) (some a) = some (rest.1, out ++ rest.2) := by
  rw [climb, h]
  dsimp only [Option.bind_eq_bind, Option.bind_some]
  rw [hrest]
  rfl

theorem steady_climb (hsteady : ∀ a, Steady (visit · a)) (current : Option α) :
    Steady (climb next visit · current) := by
  intro fuel r more hr hle
  induction fuel generalizing current r more with
  | zero => cases hr
  | succ fuel ih =>
      obtain ⟨more, rfl⟩ := Nat.exists_eq_add_of_le' (Nat.lt_of_lt_of_le fuel.succ_pos hle)
      have hle := Nat.le_of_succ_le_succ hle
      cases current with
      | none => exact hr
      | some a =>
          rcases climb_eq_some hr with ⟨out, hvisit, rfl⟩ | ⟨out, rest, hvisit, hrest, rfl⟩
          · exact climb_of_stop (hsteady a fuel _ more hvisit hle)
          · exact climb_of_pass (hsteady a fuel _ more hvisit hle) (ih _ _ _ hrest hle)

/-- **When the loop ends.** Its body returns at each place it gets to, and it does not
get into a cycle. -/
theorem converges_climb_iff (stops : α → Prop) (hsteady : ∀ a, Steady (visit · a))
    (hstops : ∀ fuel a stop out, visit fuel a = some (stop, out) → (stop = true ↔ stops a))
    (hfinite : {a | ∃ b, next a = some b}.Finite) :
    Converges (climb next visit · (some a)) ↔
      (∀ b, ReflTransGen (Passes next stops) a b → Converges (visit · b)) ∧
        ¬ MeetsCycle (Passes next stops) a := by
  constructor
  · rintro ⟨fuel, result, h⟩
    induction fuel generalizing a result with
    | zero => cases h
    | succ fuel ih =>
        -- What holds behind the place holds from the place on.
        have hlast : (∀ b, Passes next stops a b →
            (∀ c, ReflTransGen (Passes next stops) b c → Converges (visit · c)) ∧
              ¬ MeetsCycle (Passes next stops) b) := by
          rintro b ⟨hpasses, hb⟩
          rcases climb_eq_some h with ⟨out, hvisit, -⟩ | ⟨out, rest, -, hrest, -⟩
          · exact absurd ((hstops _ _ _ _ hvisit).mp rfl) hpasses
          · rw [hb] at hrest
            exact ih _ hrest
        have hvisit : Converges (visit · a) := by
          rcases climb_eq_some h with ⟨out, hvisit, -⟩ | ⟨out, rest, hvisit, -⟩
          · exact ⟨fuel, _, hvisit⟩
          · exact ⟨fuel, _, hvisit⟩
        refine ⟨?_, ?_⟩
        · intro c hac
          rcases ReflTransGen.cases_head hac with rfl | ⟨b, hab, hbc⟩
          · exact hvisit
          · exact (hlast b hab).1 c hbc
        · rintro ⟨c, hac, hc⟩
          rcases ReflTransGen.cases_head hac with rfl | ⟨b, hab, hbc⟩
          · obtain ⟨b, hab, hba⟩ := TransGen.head'_iff.mp hc
            exact (hlast b hab).2 ⟨a, hba, hc⟩
          · exact (hlast b hab).2 ⟨c, hbc, hc⟩
  · rintro ⟨hvisits, hcycle⟩
    have hlinks : {a | ∃ b, Passes next stops a b}.Finite :=
      hfinite.subset fun a ⟨b, hab⟩ => ⟨b, hab.2⟩
    refine induction_of_no_cycle (p := fun a =>
      (∀ b, ReflTransGen (Passes next stops) a b → Converges (visit · b)) →
        Converges (climb next visit · (some a))) hlinks ?_ hcycle hvisits
    intro a ih hvisits
    obtain ⟨fuel, ⟨stop, out⟩, hvisit⟩ := hvisits a ReflTransGen.refl
    cases stop with
    | true => exact ⟨fuel + 1, _, climb_of_stop hvisit⟩
    | false =>
        have hpasses : ¬ stops a := fun hs => by
          have := (hstops _ _ _ _ hvisit).mpr hs
          cases this
        have hrest : Converges (climb next visit · (next a)) := by
          cases hb : next a with
          | none => exact ⟨1, _, rfl⟩
          | some b =>
              have hab : Passes next stops a b := ⟨hpasses, hb⟩
              exact ih b hab fun c hbc => hvisits c (hbc.head hab)
        obtain ⟨fuel', rest, hrest⟩ := hrest
        have hvisit' := hsteady a fuel _ _ hvisit (le_max_left fuel fuel')
        have hrest' := steady_climb hsteady _ fuel' _ _ hrest (le_max_right fuel fuel')
        exact ⟨max fuel fuel' + 1, _, climb_of_pass hvisit' hrest'⟩

/-- The loop breaks just when it gets to a place where it does. -/
theorem climb_stops_iff (stops : α → Prop)
    (hstops : ∀ fuel a stop out, visit fuel a = some (stop, out) → (stop = true ↔ stops a))
    (h : climb next visit fuel (some a) = some result) :
    result.1 = true ↔ ∃ b, ReflTransGen (Passes next stops) a b ∧ stops b := by
  induction fuel generalizing a result with
  | zero => cases h
  | succ fuel ih =>
      rcases climb_eq_some h with ⟨out, hvisit, rfl⟩ | ⟨out, rest, hvisit, hrest, rfl⟩
      · exact iff_of_true rfl ⟨a, ReflTransGen.refl, (hstops _ _ _ _ hvisit).mp rfl⟩
      · have hpasses : ¬ stops a := fun hs => by
          have := (hstops _ _ _ _ hvisit).mpr hs
          cases this
        have hbehind : (∃ b, ReflTransGen (Passes next stops) a b ∧ stops b) ↔
            ∃ b, Passes next stops a b ∧
              ∃ c, ReflTransGen (Passes next stops) b c ∧ stops c := by
          constructor
          · rintro ⟨c, hac, hc⟩
            rcases ReflTransGen.cases_head hac with rfl | ⟨b, hab, hbc⟩
            · exact absurd hc hpasses
            · exact ⟨b, hab, c, hbc, hc⟩
          · rintro ⟨b, hab, c, hbc, hc⟩
            exact ⟨c, hbc.head hab, hc⟩
        rw [hbehind]
        cases hb : next a with
        | none =>
            rw [hb] at hrest
            cases fuel with
            | zero => cases hrest
            | succ fuel =>
                cases hrest
                refine iff_of_false (by simp) ?_
                rintro ⟨b, ⟨-, hb'⟩, -⟩
                rw [hb] at hb'
                cases hb'
        | some b =>
            rw [hb] at hrest
            refine (ih hrest).trans ⟨fun hc => ⟨b, ⟨hpasses, hb⟩, hc⟩, ?_⟩
            rintro ⟨b', ⟨-, hb'⟩, hc⟩
            rw [hb] at hb'
            cases hb'
            exact hc

end

end ScadaCommon.Foundation
