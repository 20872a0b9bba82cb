import Mathlib.Data.Finset.Card
import Mathlib.Data.Finset.SDiff
import Mathlib.Data.List.Nodup
import Mathlib.Logic.Relation

/-!
# Breadth-first order

A search with a queue puts a vertex into the queue when an edge leads to it for the
first time. The vertex that the search starts from comes first, and once more if an
edge leads back to it, because the search did not note that it had seen it.

§1 the search · §2 what it lists · §3 where it ends.
-/

namespace ScadaCommon.Foundation

open Relation

variable {α : Type} [DecidableEq α]

/-! ## §1  The search -/

/-- The vertices of a list that were not seen, each once. -/
def unseen (seen : List α) : List α → List α
  | [] => []
  | a :: as => if a ∈ seen then unseen seen as else a :: unseen (a :: seen) as

/-- Empties the queue, with at most `fuel` rounds. `neighbors` is `none` for what must
not be looked at. -/
def breadthFirst (neighbors : α → Option (List α)) : ℕ → List α → List α → Option (List α)
  | 0, _, _ => none
  | _ + 1, _, [] => some []
  | fuel + 1, seen, a :: queue => do
      let found := unseen seen (← neighbors a)
      return a :: (← breadthFirst neighbors fuel (seen ++ found) (queue ++ found))

/-- An edge of the graph. -/
def Joins (neighbors : α → Option (List α)) (a b : α) : Prop :=
  ∃ as, neighbors a = some as ∧ b ∈ as

variable {neighbors : α → Option (List α)} {fuel : ℕ} {seen queue order : List α} {a b : α}

theorem mem_unseen {as : List α} : b ∈ unseen seen as ↔ b ∈ as ∧ b ∉ seen := by
  induction as generalizing seen with
  | nil => simp [unseen]
  | cons a as ih =>
      rw [unseen]
      split
      · rename_i ha
        rw [ih, List.mem_cons]
        constructor
        · exact fun ⟨hb, hnew⟩ => ⟨.inr hb, hnew⟩
        · rintro ⟨rfl | hb, hnew⟩
          · exact absurd ha hnew
          · exact ⟨hb, hnew⟩
      · rename_i ha
        rw [List.mem_cons, ih, List.mem_cons, List.mem_cons, not_or]
        by_cases hb : b = a
        · simp [hb, ha]
        · simp [hb]

theorem nodup_unseen (seen as : List α) : (unseen seen as).Nodup := by
  induction as generalizing seen with
  | nil => exact List.nodup_nil
  | cons a as ih =>
      rw [unseen]
      split
      · exact ih seen
      · refine List.nodup_cons.mpr ⟨fun ha => ?_, ih (a :: seen)⟩
        exact (mem_unseen.mp ha).2 List.mem_cons_self

/-! ## §2  What it lists -/

/-- What is listed after the queue: what was not seen, each vertex once and with all of
its neighbors. -/
structure Lists (neighbors : α → Option (List α)) (seen queue found : List α) : Prop where
  nodup : found.Nodup
  new : ∀ b ∈ found, b ∉ seen
  reached : ∀ b ∈ found, ∃ a ∈ queue, TransGen (Joins neighbors) a b
  looked : ∀ a ∈ queue ++ found, ∃ as, neighbors a = some as ∧ ∀ b ∈ as, b ∈ seen ++ found

theorem breadthFirst_lists (h : breadthFirst neighbors fuel seen queue = some order) :
    ∃ found, order = queue ++ found ∧ Lists neighbors seen queue found := by
  induction fuel generalizing seen queue order with
  | zero => cases h
  | succ fuel ih =>
      cases queue with
      | nil =>
          cases h
          exact ⟨[], rfl, List.nodup_nil, nofun, nofun, nofun⟩
      | cons a queue =>
          obtain ⟨as, has, h⟩ := Option.bind_eq_some_iff.mp h
          obtain ⟨rest, hrest, h⟩ := Option.bind_eq_some_iff.mp h
          cases h
          obtain ⟨found, rfl, hfound⟩ := ih hrest
          refine ⟨unseen seen as ++ found, by simp, ?_, ?_, ?_, ?_⟩
          · refine List.nodup_append'.mpr ⟨nodup_unseen seen as, hfound.nodup, fun b hb hb' => ?_⟩
            exact hfound.new b hb' (List.mem_append_right _ hb)
          · intro b hb
            rcases List.mem_append.mp hb with hb | hb
            · exact (mem_unseen.mp hb).2
            · exact fun hseen => hfound.new b hb (List.mem_append_left _ hseen)
          · intro b hb
            have hnext : ∀ c ∈ unseen seen as, Joins neighbors a c :=
              fun c hc => ⟨as, has, (mem_unseen.mp hc).1⟩
            rcases List.mem_append.mp hb with hb | hb
            · exact ⟨a, List.mem_cons_self, .single (hnext b hb)⟩
            · obtain ⟨c, hc, hway⟩ := hfound.reached b hb
              rcases List.mem_append.mp hc with hc | hc
              · exact ⟨c, List.mem_cons_of_mem _ hc, hway⟩
              · exact ⟨a, List.mem_cons_self, .head (hnext c hc) hway⟩
          · intro c hc
            rcases List.mem_cons.mp hc with rfl | hc
            · refine ⟨as, has, fun b hb => ?_⟩
              by_cases hseen : b ∈ seen
              · exact List.mem_append_left _ hseen
              · exact List.mem_append_right _
                  (List.mem_append_left _ (mem_unseen.mpr ⟨hb, hseen⟩))
            · obtain ⟨cs, hcs, hall⟩ := hfound.looked c (by simpa using hc)
              exact ⟨cs, hcs, fun b hb => by simpa using hall b hb⟩

/-- **A search from one vertex** lists it and then, once, each vertex that a walk with an
edge leads to. -/
theorem breadthFirst_start (h : breadthFirst neighbors fuel [] [a] = some order) :
    ∃ found, order = a :: found ∧ found.Nodup ∧
      (∀ b, b ∈ found ↔ TransGen (Joins neighbors) a b) ∧
        ∀ b, ReflTransGen (Joins neighbors) a b → ∃ bs, neighbors b = some bs := by
  obtain ⟨found, rfl, hfound⟩ := breadthFirst_lists h
  have hedge : ∀ b ∈ a :: found, ∀ c, Joins neighbors b c → c ∈ found := by
    rintro b hb c ⟨bs, hbs, hc⟩
    obtain ⟨bs', hbs', hall⟩ := hfound.looked b hb
    obtain rfl := Option.some.inj (hbs.symm.trans hbs')
    exact hall c hc
  have hway : ∀ b, TransGen (Joins neighbors) a b → b ∈ found := by
    intro b hb
    induction hb with
    | single hab => exact hedge a List.mem_cons_self _ hab
    | tail _ hbc ih => exact hedge _ (List.mem_cons_of_mem _ ih) _ hbc
  refine ⟨found, rfl, hfound.nodup, fun b => ⟨fun hb => ?_, hway b⟩, fun b hb => ?_⟩
  · obtain ⟨c, hc, hcb⟩ := hfound.reached b hb
    rwa [List.mem_singleton.mp hc] at hcb
  · have hmem : b ∈ a :: found := by
      rcases reflTransGen_iff_eq_or_transGen.mp hb with rfl | hb
      · exact List.mem_cons_self
      · exact List.mem_cons_of_mem _ (hway b hb)
    obtain ⟨bs, hbs, -⟩ := hfound.looked b hmem
    exact ⟨bs, hbs⟩

/-! ## §3  Where it ends -/

/-- Each round takes one vertex out of the queue and notes that it has seen those that
it puts in, so more fuel than the queue and the vertices not seen yet are is enough. -/
theorem exists_breadthFirst {vertices : Finset α}
    (hlook : ∀ a ∈ vertices, ∃ as, neighbors a = some as ∧ ∀ b ∈ as, b ∈ vertices)
    (hqueue : ∀ a ∈ queue, a ∈ vertices)
    (hfuel : queue.length + (vertices \ seen.toFinset).card < fuel) :
    ∃ order, breadthFirst neighbors fuel seen queue = some order := by
  induction fuel generalizing seen queue with
  | zero => exact absurd hfuel (Nat.not_lt_zero _)
  | succ fuel ih =>
      cases queue with
      | nil => exact ⟨[], rfl⟩
      | cons a queue =>
          obtain ⟨ha, hqueue⟩ := List.forall_mem_cons.mp hqueue
          obtain ⟨as, has, hall⟩ := hlook a ha
          have hfound : ∀ b ∈ unseen seen as, b ∈ vertices ∧ b ∉ seen := fun b hb =>
            ⟨hall b (mem_unseen.mp hb).1, (mem_unseen.mp hb).2⟩
          have hcard : (vertices \ (seen ++ unseen seen as).toFinset).card +
              (unseen seen as).length = (vertices \ seen.toFinset).card := by
            have hsub : (unseen seen as).toFinset ⊆ vertices \ seen.toFinset := by
              intro b hb
              obtain ⟨hvertex, hnew⟩ := hfound b (List.mem_toFinset.mp hb)
              exact Finset.mem_sdiff.mpr ⟨hvertex, fun h => hnew (List.mem_toFinset.mp h)⟩
            rw [List.toFinset_append, ← Finset.sup_eq_union, ← sdiff_sdiff_left,
              ← List.toFinset_card_of_nodup (nodup_unseen seen as)]
            exact Finset.card_sdiff_add_card_eq_card hsub
          have hqueue' : ∀ b ∈ queue ++ unseen seen as, b ∈ vertices := fun b hb =>
            (List.mem_append.mp hb).elim (hqueue b) fun hb => (hfound b hb).1
          obtain ⟨rest, hrest⟩ := @ih (seen ++ unseen seen as) _ hqueue' (by
            rw [List.length_append]
            rw [List.length_cons] at hfuel
            omega)
          exact ⟨a :: rest, by simp [breadthFirst, has, hrest]⟩

end ScadaCommon.Foundation
