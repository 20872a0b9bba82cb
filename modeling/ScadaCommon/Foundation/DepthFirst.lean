import Mathlib.Data.Finset.Card
import Mathlib.Data.Finset.Filter
import Mathlib.Data.List.Nodup
import Mathlib.Data.List.Perm.Subperm
import Mathlib.Data.List.Range
import Mathlib.Logic.Relation

/-!
# Depth-first order

A search of a graph with the vertices `0`, …, `n - 1` lists a vertex after what
it finds from there. Whatever the edges are, it ends, and lists each vertex once;
a vertex that is on no cycle is listed after its neighbors.

§1 the search · §2 order · §3 ranks.
-/

namespace ScadaCommon.Foundation

/-! ## §1  The search -/

structure Search where
  visited : List ℕ
  order : List ℕ

/-- Visits a vertex unless it was visited, with visits inside of visits at most
`fuel` deep. -/
def visit (neighbors : ℕ → List ℕ) : ℕ → Search → ℕ → Option Search
  | 0, _, _ => none
  | fuel + 1, search, v =>
      if v ∈ search.visited then some search
      else do
        let search ← (neighbors v).foldlM (visit neighbors fuel)
          { search with visited := v :: search.visited }
        return { search with order := search.order ++ [v] }

def depthFirst (neighbors : ℕ → List ℕ) (n : ℕ) : Option (List ℕ) :=
  ((List.range n).foldlM (visit neighbors (n + 1)) { visited := [], order := [] }).map Search.order

/-- The vertices of a search. -/
structure Search.Valid (n : ℕ) (search : Search) : Prop where
  nodup : search.visited.Nodup
  bounded : ∀ v ∈ search.visited, v < n

/-- A search goes on: what it lists anew is what it visits anew. -/
structure Search.Continues (n : ℕ) (search search' : Search) : Prop where
  valid : search'.Valid n
  listed : ∃ found, search'.order = search.order ++ found ∧
    search'.visited.Perm (found ++ search.visited)

variable {n : ℕ} {search search' search'' : Search}

theorem Search.Valid.length_le (h : search.Valid n) : search.visited.length ≤ n := by
  have hsub : search.visited ⊆ List.range n := fun v hv => List.mem_range.mpr (h.bounded v hv)
  simpa using (h.nodup.subperm hsub).length_le

theorem Search.Continues.refl (h : search.Valid n) : search.Continues n search :=
  ⟨h, [], (List.append_nil _).symm, List.Perm.refl _⟩

theorem Search.Continues.trans (h : search.Continues n search') (h' : search'.Continues n search'') :
    search.Continues n search'' := by
  obtain ⟨-, found, horder, hvisited⟩ := h
  obtain ⟨hvalid, found', horder', hvisited'⟩ := h'
  refine ⟨hvalid, found ++ found', by rw [horder', horder, List.append_assoc], ?_⟩
  refine hvisited'.trans ((hvisited.append_left found').trans ?_)
  rw [← List.append_assoc]
  exact List.perm_append_comm.append_right _

theorem Search.Continues.subset (h : search.Continues n search') :
    search.visited ⊆ search'.visited := by
  obtain ⟨-, found, -, hvisited⟩ := h
  exact fun v hv => hvisited.symm.subset (List.mem_append_right _ hv)

theorem Search.Continues.length_le (h : search.Continues n search') :
    search.visited.length ≤ search'.visited.length := by
  obtain ⟨-, found, -, hvisited⟩ := h
  rw [hvisited.length_eq, List.length_append]
  exact Nat.le_add_left _ _

variable {neighbors : ℕ → List ℕ}

theorem foldlM_visit {fuel : ℕ}
    (hvisit : ∀ search v, v < n → search.Valid n → n - search.visited.length < fuel →
      ∃ search', visit neighbors fuel search v = some search' ∧ search.Continues n search' ∧
        v ∈ search'.visited)
    {vs : List ℕ} (hvs : ∀ v ∈ vs, v < n) (hvalid : search.Valid n)
    (hfuel : n - search.visited.length < fuel) :
    ∃ search', vs.foldlM (visit neighbors fuel) search = some search' ∧
      search.Continues n search' ∧ vs ⊆ search'.visited := by
  induction vs generalizing search with
  | nil => exact ⟨search, rfl, .refl hvalid, List.nil_subset _⟩
  | cons v vs ih =>
      obtain ⟨hv, hvs⟩ := List.forall_mem_cons.mp hvs
      obtain ⟨search₁, hfirst, hcontinues, hmem⟩ := hvisit search v hv hvalid hfuel
      have hfuel₁ : n - search₁.visited.length < fuel := by
        have hle := hcontinues.length_le
        omega
      obtain ⟨search₂, hrest, hcontinues₂, hsubset⟩ := ih hvs hcontinues.valid hfuel₁
      refine ⟨search₂, ?_, hcontinues.trans hcontinues₂, ?_⟩
      · rw [List.foldlM_cons, hfirst]
        exact hrest
      · exact List.cons_subset.mpr ⟨hcontinues₂.subset hmem, hsubset⟩

/-- More fuel than there are vertices to visit is enough. -/
theorem visit_spec (hneighbors : ∀ v < n, ∀ w ∈ neighbors v, w < n) {fuel v : ℕ} (hv : v < n)
    (hvalid : search.Valid n) (hfuel : n - search.visited.length < fuel) :
    ∃ search', visit neighbors fuel search v = some search' ∧ search.Continues n search' ∧
      v ∈ search'.visited := by
  induction fuel generalizing search v with
  | zero => exact absurd hfuel (Nat.not_lt_zero _)
  | succ fuel ih =>
      rw [visit]
      split
      · rename_i hmem
        exact ⟨search, rfl, .refl hvalid, hmem⟩
      · rename_i hmem
        have hvalid₁ : Search.Valid n { search with visited := v :: search.visited } :=
          ⟨List.nodup_cons.mpr ⟨hmem, hvalid.nodup⟩, List.forall_mem_cons.mpr ⟨hv, hvalid.bounded⟩⟩
        have hfuel₁ : n - (v :: search.visited).length < fuel := by
          have hle := hvalid₁.length_le
          rw [List.length_cons] at hle ⊢
          omega
        obtain ⟨search₁, hrest, hcontinues, -⟩ :=
          foldlM_visit (fun _ _ hv hvalid hfuel => ih hv hvalid hfuel) (hneighbors v hv) hvalid₁
            hfuel₁
        obtain ⟨hvalid₂, found, horder, hvisited⟩ := hcontinues
        refine ⟨{ search₁ with order := search₁.order ++ [v] }, ?_, ⟨?_, found ++ [v], ?_, ?_⟩, ?_⟩
        · rw [hrest]
          rfl
        · exact ⟨hvalid₂.nodup, hvalid₂.bounded⟩
        · rw [horder, List.append_assoc]
        · rw [List.append_assoc]
          exact hvisited
        · exact hvisited.symm.subset (List.mem_append_right _ List.mem_cons_self)

/-- **The search lists each vertex once.** -/
theorem depthFirst_perm (hneighbors : ∀ v < n, ∀ w ∈ neighbors v, w < n) :
    ∃ order, depthFirst neighbors n = some order ∧ order.Perm (List.range n) := by
  have hvalid : Search.Valid n { visited := [], order := [] } := ⟨List.nodup_nil, nofun⟩
  have hfuel : n - ([] : List ℕ).length < n + 1 := by
    rw [List.length_nil]
    omega
  obtain ⟨search, hsearch, ⟨hvalid', found, horder, hvisited⟩, hsubset⟩ :=
    foldlM_visit (fun _ _ hv hvalid hfuel => visit_spec hneighbors hv hvalid hfuel)
      (fun v hv => List.mem_range.mp hv) hvalid hfuel
  rw [List.nil_append] at horder
  rw [List.append_nil] at hvisited
  refine ⟨search.order, by rw [depthFirst, hsearch, Option.map_some], ?_⟩
  rw [horder]
  refine (List.perm_ext_iff_of_nodup (hvisited.nodup_iff.mp hvalid'.nodup) List.nodup_range).mpr ?_
  intro v
  constructor
  · exact fun hv => List.mem_range.mpr (hvalid'.bounded v (hvisited.symm.subset hv))
  · exact fun hv => hvisited.subset (hsubset hv)

/-! ## §2  Order -/

/-- What precedes each element of a list is what it needs. -/
def Precedes {α : Type} (needs : α → α → Prop) : List α → List α → Prop
  | _, [] => True
  | earlier, a :: as => (∀ b, needs a b → b ∈ earlier) ∧ Precedes needs (earlier ++ [a]) as

theorem precedes_append {α : Type} {needs : α → α → Prop} {earlier as bs : List α} :
    Precedes needs earlier (as ++ bs) ↔
      Precedes needs earlier as ∧ Precedes needs (earlier ++ as) bs := by
  induction as generalizing earlier with
  | nil => simp [Precedes]
  | cons a as ih => simp [Precedes, ih, and_assoc]

/-- A neighbor of smaller rank. -/
def Lower (neighbors : ℕ → List ℕ) (rank : ℕ → ℕ) (v w : ℕ) : Prop :=
  w ∈ neighbors v ∧ rank w < rank v

/-- Where no edge goes up, what a search lists comes after its lower neighbors. The
vertices that are visited and not listed are on the way to where the search is. -/
structure Search.Descends (neighbors : ℕ → List ℕ) (rank : ℕ → ℕ) (search search' : Search) :
    Prop where
  ordered : Precedes (Lower neighbors rank) [] search'.order
  kept : search.order ⊆ search'.order
  visited : search.visited ⊆ search'.visited
  listed : ∀ u ∈ search'.visited, u ∈ search'.order ∨ u ∈ search.visited

variable {rank : ℕ → ℕ}

theorem Search.Descends.refl (h : Precedes (Lower neighbors rank) [] search.order) :
    search.Descends neighbors rank search :=
  ⟨h, List.Subset.refl _, List.Subset.refl _, fun _ hu => .inr hu⟩

theorem Search.Descends.trans (h : search.Descends neighbors rank search')
    (h' : search'.Descends neighbors rank search'') : search.Descends neighbors rank search'' := by
  refine ⟨h'.ordered, List.Subset.trans h.kept h'.kept, List.Subset.trans h.visited h'.visited,
    fun u hu => ?_⟩
  rcases h'.listed u hu with hu | hu
  · exact .inl hu
  · exact (h.listed u hu).imp_left fun hu => h'.kept hu

section

variable (hrank : ∀ v, ∀ w ∈ neighbors v, rank w ≤ rank v)

include hrank

theorem foldlM_visit_descends {fuel v : ℕ}
    (hvisit : ∀ search search' w, visit neighbors fuel search w = some search' →
      Precedes (Lower neighbors rank) [] search.order →
      (∀ u ∈ search.visited, u ∈ search.order ∨ rank w ≤ rank u) →
        search.Descends neighbors rank search' ∧ (w ∈ search'.order ∨ w ∈ search.visited))
    {ws : List ℕ} (hws : ∀ w ∈ ws, w ∈ neighbors v)
    (h : ws.foldlM (visit neighbors fuel) search = some search')
    (hordered : Precedes (Lower neighbors rank) [] search.order)
    (hbefore : ∀ u ∈ search.visited, u ∈ search.order ∨ rank v ≤ rank u) :
    search.Descends neighbors rank search' ∧ ∀ w ∈ ws, rank w < rank v → w ∈ search'.order := by
  induction ws generalizing search with
  | nil =>
      cases h
      exact ⟨.refl hordered, nofun⟩
  | cons w ws ih =>
      obtain ⟨hw, hws⟩ := List.forall_mem_cons.mp hws
      rw [List.foldlM_cons] at h
      obtain ⟨search₁, hfirst, hrest⟩ := Option.bind_eq_some_iff.mp h
      obtain ⟨hdescends, hmem⟩ := hvisit search search₁ w hfirst hordered fun u hu =>
        (hbefore u hu).imp_right (hrank v w hw).trans
      have hfirst : rank w < rank v → w ∈ search₁.order := by
        intro hlower
        rcases hmem with hmem | hmem
        · exact hmem
        · exact hdescends.kept ((hbefore w hmem).resolve_right hlower.not_ge)
      have hbefore₁ : ∀ u ∈ search₁.visited, u ∈ search₁.order ∨ rank v ≤ rank u := by
        intro u hu
        rcases hdescends.listed u hu with hu | hu
        · exact .inl hu
        · exact (hbefore u hu).imp_left fun hu => hdescends.kept hu
      obtain ⟨hdescends₂, hmem₂⟩ := ih hws hrest hdescends.ordered hbefore₁
      refine ⟨hdescends.trans hdescends₂, ?_⟩
      exact List.forall_mem_cons.mpr ⟨fun hlower => hdescends₂.kept (hfirst hlower), hmem₂⟩

theorem visit_descends {fuel v : ℕ} (h : visit neighbors fuel search v = some search')
    (hordered : Precedes (Lower neighbors rank) [] search.order)
    (hbefore : ∀ u ∈ search.visited, u ∈ search.order ∨ rank v ≤ rank u) :
    search.Descends neighbors rank search' ∧ (v ∈ search'.order ∨ v ∈ search.visited) := by
  induction fuel generalizing search search' v with
  | zero => cases h
  | succ fuel ih =>
      rw [visit] at h
      split at h
      · rename_i hmem
        cases h
        exact ⟨.refl hordered, .inr hmem⟩
      · obtain ⟨search₁, hneighbors, h⟩ := Option.bind_eq_some_iff.mp h
        cases h
        have hbefore₁ : ∀ u ∈ v :: search.visited, u ∈ search.order ∨ rank v ≤ rank u :=
          List.forall_mem_cons.mpr ⟨.inr le_rfl, hbefore⟩
        obtain ⟨hdescends, hmem⟩ := foldlM_visit_descends hrank
          (fun _ _ _ h hordered hbefore => ih h hordered hbefore) (fun _ hw => hw) hneighbors
            hordered hbefore₁
        refine ⟨⟨precedes_append.mpr ⟨hdescends.ordered, ?_⟩, ?_, ?_, ?_⟩, .inl (by simp)⟩
        · exact ⟨fun w hw => by simpa using hmem w hw.1 hw.2, trivial⟩
        · exact List.Subset.trans hdescends.kept (List.subset_append_left _ _)
        · exact List.Subset.trans (List.subset_cons_self v search.visited) hdescends.visited
        · intro u hu
          rcases hdescends.listed u hu with hu | hu
          · exact .inl (List.mem_append_left _ hu)
          · rcases List.mem_cons.mp hu with rfl | hu
            · exact .inl (by simp)
            · exact .inr hu

/-- **Each vertex is listed after its lower neighbors.** -/
theorem depthFirst_ordered {order : List ℕ} (h : depthFirst neighbors n = some order) :
    Precedes (Lower neighbors rank) [] order := by
  obtain ⟨search, hsearch, rfl⟩ := Option.map_eq_some_iff.mp h
  have hrun : ∀ (vs : List ℕ) (search search' : Search),
      vs.foldlM (visit neighbors (n + 1)) search = some search' →
      Precedes (Lower neighbors rank) [] search.order →
      (∀ u ∈ search.visited, u ∈ search.order) →
        Precedes (Lower neighbors rank) [] search'.order := by
    intro vs
    induction vs with
    | nil =>
        intro search search' h hordered _
        cases h
        exact hordered
    | cons v vs ih =>
        intro search search' h hordered hlisted
        rw [List.foldlM_cons] at h
        obtain ⟨search₁, hfirst, hrest⟩ := Option.bind_eq_some_iff.mp h
        obtain ⟨hdescends, -⟩ :=
          visit_descends hrank hfirst hordered fun u hu => .inl (hlisted u hu)
        refine ih search₁ search' hrest hdescends.ordered fun u hu => ?_
        exact (hdescends.listed u hu).elim id fun hu => hdescends.kept (hlisted u hu)
  exact hrun _ _ _ hsearch trivial nofun

end

theorem Precedes.mono {α : Type} {needs needs' : α → α → Prop} {earlier as : List α}
    (h : Precedes needs earlier as) (hmono : ∀ a ∈ as, ∀ b, needs' a b → needs a b) :
    Precedes needs' earlier as := by
  induction as generalizing earlier with
  | nil => trivial
  | cons a as ih =>
      obtain ⟨hfirst, hrest⟩ := List.forall_mem_cons.mp hmono
      exact ⟨fun b hb => h.1 b (hfirst b hb), ih h.2 hrest⟩

/-! ## §3  Ranks -/

open Relation in
/-- Ranks that no edge goes up, and that an edge with no way back goes down: how many
vertices can be reached. -/
theorem exists_rank {α : Type} (vertices : Finset α) (r : α → α → Prop) :
    ∃ rank : α → ℕ, (∀ a b, r a b → rank b ≤ rank a) ∧
      ∀ a ∈ vertices, ∀ b, r a b → ¬ ReflTransGen r b a → rank b < rank a := by
  classical
  have hsubset : ∀ a b, r a b →
      vertices.filter (ReflTransGen r b) ⊆ vertices.filter (ReflTransGen r a) :=
    fun a b hab => Finset.monotone_filter_right vertices fun c _ hbc => .head hab hbc
  refine ⟨fun a => (vertices.filter (ReflTransGen r a)).card,
    fun a b hab => Finset.card_le_card (hsubset a b hab),
    fun a ha b hab hback => Finset.card_lt_card ?_⟩
  refine Finset.ssubset_iff_subset_ne.mpr ⟨hsubset a b hab, fun heq => ?_⟩
  have hself : a ∈ vertices.filter (ReflTransGen r a) := Finset.mem_filter.mpr ⟨ha, .refl⟩
  rw [← heq] at hself
  exact hback (Finset.mem_filter.mp hself).2

end ScadaCommon.Foundation
