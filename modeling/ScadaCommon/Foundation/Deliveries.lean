import Mathlib.Data.List.Perm.Basic
import Mathlib.Data.Set.Insert
import Mathlib.Logic.Function.Basic

/-!
# Deliveries that replace and push

Parties hold sets. A delivery to a party replaces its set by what is its own and
adds to the sets of the others what it has for them. Of several deliveries in a
row, a party keeps what those after its own pushed: what came before is lost with
the set that is replaced.

§1 one order · §2 all orders.
-/

namespace ScadaCommon.Foundation

variable {ι ε : Type*} [DecidableEq ι]

/-! ## §1  One order -/

/-- The deliveries of a batch of parties. -/
structure Deliveries (ι ε : Type*) where
  own : ι → Set ε
  push : ι → ι → Set ε

namespace Deliveries

variable (D : Deliveries ι ε) {S T : ι → Set ε} {i j : ι} {order after batch : List ι}

def deliver (S : ι → Set ε) (i : ι) : ι → Set ε :=
  fun j => if j = i then D.own i else S j ∪ D.push i j

def deliverAll (S : ι → Set ε) (order : List ι) : ι → Set ε :=
  order.foldl D.deliver S

/-- What a party receives when its own delivery is not among them. -/
theorem mem_deliverAll_of_notMem {e : ε} (h : i ∉ after) :
    e ∈ D.deliverAll S after i ↔ e ∈ S i ∨ ∃ j ∈ after, e ∈ D.push j i := by
  induction after generalizing S with
  | nil =>
      rw [deliverAll, List.foldl_nil]
      exact ⟨Or.inl, fun h => h.resolve_right fun ⟨_, hmem, _⟩ => absurd hmem List.not_mem_nil⟩
  | cons head rest ih =>
      obtain ⟨hne, hrest⟩ := not_or.mp (mt List.mem_cons.mpr h)
      show e ∈ D.deliverAll (D.deliver S head) rest i ↔ _
      rw [ih hrest]
      have hhead : e ∈ D.deliver S head i ↔ e ∈ S i ∨ e ∈ D.push head i := by
        unfold deliver
        rw [if_neg hne]
        exact Iff.rfl
      rw [hhead, or_assoc]
      refine or_congr_right ?_
      constructor
      · rintro (hpush | ⟨j, hmem, hpush⟩)
        · exact ⟨head, List.mem_cons_self .., hpush⟩
        · exact ⟨j, List.mem_cons_of_mem _ hmem, hpush⟩
      · rintro ⟨j, hmem, hpush⟩
        rcases List.mem_cons.mp hmem with rfl | hmem
        · exact Or.inl hpush
        · exact Or.inr ⟨j, hmem, hpush⟩

/-- **One order.** A party ends with its own and with what the deliveries after
its own have pushed. -/
theorem mem_deliverAll (before : List ι) {e : ε} (h : i ∉ after) :
    e ∈ D.deliverAll S (before ++ i :: after) i ↔ e ∈ D.own i ∨ ∃ j ∈ after, e ∈ D.push j i := by
  unfold deliverAll
  rw [List.foldl_append, List.foldl_cons]
  have hself : ∀ T : ι → Set ε, D.deliver T i i = D.own i := fun T => if_pos rfl
  rw [← deliverAll.eq_def, D.mem_deliverAll_of_notMem h, hself]

/-! ## §2  All orders -/

/-- **All orders.** The order does not matter exactly when what is pushed to a
party is its own already. -/
theorem deliverAll_comm_iff (hnodup : batch.Nodup) :
    (∀ order order' : List ι, order.Perm batch → order'.Perm batch → ∀ i ∈ batch,
        D.deliverAll S order i = D.deliverAll S order' i) ↔
      ∀ i ∈ batch, ∀ j ∈ batch, i ≠ j → D.push j i ⊆ D.own i := by
  constructor
  · intro h i hi j hj hne e he
    -- The party first, and the party last.
    have hfirst : (i :: batch.erase i).Perm batch := (List.perm_cons_erase hi).symm
    have hlast : (batch.erase i ++ [i]).Perm batch :=
      (List.perm_append_singleton i _).trans hfirst
    have hnot : i ∉ batch.erase i := hnodup.not_mem_erase
    have hpushed : e ∈ D.deliverAll S (i :: batch.erase i) i :=
      (D.mem_deliverAll [] hnot).mpr
        (Or.inr ⟨j, (List.mem_erase_of_ne hne.symm).mpr hj, he⟩)
    rw [h _ _ hfirst hlast i hi] at hpushed
    rcases (D.mem_deliverAll _ List.not_mem_nil).mp hpushed with hown | ⟨k, hk, -⟩
    · exact hown
    · cases hk
  · intro h order order' hperm hperm' i hi
    have hall : ∀ order : List ι, order.Perm batch → D.deliverAll S order i = D.own i := by
      intro order hperm
      obtain ⟨before, after, rfl⟩ := List.append_of_mem (hperm.mem_iff.mpr hi)
      have hsplit := (List.nodup_append.mp (hperm.nodup_iff.mpr hnodup)).2.1
      have hnot : i ∉ after := (List.nodup_cons.mp hsplit).1
      ext e
      rw [D.mem_deliverAll before hnot]
      refine ⟨?_, Or.inl⟩
      rintro (hown | ⟨j, hj, hpush⟩)
      · exact hown
      · have hmem : j ∈ batch :=
          hperm.mem_iff.mp (List.mem_append_right _ (List.mem_cons_of_mem _ hj))
        refine h i hi j hmem ?_ hpush
        rintro rfl
        exact hnot hj
    rw [hall order hperm, hall order' hperm']

end Deliveries

end ScadaCommon.Foundation
