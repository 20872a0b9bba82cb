import Mathlib.Data.List.Infix
import Mathlib.Data.List.TakeWhile

/-!
# Searches

A search goes through a text from left to right and takes everything of a kind that stands
there: it goes on behind what it has found, and one place further where nothing stands.

§1 runs · §2 searches · §3 texts in pieces.
-/

namespace ScadaCommon.Foundation

variable {α β : Type*}

/-! ## §1  Runs -/

/-- A run of the elements of a kind ends at the first other one. -/
theorem split_run {p : α → Bool} {run : List α} (rest : List α) (h : ∀ a ∈ run, p a = true)
    (hrest : ∀ a ∈ rest.head?, p a = false) :
    (run ++ rest).takeWhile p = run ∧ (run ++ rest).dropWhile p = rest := by
  rw [List.takeWhile_append_of_pos h, List.dropWhile_append_of_pos h]
  cases rest with
  | nil => exact ⟨List.append_nil _, rfl⟩
  | cons a rest =>
      have ha : ¬ p a = true := by simp [hrest a rfl]
      rw [List.takeWhile_cons_of_neg ha, List.dropWhile_cons_of_neg ha, List.append_nil]
      exact ⟨rfl, rfl⟩

/-! ## §2  Searches -/

/-- The search once some more places are passed. What stands at the start of a text, if
anything, comes with its length, which is not zero. -/
def findAllFrom (stands : List α → Option (β × ℕ)) : ℕ → List α → List β
  | _, [] => []
  | passed + 1, _ :: text => findAllFrom stands passed text
  | 0, a :: text =>
      match stands (a :: text) with
      | some (found, length) => found :: findAllFrom stands (length - 1) text
      | none => findAllFrom stands 0 text

def findAll (stands : List α → Option (β × ℕ)) (text : List α) : List β :=
  findAllFrom stands 0 text

/-! ## §3  Texts in pieces -/

variable {stands : List α → Option (β × ℕ)} {piece text : List α} {found : β}

theorem findAllFrom_append (stands : List α → Option (β × ℕ)) (piece text : List α) :
    findAllFrom stands piece.length (piece ++ text) = findAll stands text := by
  induction piece with
  | nil => rfl
  | cons a piece ih => exact ih

/-- A piece that is found. -/
theorem findAll_append_of_some (h : stands (piece ++ text) = some (found, piece.length))
    (hne : piece ≠ []) : findAll stands (piece ++ text) = found :: findAll stands text := by
  obtain ⟨a, piece, rfl⟩ := List.exists_cons_of_ne_nil hne
  have hstep : findAll stands (a :: (piece ++ text)) =
      found :: findAllFrom stands piece.length (piece ++ text) := by
    unfold findAll
    rw [findAllFrom, show stands (a :: (piece ++ text)) = _ from h]
    rfl
  rw [List.cons_append, hstep, findAllFrom_append]

/-- A piece in which nothing begins. -/
theorem findAll_append_of_none
    (h : ∀ rest, rest ≠ [] → rest <:+ piece → stands (rest ++ text) = none) :
    findAll stands (piece ++ text) = findAll stands text := by
  induction piece with
  | nil => rfl
  | cons a piece ih =>
      have hhere : stands (a :: (piece ++ text)) = none :=
        h (a :: piece) (List.cons_ne_nil a piece) (List.suffix_refl _)
      have hstep : findAll stands (a :: (piece ++ text)) = findAll stands (piece ++ text) := by
        unfold findAll
        rw [findAllFrom, hhere]
      rw [List.cons_append, hstep]
      exact ih fun rest hne hrest => h rest hne (hrest.trans (List.suffix_cons a piece))

end ScadaCommon.Foundation
