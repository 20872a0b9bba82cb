import Mathlib.Data.List.TakeWhile

/-!
# Partition points

The binary search of `std::partition_point`, which `lower_bound` and
`upper_bound` are instances of. On any list it returns a position; on a list
that the predicate partitions the position is where the predicate turns false.
-/

namespace ScadaCommon.Foundation

variable {α : Type*}

/-- Each round looks at the middle element and goes on in the half behind or
before it. -/
def partitionLoop (p : α → Bool) : ℕ → List α → ℕ
  | 0, _ => 0
  | fuel + 1, values =>
      match values[values.length / 2]? with
      | none => 0
      | some middle =>
          let half := values.length / 2
          if p middle then half + 1 + partitionLoop p fuel (values.drop (half + 1))
          else partitionLoop p fuel (values.take half)

def partitionPoint (p : α → Bool) (values : List α) : ℕ :=
  partitionLoop p values.length values

/-- The predicate holds up to some element and for none after it. -/
abbrev Partitioned (p : α → Bool) (values : List α) : Prop :=
  values.Pairwise fun a b => p b = true → p a = true

variable {p : α → Bool} {values : List α}

theorem length_takeWhile_append (front back : List α) (hfront : ∀ a ∈ front, p a = true) :
    ((front ++ back).takeWhile p).length = front.length + (back.takeWhile p).length := by
  rw [List.takeWhile_append_of_pos hfront, List.length_append]

theorem takeWhile_append_of_head {front back : List α} {a : α} (ha : p a = false) :
    (front ++ a :: back).takeWhile p = front.takeWhile p := by
  induction front with
  | nil => simp [List.takeWhile, ha]
  | cons b front ih =>
      rw [List.cons_append, List.takeWhile_cons, List.takeWhile_cons, ih]

theorem partitionLoop_eq {fuel : ℕ} (h : Partitioned p values) (hfuel : values.length ≤ fuel) :
    partitionLoop p fuel values = (values.takeWhile p).length := by
  induction fuel generalizing values with
  | zero =>
      obtain rfl := List.length_eq_zero_iff.mp (Nat.le_zero.mp hfuel)
      rfl
  | succ fuel ih =>
      unfold partitionLoop
      cases hmid : values[values.length / 2]? with
      | none =>
          have hlen := List.getElem?_eq_none_iff.mp hmid
          have hzero : values.length = 0 := by omega
          obtain rfl := List.length_eq_zero_iff.mp hzero
          rfl
      | some middle =>
          obtain ⟨hlt, hget⟩ := List.getElem?_eq_some_iff.mp hmid
          have hsplit : values =
              values.take (values.length / 2) ++ middle :: values.drop (values.length / 2 + 1) := by
            rw [← hget, List.getElem_cons_drop, List.take_append_drop]
          rw [hsplit] at h
          obtain ⟨hfront, hback, hcross⟩ := List.pairwise_append.mp h
          obtain ⟨-, hrest⟩ := List.pairwise_cons.mp hback
          dsimp only
          split
          -- The front half is below the point when its last one is.
          · rename_i hp
            have hall : ∀ a ∈ values.take (values.length / 2 + 1), p a = true := by
              intro a ha
              rw [List.take_add_one, hmid, Option.toList_some, List.mem_append,
                List.mem_singleton] at ha
              rcases ha with ha | rfl
              · exact hcross a ha middle (List.mem_cons_self ..) hp
              · exact hp
            have hlen : (values.take (values.length / 2 + 1)).length = values.length / 2 + 1 := by
              rw [List.length_take]
              omega
            have hdrop : (values.drop (values.length / 2 + 1)).length ≤ fuel := by
              rw [List.length_drop]
              omega
            rw [ih hrest hdrop]
            conv => rhs; rw [← List.take_append_drop (values.length / 2 + 1) values]
            rw [length_takeWhile_append _ _ hall, hlen]
          · rename_i hp
            have htake : (values.take (values.length / 2)).length ≤ fuel := by
              rw [List.length_take]
              omega
            rw [ih hfront htake]
            conv => rhs; rw [hsplit]
            rw [takeWhile_append_of_head (by simpa using hp)]

/-- **The partition point** of a partitioned list. -/
theorem partitionPoint_eq (h : Partitioned p values) :
    partitionPoint p values = (values.takeWhile p).length :=
  partitionLoop_eq h le_rfl

theorem take_length_takeWhile (p : α → Bool) (values : List α) :
    values.take (values.takeWhile p).length = values.takeWhile p :=
  (List.prefix_iff_eq_take.mp (List.takeWhile_prefix p)).symm

theorem drop_length_takeWhile (p : α → Bool) (values : List α) :
    values.drop (values.takeWhile p).length = values.dropWhile p := by
  calc values.drop (values.takeWhile p).length
      = (values.takeWhile p ++ values.dropWhile p).drop (values.takeWhile p).length := by
        rw [List.takeWhile_append_dropWhile]
    _ = values.dropWhile p := List.drop_left

/-! ## Parts of a partitioned list -/

theorem Partitioned.takeWhile_eq_filter (h : Partitioned p values) :
    values.takeWhile p = values.filter p := by
  induction values with
  | nil => rfl
  | cons a values ih =>
      obtain ⟨hhead, htail⟩ := List.pairwise_cons.mp h
      by_cases ha : p a = true
      · rw [List.takeWhile_cons_of_pos ha, List.filter_cons_of_pos ha, ih htail]
      · rw [List.takeWhile_cons_of_neg ha, List.filter_cons_of_neg ha]
        refine (List.filter_eq_nil_iff.mpr ?_).symm
        intro b hb hpb
        exact ha (hhead b hb hpb)

theorem Partitioned.dropWhile_eq_filter (h : Partitioned p values) :
    values.dropWhile p = values.filter (!p ·) := by
  induction values with
  | nil => rfl
  | cons a values ih =>
      obtain ⟨hhead, htail⟩ := List.pairwise_cons.mp h
      by_cases ha : p a = true
      · rw [List.dropWhile_cons_of_pos ha, List.filter_cons_of_neg (by simp [ha]), ih htail]
      · rw [List.dropWhile_cons_of_neg ha]
        refine (List.filter_eq_self.mpr ?_).symm
        intro b hb
        rcases List.mem_cons.mp hb with rfl | hb
        · simp [ha]
        · rw [Bool.not_eq_true', ← Bool.not_eq_true]
          exact fun hpb => ha (hhead b hb hpb)

theorem take_partitionPoint (h : Partitioned p values) :
    values.take (partitionPoint p values) = values.filter p := by
  rw [partitionPoint_eq h, take_length_takeWhile, h.takeWhile_eq_filter]

theorem drop_partitionPoint (h : Partitioned p values) :
    values.drop (partitionPoint p values) = values.filter (!p ·) := by
  rw [partitionPoint_eq h, drop_length_takeWhile, h.dropWhile_eq_filter]

end ScadaCommon.Foundation
