import Mathlib.Data.Set.Card

/-!
# Timelines

At most one sample at each time, as a function, and the lists of samples in
ascending order of time that stand for one.

§1 timelines · §2 runs · §3 what is done to a run.
-/

namespace ScadaCommon.Foundation

variable {T S : Type*}

/-! ## §1  Timelines -/

/-- The sample of each time. -/
abbrev Timeline (T S : Type*) := T → Option S

namespace Timeline

/-- The times that have a sample. -/
def times (line : Timeline T S) : Set T := {time | (line time).isSome}

/-- No sample at all. -/
def blank : Timeline T S := fun _ => none

open Classical in
/-- Only the samples of some times. -/
noncomputable def restrict (line : Timeline T S) (p : T → Prop) : Timeline T S :=
  fun time => if p time then line time else none

open Classical in
/-- Another timeline in place of this one at some times. -/
noncomputable def overlay (line : Timeline T S) (p : T → Prop) (other : Timeline T S) :
    Timeline T S :=
  fun time => if p time then other time else line time

/-- Only the samples that fewer than `n` others come after. -/
noncomputable def newest [LT T] (line : Timeline T S) (n : ℕ) : Timeline T S :=
  line.restrict fun time => {later | time < later ∧ later ∈ line.times}.encard < n

/-- The time is between two that have a sample. -/
def Spans [LE T] (line : Timeline T S) (time : T) : Prop :=
  ∃ first ∈ line.times, ∃ last ∈ line.times, first ≤ time ∧ time ≤ last

/-- The last sample up to a time, if there is any. -/
def LastUpTo [LinearOrder T] (line : Timeline T S) (time : T) : Option S → Prop
  | none => ∀ earlier ≤ time, line earlier = none
  | some s => ∃ at' ≤ time, line at' = some s ∧
      ∀ between, at' < between → between ≤ time → line between = none

theorem ext_some {line line' : Timeline T S}
    (h : ∀ time s, line time = some s ↔ line' time = some s) : line = line' := by
  funext time
  apply Option.ext
  intro s
  exact h time s

@[simp] theorem restrict_eq_some {line : Timeline T S} {p : T → Prop} {time : T} {s : S} :
    line.restrict p time = some s ↔ p time ∧ line time = some s := by
  unfold restrict
  split <;> simp_all

@[simp] theorem overlay_eq_some {line other : Timeline T S} {p : T → Prop} {time : T} {s : S} :
    line.overlay p other time = some s ↔
      p time ∧ other time = some s ∨ ¬ p time ∧ line time = some s := by
  unfold overlay
  split <;> simp_all

theorem restrict_eq_blank {p : T → Prop} (line : Timeline T S) (h : ∀ time, ¬ p time) :
    line.restrict p = blank := by
  apply ext_some
  intro time s
  simp [blank, h time]

@[simp] theorem restrict_blank (p : T → Prop) : (blank : Timeline T S).restrict p = blank := by
  apply ext_some
  simp [blank]

theorem restrict_restrict (line : Timeline T S) (p q : T → Prop) :
    (line.restrict p).restrict q = line.restrict fun time => p time ∧ q time := by
  apply ext_some
  intro time s
  simp only [restrict_eq_some]
  tauto

end Timeline

/-! ## §2  Runs -/

section

variable [LinearOrder T] {key : S → T} {run part batch : List S} {s : S} {time : T}

/-- The timeline of a run: the first sample of each time. -/
def timeline (key : S → T) (run : List S) : Timeline T S :=
  fun time => run.find? (key · = time)

/-- Strictly ascending times. -/
abbrev Ascending (key : S → T) (run : List S) : Prop :=
  run.Pairwise fun s s' => key s < key s'

theorem timeline_eq_blank : timeline key run = Timeline.blank ↔ run = [] := by
  constructor
  · intro h
    apply List.eq_nil_iff_forall_not_mem.mpr
    intro s hs
    have hnone := List.find?_eq_none.mp (congrFun h (key s)) s hs
    simp at hnone
  · rintro rfl
    rfl

theorem key_of_timeline (h : timeline key run time = some s) : key s = time := by
  have hfound := List.find?_some h
  exact of_decide_eq_true hfound

theorem mem_of_timeline (h : timeline key run time = some s) : s ∈ run :=
  List.mem_of_find?_eq_some h

/-- Two samples of a run at one time are one. -/
theorem Ascending.eq_of_key {s' : S} (h : Ascending key run) (hs : s ∈ run) (hs' : s' ∈ run)
    (heq : key s = key s') : s = s' := by
  have hnodup : (run.map key).Nodup := List.pairwise_map.mpr (h.imp fun hlt => hlt.ne)
  exact List.inj_on_of_nodup_map hnodup hs hs' heq

theorem Ascending.timeline_eq_some (h : Ascending key run) :
    timeline key run time = some s ↔ s ∈ run ∧ key s = time := by
  constructor
  · intro hsome
    exact ⟨mem_of_timeline hsome, key_of_timeline hsome⟩
  · rintro ⟨hs, htime⟩
    cases hfound : timeline key run time with
    | none =>
        have hnone := List.find?_eq_none.mp hfound s hs
        exact absurd (decide_eq_true htime) hnone
    | some s' =>
        have hs' := key_of_timeline hfound
        rw [h.eq_of_key (mem_of_timeline hfound) hs (hs'.trans htime.symm)]

theorem mem_times : time ∈ (timeline key run).times ↔ ∃ s ∈ run, key s = time := by
  show (run.find? _).isSome = true ↔ _
  rw [List.find?_isSome]
  simp

/-! ## §3  What is done to a run -/

/-- The samples of some times. -/
theorem Ascending.timeline_restrict {p : T → Prop} (h : Ascending key run)
    (hpart : Ascending key part) (hmem : ∀ s, s ∈ part ↔ s ∈ run ∧ p (key s)) :
    timeline key part = (timeline key run).restrict p := by
  apply Timeline.ext_some
  intro time s
  rw [Timeline.restrict_eq_some, h.timeline_eq_some, hpart.timeline_eq_some, hmem]
  constructor
  · rintro ⟨⟨hs, hp⟩, rfl⟩
    exact ⟨hp, hs, rfl⟩
  · rintro ⟨hp, hs, rfl⟩
    exact ⟨⟨hs, hp⟩, rfl⟩

/-- A batch in place of what the run has at some times. -/
theorem Ascending.timeline_overlay {p : T → Prop} (h : Ascending key run)
    (hbatch : Ascending key batch) (hpart : Ascending key part) (hp : ∀ s ∈ batch, p (key s))
    (hmem : ∀ s, s ∈ part ↔ s ∈ batch ∨ s ∈ run ∧ ¬ p (key s)) :
    timeline key part = (timeline key run).overlay p (timeline key batch) := by
  apply Timeline.ext_some
  intro time s
  rw [Timeline.overlay_eq_some, h.timeline_eq_some, hbatch.timeline_eq_some,
    hpart.timeline_eq_some, hmem]
  constructor
  · rintro ⟨hs | ⟨hs, hnot⟩, rfl⟩
    · exact Or.inl ⟨hp s hs, hs, rfl⟩
    · exact Or.inr ⟨hnot, hs, rfl⟩
  · rintro (⟨-, hs, rfl⟩ | ⟨hnot, hs, rfl⟩)
    · exact ⟨Or.inl hs, rfl⟩
    · exact ⟨Or.inr ⟨hs, hnot⟩, rfl⟩

/-- The samples of a run at some times are as many as the times. -/
theorem Ascending.encard_times (h : Ascending key run) (p : T → Prop) [DecidablePred p] :
    {time | p time ∧ time ∈ (timeline key run).times}.encard =
      (run.filter fun s => p (key s)).length := by
  have hnodup : ((run.filter fun s => p (key s)).map key).Nodup := by
    apply List.pairwise_map.mpr
    exact (h.sublist List.filter_sublist).imp fun hlt => hlt.ne
  have hset : {time | p time ∧ time ∈ (timeline key run).times} =
      ((((run.filter fun s => p (key s)).map key).toFinset : Finset T) : Set T) := by
    ext time
    simp only [Set.mem_ofPred_eq, mem_times, List.coe_toFinset, List.mem_map, List.mem_filter,
      decide_eq_true_eq]
    constructor
    · rintro ⟨hp, s, hs, rfl⟩
      exact ⟨s, ⟨hs, hp⟩, rfl⟩
    · rintro ⟨s, ⟨hs, hp⟩, rfl⟩
      exact ⟨hp, s, hs, rfl⟩
  rw [hset, Set.encard_coe_eq_coe_finsetCard, List.toFinset_card_of_nodup hnodup,
    List.length_map]

/-- **The last part of a run** has its newest samples. -/
theorem Ascending.timeline_drop (h : Ascending key run) (n : ℕ) :
    timeline key (run.drop (run.length - n)) = (timeline key run).newest n := by
  have hcount : ∀ time,
      {later | time < later ∧ later ∈ (timeline key run).times}.encard =
        (run.filter fun s => time < key s).length := fun time => h.encard_times (time < ·)
  have hdrop : Ascending key (run.drop (run.length - n)) := h.sublist (List.drop_sublist _ _)
  have hsplit := List.take_append_drop (run.length - n) run
  -- What is dropped has all of the last part after it.
  have hacross : ∀ s ∈ run.take (run.length - n), ∀ s' ∈ run.drop (run.length - n),
      key s < key s' := by
    rw [← hsplit] at h
    exact (List.pairwise_append.mp h).2.2
  have hlength : (run.drop (run.length - n)).length = min n run.length := by
    rw [List.length_drop]
    omega
  apply Timeline.ext_some
  intro time s
  unfold Timeline.newest
  rw [Timeline.restrict_eq_some, hcount, Nat.cast_lt, hdrop.timeline_eq_some]
  constructor
  · rintro ⟨hs, rfl⟩
    have hmem := List.mem_of_mem_drop hs
    -- Only samples of the last part come after one of it, and it is not one of them.
    have hlater : run.filter (fun s' => key s < key s') =
        (run.drop (run.length - n)).filter (fun s' => key s < key s') := by
      conv_lhs => rw [← hsplit, List.filter_append]
      rw [List.filter_eq_nil_iff.mpr, List.nil_append]
      intro s' hs'
      have hbefore := hacross s' hs' s hs
      simpa using hbefore.le
    have hlt : (run.filter fun s' => key s < key s').length <
        (run.drop (run.length - n)).length := by
      rw [hlater]
      exact List.length_filter_lt_length_iff_exists.mpr ⟨s, hs, by simp⟩
    exact ⟨by omega, h.timeline_eq_some.mpr ⟨hmem, rfl⟩⟩
  · rintro ⟨hlt, hsome⟩
    obtain ⟨hs, rfl⟩ := h.timeline_eq_some.mp hsome
    refine ⟨?_, rfl⟩
    rw [← hsplit, List.mem_append] at hs
    refine hs.resolve_left ?_
    intro htake
    -- All of the last part comes after it, so it has `n` samples.
    have hkeep : (run.drop (run.length - n)).filter (fun s' => key s < key s') =
        run.drop (run.length - n) :=
      List.filter_eq_self.mpr fun s' hs' => decide_eq_true (hacross s htake s' hs')
    have hle := ((List.drop_sublist (run.length - n) run).filter
      (fun s' => key s < key s')).length_le
    rw [hkeep] at hle
    have hpos := List.length_pos_of_mem htake
    rw [List.length_take] at hpos
    omega

/-- A run is known by its timeline. -/
theorem Ascending.ext (h : Ascending key run) (hpart : Ascending key part)
    (heq : timeline key part = timeline key run) : part = run := by
  have hmem : ∀ s, s ∈ part ↔ s ∈ run := by
    intro s
    have hiff : timeline key run (key s) = some s ↔ s ∈ run ∧ key s = key s :=
      h.timeline_eq_some
    rw [← heq, hpart.timeline_eq_some] at hiff
    simpa using hiff
  have hnodup : run.Nodup := h.imp fun hlt hsame => hlt.ne (congrArg key hsame)
  have hnodup' : part.Nodup := hpart.imp fun hlt hsame => hlt.ne (congrArg key hsame)
  have hperm := (List.perm_ext_iff_of_nodup hnodup' hnodup).mpr hmem
  exact hperm.eq_of_pairwise (fun a b _ _ hab hba => absurd hab hba.not_gt) hpart h

end

end ScadaCommon.Foundation
