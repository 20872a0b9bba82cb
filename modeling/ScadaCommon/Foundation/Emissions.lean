import Mathlib.Data.List.Nodup
import Mathlib.Data.List.TakeWhile

/-!
# Emissions

A signal calls its slots one after the other, and a slot that is called may connect and
disconnect others. How the signal goes on is a parameter: of it is asked that it calls
connected slots only, in the order in which they were connected, and passes over none that
was there when it began. Whether it sees a slot that is connected while it runs is left open.

§1 signals · §2 what an emission keeps · §3 its end · §4 a signal.
-/

namespace ScadaCommon.Foundation

variable {σ : Type*}

/-! ## §1  Signals -/

/-- An emission that runs. -/
structure Emission (σ : Type*) where
  /-- The slots that were connected when it began. -/
  started : List σ
  /-- The slots that have been connected since then. -/
  joined : List σ := []
  /-- The slot that is at work. -/
  active : Option σ := none
  /-- The slots behind the last one that was called. -/
  ahead : List σ
  called : List σ := []
deriving DecidableEq

/-- Tells how an emission goes on, by the slots that are connected. -/
structure Signal (σ : Type*) where
  /-- The slot that is called next. -/
  next : Emission σ → (σ → Bool) → Option σ

variable [DecidableEq σ]

namespace Emission

def start (slots : List σ) : Emission σ := { started := slots, ahead := slots }

def join (e : Emission σ) (s : σ) : Emission σ :=
  { e with joined := e.joined ++ [s], ahead := e.ahead ++ [s] }

/-- The slots that are passed over before the next one, or all of them if there is none. -/
def passed (e : Emission σ) : Option σ → List σ
  | some s => e.ahead.takeWhile (· ≠ s)
  | none => e.ahead

def next (e : Emission σ) (signal : Signal σ) (connected : σ → Prop) [DecidablePred connected] :
    Emission σ :=
  match signal.next e (connected ·) with
  | some s =>
      { e with
        active := some s, ahead := (e.ahead.dropWhile (· ≠ s)).tail, called := e.called ++ [s] }
  | none => { e with active := none, ahead := [] }

end Emission

/-- What is asked of a signal. -/
structure Signal.InOrder (signal : Signal σ) : Prop where
  ahead (e : Emission σ) (connected : σ → Bool) : ∀ s ∈ signal.next e connected, s ∈ e.ahead
  connected (e : Emission σ) (connected : σ → Bool) :
    ∀ s ∈ signal.next e connected, connected s = true
  /-- A slot that was there at the beginning is passed over only if it is disconnected. -/
  passed (e : Emission σ) (connected : σ → Bool) :
    ∀ s ∈ e.passed (signal.next e connected), s ∈ e.started → connected s = false

namespace Emission

variable {signal : Signal σ} {e : Emission σ} {connected connected' : σ → Prop} {s : σ}

theorem next_slots (e : Emission σ) (signal : Signal σ) (connected : σ → Prop)
    [DecidablePred connected] :
    (e.next signal connected).started = e.started ∧
      (e.next signal connected).joined = e.joined := by
  unfold next
  split <;> exact ⟨rfl, rfl⟩

/-- The slots up to the next one have been disconnected, or were not there at the
beginning. -/
theorem next_cases (h : signal.InOrder) (e : Emission σ) (connected : σ → Prop)
    [DecidablePred connected] :
    (∃ passed s rest, e.ahead = passed ++ s :: rest ∧ connected s ∧
        (∀ t ∈ passed, t ∈ e.started → ¬ connected t) ∧ e.next signal connected =
          { e with active := some s, ahead := rest, called := e.called ++ [s] }) ∨
      ((∀ t ∈ e.ahead, t ∈ e.started → ¬ connected t) ∧
        e.next signal connected = { e with active := none, ahead := [] }) := by
  have hpassed := h.passed e (connected ·)
  unfold next
  cases hnext : signal.next e (connected ·) with
  | none =>
      right
      rw [hnext] at hpassed
      exact ⟨fun t ht hstarted => of_decide_eq_false (hpassed t ht hstarted), rfl⟩
  | some s =>
      left
      rw [hnext] at hpassed
      have hmem := h.ahead e (connected ·) s hnext
      have hconnected := h.connected e (connected ·) s hnext
      have hhead : e.ahead.dropWhile (· ≠ s) = s :: (e.ahead.dropWhile (· ≠ s)).tail := by
        cases hdrop : e.ahead.dropWhile (· ≠ s) with
        | nil => exact absurd (List.dropWhile_eq_nil_iff.mp hdrop s hmem) (by simp)
        | cons t rest =>
            have hfirst := List.head?_dropWhile_not (· ≠ s) e.ahead
            rw [hdrop] at hfirst
            have hts : t = s := by simpa using hfirst
            rw [hts, List.tail_cons]
      refine ⟨e.ahead.takeWhile (· ≠ s), s, _, ?_, of_decide_eq_true hconnected, ?_, rfl⟩
      · rw [← hhead, List.takeWhile_append_dropWhile]
      · exact fun t ht hstarted => of_decide_eq_false (hpassed t ht hstarted)

/-! ## §2  What an emission keeps -/

/-- An emission of a signal with these slots connected now. -/
structure Inv (e : Emission σ) (connected : σ → Prop) : Prop where
  nodup : (e.started ++ e.joined).Nodup
  order : (e.called ++ e.ahead).Sublist (e.started ++ e.joined)
  /-- Of the slots of the beginning, only what has been disconnected is passed over. -/
  kept : ∀ s ∈ e.started, connected s → s ∈ e.called ++ e.ahead
  active : ∀ s ∈ e.active, s ∈ e.called

omit [DecidableEq σ] in
theorem Inv.start {slots : List σ} (h : slots.Nodup) : Inv (start slots) connected where
  nodup := by simpa [Emission.start] using h
  order := by simp [Emission.start]
  kept s hs _ := by simpa [Emission.start] using hs
  active s hs := by cases hs

omit [DecidableEq σ] in
/-- What is disconnected stays so. -/
theorem Inv.mono (h : Inv e connected) (hle : ∀ s ∈ e.started, connected' s → connected s) :
    Inv e connected' where
  nodup := h.nodup
  order := h.order
  kept s hs hconnected := h.kept s hs (hle s hs hconnected)
  active := h.active

omit [DecidableEq σ] in
theorem Inv.join (h : Inv e connected) (hs : s ∉ e.started ++ e.joined) :
    Inv (e.join s) connected where
  nodup := by
    show (e.started ++ (e.joined ++ [s])).Nodup
    rw [← List.append_assoc]
    exact List.nodup_append_comm.mp (List.nodup_cons.mpr ⟨hs, h.nodup⟩)
  order := by
    show (e.called ++ (e.ahead ++ [s])).Sublist (e.started ++ (e.joined ++ [s]))
    rw [← List.append_assoc, ← List.append_assoc]
    exact h.order.append (List.Sublist.refl [s])
  kept t ht hconnected := by
    show t ∈ e.called ++ (e.ahead ++ [s])
    rw [← List.append_assoc]
    exact List.mem_append_left _ (h.kept t ht hconnected)
  active := h.active

variable [DecidablePred connected]

theorem Inv.next (h : Inv e connected) (hsignal : signal.InOrder) :
    Inv (e.next signal connected) connected := by
  obtain ⟨passed, s, rest, hahead, -, hpassed, heq⟩ | ⟨hpassed, heq⟩ :=
    next_cases hsignal e connected
  · rw [heq]
    refine ⟨h.nodup, ?_, ?_, ?_⟩
    · show ((e.called ++ [s]) ++ rest).Sublist _
      refine List.Sublist.trans ?_ h.order
      rw [hahead, List.append_assoc]
      exact (List.Sublist.refl _).append (List.sublist_append_right passed (s :: rest))
    · intro t ht hconnected
      show t ∈ (e.called ++ [s]) ++ rest
      have hkept := h.kept t ht hconnected
      rw [hahead] at hkept
      rcases List.mem_append.mp hkept with hcalled | hahead
      · simp [hcalled]
      · rcases List.mem_append.mp hahead with hskip | hrest
        · exact absurd hconnected (hpassed t hskip ht)
        · rw [List.append_assoc]
          exact List.mem_append_right _ hrest
    · intro t ht
      obtain rfl : s = t := Option.some.inj ht
      exact List.mem_append_right _ (List.mem_singleton_self s)
  · rw [heq]
    refine ⟨h.nodup, ?_, ?_, ?_⟩
    · show (e.called ++ []).Sublist _
      exact ((List.Sublist.refl _).append (List.nil_sublist e.ahead)).trans h.order
    · intro t ht hconnected
      show t ∈ e.called ++ []
      rw [List.append_nil]
      exact (List.mem_append.mp (h.kept t ht hconnected)).resolve_right
        fun hahead => hpassed t hahead ht hconnected
    · intro t ht
      cases ht

/-! ## §3  Its end -/

omit [DecidableEq σ] [DecidablePred connected] in
theorem Inv.nodup_called (h : Inv e connected) : (e.called ++ e.ahead).Nodup :=
  h.nodup.sublist h.order

/-- The slot whose turn it is has not been called before. -/
theorem Inv.next_notMem (h : Inv e connected) (hsignal : signal.InOrder)
    (hs : (e.next signal connected).active = some s) :
    (e.next signal connected).called = e.called ++ [s] ∧ s ∉ e.called ∧ connected s ∧
      s ∈ e.started ++ e.joined := by
  obtain ⟨passed, t, rest, hahead, hconnected, -, heq⟩ | ⟨-, heq⟩ :=
    next_cases hsignal e connected
  · rw [heq] at hs ⊢
    obtain rfl : t = s := Option.some.inj hs
    have hmem : t ∈ e.ahead := hahead ▸ List.mem_append_right _ (List.mem_cons_self ..)
    refine ⟨rfl, ?_, hconnected, h.order.subset (List.mem_append_right _ hmem)⟩
    intro hcalled
    exact (List.nodup_append.mp h.nodup_called).2.2 t hcalled t hmem rfl
  · rw [heq] at hs
    cases hs

/-- **At its end, an emission has called each slot that was connected when it began and
still is.** -/
theorem Inv.finished (h : Inv e connected) (hsignal : signal.InOrder)
    (hs : (e.next signal connected).active = none) :
    ∀ s ∈ e.started, connected s → s ∈ e.called := by
  have hnext := h.next hsignal
  obtain ⟨_, t, _, _, -, -, heq⟩ | ⟨-, heq⟩ := next_cases hsignal e connected
  · rw [heq] at hs
    cases hs
  · rw [heq] at hnext
    intro s hmem hconnected
    have hkept : s ∈ e.called ++ [] := hnext.kept s hmem hconnected
    rwa [List.append_nil] at hkept

theorem start_nil_next (hsignal : signal.InOrder) :
    ((start []).next signal connected).active = none := by
  obtain ⟨passed, s, rest, hahead, -⟩ | ⟨-, heq⟩ := next_cases hsignal (start []) connected
  · exact absurd hahead.symm (List.append_ne_nil_of_right_ne_nil _ (List.cons_ne_nil s rest))
  · rw [heq]

/-- The first slot that is called is the first one. -/
theorem start_next {s : σ} (rest : List σ) (hsignal : signal.InOrder) (hs : connected s) :
    (start (s :: rest)).next signal connected =
      { started := s :: rest, active := some s, ahead := rest, called := [s] } := by
  obtain ⟨passed, t, rest', hahead, -, hpassed, heq⟩ | ⟨hpassed, -⟩ :=
    next_cases hsignal (start (s :: rest)) connected
  · have hahead : s :: rest = passed ++ t :: rest' := hahead
    cases passed with
    | nil =>
        obtain ⟨rfl, rfl⟩ := List.cons.inj hahead
        exact heq
    | cons u passed =>
        obtain ⟨rfl, -⟩ := List.cons.inj hahead
        exact absurd hs (hpassed s (List.mem_cons_self ..) (List.mem_cons_self ..))
  · exact absurd hs (hpassed s (List.mem_cons_self ..) (List.mem_cons_self ..))

end Emission

/-! ## §4  A signal -/

/-- A signal that looks at its slots once: an emission does not see those connected later. -/
def Signal.once : Signal σ where
  next e connected := e.ahead.find? fun s => s ∈ e.started && connected s

theorem Signal.once_inOrder : (Signal.once : Signal σ).InOrder where
  ahead e connected s hs := List.mem_of_find?_eq_some hs
  connected e connected s hs := by
    have hfound := List.find?_some hs
    exact (Bool.and_eq_true_iff.mp hfound).2
  passed e connected s hs hstarted := by
    by_contra hconnected
    have hfits : (s ∈ e.started && connected s) = true := by simpa [hstarted] using hconnected
    cases hnext : Signal.once.next e connected with
    | none =>
        rw [hnext] at hs
        exact List.find?_eq_none.mp hnext s hs hfits
    | some t =>
        rw [hnext] at hs
        obtain ⟨-, before, after, hahead, hbefore⟩ := List.find?_eq_some_iff_append.mp hnext
        have hs : s ∈ e.ahead.takeWhile (· ≠ t) := hs
        have hprefix : s ∈ before := by
          rw [hahead, List.takeWhile_append] at hs
          split at hs
          · simpa using hs
          · exact ( List.takeWhile_prefix _).mem hs
        have hmissed := hbefore s hprefix
        rw [hfits] at hmissed
        cases hmissed

end ScadaCommon.Foundation
