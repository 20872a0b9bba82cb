import ScadaCommon.Foundation.AssocMap
import ScadaCommon.Foundation.Machine
import ScadaCommon.Scada.Basic

/-!
# Aliases

`AliasTimedData` collects observers until its alias is resolved; `SetForwarded`
then registers them with the target and tells them so. The loops of
`SetForwarded` go through the collected observers while the calls of the alias
reach the target already, so an observer that leaves meanwhile is registered all
the same when its turn comes.

§1 registrations · §2 the alias · §3 what holds while the loops run · §4 the
steps · §5 runs.
-/

namespace ScadaCommon

open Foundation

/-! ## §1  Registrations -/

/-- The observers, and the view observers with their ranges, of a `TimedData`;
also the sets of `DeferredData`. -/
structure Registry where
  observers : Finset ObserverId := ∅
  viewObservers : AssocMap ObserverId DateTimeRange := ∅

namespace Registry

def addObserver (r : Registry) (observer : ObserverId) : Registry :=
  { r with observers := insert observer r.observers }

def removeObserver (r : Registry) (observer : ObserverId) : Registry :=
  { r with observers := r.observers.erase observer }

def addViewObserver (r : Registry) (observer : ObserverId) (range : DateTimeRange) : Registry :=
  { r with viewObservers := r.viewObservers.insert observer range }

def removeViewObserver (r : Registry) (observer : ObserverId) : Registry :=
  { r with viewObservers := r.viewObservers.erase observer }

end Registry

/-! ## §2  The alias -/

/-- The callbacks of `SetForwarded`. -/
inductive AliasCallback where
  | onPropertyChanged
  | onTimedDataNodeModified
  | onEventsChanged
deriving DecidableEq

def aliasCallbacks : List AliasCallback :=
  [.onPropertyChanged, .onTimedDataNodeModified, .onEventsChanged]

structure AliasWorld where
  isForwarded : Bool := false
  deferred : Registry := {}
  /-- What the loops of `SetForwarded` have still to take. -/
  pending : Registry := {}
  /-- The observer the second loop is at, with the callbacks it still makes. -/
  calling : Option (ObserverId × List AliasCallback) := none
  target : Registry
  /-- What was added last and not removed since. -/
  expected : Registry := {}
  /-- The callbacks made, the last one first. -/
  calls : List (ObserverId × AliasCallback) := []

inductive AliasAction where
  | addObserver (observer : ObserverId)
  | removeObserver (observer : ObserverId)
  | addViewObserver (observer : ObserverId) (range : DateTimeRange)
  | removeViewObserver (observer : ObserverId)
  | setForwarded
  /-- An iteration of the first loop. -/
  | forwardViewObserver (observer : ObserverId)
  /-- The second loop goes on to an observer. -/
  | forwardObserver (observer : ObserverId)
  /-- It makes the next callback. -/
  | callback

namespace AliasWorld

/-- A call of the alias, at `DeferredData` or at the target. -/
def apply (w : AliasWorld) (f : Registry → Registry) : AliasWorld :=
  if w.isForwarded then { w with target := f w.target, expected := f w.expected }
  else { w with deferred := f w.deferred, expected := f w.expected }

/-- The second loop is between two observers. -/
def BetweenObservers (w : AliasWorld) : Prop :=
  w.calling = none ∨ ∃ observer, w.calling = some (observer, [])

instance (w : AliasWorld) : Decidable w.BetweenObservers :=
  decidable_of_iff (w.calling.all (·.2.isEmpty) = true) (by
    unfold BetweenObservers
    cases w.calling with
    | none => simp
    | some called =>
        obtain ⟨observer, callbacks⟩ := called
        simp)

/-- The sets have no order, so the loops may take any observer next. -/
def enabled (w : AliasWorld) : AliasAction → Prop
  | .setForwarded => w.isForwarded = false
  | .forwardViewObserver observer => observer ∈ w.pending.viewObservers
  | .forwardObserver observer =>
      w.pending.viewObservers.keys = [] ∧ observer ∈ w.pending.observers ∧ w.BetweenObservers
  | .callback => ¬ w.BetweenObservers
  | _ => True

instance (w : AliasWorld) (a : AliasAction) : Decidable (w.enabled a) := by
  unfold enabled
  split <;> infer_instance

def step (w : AliasWorld) : AliasAction → Option AliasWorld
  | .addObserver observer => some (w.apply (·.addObserver observer))
  | .removeObserver observer => some (w.apply (·.removeObserver observer))
  | .addViewObserver observer range => some (w.apply (·.addViewObserver observer range))
  | .removeViewObserver observer => some (w.apply (·.removeViewObserver observer))
  | .setForwarded => do
      check (w.isForwarded = false)
      return { w with isForwarded := true, pending := w.deferred, deferred := {} }
  | .forwardViewObserver observer => do
      let range ← w.pending.viewObservers.lookup observer
      return { w with
        target := w.target.addViewObserver observer range
        pending := w.pending.removeViewObserver observer }
  | .forwardObserver observer =>
      some { w with
        target := w.target.addObserver observer
        pending := w.pending.removeObserver observer
        calling := some (observer, aliasCallbacks) }
  | .callback =>
      match w.calling with
      | some (observer, callback :: callbacks) =>
          some { w with
            calling := some (observer, callbacks)
            calls := (observer, callback) :: w.calls }
      | _ => none

/-- `SetForwarded` has returned. -/
def Resolved (w : AliasWorld) : Prop :=
  w.isForwarded = true ∧ w.pending.viewObservers.keys = [] ∧ w.pending.observers = ∅ ∧
    w.BetweenObservers

instance (w : AliasWorld) : Decidable w.Resolved := by
  unfold Resolved
  infer_instance

end AliasWorld

/-- An alias whose target may have registrations of others. -/
def aliasMachine (others : Registry) : Machine AliasWorld AliasAction :=
  ⟨{ target := others }, AliasWorld.enabled, AliasWorld.step⟩

instance (others : Registry) (w : AliasWorld) (a : AliasAction) :
    Decidable ((aliasMachine others).enabled w a) :=
  inferInstanceAs (Decidable (w.enabled a))

/-! ## §3  What holds while the loops run -/

section

variable {α : Type} {others pending target expected : ObserverId → Option α} {observer : ObserverId}

/-- What the loop has still to take is as it should be registered, and the
target has the rest. Registrations of others at the target are not looked at. -/
structure Tracks (others pending target expected : ObserverId → Option α) : Prop where
  waiting : ∀ o a, pending o = some a → expected o = some a
  taken : ∀ o, others o = none → pending o = none → target o = expected o
  registered : ∀ o, others o = none → ∀ a, target o = some a → expected o = some a

theorem Tracks.init (others expected : ObserverId → Option α) :
    Tracks others expected others expected where
  waiting := fun _ _ h => h
  taken := fun o hother hpending => hother.trans hpending.symm
  registered := by
    intro o hother a h
    rw [hother] at h
    cases h

/-- A call that leaves alone what the loop has still to take. -/
theorem Tracks.update (h : Tracks others pending target expected) (x : Option α)
    (hpending : pending observer = none ∨ pending observer = x) :
    Tracks others pending (Function.update target observer x)
      (Function.update expected observer x) where
  waiting := by
    intro o a ha
    by_cases heq : o = observer
    · subst heq
      rw [Function.update_self]
      rcases hpending with hnone | hsame
      · rw [hnone] at ha
        cases ha
      · exact hsame.symm.trans ha
    · rw [Function.update_of_ne heq]
      exact h.waiting o a ha
  taken := by
    intro o hother hnone
    by_cases heq : o = observer
    · subst heq
      rw [Function.update_self, Function.update_self]
    · rw [Function.update_of_ne heq, Function.update_of_ne heq]
      exact h.taken o hother hnone
  registered := by
    intro o hother a ha
    by_cases heq : o = observer
    · subst heq
      rw [Function.update_self] at ha ⊢
      exact ha
    · rw [Function.update_of_ne heq] at ha ⊢
      exact h.registered o hother a ha

/-- An iteration of the loop. -/
theorem Tracks.forward {a : α} (h : Tracks others pending target expected)
    (ha : pending observer = some a) :
    Tracks others (Function.update pending observer none)
      (Function.update target observer (some a)) expected where
  waiting := by
    intro o b hb
    by_cases heq : o = observer
    · subst heq
      rw [Function.update_self] at hb
      cases hb
    · rw [Function.update_of_ne heq] at hb
      exact h.waiting o b hb
  taken := by
    intro o hother hnone
    by_cases heq : o = observer
    · subst heq
      rw [Function.update_self]
      exact (h.waiting o a ha).symm
    · rw [Function.update_of_ne heq] at hnone ⊢
      exact h.taken o hother hnone
  registered := by
    intro o hother b hb
    by_cases heq : o = observer
    · subst heq
      rw [Function.update_self] at hb
      rw [h.waiting o a ha]
      exact hb
    · rw [Function.update_of_ne heq] at hb
      exact h.registered o hother b hb

end

/-- A set as a map. -/
def memMap (s : Finset ObserverId) (observer : ObserverId) : Option Unit :=
  if observer ∈ s then some () else none

theorem memMap_eq_some {s : Finset ObserverId} {observer : ObserverId} :
    memMap s observer = some () ↔ observer ∈ s := by
  unfold memMap
  split <;> simp_all

theorem memMap_eq_none {s : Finset ObserverId} {observer : ObserverId} :
    memMap s observer = none ↔ observer ∉ s := by
  unfold memMap
  split <;> simp_all

theorem memMap_insert (s : Finset ObserverId) (observer : ObserverId) :
    memMap (insert observer s) = Function.update (memMap s) observer (some ()) := by
  funext o
  by_cases heq : o = observer
  · subst heq
    simp [memMap]
  · simp [memMap, heq]

theorem memMap_erase (s : Finset ObserverId) (observer : ObserverId) :
    memMap (s.erase observer) = Function.update (memMap s) observer none := by
  funext o
  by_cases heq : o = observer
  · subst heq
    simp [memMap]
  · simp [memMap, heq]

theorem lookup_insert_eq_update {α : Type} (m : AssocMap ObserverId α) (observer : ObserverId)
    (a : α) : (m.insert observer a).lookup = Function.update m.lookup observer (some a) := by
  funext o
  by_cases heq : o = observer
  · subst heq
    simp
  · simp [heq]

theorem lookup_erase_eq_update {α : Type} (m : AssocMap ObserverId α) (observer : ObserverId) :
    (m.erase observer).lookup = Function.update m.lookup observer none := by
  funext o
  by_cases heq : o = observer
  · subst heq
    simp
  · simp [heq]

/-! ## §4  The steps -/

namespace AliasWorld

variable {others : Registry} {w w' : AliasWorld}

structure AliasInv (others : Registry) (w : AliasWorld) : Prop where
  deferring : w.isForwarded = false →
    w.target = others ∧ w.pending = {} ∧ w.calling = none ∧ w.deferred = w.expected
  observers : w.isForwarded = true → Tracks (memMap others.observers)
    (memMap w.pending.observers) (memMap w.target.observers) (memMap w.expected.observers)
  viewObservers : w.isForwarded = true → Tracks others.viewObservers.lookup
    w.pending.viewObservers.lookup w.target.viewObservers.lookup w.expected.viewObservers.lookup
  /-- Who is being called has not been removed. -/
  calling : ∀ observer callback callbacks, w.calling = some (observer, callback :: callbacks) →
    observer ∈ w.expected.observers

/-- The call leaves alone what the loops of `SetForwarded` have still to take
and whom they are calling. -/
def KeepsPending (w : AliasWorld) : AliasAction → Prop
  | .removeObserver observer => observer ∉ w.pending.observers ∧
      ∀ called ∈ w.calling, called.1 = observer → called.2 = []
  | .addViewObserver observer range =>
      ∀ pendingRange ∈ w.pending.viewObservers.lookup observer, pendingRange = range
  | .removeViewObserver observer => observer ∉ w.pending.viewObservers
  | _ => True

instance (w : AliasWorld) (a : AliasAction) : Decidable (w.KeepsPending a) := by
  unfold KeepsPending
  split <;> infer_instance

theorem AliasInv.init (others : Registry) : AliasInv others { target := others } where
  deferring := fun _ => ⟨rfl, rfl, rfl, rfl⟩
  observers := by
    rintro ⟨⟩
  viewObservers := by
    rintro ⟨⟩
  calling := by
    rintro observer callback callbacks ⟨⟩

/-- A call of the alias, from what it does to the registrations of the target. -/
theorem AliasInv.apply (h : AliasInv others w) (f : Registry → Registry)
    (hobservers : Tracks (memMap others.observers) (memMap w.pending.observers)
        (memMap w.target.observers) (memMap w.expected.observers) →
      Tracks (memMap others.observers) (memMap w.pending.observers)
        (memMap (f w.target).observers) (memMap (f w.expected).observers))
    (hviews : Tracks others.viewObservers.lookup w.pending.viewObservers.lookup
        w.target.viewObservers.lookup w.expected.viewObservers.lookup →
      Tracks others.viewObservers.lookup w.pending.viewObservers.lookup
        (f w.target).viewObservers.lookup (f w.expected).viewObservers.lookup)
    (hcalling : ∀ observer callback callbacks, w.calling = some (observer, callback :: callbacks) →
      observer ∈ w.expected.observers → observer ∈ (f w.expected).observers) :
    AliasInv others (w.apply f) := by
  unfold AliasWorld.apply
  split
  · rename_i hforwarded
    refine ⟨?_, fun _ => hobservers (h.observers hforwarded),
      fun _ => hviews (h.viewObservers hforwarded), ?_⟩
    · intro hdeferring
      rw [show w.isForwarded = false from hdeferring] at hforwarded
      cases hforwarded
    · intro observer callback callbacks hcalled
      exact hcalling observer callback callbacks hcalled (h.calling _ _ _ hcalled)
  · rename_i hforwarded
    obtain ⟨htarget, hpending, hnone, hdeferred⟩ := h.deferring (by simpa using hforwarded)
    refine ⟨fun _ => ⟨htarget, hpending, hnone, congrArg f hdeferred⟩,
      fun hf => absurd hf hforwarded, fun hf => absurd hf hforwarded, ?_⟩
    intro observer callback callbacks hcalled
    exact hcalling observer callback callbacks hcalled (h.calling _ _ _ hcalled)

theorem AliasInv.setForwarded (h : AliasInv others w) (hs : w.step .setForwarded = some w') :
    AliasInv others w' := by
  obtain ⟨hforwarded, hs⟩ := check_bind_eq_some.mp hs
  cases hs
  obtain ⟨htarget, -, hnone, hdeferred⟩ := h.deferring hforwarded
  refine ⟨?_, ?_, ?_, h.calling⟩
  · rintro ⟨⟩
  · intro _
    dsimp only
    rw [htarget, hdeferred]
    exact Tracks.init _ _
  · intro _
    dsimp only
    rw [htarget, hdeferred]
    exact Tracks.init _ _

/-- The loops run after the alias is forwarded only. -/
theorem AliasInv.isForwarded (h : AliasInv others w) (hpending : w.pending ≠ {} ∨ w.calling ≠ none) :
    w.isForwarded = true := by
  by_contra hforwarded
  obtain ⟨-, hnone, hcalling, -⟩ := h.deferring (by simpa using hforwarded)
  exact hpending.elim (fun hne => hne hnone) (fun hne => hne hcalling)

theorem AliasInv.forwardViewObserver {observer : ObserverId} (h : AliasInv others w)
    (hs : w.step (.forwardViewObserver observer) = some w') : AliasInv others w' := by
  obtain ⟨range, hrange, hs⟩ := Option.bind_eq_some_iff.mp hs
  cases hs
  have hforwarded : w.isForwarded = true := by
    refine h.isForwarded (Or.inl ?_)
    intro hnone
    rw [hnone] at hrange
    cases hrange
  refine ⟨?_, h.observers, ?_, h.calling⟩
  · intro hdeferring
    rw [show w.isForwarded = false from hdeferring] at hforwarded
    cases hforwarded
  · intro _
    dsimp only [Registry.addViewObserver, Registry.removeViewObserver]
    rw [lookup_insert_eq_update, lookup_erase_eq_update]
    exact (h.viewObservers hforwarded).forward hrange

theorem AliasInv.forwardObserver {observer : ObserverId} (h : AliasInv others w)
    (hmem : observer ∈ w.pending.observers)
    (hs : w.step (.forwardObserver observer) = some w') : AliasInv others w' := by
  cases hs
  have hforwarded : w.isForwarded = true := by
    refine h.isForwarded (Or.inl ?_)
    intro hnone
    rw [hnone] at hmem
    exact Finset.notMem_empty _ hmem
  have htracks := h.observers hforwarded
  refine ⟨?_, ?_, h.viewObservers, ?_⟩
  · intro hdeferring
    rw [show w.isForwarded = false from hdeferring] at hforwarded
    cases hforwarded
  · intro _
    dsimp only [Registry.addObserver, Registry.removeObserver]
    rw [memMap_insert, memMap_erase]
    exact htracks.forward (memMap_eq_some.mpr hmem)
  · rintro o callback callbacks hcalled
    cases hcalled
    exact memMap_eq_some.mp (htracks.waiting observer () (memMap_eq_some.mpr hmem))

theorem callback_eq_some (hs : w.step .callback = some w') :
    ∃ observer callback callbacks, w.calling = some (observer, callback :: callbacks) ∧
      w' = { w with
        calling := some (observer, callbacks)
        calls := (observer, callback) :: w.calls } := by
  unfold step at hs
  dsimp only at hs
  split at hs
  · rename_i observer callback callbacks hcalling
    cases hs
    exact ⟨observer, callback, callbacks, hcalling, rfl⟩
  · cases hs

theorem AliasInv.callback (h : AliasInv others w) (hs : w.step .callback = some w') :
    AliasInv others w' := by
  obtain ⟨observer, callback, callbacks, hcalling, rfl⟩ := callback_eq_some hs
  refine ⟨?_, h.observers, h.viewObservers, ?_⟩
  · intro hdeferring
    obtain ⟨-, -, hnone, -⟩ := h.deferring hdeferring
    rw [hnone] at hcalling
    cases hcalling
  · rintro o callback' callbacks' hcalled
    cases hcalled
    exact h.calling _ _ _ hcalling

/-- **One step.** A call that keeps what is pending keeps the loops in step with
it. -/
theorem AliasInv.step {a : AliasAction} (h : AliasInv others w) (hen : w.enabled a)
    (hkeeps : w.KeepsPending a) (hs : w.step a = some w') : AliasInv others w' := by
  cases a with
  | addObserver observer =>
      cases hs
      -- Who is still waiting is registered when its turn comes, to the same end.
      refine h.apply _ ?_ id ?_
      · intro htracks
        dsimp only [Registry.addObserver]
        rw [memMap_insert, memMap_insert]
        refine htracks.update _ ?_
        by_cases hmem : observer ∈ w.pending.observers
        · exact Or.inr (memMap_eq_some.mpr hmem)
        · exact Or.inl (memMap_eq_none.mpr hmem)
      · intro o _ _ _ hexpected
        exact Finset.mem_insert_of_mem hexpected
  | removeObserver observer =>
      cases hs
      refine h.apply _ ?_ id ?_
      · intro htracks
        dsimp only [Registry.removeObserver]
        rw [memMap_erase, memMap_erase]
        exact htracks.update _ (Or.inl (memMap_eq_none.mpr hkeeps.1))
      · intro o callback callbacks hcalling hexpected
        refine Finset.mem_erase.mpr ⟨?_, hexpected⟩
        intro heq
        exact List.cons_ne_nil _ _ (hkeeps.2 (o, callback :: callbacks) hcalling heq)
  | addViewObserver observer range =>
      cases hs
      refine h.apply _ id ?_ fun _ _ _ _ hexpected => hexpected
      intro htracks
      dsimp only [Registry.addViewObserver]
      rw [lookup_insert_eq_update, lookup_insert_eq_update]
      refine htracks.update _ ?_
      cases hpending : w.pending.viewObservers.lookup observer with
      | none => exact Or.inl rfl
      | some pendingRange => exact Or.inr (congrArg some (hkeeps pendingRange hpending))
  | removeViewObserver observer =>
      cases hs
      refine h.apply _ id ?_ fun _ _ _ _ hexpected => hexpected
      intro htracks
      dsimp only [Registry.removeViewObserver]
      rw [lookup_erase_eq_update, lookup_erase_eq_update]
      exact htracks.update _ (Or.inl (AList.lookup_eq_none.mpr hkeeps))
  | setForwarded => exact h.setForwarded hs
  | forwardViewObserver observer => exact h.forwardViewObserver hs
  | forwardObserver observer => exact h.forwardObserver hen.2.1 hs
  | callback => exact h.callback hs

end AliasWorld

/-! ## §5  Runs -/

namespace AliasWorld

variable {others : Registry} {w w' : AliasWorld}

/-- The alias cannot be told from its target: nobody who was removed is
registered or called, and when `SetForwarded` has returned everybody who was
added is registered. -/
structure Transparent (others : Registry) (w : AliasWorld) : Prop where
  deferring : w.isForwarded = false → w.target = others
  registered : ∀ o, o ∉ others.observers → o ∈ w.target.observers → o ∈ w.expected.observers
  registeredViews : ∀ o, o ∉ others.viewObservers → ∀ range ∈ w.target.viewObservers.lookup o,
    w.expected.viewObservers.lookup o = some range
  called : ∀ w', w.step .callback = some w' →
    ∃ o callback, w'.calls = (o, callback) :: w.calls ∧ o ∈ w.expected.observers
  resolved : w.Resolved → ∀ o,
    (o ∉ others.observers → (o ∈ w.target.observers ↔ o ∈ w.expected.observers)) ∧
      (o ∉ others.viewObservers →
        w.target.viewObservers.lookup o = w.expected.viewObservers.lookup o)

@[simp] theorem apply_pending (w : AliasWorld) (f : Registry → Registry) :
    (w.apply f).pending = w.pending := by
  unfold apply
  split <;> rfl

@[simp] theorem apply_calling (w : AliasWorld) (f : Registry → Registry) :
    (w.apply f).calling = w.calling := by
  unfold apply
  split <;> rfl

@[simp] theorem apply_expected (w : AliasWorld) (f : Registry → Registry) :
    (w.apply f).expected = f w.expected := by
  unfold apply
  split <;> rfl

theorem AliasInv.transparent (h : AliasInv others w) : w.Transparent others where
  deferring := fun hdeferring => (h.deferring hdeferring).1
  registered := by
    intro o hother hmem
    cases hforwarded : w.isForwarded with
    | false =>
        rw [(h.deferring hforwarded).1] at hmem
        exact absurd hmem hother
    | true =>
        have hregistered := (h.observers hforwarded).registered o (memMap_eq_none.mpr hother) ()
        exact memMap_eq_some.mp (hregistered (memMap_eq_some.mpr hmem))
  registeredViews := by
    intro o hother range hrange
    cases hforwarded : w.isForwarded with
    | false =>
        rw [(h.deferring hforwarded).1, Option.mem_def, AList.lookup_eq_none.mpr hother] at hrange
        cases hrange
    | true =>
        exact (h.viewObservers hforwarded).registered o (AList.lookup_eq_none.mpr hother) range hrange
  called := by
    intro w' hs
    obtain ⟨o, callback, callbacks, hcalling, rfl⟩ := callback_eq_some hs
    exact ⟨o, callback, rfl, h.calling _ _ _ hcalling⟩
  resolved := by
    rintro ⟨hforwarded, hviews, hobservers, -⟩ o
    constructor
    · intro hother
      have htaken := (h.observers hforwarded).taken o (memMap_eq_none.mpr hother)
        (by rw [hobservers]; rfl)
      rw [← memMap_eq_some, htaken, memMap_eq_some]
    · intro hother
      refine (h.viewObservers hforwarded).taken o (AList.lookup_eq_none.mpr hother) ?_
      rw [AList.lookup_eq_none, AList.mem_keys, hviews]
      exact List.not_mem_nil

/-- `SetForwarded` runs on by itself. -/
def RunsOn (_ : AliasWorld) : AliasAction → Prop
  | .forwardViewObserver _ | .forwardObserver _ | .callback => True
  | _ => False

/-- It finishes with the observer it is at. -/
theorem exists_betweenObservers (others : Registry) (w : AliasWorld) :
    ∃ w', (aliasMachine others).ReachesFrom RunsOn w w' ∧ w'.BetweenObservers ∧
      w'.isForwarded = w.isForwarded ∧ w'.pending = w.pending ∧ w'.expected = w.expected := by
  have hcalls : ∀ callbacks (w : AliasWorld) (o : ObserverId), w.calling = some (o, callbacks) →
      ∃ w', (aliasMachine others).ReachesFrom RunsOn w w' ∧ w'.BetweenObservers ∧
        w'.isForwarded = w.isForwarded ∧ w'.pending = w.pending ∧ w'.expected = w.expected := by
    -- The induction is on the callbacks that are left.
    intro callbacks
    induction callbacks with
    | nil =>
        intro w o hcalling
        exact ⟨w, .refl, Or.inr ⟨o, hcalling⟩, rfl, rfl, rfl⟩
    | cons callback callbacks ih =>
        intro w o hcalling
        obtain ⟨w', hreaches, hrest⟩ := ih { w with
          calling := some (o, callbacks), calls := (o, callback) :: w.calls } o rfl
        have hen : w.enabled .callback := by
          rintro (hnone | ⟨o', hnil⟩)
          · rw [hcalling] at hnone
            cases hnone
          · rw [hcalling] at hnil
            cases hnil
        refine ⟨w', Machine.ReachesFrom.trans (.tail (a := .callback) .refl hen trivial ?_) hreaches, hrest⟩
        show w.step .callback = _
        unfold step
        dsimp only
        rw [hcalling]
  cases hcalling : w.calling with
  | none => exact ⟨w, .refl, Or.inl hcalling, rfl, rfl, rfl⟩
  | some called =>
      obtain ⟨o, callbacks⟩ := called
      exact hcalls callbacks w o hcalling

/-- It finishes its first loop. -/
theorem exists_viewObservers_taken (others : Registry) (w : AliasWorld) :
    ∃ w', (aliasMachine others).ReachesFrom RunsOn w w' ∧ w'.pending.viewObservers.keys = [] ∧
      w'.pending.observers = w.pending.observers ∧ w'.calling = w.calling ∧
      w'.expected = w.expected := by
  generalize hlength : w.pending.viewObservers.keys.length = n
  induction n generalizing w with
  | zero => exact ⟨w, .refl, List.length_eq_zero_iff.mp hlength, rfl, rfl, rfl⟩
  | succ n ih =>
      obtain ⟨o, ho⟩ := List.exists_mem_of_length_pos (l := w.pending.viewObservers.keys) (by omega)
      obtain ⟨range, hrange⟩ := Option.isSome_iff_exists.mp (AList.lookup_isSome.mpr ho)
      have hstep : w.step (.forwardViewObserver o) = some { w with
          target := w.target.addViewObserver o range
          pending := w.pending.removeViewObserver o } := by
        unfold step
        dsimp only
        rw [hrange]
        rfl
      obtain ⟨w', hreaches, hrest⟩ := ih { w with
          target := w.target.addViewObserver o range
          pending := w.pending.removeViewObserver o } (by
        show (w.pending.viewObservers.erase o).keys.length = n
        rw [AList.keys_erase, List.length_erase_of_mem ho, hlength]
        rfl)
      have hrun : (aliasMachine others).ReachesFrom RunsOn w _ :=
        .tail (a := .forwardViewObserver o) .refl ho trivial hstep
      exact ⟨w', hrun.trans hreaches, hrest⟩

/-- An observer that was removed before its turn is called all the same. -/
theorem not_transparent_of_pending (others : Registry) {o : ObserverId}
    (hpending : o ∈ w.pending.observers)
    (hexpected : o ∉ w.expected.observers) :
    ∃ w', (aliasMachine others).ReachesFrom RunsOn w w' ∧ ¬ w'.Transparent others := by
  obtain ⟨w₁, hreaches₁, hbetween, -, hpending₁, hexpected₁⟩ :=
    exists_betweenObservers others w
  obtain ⟨w₂, hreaches₂, hkeys, hpending₂, hcalling₂, hexpected₂⟩ :=
    exists_viewObservers_taken others w₁
  have hmem : o ∈ w₂.pending.observers := by
    rw [hpending₂, hpending₁]
    exact hpending
  have hbetween₂ : w₂.BetweenObservers := by
    unfold BetweenObservers
    rw [hcalling₂]
    exact hbetween
  refine ⟨_, ((hreaches₁.trans hreaches₂).tail (a := .forwardObserver o) ⟨hkeys, hmem, hbetween₂⟩
    trivial rfl), ?_⟩
  intro htransparent
  obtain ⟨o', callback, hcalls, hcalled⟩ := htransparent.called _ rfl
  cases hcalls
  refine hexpected ?_
  rw [← hexpected₁, ← hexpected₂]
  exact hcalled

theorem not_transparent_of_removed (others : Registry) {o : ObserverId}
    (h : ¬ w.KeepsPending (.removeObserver o)) :
    ∃ w', (aliasMachine others).ReachesFrom RunsOn (w.apply (·.removeObserver o)) w' ∧
      ¬ w'.Transparent others := by
  have hremoved : o ∉ (w.apply (·.removeObserver o)).expected.observers := by
    rw [apply_expected]
    exact Finset.notMem_erase _ _
  by_cases hmem : o ∈ w.pending.observers
  · refine not_transparent_of_pending others ?_ hremoved
    rw [apply_pending]
    exact hmem
  · -- It is being called.
    have hcalling : ∃ callback callbacks, w.calling = some (o, callback :: callbacks) := by
      by_contra hnone
      refine h ⟨hmem, ?_⟩
      rintro ⟨o', callbacks⟩ hcalled rfl
      cases callbacks with
      | nil => rfl
      | cons callback callbacks => exact absurd ⟨callback, callbacks, hcalled⟩ hnone
    obtain ⟨callback, callbacks, hcalling⟩ := hcalling
    refine ⟨_, .refl, ?_⟩
    intro htransparent
    have hstep : (w.apply (·.removeObserver o)).step .callback =
        some { w.apply (·.removeObserver o) with
          calling := some (o, callbacks)
          calls := (o, callback) :: (w.apply (·.removeObserver o)).calls } := by
      unfold step
      dsimp only
      rw [apply_calling, hcalling]
    obtain ⟨o', callback', hcalls, hcalled⟩ := htransparent.called _ hstep
    cases hcalls
    exact hremoved hcalled

/-- A range that was changed before its turn is registered all the same. -/
theorem not_transparent_of_pendingView (o : ObserverId) (range : DateTimeRange)
    (hpending : w.pending.viewObservers.lookup o = some range)
    (hexpected : w.expected.viewObservers.lookup o ≠ some range) :
    ∃ w', (aliasMachine {}).ReachesFrom RunsOn w w' ∧ ¬ w'.Transparent {} := by
  have hstep : w.step (.forwardViewObserver o) = some { w with
      target := w.target.addViewObserver o range
      pending := w.pending.removeViewObserver o } := by
    unfold step
    dsimp only
    rw [hpending]
    rfl
  have hmem : o ∈ w.pending.viewObservers := AList.lookup_isSome.mp (by rw [hpending]; rfl)
  refine ⟨_, .tail (a := .forwardViewObserver o) .refl hmem trivial hstep, ?_⟩
  intro htransparent
  refine hexpected (htransparent.registeredViews o (AList.notMem_empty o) range ?_)
  exact AList.lookup_insert _

/-- **Aliases are transparent.** In every run in which the observers leave alone
what `SetForwarded` has still to take and whom it is calling, the alias cannot be
told from its target. If a call does not, and `SetForwarded` runs on, then it
can. -/
theorem forwarding_is_transparent (h : (aliasMachine others).Reaches KeepsPending w) :
    w.Transparent others ∧
      (others = {} → ∀ a w', w.enabled a → w.step a = some w' →
        (w.KeepsPending a ↔
          ∀ w'', (aliasMachine {}).ReachesFrom RunsOn w' w'' → w''.Transparent {})) := by
  have hinv : AliasInv others w :=
    h.invariant (AliasInv.init others) fun _ _ _ ht hen hok hs => ht.step hen hok hs
  refine ⟨hinv.transparent, ?_⟩
  rintro rfl a w' hen hs
  constructor
  · intro hkeeps w'' hreaches
    have hinv' := hinv.step hen hkeeps hs
    -- Running on makes no calls, so it keeps what is pending.
    refine AliasInv.transparent (hreaches.invariant hinv' ?_)
    intro t b t' ht hen' hruns hs'
    refine ht.step hen' ?_ hs'
    cases b <;> first | exact trivial | exact hruns.elim
  · intro hall
    by_contra hkeeps
    -- What the call took out of step shows when its turn comes in the loops.
    cases a with
    | removeObserver o =>
        cases hs
        obtain ⟨w'', hreaches, hnot⟩ := not_transparent_of_removed {} hkeeps
        exact hnot (hall w'' hreaches)
    | addViewObserver o range =>
        cases hs
        have hpending : ∃ pendingRange, w.pending.viewObservers.lookup o = some pendingRange ∧
            pendingRange ≠ range := by
          by_contra hnone
          refine hkeeps ?_
          intro pendingRange hpending
          by_contra hne
          exact hnone ⟨pendingRange, hpending, hne⟩
        obtain ⟨pendingRange, hpending, hne⟩ := hpending
        obtain ⟨w'', hreaches, hnot⟩ := not_transparent_of_pendingView o pendingRange
          (w := w.apply (·.addViewObserver o range)) (by rwa [apply_pending]) (by
            rw [apply_expected]
            show (w.expected.viewObservers.insert o range).lookup o ≠ some pendingRange
            rw [AList.lookup_insert]
            exact fun heq => hne (Option.some.inj heq).symm)
        exact hnot (hall w'' hreaches)
    | removeViewObserver o =>
        cases hs
        have hmem : o ∈ w.pending.viewObservers := by
          by_contra hnone
          exact hkeeps hnone
        obtain ⟨range, hrange⟩ := Option.isSome_iff_exists.mp (AList.lookup_isSome.mpr hmem)
        obtain ⟨w'', hreaches, hnot⟩ := not_transparent_of_pendingView o range
          (w := w.apply (·.removeViewObserver o)) (by rwa [apply_pending]) (by
            rw [apply_expected]
            show (w.expected.viewObservers.erase o).lookup o ≠ some range
            rw [AList.lookup_erase]
            exact fun heq => by cases heq)
        exact hnot (hall w'' hreaches)
    | addObserver o => exact hkeeps trivial
    | setForwarded => exact hkeeps trivial
    | forwardViewObserver o => exact hkeeps trivial
    | forwardObserver o => exact hkeeps trivial
    | callback => exact hkeeps trivial

/-- An observer and a view observer come before `SetForwarded`, another one
during its callbacks. -/
theorem forwarding_is_transparent_resolved : ∃ w : AliasWorld, w.Resolved ∧
    w.target.observers = {1, 3} ∧ w.target.viewObservers.lookup 2 = some ⟨1, 10⟩ ∧
      w.Transparent {} := by
  obtain ⟨w, hw, hp⟩ := Machine.exists_reaches_of_exec (M := aliasMachine {}) KeepsPending
    (p := fun w => decide w.Resolved && (decide (w.target.observers = {1, 3}) &&
      decide (w.target.viewObservers.lookup 2 = some ⟨1, 10⟩)))
    [.addObserver 1, .addViewObserver 2 ⟨1, 10⟩, .setForwarded, .forwardViewObserver 2,
      .forwardObserver 1, .callback, .addObserver 3, .callback, .callback] (by decide)
  obtain ⟨hresolved, hp⟩ := Bool.and_eq_true_iff.mp hp
  obtain ⟨hobservers, hviews⟩ := Bool.and_eq_true_iff.mp hp
  exact ⟨w, of_decide_eq_true hresolved, of_decide_eq_true hobservers, of_decide_eq_true hviews,
    (forwarding_is_transparent hw).1⟩

/-- In the first callback of observer 1 it removes observer 2, which is
registered and called all the same. When view observer 3 is registered, view
observer 4 changes its range, and the old one is registered over it. -/
theorem removed_observer_is_registered : ∃ w : AliasWorld,
    (aliasMachine {}).Reachable w ∧ w.Resolved ∧
      2 ∉ w.expected.observers ∧ 2 ∈ w.target.observers ∧ (2, .onPropertyChanged) ∈ w.calls ∧
      w.expected.viewObservers.lookup 4 = some ⟨5, 10⟩ ∧
      w.target.viewObservers.lookup 4 = some ⟨1, 10⟩ := by
  obtain ⟨w, hw, hp⟩ := Machine.exists_reachable_of_exec (M := aliasMachine {})
    (p := fun w => decide (w.Resolved ∧ 2 ∉ w.expected.observers ∧ 2 ∈ w.target.observers ∧
      (2, .onPropertyChanged) ∈ w.calls ∧ w.expected.viewObservers.lookup 4 = some ⟨5, 10⟩ ∧
      w.target.viewObservers.lookup 4 = some ⟨1, 10⟩))
    [.addObserver 1, .addObserver 2, .addViewObserver 3 ⟨1, 10⟩, .addViewObserver 4 ⟨1, 10⟩,
      .setForwarded, .forwardViewObserver 3, .addViewObserver 4 ⟨5, 10⟩, .forwardViewObserver 4,
      .forwardObserver 1, .callback, .removeObserver 2, .callback, .callback,
      .forwardObserver 2, .callback, .callback, .callback] (by decide)
  exact ⟨w, hw, of_decide_eq_true hp⟩

end AliasWorld

end ScadaCommon
