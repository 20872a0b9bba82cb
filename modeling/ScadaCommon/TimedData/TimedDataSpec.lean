import ScadaCommon.TimedData.BufferActions

/-!
# The handles of the clients

A `TimedDataSpec` holds a time series and a range, and is registered there as an
observer and, with its range, as a view observer. Four operations change what
is held, each with an early return where nothing seems to change.

§1 registration · §2 the handle · §3 any number of handles · §4 what a time
series knows · §5 one step · §6 runs.
-/

namespace ScadaCommon

open Foundation

/-! ## §1  Registration -/

abbrev TimedDataId := ℕ

/-- What a `BaseTimedData` knows of its observers. -/
structure ObservedTimedData (V : Type) where
  observers : Finset ObserverId := ∅
  buffer : TimedDataBuffer V := {}

variable {V : Type}

namespace ObservedTimedData

/-- `AddObserver`, and `AddViewObserver` with a range. -/
def register (I : IntervalUtil) (data : ObservedTimedData V) (observer : ObserverId)
    (range : DateTimeRange) : Option (ObservedTimedData V) := do
  let buffer ← data.buffer.addObserver I observer range
  return { observers := insert observer data.observers, buffer }

/-- `RemoveObserver` and `RemoveViewObserver`. -/
def unregister (I : IntervalUtil) (data : ObservedTimedData V) (observer : ObserverId) :
    Option (ObservedTimedData V) := do
  let buffer ← data.buffer.removeObserver I observer
  return { observers := data.observers.erase observer, buffer }

end ObservedTimedData

/-- The time series by their addresses. -/
abbrev TimedDataHeap (V : Type) := TimedDataId → ObservedTimedData V

namespace TimedDataHeap

/-- A call on the time series of a pointer, nothing for null. -/
def modify (heap : TimedDataHeap V) (data : Option TimedDataId)
    (f : ObservedTimedData V → Option (ObservedTimedData V)) : Option (TimedDataHeap V) :=
  match data with
  | none => some heap
  | some data => (f (heap data)).map (Function.update heap data)

end TimedDataHeap

/-! ## §2  The handle -/

structure TimedDataSpec where
  data : Option TimedDataId
  range : DateTimeRange
deriving DecidableEq

namespace TimedDataSpec

/-- `kTimedDataCurrentOnly`. -/
def currentOnly : DateTime := .max

section

variable (I : IntervalUtil) (heap : TimedDataHeap V) (id : ObserverId)

/-- The constructors from a time series. -/
def ofData (data : Option TimedDataId) : Option (TimedDataSpec × TimedDataHeap V) := do
  let spec : TimedDataSpec := ⟨data, ⟨currentOnly, currentOnly⟩⟩
  let heap ← heap.modify spec.data (·.register I id spec.range)
  return (spec, heap)

/-- The copy constructor. -/
def copy (other : TimedDataSpec) : Option (TimedDataSpec × TimedDataHeap V) := do
  let heap ← heap.modify other.data (·.register I id other.range)
  return (other, heap)

def setRange (spec : TimedDataSpec) (range : DateTimeRange) :
    Option (TimedDataSpec × TimedDataHeap V) := do
  check (range.second ≠ .null)
  check (I.isValidInterval range = true)
  check (range.second = currentOnly ∨ I.isEmptyInterval range = false)
  if spec.range = range then return (spec, heap)
  let heap ← heap.modify spec.data (·.register I id range)
  return ({ spec with range }, heap)

def setFrom (spec : TimedDataSpec) (first : DateTime) : Option (TimedDataSpec × TimedDataHeap V) :=
  setRange I heap id spec ⟨first, currentOnly⟩

def setCurrentOnly (spec : TimedDataSpec) : Option (TimedDataSpec × TimedDataHeap V) :=
  setFrom I heap id spec currentOnly

def setData (spec : TimedDataSpec) (data : Option TimedDataId) :
    Option (TimedDataSpec × TimedDataHeap V) := do
  if spec.data = data then return (spec, heap)
  let heap ← heap.modify data (·.register I id spec.range)
  let heap ← heap.modify spec.data (·.unregister I id)
  return ({ spec with data }, heap)

def reset (spec : TimedDataSpec) : Option (TimedDataSpec × TimedDataHeap V) :=
  setData I heap id spec none

/-- `operator=` from another object. -/
def assign (spec other : TimedDataSpec) : Option (TimedDataSpec × TimedDataHeap V) :=
  setData I heap id { spec with range := other.range } other.data

end

end TimedDataSpec

/-! ## §3  Any number of handles -/

/-- The live handles by their addresses, and the time series. -/
structure SpecWorld (V : Type) where
  specs : ObserverId → Option TimedDataSpec
  heap : TimedDataHeap V

inductive SpecAction where
  | construct (id : ObserverId) (data : Option TimedDataId)
  | copyConstruct (id other : ObserverId)
  | assign (id other : ObserverId)
  | setRange (id : ObserverId) (range : DateTimeRange)
  | setFrom (id : ObserverId) (first : DateTime)
  | setCurrentOnly (id : ObserverId)
  /-- `Connect` with the time series that the service returned. -/
  | connect (id : ObserverId) (data : Option TimedDataId)
  | reset (id : ObserverId)
  | destroy (id : ObserverId)

namespace SpecWorld

/-- Runs an operation of a live handle. -/
def modify (w : SpecWorld V) (id : ObserverId)
    (f : TimedDataSpec → Option (TimedDataSpec × TimedDataHeap V)) : Option (SpecWorld V) := do
  let spec ← w.specs id
  let (spec, heap) ← f spec
  return ⟨Function.update w.specs id (some spec), heap⟩

/-- Runs a constructor. -/
def place (w : SpecWorld V) (id : ObserverId)
    (spec : Option (TimedDataSpec × TimedDataHeap V)) : Option (SpecWorld V) := do
  let (spec, heap) ← spec
  return ⟨Function.update w.specs id (some spec), heap⟩

def step (I : IntervalUtil) (w : SpecWorld V) : SpecAction → Option (SpecWorld V)
  | .construct id data => w.place id (TimedDataSpec.ofData I w.heap id data)
  | .copyConstruct id other =>
      (w.specs other).bind fun other => w.place id (TimedDataSpec.copy I w.heap id other)
  | .assign id other =>
      if id = other then some w
      else (w.specs other).bind fun other =>
        w.modify id fun spec => spec.assign I w.heap id other
  | .setRange id range => w.modify id fun spec => spec.setRange I w.heap id range
  | .setFrom id first => w.modify id fun spec => spec.setFrom I w.heap id first
  | .setCurrentOnly id => w.modify id fun spec => spec.setCurrentOnly I w.heap id
  | .connect id data => w.modify id fun spec => spec.setData I w.heap id data
  | .reset id => w.modify id fun spec => spec.reset I w.heap id
  | .destroy id => (w.modify id fun spec => spec.reset I w.heap id).map fun w =>
      { w with specs := Function.update w.specs id none }

/-- Objects are constructed where there is none, and used while they live. -/
def Enabled (w : SpecWorld V) : SpecAction → Prop
  | .construct id _ => w.specs id = none
  | .copyConstruct id other => w.specs id = none ∧ w.specs other ≠ none
  | .assign id other => w.specs id ≠ none ∧ w.specs other ≠ none
  | .setRange id _ | .setFrom id _ | .setCurrentOnly id | .connect id _ | .reset id
  | .destroy id => w.specs id ≠ none

/-- Before any handle, time series that nobody observes and that hold whatever
samples they hold. -/
def Unused (w : SpecWorld V) : Prop :=
  (∀ id, w.specs id = none) ∧ ∀ data, (w.heap data).observers = ∅ ∧
    (w.heap data).buffer.observerRanges = [] ∧ (w.heap data).buffer.observedRanges = []

def machine (I : IntervalUtil) (w : SpecWorld V) : Machine (SpecWorld V) SpecAction where
  init := w
  enabled := Enabled
  step := step I

end SpecWorld

/-! ## §4  What a time series knows -/

/-- The keys of a `std::map`. -/
def SortedEntries (entries : List (ObserverId × DateTimeRange)) : Prop :=
  entries.Pairwise fun a b => a.1 < b.1

theorem mem_insertOrAssign_iff {observer : ObserverId} {range : DateTimeRange}
    {entries : List (ObserverId × DateTimeRange)} (h : SortedEntries entries)
    {entry : ObserverId × DateTimeRange} :
    entry ∈ insertOrAssign observer range entries ↔
      entry = (observer, range) ∨ entry ∈ entries ∧ entry.1 ≠ observer := by
  induction entries with
  | nil => simp [insertOrAssign]
  | cons head rest ih =>
      obtain ⟨o, r⟩ := head
      obtain ⟨hhead, hrest⟩ := List.pairwise_cons.mp h
      have hne : ∀ e ∈ rest, o ≤ observer → observer ≤ o → e.1 ≠ observer :=
        fun e he hle hge => (hge.trans_lt (hhead e he)).ne'
      rw [insertOrAssign]
      split
      · rename_i hlt
        have hne : ∀ e ∈ (o, r) :: rest, e.1 ≠ observer := by
          intro e he
          rcases List.mem_cons.mp he with rfl | he
          · exact hlt.ne'
          · exact (hlt.trans (hhead e he)).ne'
        rw [List.mem_cons]
        exact or_congr_right ⟨fun he => ⟨he, hne entry he⟩, And.left⟩
      · split
        · rename_i hlt
          rw [List.mem_cons, ih hrest, List.mem_cons]
          constructor
          · rintro (rfl | rfl | ⟨he, hobserver⟩)
            · exact .inr ⟨.inl rfl, hlt.ne⟩
            · exact .inl rfl
            · exact .inr ⟨.inr he, hobserver⟩
          · rintro (rfl | ⟨rfl | he, hobserver⟩)
            · exact .inr (.inl rfl)
            · exact .inl rfl
            · exact .inr (.inr ⟨he, hobserver⟩)
        · rename_i hge hle
          obtain rfl : observer = o := le_antisymm (not_lt.mp hle) (not_lt.mp hge)
          rw [List.mem_cons, List.mem_cons]
          constructor
          · rintro (rfl | he)
            · exact .inl rfl
            · exact .inr ⟨.inr he, hne entry he le_rfl le_rfl⟩
          · rintro (rfl | ⟨rfl | he, hobserver⟩)
            · exact .inl rfl
            · exact (hobserver rfl).elim
            · exact .inr he

theorem sortedEntries_insertOrAssign {observer : ObserverId} {range : DateTimeRange}
    {entries : List (ObserverId × DateTimeRange)} (h : SortedEntries entries) :
    SortedEntries (insertOrAssign observer range entries) := by
  induction entries with
  | nil => exact List.pairwise_singleton _ _
  | cons head rest ih =>
      obtain ⟨o, r⟩ := head
      obtain ⟨hhead, hrest⟩ := List.pairwise_cons.mp h
      rw [insertOrAssign]
      split
      · rename_i hlt
        refine List.pairwise_cons.mpr ⟨?_, h⟩
        intro e he
        rcases List.mem_cons.mp he with rfl | he
        · exact hlt
        · exact hlt.trans (hhead e he)
      · split
        · rename_i hlt
          refine List.pairwise_cons.mpr ⟨?_, ih hrest⟩
          intro e he
          rcases mem_insertOrAssign he with rfl | he
          · exact hlt
          · exact hhead e he
        · rename_i hge hle
          obtain rfl : observer = o := le_antisymm (not_lt.mp hle) (not_lt.mp hge)
          exact List.pairwise_cons.mpr ⟨hhead, hrest⟩

variable {I : IntervalUtil}

/-- The union of ranges, by the times it holds. -/
theorem covers_unionObserved {ranges result : List DateTimeRange}
    {entries : List (ObserverId × DateTimeRange)} (hvalid : I.areValidIntervals ranges = true)
    (hentries : ∀ entry ∈ entries, entry.2.first ≠ .max → entry.2.first < entry.2.second)
    (h : TimedDataBuffer.unionObserved I ranges entries = some result) (time : DateTime) :
    Covers result time ↔ Covers ranges time ∨
      ∃ entry ∈ entries, entry.2.first ≠ .max ∧ entry.2.Holds time := by
  induction entries generalizing ranges with
  | nil =>
      cases h
      simp
  | cons head entries ih =>
      obtain ⟨observer, range⟩ := head
      have hrest := fun entry hentry =>
        hentries entry (List.mem_cons_of_mem (observer, range) hentry)
      rw [TimedDataBuffer.unionObserved] at h
      split at h
      · rename_i hmax
        obtain ⟨-, h⟩ := check_bind_eq_some.mp h
        have hlt := hentries (observer, range) (List.mem_cons_self ..) hmax
        rw [ih (I.areValid_union _ _ hvalid hlt) hrest h, I.covers_union _ _ hvalid hlt]
        simp [hmax, or_assoc]
      · rename_i hmax
        rw [ih hvalid hrest h]
        simp [not_not.mp hmax]

/-- A time series is observed by exactly the observers with a wanted range. -/
structure ObservedBy (I : IntervalUtil) (wanted : ObserverId → Option DateTimeRange)
    (data : ObservedTimedData V) : Prop where
  observers : ∀ id, id ∈ data.observers ↔ ∃ range, wanted id = some range
  entries : ∀ id range, (id, range) ∈ data.buffer.observerRanges ↔ wanted id = some range
  sorted : SortedEntries data.buffer.observerRanges
  valid : data.buffer.ValidObservers
  observed : TimedDataBuffer.unionObserved I [] data.buffer.observerRanges =
    some data.buffer.observedRanges

theorem updateObservedRanges_eq_some {buffer buffer' : TimedDataBuffer V}
    (h : buffer.updateObservedRanges I = some buffer') :
    buffer'.observerRanges = buffer.observerRanges ∧
      TimedDataBuffer.unionObserved I [] buffer.observerRanges = some buffer'.observedRanges := by
  obtain ⟨observedRanges, hunion, htrim⟩ := Option.bind_eq_some_iff.mp h
  have htrimmed := TimedDataBuffer.trimmed_trimToObservedRanges _ htrim
  exact ⟨htrimmed.observerRanges, by rw [htrimmed.observedRanges, hunion]⟩

namespace ObservedBy

variable {wanted : ObserverId → Option DateTimeRange} {data data' : ObservedTimedData V}
  {id : ObserverId} {range : DateTimeRange}

theorem register (h : ObservedBy I wanted data) (hs : data.register I id range = some data') :
    ObservedBy I (Function.update wanted id (some range)) data' := by
  obtain ⟨buffer, hadd, hs⟩ := Option.bind_eq_some_iff.mp hs
  cases hs
  obtain ⟨hlt, hupdate⟩ := TimedDataBuffer.addObserver_checks hadd
  obtain ⟨hranges, hobserved⟩ := updateObservedRanges_eq_some hupdate
  refine ⟨fun id' => ?_, fun id' range' => ?_, ?_, ?_, ?_⟩
  · by_cases hid : id' = id
    · simp [hid]
    · simpa [hid] using h.observers id'
  · rw [hranges, mem_insertOrAssign_iff h.sorted, h.entries]
    by_cases hid : id' = id
    · simp [hid, eq_comm]
    · simp [hid]
  · rw [hranges]
    exact sortedEntries_insertOrAssign h.sorted
  · rw [TimedDataBuffer.ValidObservers, hranges]
    exact h.valid.insertOrAssign hlt
  · rw [hranges]
    exact hobserved

theorem unregister (h : ObservedBy I wanted data) (hs : data.unregister I id = some data') :
    ObservedBy I (Function.update wanted id none) data' := by
  obtain ⟨buffer, hremove, hs⟩ := Option.bind_eq_some_iff.mp hs
  cases hs
  obtain ⟨hranges, hobserved⟩ := updateObservedRanges_eq_some hremove
  refine ⟨fun id' => ?_, fun id' range' => ?_, ?_, ?_, ?_⟩
  · by_cases hid : id' = id
    · simp [hid]
    · simpa [hid] using h.observers id'
  · rw [hranges, List.mem_filter, h.entries]
    by_cases hid : id' = id
    · simp [hid]
    · simp [hid]
  · rw [hranges]
    exact h.sorted.filter _
  · intro entry hentry
    rw [hranges] at hentry
    exact h.valid entry (List.mem_of_mem_filter hentry)
  · rw [hranges]
    exact hobserved

end ObservedBy

/-! ## §5  One step -/

/-- One observer changes what it wants of each time series, and the heap
follows. -/
def Follows (I : IntervalUtil) (id : ObserverId) (heap : TimedDataHeap V)
    (old new : TimedDataId → Option DateTimeRange) (heap' : TimedDataHeap V) : Prop :=
  ∀ data wanted, ObservedBy I wanted (heap data) → wanted id = old data →
    ObservedBy I (Function.update wanted id (new data)) (heap' data)

namespace Follows

variable {id : ObserverId} {heap heap' heap'' : TimedDataHeap V}
  {old mid new : TimedDataId → Option DateTimeRange}

theorem refl (I : IntervalUtil) (id : ObserverId) (heap : TimedDataHeap V)
    (old : TimedDataId → Option DateTimeRange) : Follows I id heap old old heap := by
  intro data wanted h hold
  rwa [← hold, Function.update_eq_self]

theorem trans (h : Follows I id heap old mid heap') (h' : Follows I id heap' mid new heap'') :
    Follows I id heap old new heap'' := by
  intro data wanted hobserved hold
  have hnew := h' data _ (h data wanted hobserved hold) (Function.update_self ..)
  rwa [Function.update_idem] at hnew

/-- One time series is changed, and what the observer wants of it. -/
theorem modify {data : Option TimedDataId}
    {change : ObservedTimedData V → Option (ObservedTimedData V)} {range : Option DateTimeRange}
    (hchange : ∀ {wanted : ObserverId → Option DateTimeRange} {data data'},
      ObservedBy I wanted data → change data = some data' →
        ObservedBy I (Function.update wanted id range) data')
    (hs : heap.modify data change = some heap') (old : TimedDataId → Option DateTimeRange) :
    Follows I id heap old (fun d => if data = some d then range else old d) heap' := by
  intro d wanted h hold
  cases data with
  | none =>
      cases hs
      simpa [← hold] using h
  | some data =>
      obtain ⟨changed, hchanged, rfl⟩ := Option.map_eq_some_iff.mp hs
      by_cases hd : d = data
      · subst hd
        simpa using hchange h hchanged
      · have hne : data ≠ d := Ne.symm hd
        simpa [hd, hne, ← hold] using h

theorem register {data : Option TimedDataId} {range : DateTimeRange}
    (hs : heap.modify data (·.register I id range) = some heap')
    (old : TimedDataId → Option DateTimeRange) :
    Follows I id heap old (fun d => if data = some d then some range else old d) heap' :=
  modify (fun h => h.register) hs old

theorem unregister {data : Option TimedDataId}
    (hs : heap.modify data (·.unregister I id) = some heap')
    (old : TimedDataId → Option DateTimeRange) :
    Follows I id heap old (fun d => if data = some d then none else old d) heap' :=
  modify (fun h => h.unregister) hs old

end Follows

namespace TimedDataSpec

variable {id : ObserverId} {heap heap' : TimedDataHeap V} {spec spec' other : TimedDataSpec}
  {data : Option TimedDataId} {range : DateTimeRange}

/-- The range to be registered at a time series. -/
def wanted (spec : TimedDataSpec) (data : TimedDataId) : Option DateTimeRange :=
  if spec.data = some data then some spec.range else none

theorem wanted_eq_some {data : TimedDataId} :
    spec.wanted data = some range ↔ spec.data = some data ∧ spec.range = range := by
  unfold wanted
  split <;> simp_all

theorem ofData_follows (h : ofData I heap id data = some (spec', heap')) :
    Follows I id heap (fun _ => none) spec'.wanted heap' := by
  obtain ⟨heap₁, hregister, h⟩ := Option.bind_eq_some_iff.mp h
  cases h
  exact Follows.register hregister _

theorem copy_follows (h : copy I heap id other = some (spec', heap')) :
    Follows I id heap (fun _ => none) spec'.wanted heap' := by
  obtain ⟨heap₁, hregister, h⟩ := Option.bind_eq_some_iff.mp h
  cases h
  exact Follows.register hregister _

theorem setRange_follows (h : setRange I heap id spec range = some (spec', heap')) :
    Follows I id heap spec.wanted spec'.wanted heap' := by
  obtain ⟨-, h⟩ := check_bind_eq_some.mp h
  obtain ⟨-, h⟩ := check_bind_eq_some.mp h
  obtain ⟨-, h⟩ := check_bind_eq_some.mp h
  split at h
  · cases h
    exact Follows.refl _ _ _ _
  · obtain ⟨heap₁, hregister, h⟩ := Option.bind_eq_some_iff.mp h
    cases h
    have hfollows := Follows.register hregister spec.wanted
    have hwanted : (fun d => if spec.data = some d then some range else spec.wanted d) =
        wanted { spec with range := range } := by
      funext d
      unfold wanted
      split <;> rfl
    rwa [hwanted] at hfollows

/-- Another time series takes the place of the one held, where alone anything was
wanted. -/
theorem setData_follows_of_ne (h : setData I heap id spec data = some (spec', heap'))
    (hne : spec.data ≠ data) {old : TimedDataId → Option DateTimeRange}
    (hold : ∀ d, spec.data ≠ some d → old d = none) :
    Follows I id heap old spec'.wanted heap' := by
  unfold setData at h
  rw [if_neg hne] at h
  obtain ⟨heap₁, hregister, h⟩ := Option.bind_eq_some_iff.mp h
  obtain ⟨heap₂, hunregister, h⟩ := Option.bind_eq_some_iff.mp h
  cases h
  have hfollows := (Follows.register hregister old).trans (Follows.unregister hunregister _)
  have hwanted : (fun d => if spec.data = some d then none else
      if data = some d then some spec.range else old d) = wanted { spec with data := data } := by
    funext d
    unfold wanted
    by_cases hd : spec.data = some d
    · have hdata : data ≠ some d := fun hdata => hne (hd.trans hdata.symm)
      simp [hd, hdata]
    · simp [hd, hold d hd]
  rwa [hwanted] at hfollows

theorem setData_eq_some_of_eq (h : setData I heap id spec data = some (spec', heap'))
    (heq : spec.data = data) : spec' = spec ∧ heap' = heap := by
  unfold setData at h
  rw [if_pos heq] at h
  cases h
  exact ⟨rfl, rfl⟩

theorem setData_data (h : setData I heap id spec data = some (spec', heap')) :
    spec'.data = data := by
  by_cases heq : spec.data = data
  · obtain ⟨rfl, -⟩ := setData_eq_some_of_eq h heq
    exact heq
  · unfold setData at h
    rw [if_neg heq] at h
    obtain ⟨heap₁, -, h⟩ := Option.bind_eq_some_iff.mp h
    obtain ⟨heap₂, -, h⟩ := Option.bind_eq_some_iff.mp h
    cases h
    rfl

theorem wanted_eq_none {d : TimedDataId} (h : spec.data ≠ some d) : spec.wanted d = none :=
  if_neg h

theorem setData_follows (h : setData I heap id spec data = some (spec', heap')) :
    Follows I id heap spec.wanted spec'.wanted heap' := by
  by_cases heq : spec.data = data
  · obtain ⟨rfl, rfl⟩ := setData_eq_some_of_eq h heq
    exact Follows.refl _ _ _ _
  · exact setData_follows_of_ne h heq fun d => wanted_eq_none

/-- Assignment keeps the registration up to date unless the time series stays
and the range does not. -/
theorem assign_follows (h : assign I heap id spec other = some (spec', heap'))
    (hrange : spec.data = other.data → spec.data ≠ none → spec.range = other.range) :
    Follows I id heap spec.wanted spec'.wanted heap' := by
  unfold assign at h
  by_cases heq : spec.data = other.data
  · obtain ⟨rfl, rfl⟩ := setData_eq_some_of_eq h heq
    have hwanted : wanted { spec with range := other.range } = spec.wanted := by
      funext d
      unfold wanted
      split
      · rename_i hd
        simp [hrange heq (by simp_all)]
      · rfl
    rw [hwanted]
    exact Follows.refl _ _ _ _
  · exact setData_follows_of_ne h heq fun d hd => wanted_eq_none hd

end TimedDataSpec

namespace SpecWorld

variable {w w' : SpecWorld V} {id : ObserverId} {a : SpecAction}

/-- Every handle is registered where its data is, once as an observer and once
as a view observer with its range, and nowhere else. -/
structure Registered (w : SpecWorld V) : Prop where
  observer : ∀ id data, id ∈ (w.heap data).observers ↔
    ∃ spec, w.specs id = some spec ∧ spec.data = some data
  viewObserver : ∀ id data range, (id, range) ∈ (w.heap data).buffer.observerRanges ↔
    ∃ spec, w.specs id = some spec ∧ spec.data = some data ∧ spec.range = range
  once : ∀ data, ((w.heap data).buffer.observerRanges.map Prod.fst).Nodup
  observed : ∀ data time, Covers (w.heap data).buffer.observedRanges time ↔
    ∃ id spec, w.specs id = some spec ∧ spec.data = some data ∧
      spec.range.first ≠ TimedDataSpec.currentOnly ∧ spec.range.Holds time

def wanted (w : SpecWorld V) (data : TimedDataId) (id : ObserverId) : Option DateTimeRange :=
  (w.specs id).bind fun spec => spec.wanted data

def Inv (I : IntervalUtil) (w : SpecWorld V) : Prop :=
  ∀ data, ObservedBy I (w.wanted data) (w.heap data)

theorem wanted_eq_some {data : TimedDataId} {range : DateTimeRange} :
    w.wanted data id = some range ↔
      ∃ spec, w.specs id = some spec ∧ spec.data = some data ∧ spec.range = range := by
  simp [wanted, Option.bind_eq_some_iff, TimedDataSpec.wanted_eq_some]

theorem Inv.registered (h : Inv I w) : w.Registered where
  observer id data := by
    rw [(h data).observers]
    simp [wanted_eq_some]
  viewObserver id data range := by rw [(h data).entries, wanted_eq_some]
  once data := by
    refine List.pairwise_map.mpr ((h data).sorted.imp fun hlt => hlt.ne)
  observed data time := by
    have hcovers := covers_unionObserved I.areValid_nil (h data).valid (h data).observed time
    rw [hcovers]
    constructor
    · rintro (hnil | ⟨⟨id, range⟩, hentry, hmax, hholds⟩)
      · exact (covers_nil time hnil).elim
      · obtain ⟨spec, hspec, hdata, rfl⟩ := wanted_eq_some.mp (((h data).entries id range).mp hentry)
        exact ⟨id, spec, hspec, hdata, hmax, hholds⟩
    · rintro ⟨id, spec, hspec, hdata, hmax, hholds⟩
      have hentry := ((h data).entries id spec.range).mpr
        (wanted_eq_some.mpr ⟨spec, hspec, hdata, rfl⟩)
      exact .inr ⟨(id, spec.range), hentry, hmax, hholds⟩

theorem Unused.inv (h : w.Unused) : Inv I w := by
  intro data
  obtain ⟨hobservers, hranges, hobserved⟩ := h.2 data
  have hnone : ∀ id, w.wanted data id = none := fun id => by simp [wanted, h.1 id]
  refine ⟨fun id => ?_, fun id range => ?_, ?_, ?_, ?_⟩
  · simp [hobservers, hnone]
  · simp [hranges, hnone]
  · simp [hranges, SortedEntries]
  · simp [TimedDataBuffer.ValidObservers, hranges]
  · simp [hranges, hobserved, TimedDataBuffer.unionObserved]

/-- The heap follows one handle, or the end of one. -/
theorem Inv.follows (h : Inv I w) {heap : TimedDataHeap V} (spec : Option TimedDataSpec)
    (hfollows : Follows I id w.heap (fun data => w.wanted data id)
      (fun data => spec.bind fun spec => spec.wanted data) heap) :
    Inv I ⟨Function.update w.specs id spec, heap⟩ := by
  intro data
  have hwanted : wanted ⟨Function.update w.specs id spec, heap⟩ data =
      Function.update (w.wanted data) id (spec.bind fun spec => spec.wanted data) := by
    funext id'
    by_cases hid : id' = id
    · subst hid
      simp [wanted]
    · simp [wanted, hid]
  rw [hwanted]
  exact hfollows data _ (h data) rfl

theorem wanted_of_specs {spec : TimedDataSpec} (h : w.specs id = some spec) :
    (fun data => w.wanted data id) = spec.wanted := by
  funext data
  simp [wanted, h]

theorem wanted_of_specs_none (h : w.specs id = none) :
    (fun data => w.wanted data id) = fun _ => none := by
  funext data
  simp [wanted, h]

theorem Inv.place (h : Inv I w) (hid : w.specs id = none)
    {result : Option (TimedDataSpec × TimedDataHeap V)} (hs : w.place id result = some w')
    (hresult : ∀ spec heap, result = some (spec, heap) →
      Follows I id w.heap (fun _ => none) spec.wanted heap) : Inv I w' := by
  obtain ⟨⟨spec, heap⟩, hspec, hs⟩ := Option.bind_eq_some_iff.mp hs
  cases hs
  refine h.follows (some spec) ?_
  rw [wanted_of_specs_none hid]
  exact hresult spec heap hspec

theorem Inv.modify (h : Inv I w)
    {f : TimedDataSpec → Option (TimedDataSpec × TimedDataHeap V)}
    (hs : w.modify id f = some w')
    (hf : ∀ spec spec' heap, w.specs id = some spec → f spec = some (spec', heap) →
      Follows I id w.heap spec.wanted spec'.wanted heap) : Inv I w' := by
  obtain ⟨spec, hspec, hs⟩ := Option.bind_eq_some_iff.mp hs
  obtain ⟨⟨spec', heap⟩, hspec', hs⟩ := Option.bind_eq_some_iff.mp hs
  cases hs
  refine h.follows (some spec') ?_
  rw [wanted_of_specs hspec]
  exact hf spec spec' heap hspec hspec'

/-- No handle is assigned another one of the same time series with a different
range. -/
def KeepsRange (w : SpecWorld V) : SpecAction → Prop
  | .assign id other => ∀ spec ∈ w.specs id, ∀ spec' ∈ w.specs other,
      spec.data = spec'.data → spec.data ≠ none → spec.range = spec'.range
  | _ => True

theorem Inv.step (h : Inv I w) (hen : w.Enabled a) (hok : w.KeepsRange a)
    (hs : w.step I a = some w') : Inv I w' := by
  cases a with
  | construct id data =>
      exact h.place hen hs fun spec heap hspec => TimedDataSpec.ofData_follows hspec
  | copyConstruct id other =>
      obtain ⟨spec, -, hs⟩ := Option.bind_eq_some_iff.mp hs
      exact h.place hen.1 hs fun spec heap hspec => TimedDataSpec.copy_follows hspec
  | assign id other =>
      simp only [SpecWorld.step] at hs
      split at hs
      · cases hs
        exact h
      · obtain ⟨spec', hspec', hs⟩ := Option.bind_eq_some_iff.mp hs
        refine h.modify hs fun spec spec'' heap hspec hassign => ?_
        exact TimedDataSpec.assign_follows hassign (hok spec hspec spec' hspec')
  | setRange id range => exact h.modify hs fun _ _ _ _ => TimedDataSpec.setRange_follows
  | setFrom id first => exact h.modify hs fun _ _ _ _ => TimedDataSpec.setRange_follows
  | setCurrentOnly id => exact h.modify hs fun _ _ _ _ => TimedDataSpec.setRange_follows
  | connect id data => exact h.modify hs fun _ _ _ _ => TimedDataSpec.setData_follows
  | reset id => exact h.modify hs fun _ _ _ _ => TimedDataSpec.setData_follows
  | destroy id =>
      obtain ⟨w₁, hreset, rfl⟩ := Option.map_eq_some_iff.mp hs
      have hinv : Inv I w₁ := h.modify hreset fun _ _ _ _ => TimedDataSpec.setData_follows
      have hnothing : (fun data => w₁.wanted data id) = fun _ => none := by
        obtain ⟨spec, -, hreset⟩ := Option.bind_eq_some_iff.mp hreset
        obtain ⟨⟨spec', heap⟩, hspec', hreset⟩ := Option.bind_eq_some_iff.mp hreset
        cases hreset
        funext data
        simp [wanted, TimedDataSpec.wanted, TimedDataSpec.setData_data hspec']
      refine hinv.follows none ?_
      rw [hnothing]
      exact Follows.refl _ _ _ _

/-- An assignment that leaves the registration behind. -/
theorem Registered.keepsRange (h : w.Registered) (h' : w'.Registered)
    (hs : w.step I a = some w') : w.KeepsRange a := by
  cases a with
  | assign id other =>
      intro spec hspec spec' hspec' hdata hnone
      simp only [SpecWorld.step] at hs
      split at hs
      · rename_i hself
        subst hself
        rw [Option.some.inj (Eq.trans (Eq.symm hspec) hspec')]
      · obtain ⟨data, hheld⟩ := Option.ne_none_iff_exists'.mp hnone
        rw [Option.mem_def.mp hspec', Option.bind_some] at hs
        obtain ⟨spec₁, hspec₁, hs⟩ := Option.bind_eq_some_iff.mp hs
        obtain rfl := Option.some.inj (Eq.trans (Eq.symm hspec) hspec₁)
        obtain ⟨⟨spec₂, heap⟩, hassign, hs⟩ := Option.bind_eq_some_iff.mp hs
        cases hs
        obtain ⟨rfl, rfl⟩ := TimedDataSpec.setData_eq_some_of_eq hassign hdata
        -- The entry from before must be that of the new range.
        have hentry := (h.viewObserver id data spec.range).mpr ⟨spec, hspec, hheld, rfl⟩
        obtain ⟨spec₃, hspec₃, -, hrange⟩ := (h'.viewObserver id data spec.range).mp hentry
        simp only [Function.update_self, Option.some.injEq] at hspec₃
        rw [← hrange, ← hspec₃]
  | _ => trivial

/-! ## §6  Runs -/

/-- From any time series without observers, through any operations on any
number of handles. -/
theorem specs_registered {start : SpecWorld V} (hstart : start.Unused)
    (h : (machine I start).Reaches KeepsRange w) :
    w.Registered ∧ ∀ a w', w.Enabled a → w.step I a = some w' →
      (w'.Registered ↔ w.KeepsRange a) := by
  have hinv : Inv I w :=
    h.invariant hstart.inv fun _ _ _ ht hen hok hs => ht.step hen hok hs
  refine ⟨hinv.registered, fun a w' hen hs => ⟨fun h' => ?_, fun hok => ?_⟩⟩
  · exact hinv.registered.keepsRange h' hs
  · exact (hinv.step hen hok hs).registered

instance (w : SpecWorld V) : ∀ a, Decidable (w.Enabled a)
  | .construct id _ => inferInstanceAs (Decidable (w.specs id = none))
  | .copyConstruct id other => inferInstanceAs (Decidable (w.specs id = none ∧ w.specs other ≠ none))
  | .assign id other => inferInstanceAs (Decidable (w.specs id ≠ none ∧ w.specs other ≠ none))
  | .setRange id _ | .setFrom id _ | .setCurrentOnly id | .connect id _ | .reset id
  | .destroy id => inferInstanceAs (Decidable (w.specs id ≠ none))

instance (start w : SpecWorld V) (a : SpecAction) : Decidable ((machine I start).enabled w a) :=
  inferInstanceAs (Decidable (w.Enabled a))

instance (w : SpecWorld V) : ∀ a, Decidable (w.KeepsRange a)
  | .assign id other => inferInstanceAs (Decidable (∀ spec ∈ w.specs id, ∀ spec' ∈ w.specs other,
      spec.data = spec'.data → spec.data ≠ none → spec.range = spec'.range))
  | .construct .. | .copyConstruct .. | .setRange .. | .setFrom .. | .setCurrentOnly ..
  | .connect .. | .reset .. | .destroy .. => inferInstanceAs (Decidable True)

/-- No handles, and time series without samples. -/
def empty : SpecWorld ℕ := ⟨fun _ => none, fun _ => {}⟩

theorem unused_empty : empty.Unused :=
  ⟨fun _ => rfl, fun _ => ⟨rfl, rfl, rfl⟩⟩

/-- Two handles end up at two time series with the same range. -/
theorem specs_registered_assigned : ∃ w : SpecWorld ℕ,
    w.specs 1 = some ⟨some 6, ⟨10, .max⟩⟩ ∧ w.specs 2 = some ⟨some 5, ⟨10, .max⟩⟩ ∧
      w.Registered := by
  obtain ⟨w, hw, hp⟩ := Machine.exists_reaches_of_exec (M := machine apartIntervals empty)
    KeepsRange
    (p := fun w => decide (w.specs 1 = some ⟨some 6, ⟨10, .max⟩⟩ ∧
      w.specs 2 = some ⟨some 5, ⟨10, .max⟩⟩))
    [.construct 1 (some 5), .setFrom 1 10, .construct 2 none, .assign 2 1, .connect 1 (some 6)]
    (by decide)
  obtain ⟨hfirst, hsecond⟩ := of_decide_eq_true hp
  exact ⟨w, hfirst, hsecond, (specs_registered unused_empty hw).1⟩

/-- Both handles are at one time series. Assignment copies the range, finds the
same data and returns: history is reported and not observed. -/
theorem assigned_range_is_not_observed : ∃ w : SpecWorld ℕ,
    (machine apartIntervals empty).Reachable w ∧
      w.specs 2 = some ⟨some 5, ⟨10, .max⟩⟩ ∧ w.specs 1 = none ∧
      (w.heap 5).buffer.observerRanges = [(2, ⟨.max, .max⟩)] ∧
      (w.heap 5).buffer.observedRanges = [] := by
  obtain ⟨w, hw, hp⟩ := Machine.exists_reachable_of_exec (M := machine apartIntervals empty)
    (p := fun w => decide (w.specs 2 = some ⟨some 5, ⟨10, .max⟩⟩ ∧ w.specs 1 = none ∧
      (w.heap 5).buffer.observerRanges = [(2, ⟨.max, .max⟩)] ∧
      (w.heap 5).buffer.observedRanges = []))
    [.construct 1 (some 5), .construct 2 (some 5), .setFrom 1 10, .assign 2 1, .destroy 1]
    (by decide)
  exact ⟨w, hw, of_decide_eq_true hp⟩

end SpecWorld

end ScadaCommon
