import ScadaCommon.TimedData.BufferActions

/-!
# Update scopes

While a `BeginUpdate` scope is open a buffer only remembers in which range its
samples changed; when the outermost scope ends it notifies the observers of the
samples that are in that range then. The scopes are guards that can be moved, so
the number of open scopes is the number of guards that hold the buffer.

§1 views and ranges · §2 the buffer with its batch · §3 guards · §4 what changes
· §5 the steps · §6 a scope from its begin to its end.
-/

namespace ScadaCommon

open Foundation TimedDataBuffer

variable {V : Type} {I : IntervalUtil}

/-! ## §1  Views and ranges -/

/-- `BasicTimedDataView::from`. -/
def viewFrom (values : List (DataValue V)) (start : DateTime) : List (DataValue V) :=
  if start = .null then values else values.drop (lowerBound values start)

/-- `BasicTimedDataView::until`. -/
def viewUntil (values : List (DataValue V)) (finish : DateTime) : List (DataValue V) :=
  if finish = .null then values else values.take (upperBound values finish)

/-- `BasicTimedDataView::slice`. -/
def viewSlice (values : List (DataValue V)) (range : DateTimeRange) : List (DataValue V) :=
  viewUntil (viewFrom values range.first) range.second

def unionRange (a b : DateTimeRange) : DateTimeRange where
  first := min a.first b.first
  second := if a.second = .null ∨ b.second = .null then .null else max a.second b.second

/-- The time is in the range; a null `second` means no upper bound. -/
def DateTimeRange.Spans (range : DateTimeRange) (time : DateTime) : Prop :=
  range.first ≤ time ∧ (range.second = .null ∨ time ≤ range.second)

theorem viewSlice_isInfix (values : List (DataValue V)) (range : DateTimeRange) :
    viewSlice values range <:+: values := by
  have hfrom : viewFrom values range.first <:+ values := by
    unfold viewFrom
    split
    · exact List.suffix_refl _
    · exact List.drop_suffix _ _
  have huntil : viewSlice values range <+: viewFrom values range.first := by
    unfold viewSlice viewUntil
    split
    · exact List.prefix_refl _
    · exact List.take_prefix _ _
  exact huntil.isInfix.trans hfrom.isInfix

/-- A slice has all samples of its range. -/
theorem mem_viewSlice {values : List (DataValue V)} {range : DateTimeRange} {v : DataValue V}
    (h : TimeSorted values) (hv : v ∈ values) (hspans : range.Spans v.timestamp) :
    v ∈ viewSlice values range := by
  have hfrom : v ∈ viewFrom values range.first := by
    unfold viewFrom
    split
    · exact hv
    · rw [drop_lowerBound h]
      exact List.mem_filter.mpr ⟨hv, decide_eq_true hspans.1⟩
  unfold viewSlice viewUntil
  split
  · exact hfrom
  · rename_i hnull
    have hsorted : TimeSorted (viewFrom values range.first) := by
      unfold viewFrom
      split
      · exact h
      · exact h.sublist (List.drop_sublist _ _)
    rw [take_upperBound hsorted]
    exact List.mem_filter.mpr ⟨hfrom, decide_eq_true (hspans.2.resolve_left hnull)⟩

theorem spans_unionRange {a b : DateTimeRange} {time : DateTime}
    (h : a.Spans time ∨ b.Spans time) : (unionRange a b).Spans time := by
  rcases h with ⟨hfirst, hsecond⟩ | ⟨hfirst, hsecond⟩
  · refine ⟨(min_le_left _ _).trans hfirst, ?_⟩
    unfold unionRange
    dsimp only
    split
    · exact Or.inl rfl
    · rename_i hnull
      rw [not_or] at hnull
      exact Or.inr ((hsecond.resolve_left hnull.1).trans (le_max_left _ _))
  · refine ⟨(min_le_right _ _).trans hfirst, ?_⟩
    unfold unionRange
    dsimp only
    split
    · exact Or.inl rfl
    · rename_i hnull
      rw [not_or] at hnull
      exact Or.inr ((hsecond.resolve_left hnull.2).trans (le_max_right _ _))

/-! ## §2  The buffer with its batch -/

/-- The range of which a call notifies, `none` when it changes nothing. -/
def TimedDataBuffer.changedRange (buffer : TimedDataBuffer V) : BufferAction V → Option DateTimeRange
  | .insertOrUpdate value =>
      if (buffer.insertOrUpdate value).2 then some ⟨value.timestamp, value.timestamp⟩ else none
  | .replaceRange values =>
      match (sanitize values).head?, (sanitize values).getLast? with
      | some front, some back => some ⟨front.timestamp, back.timestamp⟩
      | _, _ => none
  | .clearRange range =>
      if (buffer.clearBounds range).1 = (buffer.clearBounds range).2 then none else some range
  | _ => none

structure BatchedBuffer (V : Type) where
  buffer : TimedDataBuffer V := {}
  batchDepth : ℕ := 0
  dirty : Option DateTimeRange := none
  /-- What the observers were notified of, the oldest first. -/
  notified : List (List (DataValue V)) := []

namespace BatchedBuffer

def notifyRange (b : BatchedBuffer V) (range : DateTimeRange) : BatchedBuffer V :=
  let slice := viewSlice b.buffer.values range
  if slice.isEmpty then b else { b with notified := b.notified ++ [slice] }

def markDirty (b : BatchedBuffer V) (range : DateTimeRange) : BatchedBuffer V :=
  if 0 < b.batchDepth then
    { b with dirty := some (b.dirty.elim range (unionRange · range)) }
  else b.notifyRange range

def endBatch (b : BatchedBuffer V) : Option (BatchedBuffer V) := do
  check (0 < b.batchDepth)
  let b := { b with batchDepth := b.batchDepth - 1 }
  if b.batchDepth = 0 then
    match b.dirty with
    | some range => return { b with dirty := none }.notifyRange range
    | none => return b
  else return b

def call (I : IntervalUtil) (b : BatchedBuffer V) (a : BufferAction V) :
    Option (BatchedBuffer V) := do
  let buffer ← b.buffer.step I a
  match b.buffer.changedRange a with
  | some range => return { b with buffer }.markDirty range
  | none => return { b with buffer }

end BatchedBuffer

/-! ## §3  Guards -/

abbrev ScopeId := ℕ

structure UpdateWorld (V : Type) where
  batched : BatchedBuffer V := {}
  /-- The `ScopedUpdateBatch` objects. -/
  scopes : Finset ScopeId := ∅
  /-- Those whose `buffer_` is set. -/
  holding : Finset ScopeId := ∅
  /-- The samples inserted or overwritten since the outermost scope began. -/
  changed : List (DataValue V) := []

inductive UpdateAction (V : Type) where
  | beginUpdate (scope : ScopeId)
  /-- `ScopedUpdateBatch{}`. -/
  | construct (scope : ScopeId)
  | moveConstruct (scope source : ScopeId)
  | moveAssign (scope source : ScopeId)
  | destroy (scope : ScopeId)
  | call (a : BufferAction V)

/-- The samples a call inserts or overwrites. -/
def TimedDataBuffer.changedSamples (buffer : TimedDataBuffer V) :
    BufferAction V → List (DataValue V)
  | .insertOrUpdate value => if (buffer.insertOrUpdate value).2 then [value] else []
  | .replaceRange values => sanitize values
  | _ => []

namespace UpdateWorld

def enabled (w : UpdateWorld V) : UpdateAction V → Prop
  | .beginUpdate scope => scope ∉ w.scopes
  | .construct scope => scope ∉ w.scopes
  | .moveConstruct scope source => scope ∉ w.scopes ∧ source ∈ w.scopes
  | .moveAssign scope source => scope ∈ w.scopes ∧ source ∈ w.scopes
  | .destroy scope => scope ∈ w.scopes
  | .call _ => True

instance (w : UpdateWorld V) (a : UpdateAction V) : Decidable (w.enabled a) := by
  unfold enabled
  split <;> infer_instance

/-- `Close`. -/
def close (w : UpdateWorld V) (scope : ScopeId) : Option (UpdateWorld V) :=
  if scope ∈ w.holding then do
    let batched ← w.batched.endBatch
    return { w with batched, holding := w.holding.erase scope }
  else some w

/-- The guard gets the buffer of another one. -/
def take (w : UpdateWorld V) (scope source : ScopeId) : UpdateWorld V :=
  { w with
    holding :=
      if source ∈ w.holding then insert scope (w.holding.erase source) else w.holding.erase scope }

def step (I : IntervalUtil) (w : UpdateWorld V) : UpdateAction V → Option (UpdateWorld V)
  | .beginUpdate scope =>
      some { w with
        batched := { w.batched with batchDepth := w.batched.batchDepth + 1 }
        scopes := insert scope w.scopes
        holding := insert scope w.holding
        changed := if w.batched.batchDepth = 0 then [] else w.changed }
  | .construct scope => some { w with scopes := insert scope w.scopes }
  | .moveConstruct scope source =>
      some ({ w with scopes := insert scope w.scopes }.take scope source)
  | .moveAssign scope source =>
      if scope = source then some w
      else do
        let w ← w.close scope
        return w.take scope source
  | .destroy scope => do
      let w ← w.close scope
      return { w with scopes := w.scopes.erase scope }
  | .call a => do
      let batched ← w.batched.call I a
      return { w with
        batched
        changed :=
          if 0 < w.batched.batchDepth then w.batched.buffer.changedSamples a ++ w.changed
          else w.changed }

end UpdateWorld

def updateMachine (I : IntervalUtil) : Machine (UpdateWorld V) (UpdateAction V) :=
  ⟨{}, UpdateWorld.enabled, UpdateWorld.step I⟩

instance (I : IntervalUtil) (w : UpdateWorld V) (a : UpdateAction V) :
    Decidable ((updateMachine I).enabled w a) :=
  inferInstanceAs (Decidable (w.enabled a))

/-! ## §4  What changes -/

/-- The range of a call has the samples the call changes. -/
theorem spans_changedRange {buffer : TimedDataBuffer V} {a : BufferAction V} {v : DataValue V}
    (hv : v ∈ buffer.changedSamples a) :
    ∃ range ∈ buffer.changedRange a, range.Spans v.timestamp := by
  cases a with
  | insertOrUpdate value =>
      unfold changedSamples at hv
      unfold changedRange
      dsimp only at hv ⊢
      split at hv
      · rename_i happlied
        rw [List.mem_singleton.mp hv, if_pos happlied]
        exact ⟨_, rfl, le_refl _, Or.inr (le_refl _)⟩
      · cases hv
  | replaceRange values =>
      have hne : sanitize values ≠ [] := List.ne_nil_of_mem hv
      obtain ⟨front, hfront⟩ := Option.isSome_iff_exists.mp (List.isSome_head?.mpr hne)
      obtain ⟨back, hback⟩ := Option.isSome_iff_exists.mp (List.getLast?_isSome.mpr hne)
      obtain ⟨hfirst, hlast⟩ := (timeSorted_sanitize values).mem_range hfront hback hv
      refine ⟨⟨front.timestamp, back.timestamp⟩, ?_, hfirst, Or.inr hlast⟩
      unfold changedRange
      dsimp only
      rw [hfront, hback]
      rfl
  | clearRange range => cases hv
  | addReadyRange range => cases hv
  | addObserver observer range => cases hv
  | removeObserver observer => cases hv
  | setRetention retention => cases hv

/-- What a scope owes its observers when it ends: nothing, or one contiguous run
with all changed samples that are still there. -/
def Flushed (changed : List (DataValue V)) (b b' : BatchedBuffer V) : Prop :=
  (b'.notified = b.notified ∧ ∀ v ∈ changed, v ∉ b'.buffer.values) ∨
    ∃ samples, b'.notified = b.notified ++ [samples] ∧ samples <:+: b'.buffer.values ∧
      ∀ v ∈ changed, v ∈ b'.buffer.values → v ∈ samples

namespace BatchedBuffer

variable {b b' : BatchedBuffer V}

@[simp] theorem notifyRange_buffer (b : BatchedBuffer V) (range : DateTimeRange) :
    (b.notifyRange range).buffer = b.buffer := by
  unfold notifyRange
  dsimp only
  split <;> rfl

@[simp] theorem notifyRange_batchDepth (b : BatchedBuffer V) (range : DateTimeRange) :
    (b.notifyRange range).batchDepth = b.batchDepth := by
  unfold notifyRange
  dsimp only
  split <;> rfl

@[simp] theorem notifyRange_dirty (b : BatchedBuffer V) (range : DateTimeRange) :
    (b.notifyRange range).dirty = b.dirty := by
  unfold notifyRange
  dsimp only
  split <;> rfl

/-- **One notification covers a range.** -/
theorem flushed_notifyRange {changed : List (DataValue V)} {range : DateTimeRange}
    (hsorted : TimeSorted b.buffer.values)
    (hcovered : ∀ v ∈ changed, range.Spans v.timestamp) :
    Flushed changed b (b.notifyRange range) := by
  unfold notifyRange
  dsimp only
  split
  · rename_i hempty
    refine Or.inl ⟨rfl, ?_⟩
    intro v hv hmem
    have hslice := mem_viewSlice hsorted hmem (hcovered v hv)
    rw [List.isEmpty_iff.mp hempty] at hslice
    cases hslice
  · exact Or.inr ⟨_, rfl, viewSlice_isInfix _ _, fun v hv hmem =>
      mem_viewSlice hsorted hmem (hcovered v hv)⟩

/-- What the buffer remembers of an open batch. -/
structure Batching (b : BatchedBuffer V) (changed : List (DataValue V)) : Prop where
  sorted : TimeSorted b.buffer.values
  clean : b.batchDepth = 0 → b.dirty = none
  covered : 0 < b.batchDepth → ∀ v ∈ changed, ∃ range ∈ b.dirty, range.Spans v.timestamp

/-- **The end of a batch**: the outermost one notifies. -/
theorem Batching.endBatch {changed : List (DataValue V)} (h : b.Batching changed)
    (hend : b.endBatch = some b') :
    0 < b.batchDepth ∧ b'.batchDepth = b.batchDepth - 1 ∧ b'.Batching changed ∧
      (0 < b'.batchDepth → b'.notified = b.notified) ∧
      (b'.batchDepth = 0 → Flushed changed b b') := by
  obtain ⟨hdepth, hend⟩ := check_bind_eq_some.mp hend
  refine ⟨hdepth, ?_⟩
  dsimp only at hend
  split at hend
  · rename_i hzero
    split at hend
    -- The outermost scope ends: the one notification is of all that is dirty.
    · rename_i range hdirty
      cases hend
      have hcovered : ∀ v ∈ changed, range.Spans v.timestamp := by
        intro v hv
        obtain ⟨range', hrange', hspans⟩ := h.covered hdepth v hv
        rw [Option.mem_def, hdirty] at hrange'
        cases hrange'
        exact hspans
      refine ⟨by simp, ⟨?_, ?_, ?_⟩, ?_, ?_⟩
      · rw [notifyRange_buffer]
        exact h.sorted
      · intro _
        rw [notifyRange_dirty]
      · intro hpos
        rw [notifyRange_batchDepth] at hpos
        exact absurd hzero hpos.ne'
      · intro hpos
        rw [notifyRange_batchDepth] at hpos
        exact absurd hzero hpos.ne'
      · intro _
        exact flushed_notifyRange (b := { b with batchDepth := b.batchDepth - 1, dirty := none })
          h.sorted hcovered
    -- Nothing is dirty, so nothing was changed.
    · rename_i hdirty
      cases hend
      refine ⟨rfl, ⟨h.sorted, fun _ => hdirty, ?_⟩, fun _ => rfl, ?_⟩
      · intro hpos
        exact absurd hzero hpos.ne'
      · intro _
        refine Or.inl ⟨rfl, ?_⟩
        intro v hv
        obtain ⟨range, hrange, -⟩ := h.covered hdepth v hv
        rw [Option.mem_def, hdirty] at hrange
        cases hrange
  · rename_i hne
    cases hend
    refine ⟨rfl, ⟨h.sorted, fun hzero => absurd hzero hne, fun _ => h.covered hdepth⟩,
      fun _ => rfl, fun hzero => absurd hzero hne⟩

/-- **A call in an open batch** notifies nobody and remembers what it changes. -/
theorem Batching.call {changed : List (DataValue V)} {a : BufferAction V} (h : b.Batching changed)
    (hcall : b.call I a = some b') :
    b'.batchDepth = b.batchDepth ∧
      b'.Batching (if 0 < b.batchDepth then b.buffer.changedSamples a ++ changed else changed) ∧
      (0 < b.batchDepth → b'.notified = b.notified) := by
  obtain ⟨buffer, hstep, hcall⟩ := Option.bind_eq_some_iff.mp hcall
  have hsorted := timeSorted_step h.sorted hstep
  split at hcall
  · rename_i range hrange
    cases hcall
    unfold markDirty
    split
    -- In a batch the range joins the dirty one, outside of it is notified at once.
    · rename_i hdepth
      have hdepth : 0 < b.batchDepth := hdepth
      refine ⟨rfl, ⟨hsorted, fun hzero => absurd hzero hdepth.ne', fun _ => ?_⟩, fun _ => rfl⟩
      intro v hv
      refine ⟨_, rfl, ?_⟩
      rcases List.mem_append.mp hv with hv | hv
      · obtain ⟨range', hrange', hspans⟩ := spans_changedRange hv
        rw [Option.mem_def, hrange] at hrange'
        cases hrange'
        cases hdirty : b.dirty with
        | none => exact hspans
        | some dirty => exact spans_unionRange (Or.inr hspans)
      · obtain ⟨dirty, hdirty, hspans⟩ := h.covered hdepth v hv
        rw [Option.mem_def] at hdirty
        show (b.dirty.elim range (unionRange · range)).Spans v.timestamp
        rw [hdirty]
        exact spans_unionRange (Or.inl hspans)
    · rename_i hdepth
      have hdepth : ¬ 0 < b.batchDepth := hdepth
      refine ⟨by simp, ⟨?_, ?_, ?_⟩, fun hpos => absurd hpos hdepth⟩
      · rw [notifyRange_buffer]
        exact hsorted
      · intro _
        rw [notifyRange_dirty]
        exact h.clean (by omega)
      · intro hpos
        rw [notifyRange_batchDepth] at hpos
        exact absurd hpos hdepth
  · rename_i hrange
    cases hcall
    refine ⟨rfl, ⟨hsorted, h.clean, fun hdepth => ?_⟩, fun _ => rfl⟩
    have hdepth : 0 < b.batchDepth := hdepth
    rw [if_pos hdepth]
    intro v hv
    rcases List.mem_append.mp hv with hv | hv
    · obtain ⟨range, hrange', -⟩ := spans_changedRange hv
      rw [Option.mem_def, hrange] at hrange'
      cases hrange'
    · exact h.covered hdepth v hv

end BatchedBuffer

/-! ## §5  The steps -/

namespace UpdateWorld

variable {w w' : UpdateWorld V} {scope : ScopeId}

/-- The depth of the batch is the number of guards that hold the buffer. -/
structure UpdateInv (w : UpdateWorld V) : Prop where
  batching : w.batched.Batching w.changed
  depth : w.batched.batchDepth = w.holding.card
  subset : w.holding ⊆ w.scopes

/-- While a scope is open nobody is notified, and the end of the outermost one
owes what it owes. -/
def Announces (w w' : UpdateWorld V) : Prop :=
  w.holding.Nonempty →
    (w'.holding.Nonempty → w'.batched.notified = w.batched.notified) ∧
      (w'.holding = ∅ → Flushed w.changed w.batched w'.batched)

/-- A step after which as many guards hold the buffer as before. -/
theorem announces_of_card (hcard : w'.holding.card = w.holding.card)
    (hnotified : w.holding.Nonempty → w'.batched.notified = w.batched.notified) :
    Announces w w' := by
  intro hopen
  refine ⟨fun _ => hnotified hopen, ?_⟩
  intro hclosed
  rw [hclosed, Finset.card_empty] at hcard
  exact absurd hcard.symm (Finset.card_pos.mpr hopen).ne'

theorem UpdateInv.close (h : UpdateInv w) (hclose : w.close scope = some w') :
    UpdateInv w' ∧ Announces w w' ∧ w'.holding = w.holding.erase scope ∧
      w'.scopes = w.scopes ∧ w'.changed = w.changed := by
  unfold UpdateWorld.close at hclose
  split at hclose
  · rename_i hmem
    obtain ⟨batched, hend, hclose⟩ := Option.bind_eq_some_iff.mp hclose
    cases hclose
    obtain ⟨-, hdepth, hbatching, hnotified, hflushed⟩ := h.batching.endBatch hend
    have hcard : batched.batchDepth = (w.holding.erase scope).card := by
      rw [hdepth, h.depth, Finset.card_erase_of_mem hmem]
    refine ⟨⟨hbatching, hcard, (Finset.erase_subset _ _).trans h.subset⟩, ?_, rfl, rfl, rfl⟩
    intro _
    constructor
    · intro hopen
      refine hnotified ?_
      rw [hcard]
      exact Finset.card_pos.mpr hopen
    · intro hclosed
      refine hflushed ?_
      rw [hcard]
      exact Finset.card_eq_zero.mpr hclosed
  · rename_i hmem
    cases hclose
    exact ⟨h, announces_of_card rfl fun _ => rfl, (Finset.erase_eq_of_notMem hmem).symm, rfl, rfl⟩

/-- A move hands the buffer on. -/
theorem UpdateInv.take (h : UpdateInv w) (source : ScopeId) (hscope : scope ∉ w.holding)
    (hmem : scope ∈ w.scopes) :
    UpdateInv (w.take scope source) ∧ (w.take scope source).holding.card = w.holding.card := by
  have hcard : (w.take scope source).holding.card = w.holding.card := by
    unfold UpdateWorld.take
    dsimp only
    split
    · rename_i hsource
      have hnew : scope ∉ w.holding.erase source := fun hin => hscope (Finset.mem_of_mem_erase hin)
      rw [Finset.card_insert_of_notMem hnew, Finset.card_erase_of_mem hsource]
      exact Nat.sub_add_cancel (Finset.card_pos.mpr ⟨source, hsource⟩)
    · rw [Finset.erase_eq_of_notMem hscope]
  refine ⟨⟨h.batching, h.depth.trans hcard.symm, ?_⟩, hcard⟩
  unfold UpdateWorld.take
  dsimp only
  split
  · exact Finset.insert_subset hmem ((Finset.erase_subset _ _).trans h.subset)
  · exact (Finset.erase_subset _ _).trans h.subset

theorem UpdateInv.init : UpdateInv ({} : UpdateWorld V) where
  batching := ⟨List.Pairwise.nil, fun _ => rfl, fun hpos => absurd hpos (lt_irrefl 0)⟩
  depth := rfl
  subset := Finset.Subset.refl _

theorem UpdateInv.beginUpdate (h : UpdateInv w) (hscope : scope ∉ w.scopes)
    (hs : w.step I (.beginUpdate scope) = some w') : UpdateInv w' ∧ Announces w w' := by
  cases hs
  have hnew : scope ∉ w.holding := fun hmem => hscope (h.subset hmem)
  refine ⟨⟨⟨h.batching.sorted, fun hzero => absurd hzero (Nat.succ_ne_zero _), ?_⟩, ?_, ?_⟩, ?_⟩
  · intro _ v hv
    dsimp only at hv
    split at hv
    · cases hv
    · rename_i hdepth
      exact h.batching.covered (Nat.pos_of_ne_zero hdepth) v hv
  · show w.batched.batchDepth + 1 = (insert scope w.holding).card
    rw [Finset.card_insert_of_notMem hnew, h.depth]
  · exact Finset.insert_subset_insert _ h.subset
  · intro _
    refine ⟨fun _ => rfl, ?_⟩
    intro hclosed
    exact absurd hclosed (Finset.insert_ne_empty _ _)

theorem UpdateInv.step {a : UpdateAction V} (h : UpdateInv w) (hen : w.enabled a)
    (hs : w.step I a = some w') : UpdateInv w' ∧ Announces w w' := by
  cases a with
  | beginUpdate scope => exact h.beginUpdate hen hs
  | construct scope =>
      cases hs
      exact ⟨⟨h.batching, h.depth, h.subset.trans (Finset.subset_insert _ _)⟩,
        announces_of_card rfl fun _ => rfl⟩
  | moveConstruct scope source =>
      cases hs
      have hnew : scope ∉ w.holding := fun hmem => hen.1 (h.subset hmem)
      have hconstructed : UpdateInv { w with scopes := insert scope w.scopes } :=
        ⟨h.batching, h.depth, h.subset.trans (Finset.subset_insert _ _)⟩
      obtain ⟨hinv, hcard⟩ := hconstructed.take source hnew (Finset.mem_insert_self _ _)
      exact ⟨hinv, announces_of_card hcard fun _ => rfl⟩
  | moveAssign scope source =>
      unfold UpdateWorld.step at hs
      dsimp only at hs
      split at hs
      · cases hs
        exact ⟨h, announces_of_card rfl fun _ => rfl⟩
      · obtain ⟨closed, hclose, hs⟩ := Option.bind_eq_some_iff.mp hs
        cases hs
        obtain ⟨hclosed, hannounces, hholding, hscopes, -⟩ := h.close hclose
        have hnew : scope ∉ closed.holding := by
          rw [hholding]
          exact Finset.notMem_erase _ _
        obtain ⟨hinv, hcard⟩ := hclosed.take source hnew (hscopes ▸ hen.1)
        refine ⟨hinv, ?_⟩
        -- The move comes after the end of the scope and keeps the number of holders.
        intro hopen
        obtain ⟨hquiet, hflushed⟩ := hannounces hopen
        constructor
        · intro hopen'
          refine hquiet (Finset.card_pos.mp ?_)
          rw [← hcard]
          exact Finset.card_pos.mpr hopen'
        · intro hclosed'
          refine hflushed (Finset.card_eq_zero.mp ?_)
          rw [← hcard]
          exact Finset.card_eq_zero.mpr hclosed'
  | destroy scope =>
      obtain ⟨closed, hclose, hs⟩ := Option.bind_eq_some_iff.mp hs
      cases hs
      obtain ⟨hclosed, hannounces, hholding, hscopes, -⟩ := h.close hclose
      refine ⟨⟨hclosed.batching, hclosed.depth, ?_⟩, hannounces⟩
      show closed.holding ⊆ closed.scopes.erase scope
      rw [hholding, hscopes]
      exact Finset.erase_subset_erase _ h.subset
  | call a =>
      obtain ⟨batched, hcall, hs⟩ := Option.bind_eq_some_iff.mp hs
      cases hs
      obtain ⟨hdepth, hbatching, hnotified⟩ := h.batching.call hcall
      refine ⟨⟨hbatching, hdepth.trans h.depth, h.subset⟩, announces_of_card rfl ?_⟩
      intro hopen
      refine hnotified ?_
      rw [h.depth]
      exact Finset.card_pos.mpr hopen

end UpdateWorld

open UpdateWorld

/-! ## §6  A scope from its begin to its end -/

/-- The step leaves a scope open. -/
def UpdateWorld.StaysOpen (I : IntervalUtil) (w : UpdateWorld V) (a : UpdateAction V) : Prop :=
  ∀ w' ∈ w.step I a, w'.holding.Nonempty

instance (w : UpdateWorld V) (a : UpdateAction V) : Decidable (w.StaysOpen I a) := by
  unfold UpdateWorld.StaysOpen
  infer_instance

/-- **A scope notifies at most once, of all it changed.** From the begin of an
outermost scope nobody is notified while a scope is open. The step that ends the
last one notifies at most once, of a contiguous run of the samples that has each
sample inserted or overwritten since the begin that is still there. -/
theorem scope_notifies_once {w₀ w₁ w : UpdateWorld V} {scope : ScopeId}
    (h₀ : (updateMachine I).Reachable w₀) (hclosed : w₀.holding = ∅)
    (hnew : w₀.enabled (.beginUpdate scope)) (hbegin : w₀.step I (.beginUpdate scope) = some w₁)
    (hrun : (updateMachine I).ReachesFrom (UpdateWorld.StaysOpen I) w₁ w) :
    w₁.changed = [] ∧ w.batched.notified = w₀.batched.notified ∧
      ∀ a w', w.enabled a → w.step I a = some w' → w'.holding = ∅ →
        Flushed w.changed w.batched w'.batched := by
  have hinv₀ : UpdateInv w₀ :=
    h₀.invariant UpdateInv.init fun t a t' ht hen _ hs => (ht.step hen hs).1
  obtain ⟨hinv₁, -⟩ := hinv₀.beginUpdate hnew hbegin
  have hdepth : w₀.batched.batchDepth = 0 := by
    rw [hinv₀.depth, hclosed, Finset.card_empty]
  cases hbegin
  -- The run keeps that a scope is open and that nobody has been notified.
  have hinv : UpdateInv w ∧ w.holding.Nonempty ∧ w.batched.notified = w₀.batched.notified := by
    refine hrun.invariant (I := fun w => UpdateInv w ∧ w.holding.Nonempty ∧
      w.batched.notified = w₀.batched.notified) ⟨hinv₁, Finset.insert_nonempty _ _, rfl⟩ ?_
    rintro t a t' ⟨ht, hopen, hquiet⟩ hen hok hs
    obtain ⟨ht', hannounces⟩ := ht.step hen hs
    have hopen' := hok t' hs
    exact ⟨ht', hopen', ((hannounces hopen).1 hopen').trans hquiet⟩
  refine ⟨if_pos hdepth, hinv.2.2, ?_⟩
  intro a w' hen hs hend
  exact ((hinv.1.step hen hs).2 hinv.2.1).2 hend

/-- Two scopes, of which the inner one is moved: the end of the outer one
notifies of both samples. -/
theorem scope_notifies_once_nested : ∃ w w' : UpdateWorld ℕ,
    w.batched.notified = [] ∧ w.step apartIntervals (.destroy 1) = some w' ∧
      Flushed w.changed w.batched w'.batched ∧
      w'.batched.notified = [[⟨1, 0, 5, 5⟩, ⟨2, 0, 7, 7⟩]] := by
  obtain ⟨w, hw, hp⟩ := Machine.exists_reachesFrom_of_exec (M := updateMachine (V := ℕ) apartIntervals)
    { batched := { batchDepth := 1 }, scopes := {1}, holding := {1} }
    (UpdateWorld.StaysOpen apartIntervals)
    (p := fun w => decide (1 ∈ w.scopes) &&
      (w.step apartIntervals (.destroy 1)).any fun w' : UpdateWorld ℕ => decide (w'.holding = ∅) &&
        decide (w'.batched.notified = [[⟨1, 0, 5, 5⟩, ⟨2, 0, 7, 7⟩]]))
    [.call (.insertOrUpdate ⟨1, 0, 5, 5⟩), .beginUpdate 2, .call (.insertOrUpdate ⟨2, 0, 7, 7⟩),
      .moveConstruct 3 2, .destroy 2, .destroy 3] (by decide)
  obtain ⟨hmem, hany⟩ := Bool.and_eq_true_iff.mp hp
  obtain ⟨w', hstep, hw'⟩ := (Option.any_eq_true _ _).mp hany
  obtain ⟨hclosed, hnotified⟩ := Bool.and_eq_true_iff.mp hw'
  have hstart : (updateMachine apartIntervals).Reachable ({} : UpdateWorld ℕ) := .refl
  have hnew : ({} : UpdateWorld ℕ).enabled (.beginUpdate 1) := Finset.notMem_empty 1
  obtain ⟨-, hquiet, hend⟩ := scope_notifies_once hstart rfl hnew rfl hw
  exact ⟨w, w', hquiet, hstep,
    hend (.destroy 1) w' (of_decide_eq_true hmem) hstep (of_decide_eq_true hclosed),
    of_decide_eq_true hnotified⟩

end ScadaCommon
