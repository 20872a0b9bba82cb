import ScadaCommon.Foundation.AssocMap
import ScadaCommon.Foundation.Machine
import ScadaCommon.Scada.Basic

/-!
# Continuation points

A `ScopedContinuationPoint` owns the continuation point of a page and releases
it at the server when it goes out of scope, unless the point was handed out for
the next read. It can be moved but not copied.

§1 requests · §2 the special members · §3 objects that are moved about · §4 each
point is consumed once.
-/

namespace ScadaCommon

open Foundation

/-! ## §1  Requests -/

abbrev ContinuationPoint := ℕ

/-- `none` for `continuation_point` is the empty string. -/
structure HistoryReadRawDetails where
  fromTime : DateTime
  toTime : DateTime
  maxCount : ℕ
  continuationPoint : Option ContinuationPoint := none
deriving DecidableEq

/-- What is asked of the history service: a read, or a read that releases its
continuation point. -/
inductive HistoryCall where
  | historyReadRaw (details : HistoryReadRawDetails)
  | cancelHistory (continuationPoint : ContinuationPoint)
deriving DecidableEq

/-- `CancelHistory`. -/
def cancelHistory (continuationPoint : Option ContinuationPoint) : Option (List HistoryCall) :=
  match continuationPoint with
  | none => none
  | some continuationPoint => some [.cancelHistory continuationPoint]

/-! ## §2  The special members -/

structure ScopedContinuationPoint where
  /-- Whether `service_` is set. -/
  hasService : Bool := false
  continuationPoint : Option ContinuationPoint := none
deriving DecidableEq

namespace ScopedContinuationPoint

/-- The constructor from a response. -/
def ofResponse (continuationPoint : Option ContinuationPoint) : ScopedContinuationPoint where
  hasService := continuationPoint.isSome
  continuationPoint := continuationPoint

def empty (p : ScopedContinuationPoint) : Bool :=
  !p.hasService

/-- What is left of an object after a move from it. -/
def movedFrom : ScopedContinuationPoint :=
  {}

def reset (p : ScopedContinuationPoint) : Option (ScopedContinuationPoint × List HistoryCall) :=
  if p.hasService then do
    let calls ← cancelHistory p.continuationPoint
    return ({}, calls)
  else some (p, [])

/-- The object and what it hands out. -/
def release (p : ScopedContinuationPoint) : ScopedContinuationPoint × Option ContinuationPoint :=
  ({}, p.continuationPoint)

/-- The move assignment of another object: the new value and the calls. -/
def moveAssign (p source : ScopedContinuationPoint) :
    Option (ScopedContinuationPoint × List HistoryCall) := do
  let (_, calls) ← p.reset
  return (source, calls)

/-- The destructor. -/
def destroy (p : ScopedContinuationPoint) : Option (List HistoryCall) := do
  let (_, calls) ← p.reset
  return calls

/-- The point the object owns. -/
def held (p : ScopedContinuationPoint) : List ContinuationPoint :=
  if p.hasService then p.continuationPoint.toList else []

/-- Who has a service has a point. -/
def Valid (p : ScopedContinuationPoint) : Prop :=
  p.hasService = true → p.continuationPoint ≠ none

theorem valid_ofResponse (continuationPoint : Option ContinuationPoint) :
    (ofResponse continuationPoint).Valid := by
  intro h
  exact Option.isSome_iff_ne_none.mp h

theorem held_ofResponse (continuationPoint : Option ContinuationPoint) :
    (ofResponse continuationPoint).held = continuationPoint.toList := by
  cases continuationPoint <;> rfl

theorem valid_empty : ({} : ScopedContinuationPoint).Valid := by
  intro h
  cases h

/-- **Resetting releases what is held**, and nothing else. -/
theorem Valid.reset {p : ScopedContinuationPoint} (h : p.Valid) :
    ∃ p', p.reset = some (p', p.held.map .cancelHistory) ∧ p'.held = [] ∧ p'.Valid := by
  unfold ScopedContinuationPoint.reset
  split
  · rename_i hservice
    obtain ⟨continuationPoint, hpoint⟩ := Option.ne_none_iff_exists'.mp (h hservice)
    refine ⟨{}, ?_, rfl, valid_empty⟩
    rw [held, if_pos hservice, hpoint]
    rfl
  · rename_i hservice
    have hheld : p.held = [] := if_neg hservice
    refine ⟨p, ?_, hheld, h⟩
    rw [hheld]
    rfl

theorem Valid.moveAssign {p : ScopedContinuationPoint} (h : p.Valid)
    (source : ScopedContinuationPoint) :
    p.moveAssign source = some (source, p.held.map .cancelHistory) := by
  obtain ⟨p', hreset, -⟩ := h.reset
  unfold ScopedContinuationPoint.moveAssign
  rw [hreset]
  rfl

theorem Valid.destroy {p : ScopedContinuationPoint} (h : p.Valid) :
    p.destroy = some (p.held.map .cancelHistory) := by
  obtain ⟨p', hreset, -⟩ := h.reset
  unfold ScopedContinuationPoint.destroy
  rw [hreset]
  rfl

theorem Valid.release {p : ScopedContinuationPoint} (h : p.Valid) (hne : p.empty = false) :
    ∃ continuationPoint, p.release = ({}, some continuationPoint) ∧ p.held = [continuationPoint] := by
  have hservice : p.hasService = true := by simpa [empty] using hne
  obtain ⟨continuationPoint, hpoint⟩ := Option.ne_none_iff_exists'.mp (h hservice)
  refine ⟨continuationPoint, ?_, ?_⟩
  · rw [ScopedContinuationPoint.release, hpoint]
  · rw [held, if_pos hservice, hpoint]
    rfl

end ScopedContinuationPoint

open ScopedContinuationPoint

/-! ## §3  Objects that are moved about -/

abbrev PointId := ℕ

structure PointWorld where
  points : AssocMap PointId ScopedContinuationPoint := ∅
  /-- The points that came in responses. -/
  received : List ContinuationPoint := []
  /-- The calls of the history service. -/
  calls : List HistoryCall := []
  /-- What `release` handed out. -/
  released : List ContinuationPoint := []

inductive PointAction where
  | construct (id : PointId)
  | constructFrom (id : PointId) (continuationPoint : Option ContinuationPoint)
  | moveConstruct (id source : PointId)
  | moveAssign (id source : PointId)
  | reset (id : PointId)
  | release (id : PointId)
  | destroy (id : PointId)

namespace PointWorld

/-- Only an object that is not empty is released. -/
def enabled (w : PointWorld) : PointAction → Prop
  | .construct id | .constructFrom id _ => id ∉ w.points
  | .moveConstruct id source => id ∉ w.points ∧ source ∈ w.points
  | .moveAssign id source => id ∈ w.points ∧ source ∈ w.points
  | .reset id | .destroy id => id ∈ w.points
  | .release id => (w.points.lookup id).any (!·.empty) = true

instance (w : PointWorld) (a : PointAction) : Decidable (w.enabled a) := by
  unfold enabled
  split <;> infer_instance

def step (w : PointWorld) : PointAction → Option PointWorld
  | .construct id => some { w with points := w.points.insert id {} }
  | .constructFrom id continuationPoint =>
      some { w with
        points := w.points.insert id (ofResponse continuationPoint)
        received := continuationPoint.toList ++ w.received }
  | .moveConstruct id source => do
      let p ← w.points.lookup source
      return { w with points := (w.points.insert source movedFrom).insert id p }
  | .moveAssign id source =>
      if id = source then some w
      else do
        let p ← w.points.lookup id
        let q ← w.points.lookup source
        let (p, calls) ← p.moveAssign q
        return { w with
          points := (w.points.insert source movedFrom).insert id p
          calls := calls ++ w.calls }
  | .reset id => do
      let p ← w.points.lookup id
      let (p, calls) ← p.reset
      return { w with points := w.points.insert id p, calls := calls ++ w.calls }
  | .release id => do
      let p ← w.points.lookup id
      let (p, continuationPoint) := p.release
      return { w with
        points := w.points.insert id p
        released := continuationPoint.toList ++ w.released }
  | .destroy id => do
      let p ← w.points.lookup id
      let calls ← p.destroy
      return { w with points := w.points.erase id, calls := calls ++ w.calls }

end PointWorld

def pointMachine : Machine PointWorld PointAction :=
  ⟨{}, PointWorld.enabled, PointWorld.step⟩

instance (w : PointWorld) (a : PointAction) : Decidable (pointMachine.enabled w a) :=
  inferInstanceAs (Decidable (w.enabled a))

/-! ## §4  Each point is consumed once -/

/-- The points that calls release. -/
def cancelledBy (calls : List HistoryCall) : List ContinuationPoint :=
  calls.filterMap fun call =>
    match call with
    | .cancelHistory continuationPoint => some continuationPoint
    | .historyReadRaw _ => none

@[simp] theorem cancelledBy_append (calls calls' : List HistoryCall) :
    cancelledBy (calls ++ calls') = cancelledBy calls ++ cancelledBy calls' :=
  List.filterMap_append

@[simp] theorem cancelledBy_map (continuationPoints : List ContinuationPoint) :
    cancelledBy (continuationPoints.map .cancelHistory) = continuationPoints := by
  unfold cancelledBy
  rw [List.filterMap_map]
  exact List.filterMap_some

/-- How often objects own a point. -/
def heldCount (points : AssocMap PointId ScopedContinuationPoint) (c : ContinuationPoint) : ℕ :=
  AssocMap.sumValues (fun p => p.held.count c) points

namespace PointWorld

variable {w w' : PointWorld}

/-- Every point that came is owned by one object, or was released at the server
or handed out once. -/
structure PointInv (w : PointWorld) : Prop where
  valid : ∀ id p, w.points.lookup id = some p → p.Valid
  count : ∀ c, w.received.count c =
    (cancelledBy w.calls).count c + w.released.count c + heldCount w.points c

theorem valid_insert {points : AssocMap PointId ScopedContinuationPoint} {id : PointId}
    {p : ScopedContinuationPoint} (h : ∀ id p, points.lookup id = some p → p.Valid)
    (hp : p.Valid) : ∀ id' p', (points.insert id p).lookup id' = some p' → p'.Valid := by
  intro id' p' hlookup
  by_cases heq : id' = id
  · subst heq
    rw [AList.lookup_insert] at hlookup
    cases hlookup
    exact hp
  · rw [AList.lookup_insert_ne heq] at hlookup
    exact h id' p' hlookup

/-- A move leaves an object that owns nothing, and its point with another one. -/
theorem heldCount_move {points : AssocMap PointId ScopedContinuationPoint} {id source : PointId}
    {p q : ScopedContinuationPoint} (hp : points.lookup source = some p) (hne : id ≠ source)
    (hq : points.lookup id = some q ∨ id ∉ points ∧ q.held = []) (c : ContinuationPoint) :
    heldCount ((points.insert source movedFrom).insert id p) c + q.held.count c =
      heldCount points c := by
  unfold heldCount
  have hmoved := AssocMap.sumValues_insert_add (fun p => p.held.count c) hp movedFrom
  have hnone : movedFrom.held.count c = 0 := rfl
  rcases hq with hq | ⟨hnew, hq⟩
  · have hlookup : (points.insert source movedFrom).lookup id = some q := by
      rw [AList.lookup_insert_ne hne]
      exact hq
    have hinsert := AssocMap.sumValues_insert_add (fun p => p.held.count c) hlookup p
    omega
  · have hnew' : id ∉ points.insert source movedFrom := by
      rw [AList.mem_insert]
      exact fun hor => hor.elim hne hnew
    rw [AssocMap.sumValues_insert_new _ hnew', hq, List.count_nil]
    omega

theorem exists_lookup {id : PointId} (h : id ∈ w.points) : ∃ p, w.points.lookup id = some p :=
  Option.isSome_iff_exists.mp (AList.lookup_isSome.mpr h)

/-- A new object owns what came with it. -/
theorem PointInv.add {id : PointId} {p : ScopedContinuationPoint} (h : PointInv w)
    (hnew : id ∉ w.points) (hp : p.Valid) :
    PointInv { w with points := w.points.insert id p, received := p.held ++ w.received } where
  valid := valid_insert h.valid hp
  count := by
    intro c
    have hcount := h.count c
    unfold heldCount at hcount ⊢
    rw [AssocMap.sumValues_insert_new _ hnew, List.count_append]
    dsimp only
    omega

/-- An object gives up what it owns: a part is released at the server, the rest
is handed out. -/
theorem PointInv.giveUp {id : PointId} {p p' : ScopedContinuationPoint}
    {cancelled handed : List ContinuationPoint} (h : PointInv w)
    (hp : w.points.lookup id = some p) (hheld : p.held = cancelled ++ handed)
    (hp' : p'.Valid) (hempty : p'.held = []) :
    PointInv { w with
      points := w.points.insert id p'
      calls := cancelled.map .cancelHistory ++ w.calls
      released := handed ++ w.released } where
  valid := valid_insert h.valid hp'
  count := by
    intro c
    have hcount := h.count c
    have hinsert := AssocMap.sumValues_insert_add (fun p => p.held.count c) hp p'
    rw [hheld, hempty, List.count_nil, List.count_append] at hinsert
    unfold heldCount at hcount ⊢
    dsimp only
    rw [cancelledBy_append, cancelledBy_map, List.count_append, List.count_append]
    omega

/-- A move into a new object, or over one whose point is released first. -/
theorem PointInv.move {id source : PointId} {p q : ScopedContinuationPoint} (h : PointInv w)
    (hp : w.points.lookup source = some p) (hne : id ≠ source)
    (hq : w.points.lookup id = some q ∨ id ∉ w.points ∧ q.held = []) :
    PointInv { w with
      points := (w.points.insert source movedFrom).insert id p
      calls := q.held.map .cancelHistory ++ w.calls } where
  valid := valid_insert (valid_insert h.valid valid_empty) (h.valid source p hp)
  count := by
    intro c
    have hcount := h.count c
    have hmove := heldCount_move hp hne hq c
    rw [cancelledBy_append, cancelledBy_map, List.count_append]
    dsimp only
    omega

/-- An object goes out of scope, and its point is released. -/
theorem PointInv.erase {id : PointId} {p : ScopedContinuationPoint} (h : PointInv w)
    (hp : w.points.lookup id = some p) :
    PointInv { w with
      points := w.points.erase id
      calls := p.held.map .cancelHistory ++ w.calls } where
  valid := by
    intro id' p' hlookup
    by_cases heq : id' = id
    · subst heq
      rw [AList.lookup_erase] at hlookup
      cases hlookup
    · rw [AList.lookup_erase_ne heq] at hlookup
      exact h.valid id' p' hlookup
  count := by
    intro c
    have hcount := h.count c
    have herase := AssocMap.sumValues_eq_add_erase (fun p => p.held.count c) hp
    unfold heldCount at hcount ⊢
    dsimp only at herase ⊢
    rw [cancelledBy_append, cancelledBy_map, List.count_append]
    omega

/-- **One operation.** It never fails, and accounts for each point. -/
theorem PointInv.step {a : PointAction} (h : PointInv w) (hen : w.enabled a) :
    ∃ w', w.step a = some w' ∧ PointInv w' := by
  cases a with
  | construct id => exact ⟨_, rfl, h.add hen valid_empty⟩
  | constructFrom id continuationPoint =>
      refine ⟨_, rfl, ?_⟩
      rw [← held_ofResponse]
      exact h.add hen (valid_ofResponse _)
  | moveConstruct id source =>
      obtain ⟨p, hp⟩ := exists_lookup hen.2
      have hne : id ≠ source := by
        rintro rfl
        exact hen.1 hen.2
      refine ⟨_, ?_, h.move (q := {}) hp hne (Or.inr ⟨hen.1, rfl⟩)⟩
      unfold PointWorld.step
      dsimp only
      rw [hp]
      rfl
  | moveAssign id source =>
      by_cases heq : id = source
      -- a self-assignment does nothing, so the point is not released
      · refine ⟨w, ?_, h⟩
        unfold PointWorld.step
        dsimp only
        rw [if_pos heq]
      · obtain ⟨p, hp⟩ := exists_lookup hen.1
        obtain ⟨q, hq⟩ := exists_lookup hen.2
        refine ⟨_, ?_, h.move hq heq (Or.inl hp)⟩
        unfold PointWorld.step
        dsimp only
        rw [if_neg heq, hp, hq]
        dsimp only [Option.bind_eq_bind, Option.bind_some]
        rw [(h.valid id p hp).moveAssign q]
        rfl
  | reset id =>
      obtain ⟨p, hp⟩ := exists_lookup hen
      obtain ⟨p', hreset, hheld, hvalid⟩ := (h.valid id p hp).reset
      refine ⟨_, ?_, h.giveUp hp (List.append_nil _).symm hvalid hheld⟩
      unfold PointWorld.step
      dsimp only
      rw [hp]
      dsimp only [Option.bind_eq_bind, Option.bind_some]
      rw [hreset]
      rfl
  | release id =>
      obtain ⟨p, hp, hne⟩ := (Option.any_eq_true _ _).mp hen
      obtain ⟨c, hrelease, hheld⟩ := (h.valid id p hp).release (by simpa using hne)
      refine ⟨_, ?_, h.giveUp hp (show p.held = [] ++ [c] from hheld) valid_empty rfl⟩
      unfold PointWorld.step
      dsimp only
      rw [hp]
      dsimp only [Option.bind_eq_bind, Option.bind_some]
      rw [hrelease]
      rfl
  | destroy id =>
      obtain ⟨p, hp⟩ := exists_lookup hen
      refine ⟨_, ?_, h.erase hp⟩
      unfold PointWorld.step
      dsimp only
      rw [hp]
      dsimp only [Option.bind_eq_bind, Option.bind_some]
      rw [(h.valid id p hp).destroy]
      rfl

theorem PointInv.init : PointInv {} where
  valid := by
    rintro id p ⟨⟩
  count := fun _ => rfl

/-- **Points are linear.** However the objects are moved about, every point that
came is owned by exactly one object, or was released at the server or handed out
exactly once; and no operation fails. -/
theorem points_linear (h : pointMachine.Reachable w) :
    (∀ c, w.received.count c =
      (cancelledBy w.calls).count c + w.released.count c + heldCount w.points c) ∧
      ∀ a, w.enabled a → ∃ w', w.step a = some w' := by
  have hinv : PointInv w := by
    refine h.invariant PointInv.init ?_
    intro t a t' ht hen _ hs
    obtain ⟨t'', hs', hinv⟩ := ht.step hen
    rw [show t.step a = some t' from hs] at hs'
    cases hs'
    exact hinv
  refine ⟨hinv.count, ?_⟩
  intro a hen
  obtain ⟨w', hs, -⟩ := hinv.step hen
  exact ⟨w', hs⟩

end PointWorld

end ScadaCommon
