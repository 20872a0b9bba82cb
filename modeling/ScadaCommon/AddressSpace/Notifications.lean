import ScadaCommon.AddressSpace.SubtreeCalls

/-!
# What an address space tells

Every reference that is added or deleted is told, and its target as moved if the type is
hierarchical by then; a node is told as deleted when its references are gone. A space
tells what it does itself, and passes on what its parents tell. Nothing tells that a node
has been added.

§1 events · §2 calls that tell · §3 what one call tells · §4 who listens knows the graph ·
§5 who listens knows the parents · §6 clearing a space.
-/

namespace ScadaCommon.AddressSpace

open Foundation

/-! ## §1  Events -/

/-- `reference_added_signal_`, `reference_deleted_signal_`, `node_moved_signal_` and
`node_deleted_signal_`. -/
inductive SpaceEvent where
  | referenceAdded (edge : Edge)
  | referenceDeleted (edge : Edge)
  | nodeMoved (node : NodePtr)
  | nodeDeleted (node : NodePtr)
deriving DecidableEq

namespace SpaceEvent

/-- What a listener makes of an event that keeps the references. -/
def follow (edges : Set Edge) : SpaceEvent → Set Edge
  | .referenceAdded edge => insert edge edges
  | .referenceDeleted edge => edges \ {edge}
  | .nodeMoved _ | .nodeDeleted _ => edges

/-- The node that is told as deleted. -/
def deletedNode : SpaceEvent → Option NodePtr
  | .nodeDeleted node => some node
  | .referenceAdded _ | .referenceDeleted _ | .nodeMoved _ => none

/-- An event makes sense to a listener that has these references, and `before` it heard
what came before. -/
def Fits (edges : Set Edge) (before : List SpaceEvent) : SpaceEvent → Prop
  | .referenceAdded edge => edge ∉ edges
  | .referenceDeleted edge => edge ∈ edges
  | .nodeMoved node => ∃ edge, edge.target = node ∧
      (before.getLast? = some (.referenceAdded edge) ∨
        before.getLast? = some (.referenceDeleted edge))
  | .nodeDeleted node => ∀ edge ∈ edges, edge.type ≠ node ∧ edge.source ≠ node ∧ edge.target ≠ node

end SpaceEvent

variable {A : Type}

/-- `NotifyReference`; the type is looked at when the reference has been changed. -/
def notifyReference (heap : NodeHeap A) (edge : Edge) (added : Bool) :
    Option (List SpaceEvent) := do
  let hierarchical ← heap.isSubtypeOf edge.type StandardId.hierarchicalReferences
  let moved := if hierarchical then [SpaceEvent.nodeMoved edge.target] else []
  return (if added then .referenceAdded edge else .referenceDeleted edge) :: moved

/-! ## §2  Calls that tell -/

namespace SpaceWorld

/-- What the end of `DeleteNode` tells, of which `heap` is the next state. -/
def clearingTells (w : SpaceWorld A) (heap : NodeHeap A) (frame : DeleteNodeFrame) :
    Option (List SpaceEvent) := do
  let node ← w.heap.nodes frame.node
  match node.inverseReferences.getLast?, node.forwardReferences.getLast? with
  | some ref, _ => notifyReference heap ⟨ref.type, ref.node, frame.node⟩ false
  | none, some ref => notifyReference heap ⟨ref.type, frame.node, ref.node⟩ false
  | none, none => some [.nodeDeleted frame.node]

/-- What a step tells that has `heap` as the next state. -/
def tells (w : SpaceWorld A) (heap : NodeHeap A) : SpaceAction A → Option (List SpaceEvent)
  | .addNode .. | .deleteNode _ => some []
  | .addReference type source target => do
      notifyReference heap ⟨← w.nodeMap type, ← w.nodeMap source, ← w.nodeMap target⟩ true
  | .deleteReference type source target => do
      notifyReference heap ⟨← w.nodeMap type, ← w.nodeMap source, ← w.nodeMap target⟩ false
  | .proceed =>
      match w.calls with
      | [] => none
      | frame :: _ => if frame.clearing then w.clearingTells heap frame else some []

end SpaceWorld

/-- A call of a function of one of the spaces, or a step of it. -/
structure SpaceCall (A : Type) where
  space : SpaceId
  action : SpaceAction A

/-- The spaces, and what has been told by which of them. -/
structure TellingSpaces (A : Type) where
  world : SpaceWorld A
  told : List (SpaceId × SpaceEvent)

namespace TellingSpaces

/-- A call is one of the space that it concerns; references may be made by any. -/
def Enabled (t : TellingSpaces A) (call : SpaceCall A) : Prop :=
  t.world.Enabled call.action ∧
    match call.action with
    | .addNode place _ _ _ | .deleteNode place => place.1 = call.space
    | .addReference .. | .deleteReference .. => True
    | .proceed => ∀ frame ∈ t.world.calls.head?, frame.place.1 = call.space

def step (chain : SpaceId → List SpaceId) (t : TellingSpaces A) (call : SpaceCall A) :
    Option (TellingSpaces A) := do
  let world ← t.world.step chain call.action
  let events ← t.world.tells world.heap call.action
  return { world, told := t.told ++ events.map (call.space, ·) }

def machine (A : Type) (chain : SpaceId → List SpaceId) :
    Machine (TellingSpaces A) (SpaceCall A) where
  init := { world := SpaceWorld.initial, told := [] }
  enabled := Enabled
  step := step chain

/-- What comes to the listeners of a space. -/
def heard (chain : SpaceId → List SpaceId) (space : SpaceId) (t : TellingSpaces A) :
    List SpaceEvent :=
  (t.told.filter (·.1 ∈ chain space)).map (·.2)

end TellingSpaces

/-! ## §3  What one call tells -/

namespace SpaceWorld

variable {w w' : SpaceWorld A} {chain : SpaceId → List SpaceId} {a : SpaceAction A}
  {events : List SpaceEvent} {edge : Edge}

/-- That the target has moved is told if the type is hierarchical. -/
def movedBy (hierarchical : Bool) (edge : Edge) : List SpaceEvent :=
  if hierarchical then [.nodeMoved edge.target] else []

/-- The same places have nodes. -/
def SamePlaces (w w' : SpaceWorld A) : Prop :=
  (∀ ptr, w'.Present ptr ↔ w.Present ptr) ∧ w'.heap.next = w.heap.next

/-- A step, and what it tells. -/
inductive Tells (w w' : SpaceWorld A) : List SpaceEvent → Prop
  | nothing : w'.heap.edgeSet = w.heap.edgeSet → w.SamePlaces w' → Tells w w' []
  | created : w'.heap.edgeSet = w.heap.edgeSet →
      (∀ ptr, w'.Present ptr ↔ ptr = w.heap.next ∨ w.Present ptr) →
      w'.heap.next = w.heap.next + 1 → Tells w w' []
  | added (edge : Edge) (hierarchical : Bool) : edge ∉ w.heap.edgeSet →
      w'.heap.edgeSet = insert edge w.heap.edgeSet → w.SamePlaces w' →
      w'.heap.isSubtypeOf edge.type StandardId.hierarchicalReferences = some hierarchical →
      Tells w w' (.referenceAdded edge :: movedBy hierarchical edge)
  | deleted (edge : Edge) (hierarchical : Bool) : edge ∈ w.heap.edgeSet →
      w'.heap.edgeSet = w.heap.edgeSet \ {edge} → w.SamePlaces w' →
      w'.heap.isSubtypeOf edge.type StandardId.hierarchicalReferences = some hierarchical →
      Tells w w' (.referenceDeleted edge :: movedBy hierarchical edge)
  | nodeDeleted (node : NodePtr) : w'.heap.edgeSet = w.heap.edgeSet →
      (∀ edge ∈ w.heap.edgeSet, edge.type ≠ node ∧ edge.source ≠ node ∧ edge.target ≠ node) →
      w.Present node → (∀ ptr, w'.Present ptr ↔ w.Present ptr ∧ ptr ≠ node) →
      w'.heap.next = w.heap.next → Tells w w' [.nodeDeleted node]

/-- Addresses are not used again. -/
theorem Tells.next_le (h : Tells w w' events) : w.heap.next ≤ w'.heap.next := by
  cases h with
  | nothing _ hsame | added _ _ _ _ hsame _ | deleted _ _ _ _ hsame _ => exact hsame.2.ge
  | created _ _ hnext => exact hnext.ge.trans' (Nat.le_succ _)
  | nodeDeleted _ _ _ _ _ hnext => exact hnext.ge

theorem notifyReference_eq_some {heap : NodeHeap A} {added : Bool}
    (h : notifyReference heap edge added = some events) :
    ∃ hierarchical, heap.isSubtypeOf edge.type StandardId.hierarchicalReferences =
        some hierarchical ∧
      events = (if added then .referenceAdded edge else .referenceDeleted edge) ::
        movedBy hierarchical edge := by
  obtain ⟨hierarchical, htold, h⟩ := Option.bind_eq_some_iff.mp h
  cases h
  exact ⟨hierarchical, htold, rfl⟩

/-- The graph that the heap holds is the one of the invariant. -/
theorem Inv.edgeSet_eq {edges : Set Edge} (h : w.Inv edges) : w.heap.edgeSet = edges :=
  h.represents.edgeSet_eq

theorem exists_inv_of_reaches (h : (machine A chain).Reaches KeepsTypes w) :
    ∃ edges, w.Inv edges := by
  apply h.invariant (I := fun w => ∃ edges, w.Inv edges)
  · exact ⟨∅, Inv.initial⟩
  · rintro u a u' ⟨edges, hinv⟩ - hok hs
    exact hinv.step hok hs

theorem Inv.self {edges : Set Edge} (h : w.Inv edges) : w.Inv w.heap.edgeSet :=
  h.edgeSet_eq.symm ▸ h

theorem tells_of_delete (h : w.Inv w.heap.edgeSet) {heap : NodeHeap A}
    (hdelete : w.heap.deleteReference edge.type edge.source edge.target = some heap)
    (htells : notifyReference heap edge false = some events) : Tells w (w.setHeap heap) events := by
  obtain ⟨hierarchical, htold, rfl⟩ := notifyReference_eq_some htells
  obtain ⟨hsame, hedge, hrepresents⟩ := h.represents.deleteReference hdelete
  exact .deleted edge hierarchical hedge hrepresents.edgeSet_eq ⟨fun _ => Iff.rfl, hsame.next⟩ htold

theorem tells_callDeleteNode (place : Place) : Tells w (w.callDeleteNode place) [] := by
  unfold SpaceWorld.callDeleteNode
  split
  · exact .nothing rfl ⟨fun _ => Iff.rfl, rfl⟩
  · exact .nothing rfl ⟨fun _ => Iff.rfl, rfl⟩

theorem Inv.tells_of_clearing (h : w.Inv w.heap.edgeSet) {frame : DeleteNodeFrame}
    {rest : List DeleteNodeFrame} (hcalls : w.calls = frame :: rest)
    (hclearing : frame.clearing = true) (hok : w.KeepsTypes .proceed)
    (hs : w.clearReference frame rest = some w')
    (htells : w.clearingTells w'.heap frame = some events) : Tells w w' events := by
  obtain ⟨node, hnode, hs⟩ := Option.bind_eq_some_iff.mp hs
  rw [clearingTells, hnode] at htells
  cases hinverse : node.inverseReferences.getLast? with
  | some ref =>
      simp only [hinverse, Option.bind_eq_bind, Option.bind_some] at hs htells
      obtain ⟨heap, hdelete, rfl⟩ := Option.map_eq_some_iff.mp hs
      exact tells_of_delete h hdelete htells
  | none =>
      cases hforward : node.forwardReferences.getLast? with
      | some ref =>
          simp only [hinverse, hforward, Option.bind_eq_bind, Option.bind_some] at hs htells
          obtain ⟨heap, hdelete, rfl⟩ := Option.map_eq_some_iff.mp hs
          exact tells_of_delete h hdelete htells
      | none =>
          simp only [hinverse, hforward, Option.bind_eq_bind, Option.bind_some] at hs htells
          cases htells
          obtain ⟨hplace, hs⟩ := check_bind_eq_some.mp hs
          obtain ⟨spaces, hspaces, hs⟩ := Option.bind_eq_some_iff.mp hs
          cases hs
          obtain ⟨hempty, hleaving⟩ := leaving_of_cleared hcalls hnode hclearing hinverse hforward
          have htype : ¬ w.TypeInUse frame.node := hok frame.node hleaving
          have hinv := h.eraseNode hplace hnode hempty htype hspaces rest
          obtain ⟨hmap, hheap⟩ := Inv.eraseNode_spec hplace hspaces
          refine .nodeDeleted frame.node hinv.edgeSet_eq ?_ ⟨_, hplace⟩ ?_ ?_
          · intro edge hedge
            refine ⟨fun heq => htype (h.typeInUse_iff.mpr ⟨edge, hedge, heq⟩), ?_⟩
            exact (h.represents.alone hnode).mp hempty edge hedge
          · intro ptr
            simp only [Present, hmap, Function.update_apply]
            constructor
            · rintro ⟨place, hptr⟩
              split at hptr
              · cases hptr
              · rename_i hne
                refine ⟨⟨place, hptr⟩, ?_⟩
                rintro rfl
                exact hne (h.once place frame.place _ hptr hplace)
            · rintro ⟨⟨place, hptr⟩, hne⟩
              refine ⟨place, ?_⟩
              rw [if_neg]
              · exact hptr
              · rintro rfl
                exact hne (Option.some.inj (hptr.symm.trans hplace))
          · rcases hheap with hheap | hheap
            · rw [hheap]
            · rw [hheap]
              rfl

/-- **One call**: what it tells is what it does to the graph. -/
theorem Inv.tells (h : w.Inv w.heap.edgeSet) (hok : w.KeepsTypes a)
    (hs : w.step chain a = some w') (htells : w.tells w'.heap a = some events) :
    Tells w w' events := by
  cases a with
  | addNode place nodeClass attributes owned =>
      cases htells
      have hedges := (h.addNode hs).edgeSet_eq
      obtain ⟨spaces, hspaces, hs⟩ := Option.bind_eq_some_iff.mp hs
      cases hs
      obtain ⟨-, hspaces⟩ := check_bind_eq_some.mp hspaces
      obtain ⟨-, hspaces⟩ := check_bind_eq_some.mp hspaces
      obtain ⟨hfree, hspaces⟩ := check_bind_eq_some.mp hspaces
      cases hspaces
      refine .created hedges (fun ptr => ?_) rfl
      constructor
      · rintro ⟨place', hplace'⟩
        simp only [Function.update_apply] at hplace'
        split at hplace'
        · exact Or.inl (Option.some.inj hplace').symm
        · exact Or.inr ⟨place', hplace'⟩
      · rintro (rfl | ⟨place', hplace'⟩)
        · exact ⟨place, Function.update_self ..⟩
        · have hne : place' ≠ place := by
            rintro rfl
            exact Option.some_ne_none _ (hplace'.symm.trans hfree)
          exact ⟨place', (Function.update_of_ne hne ..).trans hplace'⟩
  | addReference type source target =>
      obtain ⟨t, ht, hs⟩ := Option.bind_eq_some_iff.mp hs
      obtain ⟨s, hsource, hs⟩ := Option.bind_eq_some_iff.mp hs
      obtain ⟨d, htarget, hs⟩ := Option.bind_eq_some_iff.mp hs
      obtain ⟨heap, hadd, rfl⟩ := Option.map_eq_some_iff.mp hs
      simp only [SpaceWorld.tells, ht, hsource, htarget] at htells
      obtain ⟨hierarchical, htold, rfl⟩ := notifyReference_eq_some htells
      obtain ⟨hsame, hedge, hrepresents⟩ := h.represents.addReference hadd
      exact .added _ hierarchical hedge hrepresents.edgeSet_eq ⟨fun _ => Iff.rfl, hsame.next⟩ htold
  | deleteReference type source target =>
      obtain ⟨t, ht, hs⟩ := Option.bind_eq_some_iff.mp hs
      obtain ⟨s, hsource, hs⟩ := Option.bind_eq_some_iff.mp hs
      obtain ⟨d, htarget, hs⟩ := Option.bind_eq_some_iff.mp hs
      obtain ⟨heap, hdelete, rfl⟩ := Option.map_eq_some_iff.mp hs
      simp only [SpaceWorld.tells, ht, hsource, htarget] at htells
      exact tells_of_delete h hdelete htells
  | deleteNode place =>
      cases htells
      cases hs
      exact tells_callDeleteNode place
  | proceed =>
      cases hcalls : w.calls with
      | nil =>
          simp [SpaceWorld.tells, hcalls] at htells
      | cons frame rest =>
          by_cases hclearing : frame.clearing = true
          · simp only [SpaceWorld.tells, hcalls, hclearing, if_true] at htells
            simp only [SpaceWorld.step, SpaceWorld.proceed, hcalls, hclearing, if_true] at hs
            exact h.tells_of_clearing hcalls hclearing hok hs htells
          · simp only [SpaceWorld.tells, hcalls, hclearing] at htells
            simp only [SpaceWorld.step, SpaceWorld.proceed, hcalls, hclearing] at hs
            cases htells
            obtain ⟨node, -, hs⟩ := Option.bind_eq_some_iff.mp hs
            obtain ⟨child, -, hs⟩ := Option.bind_eq_some_iff.mp hs
            cases child with
            | none =>
                cases hs
                exact .nothing rfl ⟨fun _ => Iff.rfl, rfl⟩
            | some child =>
                obtain ⟨childNode, -, hs⟩ := Option.bind_eq_some_iff.mp hs
                cases hs
                exact tells_callDeleteNode _

/-! ## §4  Who listens knows the graph -/

/-- What a listener makes of all that it has heard. -/
def followed (log : List SpaceEvent) : Set Edge := log.foldl SpaceEvent.follow ∅

theorem followed_append (log events : List SpaceEvent) :
    followed (log ++ events) = events.foldl SpaceEvent.follow (followed log) :=
  List.foldl_append ..

/-- All that has been heard is true and complete, but for nodes that are added. -/
structure Faithful (w : SpaceWorld A) (log : List SpaceEvent) : Prop where
  references : followed log = w.heap.edgeSet
  /-- The nodes that are gone. -/
  deleted : ∀ ptr, ptr ∈ log.filterMap SpaceEvent.deletedNode ↔
    ptr < w.heap.next ∧ ¬ w.Present ptr
  once : (log.filterMap SpaceEvent.deletedNode).Nodup
  fits : ∀ before event after, log = before ++ event :: after →
    event.Fits (followed before) before

variable {log : List SpaceEvent}

theorem fits_snoc {e : SpaceEvent}
    (h : ∀ before event after, log = before ++ event :: after →
      event.Fits (followed before) before)
    (he : e.Fits (followed log) log) :
    ∀ before event after, log ++ [e] = before ++ event :: after →
      event.Fits (followed before) before := by
  intro before event after hsplit
  rcases List.eq_nil_or_concat after with rfl | ⟨after, last, rfl⟩
  · obtain ⟨rfl, hlast⟩ := List.append_inj' hsplit rfl
    cases hlast
    exact he
  · rw [List.concat_eq_append, ← List.cons_append, ← List.append_assoc] at hsplit
    obtain ⟨hlog, -⟩ := List.append_inj' hsplit rfl
    exact h before event after hlog

/-- A reference, and that its target has moved, if that is told. -/
theorem fits_reference {e : SpaceEvent}
    (h : ∀ before event after, log = before ++ event :: after →
      event.Fits (followed before) before)
    (he : e.Fits (followed log) log) (hreference : e = .referenceAdded edge ∨ e = .referenceDeleted edge)
    (hierarchical : Bool) :
    ∀ before event after, log ++ e :: movedBy hierarchical edge = before ++ event :: after →
      event.Fits (followed before) before := by
  have hfirst := fits_snoc h he
  cases hierarchical with
  | false => exact hfirst
  | true =>
      have hmoved : (SpaceEvent.nodeMoved edge.target).Fits (followed (log ++ [e])) (log ++ [e]) := by
        refine ⟨edge, rfl, ?_⟩
        rw [List.getLast?_concat]
        exact hreference.imp (congrArg some) (congrArg some)
      have hsecond := fits_snoc hfirst hmoved
      rwa [List.append_assoc] at hsecond

theorem deletedNode_movedBy (hierarchical : Bool) (edge : Edge) :
    (movedBy hierarchical edge).filterMap SpaceEvent.deletedNode = [] := by
  cases hierarchical <;> rfl

theorem follow_movedBy (hierarchical : Bool) (edge : Edge) (edges : Set Edge) :
    (movedBy hierarchical edge).foldl SpaceEvent.follow edges = edges := by
  cases hierarchical <;> rfl

/-- A change of a reference. -/
theorem Faithful.reference (h : w.Faithful log) {e : SpaceEvent} (hierarchical : Bool)
    (hreference : e = .referenceAdded edge ∨ e = .referenceDeleted edge)
    (he : e.Fits w.heap.edgeSet log) (hedges : w'.heap.edgeSet = e.follow w.heap.edgeSet)
    (hsame : w.SamePlaces w') : w'.Faithful (log ++ e :: movedBy hierarchical edge) := by
  have hnone : e.deletedNode = none := by
    rcases hreference with rfl | rfl <;> rfl
  have hdeleted : (log ++ e :: movedBy hierarchical edge).filterMap SpaceEvent.deletedNode =
      log.filterMap SpaceEvent.deletedNode := by
    rw [List.filterMap_append, List.filterMap_cons_none hnone, deletedNode_movedBy,
      List.append_nil]
  constructor
  case references =>
    rw [followed_append, h.references, List.foldl_cons, follow_movedBy, hedges]
  case deleted =>
    intro ptr
    rw [hdeleted, h.deleted, hsame.1, hsame.2]
  case once =>
    rw [hdeleted]
    exact h.once
  case fits => exact fits_reference h.fits (h.references.symm ▸ he) hreference hierarchical

/-- What one call tells keeps a listener informed. -/
theorem Faithful.tells (h : w.Faithful log) (hbounded : ∀ ptr, w.Present ptr → ptr < w.heap.next)
    (htells : Tells w w' events) : w'.Faithful (log ++ events) := by
  cases htells with
  | nothing hedges hsame =>
      rw [List.append_nil]
      refine ⟨h.references.trans hedges.symm, fun ptr => ?_, h.once, h.fits⟩
      rw [h.deleted, hsame.1, hsame.2]
  | created hedges hpresent hnext =>
      rw [List.append_nil]
      refine ⟨h.references.trans hedges.symm, fun ptr => ?_, h.once, h.fits⟩
      rw [h.deleted, hpresent, hnext, not_or]
      constructor
      · rintro ⟨hlt, hgone⟩
        exact ⟨Nat.lt_succ_of_lt hlt, hlt.ne, hgone⟩
      · rintro ⟨hlt, hne, hgone⟩
        exact ⟨Nat.lt_of_le_of_ne (Nat.le_of_lt_succ hlt) hne, hgone⟩
  | added edge hierarchical hfresh hedges hsame _ =>
      exact h.reference hierarchical (Or.inl rfl) hfresh hedges hsame
  | deleted edge hierarchical hedge hedges hsame _ =>
      exact h.reference hierarchical (Or.inr rfl) hedge hedges hsame
  | nodeDeleted node hedges halone hthere hpresent hnext =>
      have hnew : node ∉ log.filterMap SpaceEvent.deletedNode := fun hmem =>
        ((h.deleted node).mp hmem).2 hthere
      have hdeleted : (log ++ [SpaceEvent.nodeDeleted node]).filterMap SpaceEvent.deletedNode =
          log.filterMap SpaceEvent.deletedNode ++ [node] := by
        rw [List.filterMap_append]
        rfl
      constructor
      case references =>
        rw [followed_append, h.references, hedges]
        rfl
      case deleted =>
        intro ptr
        rw [hdeleted, List.mem_append, h.deleted, List.mem_singleton, hpresent, hnext]
        constructor
        · rintro (⟨hlt, hgone⟩ | rfl)
          · exact ⟨hlt, fun hptr => hgone hptr.1⟩
          · exact ⟨hbounded ptr hthere, fun hptr => hptr.2 rfl⟩
        · rintro ⟨hlt, hgone⟩
          by_cases hptr : ptr = node
          · exact Or.inr hptr
          · exact Or.inl ⟨hlt, fun hthere => hgone ⟨hthere, hptr⟩⟩
      case once =>
        rw [hdeleted]
        exact List.nodup_append_comm.mp (List.nodup_cons.mpr ⟨hnew, h.once⟩)
      case fits => exact fits_snoc h.fits (h.references.symm ▸ halone)

theorem Inv.present_lt {edges : Set Edge} (h : w.Inv edges) {ptr : NodePtr} (hptr : w.Present ptr) :
    ptr < w.heap.next := by
  obtain ⟨place, hplace⟩ := hptr
  exact h.represents.bounded ptr (h.placed place ptr hplace)

end SpaceWorld

namespace TellingSpaces

variable {chain : SpaceId → List SpaceId} {space : SpaceId} {t : TellingSpaces A}

/-- Calls that listeners of the space hear; no node is taken out while references between
others have it as their type. -/
def Listens (chain : SpaceId → List SpaceId) (space : SpaceId) (t : TellingSpaces A)
    (call : SpaceCall A) : Prop :=
  t.world.KeepsTypes call.action ∧ call.space ∈ chain space

theorem heard_append {call : SpaceId} (hcall : call ∈ chain space) (world : SpaceWorld A)
    (events : List SpaceEvent) :
    heard chain space ⟨world, t.told ++ events.map (call, ·)⟩ = t.heard chain space ++ events := by
  have hall : (events.map (call, ·)).filter (fun event => event.1 ∈ chain space) =
      events.map (call, ·) := by
    apply List.filter_eq_self.mpr
    intro event hevent
    obtain ⟨e, -, rfl⟩ := List.mem_map.mp hevent
    exact decide_eq_true hcall
  simp only [heard, List.filter_append, List.map_append, hall, List.map_map, Function.comp_def,
    List.map_id']

/-- **Who listens to a space knows its graph.** In every run of calls that a listener hears,
its own and those of the parents, the references that it has been told about are exactly
those that there are; none is told as added that it has or as deleted that it has not;
nodes move with a reference to them; and each node that is gone has been told as deleted,
once, when no reference had it at an end or as its type any more. -/
theorem listeners_know_the_graph (h : (machine A chain).Reaches (Listens chain space) t) :
    t.world.Faithful (t.heard chain space) := by
  have hboth : t.world.Inv t.world.heap.edgeSet ∧ t.world.Faithful (t.heard chain space) := by
    apply h.invariant (I := fun t => t.world.Inv t.world.heap.edgeSet ∧
      t.world.Faithful (t.heard chain space))
    · have hinv := SpaceWorld.Inv.initial (A := A)
      refine ⟨hinv.self, ⟨hinv.edgeSet_eq.symm, ?_, List.nodup_nil, ?_⟩⟩
      · intro ptr
        refine iff_of_false List.not_mem_nil ?_
        rintro ⟨hlt, -⟩
        exact Nat.not_lt_zero ptr hlt
      · intro before event after hsplit
        cases List.nil_eq_append_iff.mp hsplit |>.2
    · rintro u call u' ⟨hinv, hfaithful⟩ - ⟨hkeeps, hcall⟩ hs
      obtain ⟨world, hstep, hs⟩ := Option.bind_eq_some_iff.mp hs
      obtain ⟨events, htells, hs⟩ := Option.bind_eq_some_iff.mp hs
      cases hs
      obtain ⟨edges', hinv'⟩ := hinv.step hkeeps hstep
      refine ⟨hinv'.self, ?_⟩
      rw [heard_append hcall]
      exact hfaithful.tells (fun ptr => hinv.present_lt) (hinv.tells hkeeps hstep htells)
  exact hboth.2

instance (t : TellingSpaces A) (call : SpaceCall A) : Decidable (t.Enabled call) := by
  obtain ⟨space, action⟩ := call
  apply SpaceAction.casesOn (motive := fun action => Decidable (t.Enabled ⟨space, action⟩))
    action <;> intros <;> unfold Enabled <;> infer_instance

instance (t : TellingSpaces A) (call : SpaceCall A) :
    Decidable ((machine A chain).enabled t call) :=
  inferInstanceAs (Decidable (t.Enabled call))

instance (t : TellingSpaces A) (call : SpaceCall A) : Decidable (Listens chain space t call) :=
  inferInstanceAs (Decidable (_ ∧ _))

/-- A child space adds a reference, and its parent deletes an end of it. -/
theorem listeners_know_the_graph_deleted :
    ∃ t : TellingSpaces ℕ, t.heard (fun space => [space, 0]) 1 =
        [.referenceAdded ⟨0, 1, 2⟩, .nodeMoved 2, .referenceDeleted ⟨0, 1, 2⟩, .nodeMoved 2,
          .nodeDeleted 2] ∧
      t.world.Faithful (t.heard (fun space => [space, 0]) 1) := by
  obtain ⟨t, ht, hp⟩ := Machine.exists_reaches_of_exec
    (M := machine ℕ fun space => [space, 0]) (Listens (fun space => [space, 0]) 1)
    (p := fun t => t.heard (fun space => [space, 0]) 1 =
      [.referenceAdded ⟨0, 1, 2⟩, .nodeMoved 2, .referenceDeleted ⟨0, 1, 2⟩, .nodeMoved 2,
        .nodeDeleted 2])
    [⟨0, .addNode (0, StandardId.hierarchicalReferences) .referenceType 0 true⟩,
      ⟨1, .addNode (1, .numeric 100 7) .object 0 true⟩,
      ⟨0, .addNode (0, .numeric 101 7) .object 0 true⟩,
      ⟨1, .addReference (0, StandardId.hierarchicalReferences) (1, .numeric 100 7)
        (0, .numeric 101 7)⟩,
      ⟨0, .deleteNode (0, .numeric 101 7)⟩, ⟨0, .proceed⟩, ⟨0, .proceed⟩, ⟨0, .proceed⟩]
    (by decide)
  exact ⟨t, of_decide_eq_true hp, listeners_know_the_graph ht⟩

end TellingSpaces

/-! ## §5  Who listens knows the parents -/

/-- The nodes with a hierarchical reference to a node. -/
def hierarchicalParents (heap : NodeHeap A) (node : NodePtr) : Set NodePtr :=
  {parent | ∃ type, ⟨type, parent, node⟩ ∈ heap.edgeSet ∧
    heap.isSubtypeOf type StandardId.hierarchicalReferences = some true}

/-- Spaces, and the parents that a listener knows, which reads those of a node anew when the
node moves. -/
structure ListenedSpaces (A : Type) where
  world : SpaceWorld A
  parents : NodePtr → Set NodePtr

namespace ListenedSpaces

def reread (heap : NodeHeap A) (parents : NodePtr → Set NodePtr) :
    SpaceEvent → NodePtr → Set NodePtr
  | .nodeMoved node => Function.update parents node (hierarchicalParents heap node)
  | .referenceAdded _ | .referenceDeleted _ | .nodeDeleted _ => parents

def step (chain : SpaceId → List SpaceId) (l : ListenedSpaces A) (a : SpaceAction A) :
    Option (ListenedSpaces A) := do
  let world ← l.world.step chain a
  let events ← l.world.tells world.heap a
  return { world, parents := events.foldl (reread world.heap) l.parents }

def machine (A : Type) (chain : SpaceId → List SpaceId) :
    Machine (ListenedSpaces A) (SpaceAction A) where
  init := { world := SpaceWorld.initial, parents := fun _ => ∅ }
  enabled l := l.world.Enabled
  step := step chain

/-- The step does not change which of the types in use are hierarchical. -/
def KeepsHierarchy (chain : SpaceId → List SpaceId) (w : SpaceWorld A) (a : SpaceAction A) : Prop :=
  ∀ w' ∈ w.step chain a, ∀ type < w'.heap.next, w.TypeInUse type ∨ w'.TypeInUse type →
    w'.heap.isSubtypeOf type StandardId.hierarchicalReferences =
      w.heap.isSubtypeOf type StandardId.hierarchicalReferences

variable {chain : SpaceId → List SpaceId} {l : ListenedSpaces A} {w w' : SpaceWorld A}
  {events : List SpaceEvent} {edge : Edge} {node : NodePtr}

theorem KeepsHierarchy.edges {a : SpaceAction A} (h : KeepsHierarchy chain w a)
    (hinv : w.Inv w.heap.edgeSet) (hinv' : w'.Inv w'.heap.edgeSet) (hs : w.step chain a = some w')
    (hle : w.heap.next ≤ w'.heap.next) :
    ∀ edge ∈ w.heap.edgeSet ∪ w'.heap.edgeSet,
      w'.heap.isSubtypeOf edge.type StandardId.hierarchicalReferences =
        w.heap.isSubtypeOf edge.type StandardId.hierarchicalReferences := by
  intro edge hedge
  have huse : w.TypeInUse edge.type ∨ w'.TypeInUse edge.type := by
    rw [hinv.typeInUse_iff, hinv'.typeInUse_iff]
    exact hedge.imp (fun hedge => ⟨edge, hedge, rfl⟩) fun hedge => ⟨edge, hedge, rfl⟩
  have hlt : edge.type < w'.heap.next := by
    rcases hedge with hedge | hedge
    · exact (hinv.represents.bounded _ (hinv.represents.alive edge hedge)).trans_le hle
    · exact hinv'.represents.bounded _ (hinv'.represents.alive edge hedge)
  exact h w' hs edge.type hlt huse

/-- Only references to a node matter to it, and only hierarchical ones. -/
theorem hierarchicalParents_congr
    (hsame : ∀ type parent, ⟨type, parent, node⟩ ∈ w'.heap.edgeSet ↔
      ⟨type, parent, node⟩ ∈ w.heap.edgeSet)
    (hkeeps : ∀ edge ∈ w.heap.edgeSet ∪ w'.heap.edgeSet,
      w'.heap.isSubtypeOf edge.type StandardId.hierarchicalReferences =
        w.heap.isSubtypeOf edge.type StandardId.hierarchicalReferences) :
    hierarchicalParents w'.heap node = hierarchicalParents w.heap node := by
  ext parent
  constructor
  · rintro ⟨type, hedge, htype⟩
    have hold := (hsame type parent).mp hedge
    exact ⟨type, hold, (hkeeps _ (Or.inl hold)).symm.trans htype⟩
  · rintro ⟨type, hedge, htype⟩
    exact ⟨type, (hsame type parent).mpr hedge, (hkeeps _ (Or.inl hedge)).trans htype⟩

/-- A reference that is not hierarchical changes nobody's parents. -/
theorem hierarchicalParents_of_flat
    (hsame : ∀ other, other ≠ edge → (other ∈ w'.heap.edgeSet ↔ other ∈ w.heap.edgeSet))
    (hedge : edge ∈ w.heap.edgeSet ∪ w'.heap.edgeSet)
    (hflat : w'.heap.isSubtypeOf edge.type StandardId.hierarchicalReferences = some false)
    (hkeeps : ∀ edge ∈ w.heap.edgeSet ∪ w'.heap.edgeSet,
      w'.heap.isSubtypeOf edge.type StandardId.hierarchicalReferences =
        w.heap.isSubtypeOf edge.type StandardId.hierarchicalReferences) :
    hierarchicalParents w'.heap node = hierarchicalParents w.heap node := by
  have hflat' := (hkeeps edge hedge).symm.trans hflat
  ext parent
  constructor
  · rintro ⟨type, hmem, htype⟩
    have hne : (⟨type, parent, node⟩ : Edge) ≠ edge := by
      rintro rfl
      cases htype.symm.trans hflat
    have hold := (hsame _ hne).mp hmem
    exact ⟨type, hold, (hkeeps _ (Or.inl hold)).symm.trans htype⟩
  · rintro ⟨type, hmem, htype⟩
    have hne : (⟨type, parent, node⟩ : Edge) ≠ edge := by
      rintro rfl
      cases htype.symm.trans hflat'
    exact ⟨type, (hsame _ hne).mpr hmem, (hkeeps _ (Or.inl hmem)).trans htype⟩

/-- A change of one reference. -/
theorem reread_reference {e : SpaceEvent} (hreread : ∀ parents, reread w'.heap parents e = parents)
    {hierarchical : Bool}
    (htype : w'.heap.isSubtypeOf edge.type StandardId.hierarchicalReferences = some hierarchical)
    (hsame : ∀ other, other ≠ edge → (other ∈ w'.heap.edgeSet ↔ other ∈ w.heap.edgeSet))
    (hedge : edge ∈ w.heap.edgeSet ∪ w'.heap.edgeSet)
    (hkeeps : ∀ edge ∈ w.heap.edgeSet ∪ w'.heap.edgeSet,
      w'.heap.isSubtypeOf edge.type StandardId.hierarchicalReferences =
        w.heap.isSubtypeOf edge.type StandardId.hierarchicalReferences) :
    (e :: SpaceWorld.movedBy hierarchical edge).foldl (reread w'.heap)
        (hierarchicalParents w.heap) =
      hierarchicalParents w'.heap := by
  rw [List.foldl_cons, hreread]
  cases hierarchical with
  | false =>
      funext node
      exact (hierarchicalParents_of_flat hsame hedge htype hkeeps).symm
  | true =>
      funext node
      show Function.update (hierarchicalParents w.heap) edge.target _ node = _
      by_cases hnode : node = edge.target
      · rw [hnode, Function.update_self]
      · rw [Function.update_of_ne hnode]
        refine (hierarchicalParents_congr (fun type parent => hsame _ ?_) hkeeps).symm
        rintro rfl
        exact hnode rfl

/-- **Parents that are read when nodes move are never out of date.** In every run in which no
step changes which of the types in use are hierarchical, a listener that reads the parents
of a node anew when it is told that the node has moved, and at no other time, knows the
parents of every node. -/
theorem listeners_know_the_parents
    (h : (machine A chain).Reaches
      (fun l a => l.world.KeepsTypes a ∧ KeepsHierarchy chain l.world a) l) :
    ∀ node, l.parents node = hierarchicalParents l.world.heap node := by
  have hboth : l.world.Inv l.world.heap.edgeSet ∧
      l.parents = hierarchicalParents l.world.heap := by
    apply h.invariant (I := fun l => l.world.Inv l.world.heap.edgeSet ∧
      l.parents = hierarchicalParents l.world.heap)
    · have hinv := SpaceWorld.Inv.initial (A := A)
      refine ⟨hinv.self, ?_⟩
      funext node
      apply (Set.eq_empty_of_forall_notMem _).symm
      rintro parent ⟨type, hedge, -⟩
      exact absurd (hinv.edgeSet_eq.subset hedge) (Set.notMem_empty _)
    · rintro u a u' ⟨hinv, hparents⟩ - ⟨hkeeps, hhierarchy⟩ hs
      obtain ⟨world, hstep, hs⟩ := Option.bind_eq_some_iff.mp hs
      obtain ⟨events, htells, hs⟩ := Option.bind_eq_some_iff.mp hs
      cases hs
      obtain ⟨edges', hinv'⟩ := hinv.step hkeeps hstep
      refine ⟨hinv'.self, ?_⟩
      have htold := hinv.tells hkeeps hstep htells
      have hkept := hhierarchy.edges hinv hinv'.self hstep htold.next_le
      show events.foldl (reread world.heap) u.parents = hierarchicalParents world.heap
      rw [hparents]
      cases htold with
      | nothing hedges _ | created hedges _ _ | nodeDeleted _ hedges _ _ _ _ =>
          funext node
          refine (hierarchicalParents_congr (fun type parent => ?_) hkept).symm
          rw [hedges]
      | added edge hierarchical _ hedges _ htype =>
          refine reread_reference (fun _ => rfl) htype (fun other hne => ?_) ?_ hkept
          · rw [hedges, Set.mem_insert_iff]
            exact or_iff_right hne
          · exact Or.inr (hedges ▸ Set.mem_insert edge _)
      | deleted edge hierarchical hedge hedges _ htype =>
          refine reread_reference (fun _ => rfl) htype (fun other hne => ?_) (Or.inl hedge) hkept
          rw [hedges]
          exact and_iff_left hne
  exact congrFun hboth.2

instance (l : ListenedSpaces A) (a : SpaceAction A) :
    Decidable ((machine A chain).enabled l a) :=
  inferInstanceAs (Decidable (l.world.Enabled a))

instance (w : SpaceWorld A) (a : SpaceAction A) : Decidable (KeepsHierarchy chain w a) := by
  unfold KeepsHierarchy
  infer_instance

/-- A node moves under another one. -/
theorem listeners_know_the_parents_moved :
    ∃ l : ListenedSpaces ℕ, 1 ∈ l.parents 2 ∧
      ∀ node, l.parents node = hierarchicalParents l.world.heap node := by
  obtain ⟨l, hl, hp⟩ := Machine.exists_reaches_of_exec (M := machine ℕ fun space => [space])
    (fun l a => l.world.KeepsTypes a ∧ KeepsHierarchy (fun space => [space]) l.world a)
    (p := fun l => (l.world.heap.nodes 1).map (·.forwardReferences) = some [⟨0, 2⟩] ∧
      l.world.heap.isSubtypeOf 0 StandardId.hierarchicalReferences = some true)
    [.addNode (0, StandardId.hierarchicalReferences) .referenceType 0 true,
      .addNode (0, .numeric 100 7) .object 0 true, .addNode (0, .numeric 101 7) .object 0 true,
      .addReference (0, StandardId.hierarchicalReferences) (0, .numeric 100 7) (0, .numeric 101 7)]
    (by decide)
  obtain ⟨hreferences, htype⟩ := of_decide_eq_true hp
  obtain ⟨node, hnode, hforward⟩ := Option.map_eq_some_iff.mp hreferences
  have hparents := listeners_know_the_parents hl
  refine ⟨l, ?_, hparents⟩
  rw [hparents]
  exact ⟨0, ⟨node, hnode, by simp [hforward]⟩, htype⟩

end ListenedSpaces

/-! ## §6  Clearing a space -/

namespace AddressSpaces

/-- `Clear`; `order` is the one of the nodes in the map of the space. -/
def clear (space : SpaceId) (order : List NodePtr) (rounds : ℕ) (spaces : AddressSpaces A) :
    Option (AddressSpaces A) := do
  let spaces ← order.foldlM (fun spaces ptr => deleteAllReferences ptr rounds spaces) spaces
  return { spaces with
    nodeMap := fun place => if place.1 = space then none else spaces.nodeMap place }

variable {spaces spaces' : AddressSpaces A} {edges : Set Edge} {ptr : NodePtr}
  {space : SpaceId} {order : List NodePtr}

/-- The references of one node, when some have gone before. -/
theorem exists_deleteAllReferences (h : spaces.Inv spaces.heap.edgeSet)
    (hleft : spaces.Left [] edges spaces') (halive : spaces.heap.Alive ptr)
    (htold : ∀ edge ∈ edges, Touches edge ptr → spaces.isHierarchical edge.type ≠ none) :
    ∃ rounds spaces'', (∀ more, rounds ≤ more →
        deleteAllReferences ptr more spaces' = some spaces'') ∧
      spaces.Left [] {edge ∈ edges | ¬ Touches edge ptr} spaces'' := by
  induction hn : {edge | edge ∈ edges ∧ Touches edge ptr}.ncard using Nat.strong_induction_on
    generalizing edges spaces' with
  | _ n ih =>
      obtain ⟨node, hnode⟩ := NodeHeap.alive_iff.mp halive
      obtain ⟨node', hnode', -⟩ := hleft.exists_node List.not_mem_nil hnode
      rcases deleteAllReferences_succ hleft.inv hnode' with
        ⟨hnone, heq⟩ | ⟨edge, hedge, htouches, heq⟩
      · have hall : {edge ∈ edges | ¬ Touches edge ptr} = edges :=
          Set.sep_eq_self_iff_mem_true.mpr hnone
        rw [hall]
        refine ⟨1, spaces', fun more hmore => ?_, hleft⟩
        obtain ⟨more, rfl⟩ := Nat.exists_eq_add_of_le' hmore
        exact heq more
      · obtain ⟨heap, hheap⟩ := hleft.inv.represents.exists_deleteReference hedge
        have hleft' := hleft.deleteReference hheap
        have htold' : isHierarchical { spaces' with heap } edge.type ≠ none :=
          hleft'.isHierarchical_ne_none h (fun above _ => List.not_mem_nil)
            (htold edge hedge htouches)
        have hcard := ncard_touching_lt hleft.inv hnode' hedge htouches
        rw [hn] at hcard
        obtain ⟨rounds, spaces'', hrest, hend⟩ := ih _ hcard hleft'
          (fun other hother => htold other hother.1) rfl
        have hsame : {other ∈ edges \ {edge} | ¬ Touches other ptr} =
            {other ∈ edges | ¬ Touches other ptr} := by
          ext other
          refine ⟨fun hother => ⟨hother.1.1, hother.2⟩, fun hother => ⟨⟨hother.1, ?_⟩, hother.2⟩⟩
          rintro rfl
          exact hother.2 htouches
        refine ⟨rounds + 1, spaces'', fun more hmore => ?_, hsame ▸ hend⟩
        obtain ⟨more, rfl⟩ := Nat.exists_eq_add_of_le' hmore
        rw [← Nat.add_assoc, heq, deleteReference_of_told hheap htold']
        exact hrest _ (Nat.le_add_left rounds more)

/-- The loop of `Clear`. -/
theorem exists_clearNodes (h : spaces.Inv spaces.heap.edgeSet)
    (halive : ∀ ptr ∈ order, spaces.heap.Alive ptr)
    (htold : ∀ edge ∈ spaces.heap.edgeSet, (∃ ptr ∈ order, Touches edge ptr) →
      spaces.isHierarchical edge.type ≠ none)
    (hleft : spaces.Left [] edges spaces') :
    ∃ rounds spaces'', (∀ more, rounds ≤ more →
        order.foldlM (fun spaces ptr => deleteAllReferences ptr more spaces) spaces' =
          some spaces'') ∧
      spaces.Left [] {edge ∈ edges | ∀ ptr ∈ order, ¬ Touches edge ptr} spaces'' := by
  induction order generalizing edges spaces' with
  | nil =>
      refine ⟨0, spaces', fun more _ => rfl, ?_⟩
      simpa using hleft
  | cons ptr order ih =>
      obtain ⟨hptr, hrest⟩ := List.forall_mem_cons.mp halive
      obtain ⟨rounds, between, hfirst, hleft'⟩ := exists_deleteAllReferences h hleft hptr
        fun edge hedge htouches =>
          htold edge (hleft.within hedge).1 ⟨ptr, List.mem_cons_self, htouches⟩
      obtain ⟨rounds', spaces'', hmore, hend⟩ := ih hrest
        (fun edge hedge hother => htold edge hedge
          (hother.imp fun _ hother => ⟨List.mem_cons_of_mem _ hother.1, hother.2⟩)) hleft'
      refine ⟨max rounds rounds', spaces'', fun more hle => ?_, ?_⟩
      · obtain ⟨hle, hle'⟩ := max_le_iff.mp hle
        rw [List.foldlM_cons, hfirst more hle]
        exact hmore more hle'
      · have hsame : {edge ∈ {edge ∈ edges | ¬ Touches edge ptr} |
            ∀ other ∈ order, ¬ Touches edge other} =
            {edge ∈ edges | ∀ other ∈ ptr :: order, ¬ Touches edge other} := by
          ext edge
          simp [and_assoc]
        exact hsame ▸ hend

theorem exists_clear (h : spaces.Inv spaces.heap.edgeSet)
    (horder : ∀ ptr, ptr ∈ order ↔ ∃ id, spaces.nodeMap (space, id) = some ptr)
    (htold : ∀ edge ∈ spaces.heap.edgeSet, (∃ ptr ∈ order, Touches edge ptr) →
      spaces.isHierarchical edge.type ≠ none)
    (htypes : ∀ edge ∈ spaces.heap.edgeSet, (∀ ptr ∈ order, ¬ Touches edge ptr) →
      edge.type ∉ order) :
    ∃ rounds spaces', (∀ more, rounds ≤ more → clear space order more spaces = some spaces') ∧
      spaces'.Inv (spaces.remaining order) ∧ (∀ id, spaces'.nodeMap (space, id) = none) ∧
      ∀ place, place.1 ≠ space → spaces'.nodeMap place = spaces.nodeMap place := by
  have halive : ∀ ptr ∈ order, spaces.heap.Alive ptr := by
    intro ptr hptr
    obtain ⟨id, hid⟩ := (horder ptr).mp hptr
    exact h.placed _ ptr hid
  obtain ⟨rounds, between, hclear, hleft⟩ := exists_clearNodes h halive htold (Left.refl h)
  have hedges : {edge ∈ spaces.remaining [] | ∀ ptr ∈ order, ¬ Touches edge ptr} =
      spaces.remaining order := by
    ext edge
    constructor
    · rintro ⟨⟨hedge, -, -⟩, halone⟩
      exact ⟨hedge, fun hmem => halone _ hmem (Or.inl rfl), fun hmem => halone _ hmem (Or.inr rfl)⟩
    · rintro ⟨hedge, hsource, htarget⟩
      refine ⟨⟨hedge, List.not_mem_nil, List.not_mem_nil⟩, fun ptr hptr htouches => ?_⟩
      rcases htouches with rfl | rfl
      · exact hsource hptr
      · exact htarget hptr
  rw [hedges] at hleft
  have hmap : ∀ place ptr, between.nodeMap place = some ptr ↔ spaces.nodeMap place = some ptr := by
    intro place ptr
    rw [hleft.nodeMap]
    exact and_iff_left List.not_mem_nil
  let cleared : AddressSpaces A := { between with
    nodeMap := fun place => if place.1 = space then none else between.nodeMap place }
  have hcleared : ∀ place ptr, cleared.nodeMap place = some ptr ↔
      place.1 ≠ space ∧ between.nodeMap place = some ptr := by
    intro place ptr
    show (if place.1 = space then none else between.nodeMap place) = some ptr ↔ _
    by_cases hspace : place.1 = space
    · simp [hspace]
    · simp [hspace]
  refine ⟨rounds, cleared, fun more hmore => ?_, ?_, fun id => if_pos rfl, fun place hplace => ?_⟩
  · unfold clear
    rw [hclear more hmore]
    rfl
  · refine ⟨hleft.inv.represents, ?_, ?_, ?_⟩
    · intro place ptr hplace
      exact hleft.inv.placed place ptr ((hcleared place ptr).mp hplace).2
    · intro place place' ptr hplace hplace'
      exact hleft.inv.once place place' ptr ((hcleared place ptr).mp hplace).2
        ((hcleared place' ptr).mp hplace').2
    · intro edge hedge
      -- What is not of the space is still found where it was.
      have hkept : ∀ ptr, ptr ∉ order → SpaceWorld.Present ⟨between, []⟩ ptr →
          SpaceWorld.Present ⟨cleared, []⟩ ptr := by
        rintro ptr hptr ⟨place, hplace⟩
        refine ⟨place, (hcleared place ptr).mpr ⟨?_, hplace⟩⟩
        intro hspace
        exact hptr ((horder ptr).mpr ⟨place.2, hspace ▸ (hmap place ptr).mp hplace⟩)
      obtain ⟨htype, hsource, htarget⟩ := hleft.inv.present edge hedge
      obtain ⟨hedge, hsource', htarget'⟩ := hedge
      have htype' := htypes edge hedge fun ptr hptr htouches =>
        htouches.elim (fun heq => hsource' (heq ▸ hptr)) fun heq => htarget' (heq ▸ hptr)
      exact ⟨hkept _ htype' htype, hkept _ hsource' hsource, hkept _ htarget' htarget⟩
  · show (if place.1 = space then none else between.nodeMap place) = _
    rw [if_neg hplace]
    exact Option.ext fun ptr => hmap place ptr

/-- **`Clear` ends, in any order of the nodes.** In every state that runs reach, a space can
be cleared where the types of the references of its nodes can be told, whatever the order of
its map: no node is found in it any more, the references with an end in it are gone, and the
rest is as it was, in a graph as intact as before. What the other references have as their
types must be elsewhere. -/
theorem clear_ends {chain : SpaceId → List SpaceId} {w : SpaceWorld A}
    (h : (SpaceWorld.machine A chain).Reaches SpaceWorld.KeepsTypes w)
    (horder : ∀ ptr, ptr ∈ order ↔ ∃ id, w.nodeMap (space, id) = some ptr)
    (htold : ∀ edge ∈ w.heap.edgeSet, (∃ ptr ∈ order, Touches edge ptr) →
      w.toAddressSpaces.isHierarchical edge.type ≠ none)
    (htypes : ∀ edge ∈ w.heap.edgeSet, (∀ ptr ∈ order, ¬ Touches edge ptr) →
      edge.type ∉ order) :
    ∃ rounds spaces', (∀ more, rounds ≤ more →
        clear space order more w.toAddressSpaces = some spaces') ∧
      (∀ id, spaces'.nodeMap (space, id) = none) ∧
      (∀ place, place.1 ≠ space → spaces'.nodeMap place = w.nodeMap place) ∧
      spaces'.heap.edgeSet = w.toAddressSpaces.remaining order ∧
      SpaceWorld.Intact ⟨spaces', []⟩ := by
  obtain ⟨edges, hinv⟩ := SpaceWorld.exists_inv_of_reaches h
  obtain ⟨rounds, spaces', hclear, hinv', hnone, hother⟩ :=
    exists_clear (hinv.self.setCalls []) horder htold htypes
  exact ⟨rounds, spaces', hclear, hnone, hother, hinv'.edgeSet_eq, hinv'.intact⟩

theorem lt_three {n : ℕ} (h : n < 3) : n = 0 ∨ n = 1 ∨ n = 2 := by
  omega

/-- A space of two nodes and a reference, whose type is in another space. -/
theorem clear_ends_small : ∃ (spaces : AddressSpaces ℕ) (rounds : ℕ) (spaces' : AddressSpaces ℕ),
    spaces.nodeMap (1, .numeric 100 7) = some 1 ∧ ⟨0, 1, 2⟩ ∈ spaces.heap.edgeSet ∧
      clear 1 [2, 1] rounds spaces = some spaces' ∧
      spaces'.nodeMap (1, .numeric 100 7) = none ∧
      spaces'.nodeMap (0, StandardId.hierarchicalReferences) = some 0 := by
  obtain ⟨w, hw, hp⟩ := Machine.exists_reaches_of_exec
    (M := SpaceWorld.machine ℕ fun space => [space, 0]) SpaceWorld.KeepsTypes
    (p := fun w => w.heap.next = 3 ∧ w.nodeMap (0, StandardId.hierarchicalReferences) = some 0 ∧
      w.nodeMap (1, .numeric 100 7) = some 1 ∧ w.nodeMap (1, .numeric 101 7) = some 2 ∧
      w.toAddressSpaces.isHierarchical 0 = some true ∧
      [0, 1, 2].map (fun ptr => (w.heap.nodes ptr).map (·.forwardReferences)) =
        [some [], some [⟨0, 2⟩], some []])
    [.addNode (0, StandardId.hierarchicalReferences) .referenceType 0 true,
      .addNode (1, .numeric 100 7) .object 0 true, .addNode (1, .numeric 101 7) .object 0 true,
      .addReference (0, StandardId.hierarchicalReferences) (1, .numeric 100 7) (1, .numeric 101 7)]
    (by decide)
  obtain ⟨hnext, htype, hfirst, hsecond, htold, hreferences⟩ := of_decide_eq_true hp
  obtain ⟨edges, hinv⟩ := SpaceWorld.exists_inv_of_reaches hw
  have hplaces : ∀ ptr, ptr ∈ [2, 1] ↔ ∃ id, w.nodeMap (1, id) = some ptr := by
    intro ptr
    constructor
    · intro hptr
      rcases List.mem_pair.mp hptr with rfl | rfl
      · exact ⟨_, hsecond⟩
      · exact ⟨_, hfirst⟩
    · rintro ⟨id, hid⟩
      have hlt := hinv.present_lt ⟨_, hid⟩
      have hne : ptr ≠ 0 := by
        rintro rfl
        cases hinv.once _ _ _ hid htype
      rcases lt_three (hnext ▸ hlt) with rfl | rfl | rfl
      · exact absurd rfl hne
      · exact List.mem_cons_of_mem _ (List.mem_cons_self ..)
      · exact List.mem_cons_self ..
  have hedges : ∀ edge ∈ w.heap.edgeSet, edge = ⟨0, 1, 2⟩ := by
    rintro ⟨type, source, target⟩ ⟨node, hnode, href⟩
    have hlt : source < 3 := by
      rw [← hnext]
      exact hinv.represents.bounded source (NodeHeap.alive_iff.mpr ⟨node, hnode⟩)
    simp only [List.map_cons, List.cons.injEq, Option.map_eq_some_iff] at hreferences
    obtain ⟨⟨n₀, hn₀, hr₀⟩, ⟨n₁, hn₁, hr₁⟩, ⟨n₂, hn₂, hr₂⟩, -⟩ := hreferences
    dsimp only at hnode href
    rcases lt_three hlt with rfl | rfl | rfl
    · cases hn₀.symm.trans hnode
      rw [hr₀] at href
      cases href
    · cases hn₁.symm.trans hnode
      rw [hr₁] at href
      cases List.mem_singleton.mp href
      rfl
    · cases hn₂.symm.trans hnode
      rw [hr₂] at href
      cases href
  have hedge : (⟨0, 1, 2⟩ : Edge) ∈ w.heap.edgeSet := by
    simp only [List.map_cons, List.cons.injEq, Option.map_eq_some_iff] at hreferences
    obtain ⟨-, ⟨node, hnode, hforward⟩, -⟩ := hreferences
    exact ⟨node, hnode, by simp [hforward]⟩
  obtain ⟨rounds, spaces', hclear, hnone, hother, -⟩ := clear_ends hw hplaces
    (fun edge hmem _ => by
      rw [hedges edge hmem, htold]
      exact Option.some_ne_none _)
    (fun edge hmem halone => absurd (Or.inl (by rw [hedges edge hmem])) (halone 1 (by simp)))
  refine ⟨w.toAddressSpaces, rounds, spaces', hfirst, hedge, hclear rounds le_rfl, hnone _, ?_⟩
  exact (hother _ (by decide)).trans htype

end AddressSpaces

end ScadaCommon.AddressSpace
