import ScadaCommon.Events.EventStorage

/-!
# The index of the event storage

When the node sets hold exactly the pointers to the stored events of their
node, each once and in order, and when an operation keeps them so. Replacing a
stored event in place does not touch the node sets: it keeps them right when
the new event belongs where the old one was.

§1 the invariant · §2 what each operation does to it · §3 runs.
-/

namespace ScadaCommon

open Foundation

namespace EventStorage

/-! ## §1  The invariant -/

/-- The order of the node sets, on what the pointers lead to. -/
def Precedes (e e' : StoredEvent) : Prop :=
  e.event.time < e'.event.time ∨ e.event.time = e'.event.time ∧ e.ptr < e'.ptr

theorem Precedes.asymm {e e' : StoredEvent} (h : Precedes e e') : ¬ Precedes e' e := by
  unfold Precedes at *
  grind

theorem precedes_total {e e' : StoredEvent} (h : e.ptr ≠ e'.ptr) (hnot : ¬ Precedes e e') :
    Precedes e' e := by
  unfold Precedes at *
  grind

/-- Elements of the map have addresses of their own. -/
def Distinct (stored : EventId → Option StoredEvent) : Prop :=
  ∀ id id' e e', stored id = some e → stored id' = some e' → e.ptr = e'.ptr → id = id'

/-- The node sets index the stored events. The null id names no node, so
events without a source are in no set. -/
structure Indexed (s : EventStorage) : Prop where
  keyed : ∀ id e, s.stored id = some e → e.event.eventId = id
  distinct : Distinct s.stored
  sorted : ∀ n, OrderedSet.Sorted (EventComparer s.timeOf) (s.nodeEntry n).events
  mem_iff : ∀ n p, p ∈ (s.nodeEntry n).events ↔
    n ≠ .null ∧ ∃ id e, s.stored id = some e ∧ e.ptr = p ∧ e.event.sourceNodeId = n

variable {s s' : EventStorage}

theorem mem_entries_iff {id : EventId} {e : StoredEvent} :
    (⟨id, e⟩ : Sigma fun _ : EventId => StoredEvent) ∈ s.events.entries ↔
      s.stored id = some e :=
  AList.mem_lookup_iff.symm

theorem stores_iff {p : EventPtr} :
    s.Stores p ↔ ∃ id e, s.stored id = some e ∧ e.ptr = p := by
  constructor
  · rintro ⟨⟨id, e⟩, hmem, rfl⟩
    exact ⟨id, e, mem_entries_iff.mp hmem, rfl⟩
  · rintro ⟨id, e, he, rfl⟩
    exact ⟨⟨id, e⟩, mem_entries_iff.mpr he, rfl⟩

theorem timeOf_eq (hd : Distinct s.stored) {id : EventId} {e : StoredEvent}
    (he : s.stored id = some e) : s.timeOf e.ptr = e.event.time := by
  unfold timeOf
  split
  · rename_i found hfound
    obtain ⟨id', e'⟩ := found
    have hptr : e'.ptr = e.ptr := by simpa using List.find?_some hfound
    have he' : s.stored id' = some e' :=
      mem_entries_iff.mp (List.mem_of_find?_eq_some hfound)
    obtain rfl := hd _ _ _ _ he' he hptr
    rw [Option.some.inj (he'.symm.trans he)]
  · rename_i hnone
    have := List.find?_eq_none.mp hnone _ (mem_entries_iff.mpr he)
    simp at this

theorem comparer_iff (hd : Distinct s.stored) {id id' : EventId} {e e' : StoredEvent}
    (he : s.stored id = some e) (he' : s.stored id' = some e') :
    EventComparer s.timeOf e.ptr e'.ptr ↔ Precedes e e' := by
  rw [eventComparer_iff, timeOf_eq hd he, timeOf_eq hd he', Precedes]

/-- A set whose elements are stored alike in another state is sorted there
too. -/
theorem sorted_transfer (hd : Distinct s.stored) (hd' : Distinct s'.stored)
    {set : List EventPtr} (h : OrderedSet.Sorted (EventComparer s.timeOf) set)
    (hsame : ∀ p ∈ set, ∃ id e, s.stored id = some e ∧ s'.stored id = some e ∧ e.ptr = p) :
    OrderedSet.Sorted (EventComparer s'.timeOf) set := by
  refine h.congr ?_
  intro p hp q hq hpq
  obtain ⟨id, e, he, he', rfl⟩ := hsame p hp
  obtain ⟨jd, f, hf, hf', rfl⟩ := hsame q hq
  rw [comparer_iff hd he hf] at hpq
  rwa [comparer_iff hd' he' hf']

namespace Indexed

theorem stores (h : Indexed s) {n : NodeId} : ∀ p ∈ (s.nodeEntry n).events, s.Stores p := by
  intro p hp
  obtain ⟨-, id, e, he, hptr, -⟩ := (h.mem_iff n p).mp hp
  exact stores_iff.mpr ⟨id, e, he, hptr⟩

theorem mem_of_stored (h : Indexed s) {id : EventId} {e : StoredEvent}
    (he : s.stored id = some e) (hne : e.event.sourceNodeId ≠ .null) :
    e.ptr ∈ (s.nodeEntry e.event.sourceNodeId).events :=
  (h.mem_iff _ _).mpr ⟨hne, id, e, he, rfl, rfl⟩

/-- The invariant is about the stored events and the node sets only. -/
theorem congr (h : Indexed s) (hstored : s'.stored = s.stored)
    (hsets : ∀ n, (s'.nodeEntry n).events = (s.nodeEntry n).events) : Indexed s' := by
  have hd : Distinct s'.stored := hstored ▸ h.distinct
  refine ⟨?_, hd, ?_, ?_⟩
  · rw [hstored]
    exact h.keyed
  · intro n
    rw [hsets]
    refine sorted_transfer h.distinct hd (h.sorted n) ?_
    intro p hp
    obtain ⟨-, id, e, he, hptr, -⟩ := (h.mem_iff n p).mp hp
    exact ⟨id, e, he, hstored ▸ he, hptr⟩
  · intro n p
    rw [hsets, hstored]
    exact h.mem_iff n p

/-! ## §2  The operations -/

theorem empty : Indexed .empty := by
  refine ⟨?_, ?_, ?_, ?_⟩
  · rintro id e ⟨⟩
  · rintro id id' e e' ⟨⟩
  · exact fun n => List.Pairwise.nil
  · intro n p
    simp [EventStorage.empty, nodeEntry, stored]

/-- A new event is in the set of its node, and no other set changes. -/
theorem inserted (h : Indexed s) {ptr : EventPtr} {event : Event}
    (hnew : s.stored event.eventId = none) (hfresh : ¬ s.Stores ptr)
    (hstored : s'.stored = Function.update s.stored event.eventId (some ⟨ptr, event⟩))
    (hset : event.sourceNodeId ≠ .null → (s'.nodeEntry event.sourceNodeId).events =
      OrderedSet.insert (EventComparer s'.timeOf) ptr (s.nodeEntry event.sourceNodeId).events)
    (hother : ∀ n, n ≠ event.sourceNodeId ∨ n = .null →
      (s'.nodeEntry n).events = (s.nodeEntry n).events) : Indexed s' := by
  have hold : ∀ id e, s.stored id = some e → s'.stored id = some e := by
    intro id e he
    have hne : id ≠ event.eventId := by
      rintro rfl
      rw [hnew] at he
      cases he
    rw [hstored, Function.update_of_ne hne, he]
  have hcases : ∀ id e, s'.stored id = some e →
      id = event.eventId ∧ e = ⟨ptr, event⟩ ∨ s.stored id = some e := by
    intro id e he
    by_cases hid : id = event.eventId
    · subst hid
      rw [hstored, Function.update_self] at he
      exact Or.inl ⟨rfl, (Option.some.inj he).symm⟩
    · rw [hstored, Function.update_of_ne hid] at he
      exact Or.inr he
  have hnewptr : ∀ id e, s.stored id = some e → e.ptr ≠ ptr :=
    fun id e he hptr => hfresh (stores_iff.mpr ⟨id, e, he, hptr⟩)
  have hself : s'.stored event.eventId = some ⟨ptr, event⟩ := by
    rw [hstored, Function.update_self]
  have hd : Distinct s'.stored := by
    intro id id' e e' he he' hptr
    rcases hcases _ _ he with ⟨rfl, rfl⟩ | hold_e
    · rcases hcases _ _ he' with ⟨rfl, rfl⟩ | hold_e'
      · rfl
      · exact absurd hptr.symm (hnewptr _ _ hold_e')
    · rcases hcases _ _ he' with ⟨rfl, rfl⟩ | hold_e'
      · exact absurd hptr (hnewptr _ _ hold_e)
      · exact h.distinct _ _ _ _ hold_e hold_e' hptr
  -- The events of the pointers in the sets are the old ones, so their order is too.
  have hsorted : ∀ n, OrderedSet.Sorted (EventComparer s'.timeOf) (s.nodeEntry n).events := by
    intro n
    refine sorted_transfer h.distinct hd (h.sorted n) ?_
    intro p hp
    obtain ⟨-, id, e, he, hptr, -⟩ := (h.mem_iff n p).mp hp
    exact ⟨id, e, he, hold _ _ he, hptr⟩
  refine ⟨?_, hd, ?_, ?_⟩
  · intro id e he
    rcases hcases _ _ he with ⟨rfl, rfl⟩ | hold_e
    · rfl
    · exact h.keyed _ _ hold_e
  · intro n
    by_cases hn : n = event.sourceNodeId ∧ n ≠ .null
    · obtain ⟨rfl, hne⟩ := hn
      rw [hset hne]
      exact (hsorted _).insert ptr
    · rw [hother n (by tauto)]
      exact hsorted n
  · intro n p
    by_cases hn : n = event.sourceNodeId ∧ n ≠ .null
    · obtain ⟨rfl, hne⟩ := hn
      rw [hset hne, OrderedSet.mem_insert, h.mem_iff]
      constructor
      · rintro (rfl | ⟨-, id, e, he, hptr, hsource⟩)
        · exact ⟨hne, _, _, hself, rfl, rfl⟩
        · exact ⟨hne, id, e, hold _ _ he, hptr, hsource⟩
      · rintro ⟨-, id, e, he, hptr, hsource⟩
        rcases hcases _ _ he with ⟨rfl, rfl⟩ | hold_e
        · exact Or.inl hptr.symm
        · exact Or.inr ⟨hne, id, e, hold_e, hptr, hsource⟩
    · rw [hother n (by tauto), h.mem_iff]
      constructor
      · rintro ⟨hne, id, e, he, hptr, hsource⟩
        exact ⟨hne, id, e, hold _ _ he, hptr, hsource⟩
      · rintro ⟨hne, id, e, he, hptr, hsource⟩
        rcases hcases _ _ he with ⟨rfl, rfl⟩ | hold_e
        · exact absurd ⟨hsource.symm, hne⟩ hn
        · exact ⟨hne, id, e, hold_e, hptr, hsource⟩

/-- Taking an event out of the map and its pointer out of the sets. -/
theorem erased (h : Indexed s) {id : EventId} {e : StoredEvent} (he : s.stored id = some e)
    (hstored : s'.stored = Function.update s.stored id none)
    (hsets : ∀ n, (s'.nodeEntry n).events = (s.nodeEntry n).events.erase e.ptr) :
    Indexed s' := by
  have hiff : ∀ jd f, s'.stored jd = some f ↔ jd ≠ id ∧ s.stored jd = some f := by
    intro jd f
    rw [hstored]
    by_cases hjd : jd = id
    · subst hjd
      simp
    · simp [hjd]
  -- No two ids have one pointer, so the pointer tells the event apart.
  have hne_iff : ∀ jd f, s.stored jd = some f → (jd ≠ id ↔ f.ptr ≠ e.ptr) := by
    intro jd f hf
    constructor
    · exact fun hne hptr => hne (h.distinct _ _ _ _ hf he hptr)
    · rintro hptr rfl
      exact hptr (congrArg StoredEvent.ptr (Option.some.inj (hf.symm.trans he)))
  have hd : Distinct s'.stored := by
    intro id₁ id₂ e₁ e₂ h₁ h₂ hptr
    exact h.distinct _ _ _ _ ((hiff _ _).mp h₁).2 ((hiff _ _).mp h₂).2 hptr
  refine ⟨?_, hd, ?_, ?_⟩
  · exact fun jd f hf => h.keyed _ _ ((hiff _ _).mp hf).2
  · intro n
    rw [hsets]
    refine sorted_transfer h.distinct hd ((h.sorted n).erase e.ptr) ?_
    intro p hp
    rw [OrderedSet.mem_erase (h.sorted n), h.mem_iff] at hp
    obtain ⟨hne, -, jd, f, hf, rfl, -⟩ := hp
    exact ⟨jd, f, hf, (hiff _ _).mpr ⟨(hne_iff _ _ hf).mpr hne, hf⟩, rfl⟩
  · intro n p
    rw [hsets, OrderedSet.mem_erase (h.sorted n), h.mem_iff]
    constructor
    · rintro ⟨hne, hn, jd, f, hf, rfl, hsource⟩
      exact ⟨hn, jd, f, (hiff _ _).mpr ⟨(hne_iff _ _ hf).mpr hne, hf⟩, rfl, hsource⟩
    · rintro ⟨hn, jd, f, hf, rfl, hsource⟩
      obtain ⟨hjd, hf⟩ := (hiff _ _).mp hf
      exact ⟨(hne_iff _ _ hf).mp hjd, hn, jd, f, hf, rfl, hsource⟩

end Indexed

/-- Were the event stored under its id replaced in place by `event`, its
pointer would still be in the right set and at the right position there. -/
def KeepsPlace (stored : EventId → Option StoredEvent) (event : Event) : Prop :=
  ∀ old, stored event.eventId = some old →
    old.event.sourceNodeId = event.sourceNodeId ∧
    (event.sourceNodeId ≠ .null → ∀ id other, stored id = some other → id ≠ event.eventId →
      other.event.sourceNodeId = event.sourceNodeId →
      (Precedes old other ↔ Precedes ⟨old.ptr, event⟩ other))

namespace Indexed

/-- Replacing an event in place changes only the comparisons with it. -/
theorem replaced (h : Indexed s) {event : Event} {old : StoredEvent}
    (hold : s.stored event.eventId = some old) (hplace : KeepsPlace s.stored event)
    (hstored : s'.stored = Function.update s.stored event.eventId (some ⟨old.ptr, event⟩))
    (hsets : ∀ n, (s'.nodeEntry n).events = (s.nodeEntry n).events) : Indexed s' := by
  obtain ⟨hsource, horder⟩ := hplace old hold
  have hself : s'.stored event.eventId = some ⟨old.ptr, event⟩ := by
    rw [hstored, Function.update_self]
  have hother : ∀ id, id ≠ event.eventId → s'.stored id = s.stored id := by
    intro id hid
    rw [hstored, Function.update_of_ne hid]
  -- The element stored under an id keeps its address and its source.
  have hback : ∀ id e', s'.stored id = some e' → ∃ e, s.stored id = some e ∧
      e.ptr = e'.ptr ∧ e.event.sourceNodeId = e'.event.sourceNodeId := by
    intro id e' he'
    by_cases hid : id = event.eventId
    · subst hid
      cases hself.symm.trans he'
      exact ⟨old, hold, rfl, hsource⟩
    · exact ⟨e', hother id hid ▸ he', rfl, rfl⟩
  have hforth : ∀ id e, s.stored id = some e → ∃ e', s'.stored id = some e' ∧
      e'.ptr = e.ptr ∧ e'.event.sourceNodeId = e.event.sourceNodeId := by
    intro id e he
    by_cases hid : id = event.eventId
    · subst hid
      cases hold.symm.trans he
      exact ⟨_, hself, rfl, hsource.symm⟩
    · exact ⟨e, (hother id hid).trans he, rfl, rfl⟩
  have hd : Distinct s'.stored := by
    intro id id' e e' he he' hptr
    obtain ⟨f, hf, hfp, -⟩ := hback _ _ he
    obtain ⟨f', hf', hfp', -⟩ := hback _ _ he'
    exact h.distinct _ _ _ _ hf hf' (hfp.trans (hptr.trans hfp'.symm))
  refine ⟨?_, hd, ?_, ?_⟩
  · intro id e he
    by_cases hid : id = event.eventId
    · subst hid
      cases hself.symm.trans he
      rfl
    · exact h.keyed _ _ (hother id hid ▸ he)
  · intro n
    rw [hsets]
    refine (h.sorted n).congr ?_
    intro p hp q hq hpq
    obtain ⟨hn, id, e, he, rfl, hen⟩ := (h.mem_iff n p).mp hp
    obtain ⟨-, jd, f, hf, rfl, hfn⟩ := (h.mem_iff n q).mp hq
    rw [comparer_iff h.distinct he hf] at hpq
    by_cases hid : id = event.eventId
    · subst hid
      cases hold.symm.trans he
      by_cases hjd : jd = event.eventId
      · subst hjd
        cases hold.symm.trans hf
        exact absurd hpq hpq.asymm
      · rw [comparer_iff (e := ⟨old.ptr, event⟩) hd hself ((hother jd hjd).trans hf)]
        have hne : event.sourceNodeId ≠ .null := by
          rw [← hsource, hen]
          exact hn
        exact (horder hne jd f hf hjd (by rw [hfn, ← hen, hsource])).mp hpq
    · by_cases hjd : jd = event.eventId
      · subst hjd
        cases hold.symm.trans hf
        have hcomp := comparer_iff hd ((hother id hid).trans he) hself
        dsimp only at hcomp
        rw [hcomp]
        have hne : event.sourceNodeId ≠ .null := by
          rw [← hsource, hfn]
          exact hn
        have hptr : old.ptr ≠ e.ptr :=
          fun hptr => hid (h.distinct _ _ _ _ he hold hptr.symm)
        refine precedes_total hptr ?_
        rw [← horder hne id e he hid (by rw [hen, ← hfn, hsource])]
        exact hpq.asymm
      · rwa [comparer_iff hd ((hother id hid).trans he) ((hother jd hjd).trans hf)]
  · intro n p
    rw [hsets, h.mem_iff]
    constructor
    · rintro ⟨hn, id, e, he, rfl, hen⟩
      obtain ⟨e', he', hptr, hsrc⟩ := hforth id e he
      exact ⟨hn, id, e', he', hptr, hsrc.trans hen⟩
    · rintro ⟨hn, id, e', he', rfl, hen⟩
      obtain ⟨e, he, hptr, hsrc⟩ := hback id e' he'
      exact ⟨hn, id, e, he, hptr, hsrc.trans hen⟩

end Indexed

/-! ### What happens to the node sets -/

theorem nodeEntry_congr {n : NodeId} (h : s'.nodeEvents = s.nodeEvents) :
    s'.nodeEntry n = s.nodeEntry n := by
  unfold nodeEntry
  rw [h]

theorem nodeEntry_insert {n m : NodeId} {entry : NodeEntry}
    (h : s'.nodeEvents = s.nodeEvents.insert m entry) :
    s'.nodeEntry n = if n = m then entry else s.nodeEntry n := by
  unfold nodeEntry
  rw [h]
  split
  · rename_i hnm
    rw [hnm, AList.lookup_insert, Option.getD_some]
  · rename_i hnm
    rw [AList.lookup_insert_ne hnm]

theorem nodeEntry_erase {n m : NodeId} (h : s'.nodeEvents = s.nodeEvents.erase m) :
    s'.nodeEntry n = if n = m then ⟨[], ∅⟩ else s.nodeEntry n := by
  unfold nodeEntry
  rw [h]
  split
  · rename_i hnm
    rw [hnm, AList.lookup_erase, Option.getD_none]
  · rename_i hnm
    rw [AList.lookup_erase_ne hnm]

theorem timeOf_congr (h : s'.events = s.events) : s'.timeOf = s.timeOf := by
  funext p
  unfold timeOf
  rw [h]

theorem addToNode_spec (ptr : EventPtr) {n : NodeId}
    (hlive : ∀ p ∈ (s.nodeEntry n).events, s.Stores p) :
    ∃ s' changed, s.addToNode ptr n = some (s', changed) ∧ s'.events = s.events ∧
      (n ≠ .null → (s'.nodeEntry n).events =
        OrderedSet.insert (EventComparer s.timeOf) ptr (s.nodeEntry n).events) ∧
      (∀ m, m ≠ n ∨ m = .null → (s'.nodeEntry m).events = (s.nodeEntry m).events) := by
  unfold addToNode
  by_cases hn : n = .null
  · rw [if_pos hn]
    exact ⟨_, _, rfl, rfl, fun hne => absurd hn hne, fun _ _ => rfl⟩
  · simp only [if_neg hn, check_of hlive, Option.bind_eq_bind, Option.bind_some]
    refine ⟨_, _, rfl, rfl, fun _ => ?_, fun m hm => ?_⟩
    · rw [nodeEntry_insert rfl, if_pos rfl]
    · have hmn : m ≠ n := by
        rintro rfl
        exact hm.elim (fun h => h rfl) hn
      rw [nodeEntry_insert rfl, if_neg hmn]

/-- The erased pointer is the one that was searched for when the set is sorted
and holds it. -/
theorem removeFromNode_spec {ptr : EventPtr} {n : NodeId}
    (hlive : ∀ p ∈ (s.nodeEntry n).events, s.Stores p)
    (hsorted : OrderedSet.Sorted (EventComparer s.timeOf) (s.nodeEntry n).events)
    (hmem : n ≠ .null → ptr ∈ (s.nodeEntry n).events) :
    ∃ s' changed, s.removeFromNode ptr n = some (s', changed) ∧ s'.events = s.events ∧
      (n ≠ .null → (s'.nodeEntry n).events = (s.nodeEntry n).events.erase ptr) ∧
      (∀ m, m ≠ n ∨ m = .null → (s'.nodeEntry m).events = (s.nodeEntry m).events) := by
  unfold removeFromNode
  by_cases hn : n = .null
  · rw [if_pos hn]
    exact ⟨_, _, rfl, rfl, fun hne => absurd hn hne, fun _ _ => rfl⟩
  rw [if_neg hn]
  have hmem := hmem hn
  cases hentry : s.nodeEvents.lookup n with
  | none =>
      rw [nodeEntry, hentry] at hmem
      cases hmem
  | some entry =>
      have heq : s.nodeEntry n = entry := by rw [nodeEntry, hentry, Option.getD_some]
      rw [heq] at hlive hsorted hmem ⊢
      have hfound : OrderedSet.find (EventComparer s.timeOf) ptr entry.events = some ptr :=
        OrderedSet.find_of_mem hsorted hmem
      simp only [check_of hlive, hfound, Option.isSome_some, check_of, Option.getD_some,
        Option.bind_eq_bind, Option.bind_some]
      refine ⟨_, _, rfl, rfl, fun _ => ?_, fun m hm => ?_⟩
      · by_cases hlast : entry.events.erase ptr = [] ∧ entry.observers = ∅
        · rw [nodeEntry_erase (if_pos hlast), if_pos rfl, hlast.1]
        · rw [nodeEntry_insert (if_neg hlast), if_pos rfl]
      · have hmn : m ≠ n := by
          rintro rfl
          exact hm.elim (fun h => h rfl) hn
        by_cases hlast : entry.events.erase ptr = [] ∧ entry.observers = ∅
        · rw [nodeEntry_erase (if_pos hlast), if_neg hmn]
        · rw [nodeEntry_insert (if_neg hlast), if_neg hmn]

namespace Indexed

/-- `Add` of an event that keeps the place of the one it replaces, if any. -/
theorem add (h : Indexed s) {ptr : EventPtr} {event : Event} (hfresh : ¬ s.Stores ptr)
    (hplace : KeepsPlace s.stored event) :
    ∃ s' changed added, s.add ptr event = some (s', changed, added) ∧ Indexed s' := by
  unfold EventStorage.add
  split
  · rename_i old hold
    refine ⟨_, _, _, rfl, h.replaced hold hplace ?_ ?_⟩
    · exact stored_insert (updateAlerting_events _)
    · exact fun n => congrArg NodeEntry.events (nodeEntry_congr (updateAlerting_nodeEvents _))
  · rename_i hnew
    have hlive : ∀ p ∈ (s.nodeEntry event.sourceNodeId).events,
        Stores { s with events := s.events.insert event.eventId ⟨ptr, event⟩ } p := by
      intro p hp
      obtain ⟨-, id, e, he, hptr, -⟩ := (h.mem_iff _ p).mp hp
      have hne : id ≠ event.eventId := by
        rintro rfl
        cases he.symm.trans hnew
      refine stores_iff.mpr ⟨id, e, ?_, hptr⟩
      rw [stored_insert rfl, Function.update_of_ne hne, he]
    obtain ⟨s₁, changed, hs₁, hev, hset, hother⟩ := addToNode_spec
      (s := { s with events := s.events.insert event.eventId ⟨ptr, event⟩ }) ptr hlive
    have hnode : ∀ n, s₁.updateAlerting.1.nodeEntry n = s₁.nodeEntry n :=
      fun n => nodeEntry_congr (updateAlerting_nodeEvents s₁)
    simp only [hs₁, Option.bind_eq_bind, Option.bind_some]
    refine ⟨_, _, _, rfl, h.inserted hnew hfresh ?_ ?_ ?_⟩
    · exact stored_insert ((updateAlerting_events s₁).trans hev)
    · intro hne
      rw [hnode, hset hne, timeOf_congr ((updateAlerting_events s₁).trans hev)]
      rfl
    · intro n hn
      rw [hnode, hother n hn]
      rfl

/-- `Remove` of an event that keeps the place of the one it takes out. -/
theorem remove (h : Indexed s) {event : Event} (hplace : KeepsPlace s.stored event) :
    ∃ s' changed node, s.remove event = some (s', changed, node) ∧ Indexed s' := by
  unfold EventStorage.remove
  split
  · exact ⟨_, _, _, rfl, h⟩
  · rename_i old hold
    -- Overwriting the fields is a replacement in place; the rest runs on its result.
    have hrep : Indexed { s with events := s.events.insert event.eventId ⟨old.ptr, event⟩ } :=
      h.replaced hold hplace (stored_insert rfl) (fun _ => rfl)
    have hself : stored { s with events := s.events.insert event.eventId ⟨old.ptr, event⟩ }
        event.eventId = some ⟨old.ptr, event⟩ := by
      rw [stored_insert rfl, Function.update_self]
    obtain ⟨s₁, changed, hs₁, hev, hset, hother⟩ :=
      removeFromNode_spec hrep.stores (hrep.sorted event.sourceNodeId)
        (hrep.mem_of_stored hself)
    simp only [hs₁, Option.bind_eq_bind, Option.bind_some]
    refine ⟨_, _, _, rfl, hrep.erased hself ?_ ?_⟩
    · rw [stored_erase (s := s₁) (updateAlerting_events _)]
      unfold stored
      rw [hev]
    · intro n
      rw [nodeEntry_congr (updateAlerting_nodeEvents _)]
      change (s₁.nodeEntry n).events = _
      by_cases hn : n = event.sourceNodeId ∧ n ≠ .null
      · obtain ⟨rfl, hne⟩ := hn
        exact hset hne
      · rw [hother n (by tauto), List.erase_of_not_mem]
        intro hmem
        obtain ⟨hne, id, e, he, hptr, hsource⟩ := (hrep.mem_iff _ _).mp hmem
        obtain rfl := hrep.distinct _ _ _ _ he hself hptr
        cases hself.symm.trans he
        exact hn ⟨hsource.symm, hne⟩

theorem clear (s : EventStorage) : Indexed s.clear.1 := by
  have hevents : s.clear.1.events = ∅ := updateAlerting_events _
  have hstored : ∀ id, s.clear.1.stored id = none := by
    intro id
    rw [stored, hevents]
    rfl
  have hsets : ∀ n, (s.clear.1.nodeEntry n).events = [] := by
    intro n
    have hnode : s.clear.1.nodeEvents = _ := updateAlerting_nodeEvents _
    rw [nodeEntry, hnode, AssocMap.lookup_filterMap]
    cases s.nodeEvents.lookup n with
    | none => rfl
    | some entry =>
        rw [Option.bind_some]
        split <;> rfl
  refine ⟨?_, ?_, ?_, ?_⟩
  · intro id e he
    cases (hstored id).symm.trans he
  · intro id id' e e' he
    cases (hstored id).symm.trans he
  · intro n
    rw [hsets]
    exact List.Pairwise.nil
  · intro n p
    rw [hsets]
    constructor
    · intro hp
      cases hp
    · rintro ⟨-, id, e, he, -⟩
      cases (hstored id).symm.trans he

theorem addObserver (h : Indexed s) (observer : ObserverId) :
    Indexed (s.addObserver observer) :=
  h.congr rfl fun _ => rfl

theorem removeObserver (h : Indexed s) (observer : ObserverId) :
    Indexed (s.removeObserver observer) :=
  h.congr rfl fun _ => rfl

/-- An entry rewritten with its own set. -/
theorem entry_rewritten (h : Indexed s) {n : NodeId} {observers : Finset ObserverId}
    (hstored : s'.stored = s.stored)
    (hnode : s'.nodeEvents = s.nodeEvents.insert n ⟨(s.nodeEntry n).events, observers⟩) :
    Indexed s' := by
  refine h.congr hstored ?_
  intro m
  rw [nodeEntry_insert hnode]
  split
  · rename_i hm
    rw [hm]
  · rfl

theorem addNodeObserver (h : Indexed s) (n : NodeId) (observer : ObserverId) :
    Indexed (s.addNodeObserver n observer) :=
  h.entry_rewritten rfl rfl

theorem removeNodeObserver (h : Indexed s) (n : NodeId) (observer : ObserverId) :
    Indexed (s.removeNodeObserver n observer) :=
  h.entry_rewritten rfl rfl

end Indexed

/-! ## §3  Batches and runs -/

/-- Every event of the batch, delivered after those before it, keeps the place
of the one stored under its id. -/
def BatchKeepsPlace (stored : EventId → Option StoredEvent) : List (EventPtr × Event) → Prop
  | [] => True
  | (ptr, event) :: events =>
      KeepsPlace stored event ∧ BatchKeepsPlace (deliverAt stored ptr event) events

/-- The ids of stored events are among these. -/
def StoresOnly (stored : EventId → Option StoredEvent) (ids : List EventId) : Prop :=
  ∀ id e, stored id = some e → id ∈ ids

theorem storesOnly_keys (s : EventStorage) : StoresOnly s.stored s.events.keys :=
  fun _ e he => AList.mem_keys.mp (AList.lookup_isSome.mp (Option.isSome_iff_exists.mpr ⟨e, he⟩))

theorem StoresOnly.deliverAt {stored : EventId → Option StoredEvent} {ids : List EventId}
    (h : StoresOnly stored ids) (ptr : EventPtr) (event : Event) :
    StoresOnly (deliverAt stored ptr event) (event.eventId :: ids) := by
  intro id e he
  by_cases hid : id = event.eventId
  · exact List.mem_cons.mpr (Or.inl hid)
  · rw [EventStorage.deliverAt, Function.update_of_ne hid] at he
    exact List.mem_cons_of_mem _ (h id e he)

theorem keepsPlace_iff {stored : EventId → Option StoredEvent} {ids : List EventId}
    (h : StoresOnly stored ids) {event : Event} : KeepsPlace stored event ↔
      ∀ old ∈ stored event.eventId, old.event.sourceNodeId = event.sourceNodeId ∧
        (event.sourceNodeId ≠ .null → ∀ id ∈ ids, ∀ other ∈ stored id, id ≠ event.eventId →
          other.event.sourceNodeId = event.sourceNodeId →
          (Precedes old other ↔ Precedes ⟨old.ptr, event⟩ other)) := by
  refine forall₂_congr fun old _ => and_congr_right fun _ => ?_
  refine forall_congr' fun _ => forall_congr' fun id => ?_
  exact ⟨fun hplace _ other => hplace other, fun hplace other hother =>
    hplace (h id other hother) other hother⟩

instance (e e' : StoredEvent) : Decidable (Precedes e e') :=
  inferInstanceAs (Decidable (_ ∨ _))

/-- The places are compared over the ids that may be stored. -/
def decidableBatchKeepsPlace (stored : EventId → Option StoredEvent) (ids : List EventId)
    (h : StoresOnly stored ids) :
    (events : List (EventPtr × Event)) → Decidable (BatchKeepsPlace stored events)
  | [] => isTrue trivial
  | (ptr, event) :: events =>
      have : Decidable (KeepsPlace stored event) := decidable_of_iff' _ (keepsPlace_iff h)
      have : Decidable (BatchKeepsPlace (deliverAt stored ptr event) events) :=
        decidableBatchKeepsPlace _ _ (h.deliverAt ptr event) events
      inferInstanceAs (Decidable (_ ∧ _))

instance (s : EventStorage) (events : List (EventPtr × Event)) :
    Decidable (BatchKeepsPlace s.stored events) :=
  decidableBatchKeepsPlace _ _ (storesOnly_keys s) events

namespace Indexed

variable {acc : EventStorage × List Notification × List EventPtr}

theorem updateOne (h : Indexed acc.1) {ptr : EventPtr} {event : Event}
    (hfresh : ¬ acc.1.Stores ptr) (hplace : KeepsPlace acc.1.stored event) :
    ∃ acc', EventStorage.updateOne ptr event acc = some acc' ∧ Indexed acc'.1 := by
  simp only [EventStorage.updateOne]
  split
  · obtain ⟨s', changed, node, hs', hinv⟩ := h.remove hplace
    rw [hs']
    exact ⟨_, rfl, hinv⟩
  · obtain ⟨s', changed, added, hs', hinv⟩ := h.add hfresh hplace
    rw [hs']
    exact ⟨_, rfl, hinv⟩

/-- A delivery stores the event at its own address or at one in use before. -/
theorem stores_of_updateOne {acc' : EventStorage × List Notification × List EventPtr}
    {ptr p : EventPtr} {event : Event} (h : EventStorage.updateOne ptr event acc = some acc')
    (hp : acc'.1.Stores p) : p = ptr ∨ acc.1.Stores p := by
  obtain ⟨id, e, he, rfl⟩ := stores_iff.mp hp
  rw [updateOne_stored h, deliverAt] at he
  by_cases hid : id = event.eventId
  · subst hid
    rw [Function.update_self] at he
    split at he
    · cases he
    · cases hold : acc.1.stored event.eventId with
      | none =>
          rw [hold] at he
          cases he
          exact Or.inl rfl
      | some old =>
          rw [hold] at he
          cases he
          exact Or.inr (stores_iff.mpr ⟨_, _, hold, rfl⟩)
  · rw [Function.update_of_ne hid] at he
    exact Or.inr (stores_iff.mpr ⟨_, _, he, rfl⟩)

/-- The loop keeps the index and fails no check when the batch keeps its
places. -/
theorem updateLoop {events : List (EventPtr × Event)} (h : Indexed acc.1)
    (hnodup : (events.map Prod.fst).Nodup) (hfresh : ∀ e ∈ events, ¬ acc.1.Stores e.1)
    (hplace : BatchKeepsPlace acc.1.stored events) :
    ∃ acc', EventStorage.updateLoop events acc = some acc' ∧ Indexed acc'.1 := by
  induction events generalizing acc with
  | nil => exact ⟨acc, rfl, h⟩
  | cons e events ih =>
      obtain ⟨ptr, event⟩ := e
      obtain ⟨hfirst, hrest⟩ := hplace
      obtain ⟨hptr, hnodup⟩ := List.nodup_cons.mp hnodup
      obtain ⟨acc₁, hone, hinv⟩ := h.updateOne (hfresh _ (List.mem_cons_self ..)) hfirst
      rw [EventStorage.updateLoop, hone, Option.bind_some]
      refine ih hinv hnodup ?_ (updateOne_stored hone ▸ hrest)
      intro e he hstores
      rcases stores_of_updateOne hone hstores with heq | hstores
      · exact hptr (heq ▸ List.mem_map_of_mem he)
      · exact hfresh e (List.mem_cons_of_mem _ he) hstores

theorem update {events : List (EventPtr × Event)} (h : Indexed s)
    (hnodup : (events.map Prod.fst).Nodup) (hfresh : ∀ e ∈ events, ¬ s.Stores e.1)
    (hplace : BatchKeepsPlace s.stored events) :
    ∃ s' notifications, s.update events = some (s', notifications) ∧ Indexed s' := by
  have hstart : Indexed (s, ([] : List Notification), ([] : List EventPtr)).1 := h
  obtain ⟨acc, hacc, hinv⟩ := hstart.updateLoop hnodup hfresh hplace
  unfold EventStorage.update
  rw [hacc]
  exact ⟨_, _, rfl, hinv⟩

end Indexed

end EventStorage

open EventStorage

/-- A run's batches re-deliver no stored event with another source or at a time
that moves it among the events of its node. -/
def StorageRun.InPlace (r : StorageRun) : StorageOp → Prop
  | .update events => BatchKeepsPlace r.storage.stored events
  | _ => True

instance (r : StorageRun) (op : StorageOp) : Decidable (r.InPlace op) := by
  apply StorageOp.casesOn (motive := fun op => Decidable (r.InPlace op)) op <;>
    intros <;> unfold StorageRun.InPlace <;> infer_instance

theorem EventStorage.Indexed.step {r : StorageRun} {op : StorageOp} (h : Indexed r.storage)
    (hen : r.enabled op) (hok : r.InPlace op) :
    ∃ r', r.step op = some r' ∧ Indexed r'.storage := by
  cases op with
  | update events =>
      obtain ⟨s', notifications, hs', hinv⟩ := h.update hen.1 hen.2 hok
      refine ⟨⟨s', r.notifications ++ notifications⟩, ?_, hinv⟩
      rw [StorageRun.step, hs']
      rfl
  | clear => exact ⟨_, rfl, .clear _⟩
  | addObserver observer => exact ⟨_, rfl, h.addObserver observer⟩
  | removeObserver observer => exact ⟨_, rfl, h.removeObserver observer⟩
  | addNodeObserver n observer => exact ⟨_, rfl, h.addNodeObserver n observer⟩
  | removeNodeObserver n observer => exact ⟨_, rfl, h.removeNodeObserver n observer⟩

theorem EventStorage.Indexed.of_reaches {r : StorageRun}
    (h : storageMachine.Reaches StorageRun.InPlace r) : Indexed r.storage := by
  refine h.invariant (I := fun r => Indexed r.storage) .empty ?_
  intro r op r' hinv hen hok hs
  obtain ⟨r₁, hr₁, hinv'⟩ := hinv.step hen hok
  cases hr₁.symm.trans hs
  exact hinv'

/-! ## §4  Consistency -/

/-- What readers of the node sets rely on. -/
def EventStorage.Consistent (s : EventStorage) : Prop :=
  (∀ n, n ≠ .null →
    (∀ p, p ∈ (s.getNodeEvents n).getD [] ↔
      ∃ id e, s.stored id = some e ∧ e.ptr = p ∧ e.event.sourceNodeId = n) ∧
    ((s.getNodeEvents n).getD []).Nodup ∧
    ((s.getNodeEvents n).getD []).Pairwise (EventComparer s.timeOf) ∧
    (s.getNodeEvents n = none → ∀ id e, s.stored id = some e → e.event.sourceNodeId ≠ n)) ∧
  ∀ n, ∀ p ∈ (s.getNodeEvents n).getD [], s.Stores p

theorem EventStorage.getNodeEvents_getD (s : EventStorage) (n : NodeId) :
    (s.getNodeEvents n).getD [] = (s.nodeEntry n).events := by
  unfold getNodeEvents nodeEntry
  cases s.nodeEvents.lookup n <;> rfl

theorem EventStorage.Indexed.consistent {s : EventStorage} (h : Indexed s) : s.Consistent := by
  constructor
  · intro n hn
    have hiff : ∀ p, p ∈ (s.getNodeEvents n).getD [] ↔
        ∃ id e, s.stored id = some e ∧ e.ptr = p ∧ e.event.sourceNodeId = n := by
      intro p
      rw [getNodeEvents_getD, h.mem_iff]
      exact and_iff_right hn
    refine ⟨hiff, ?_, ?_, ?_⟩
    · rw [getNodeEvents_getD]
      exact (h.sorted n).nodup
    · rw [getNodeEvents_getD]
      exact h.sorted n
    · intro hnone id e he hsource
      have hmem := (hiff e.ptr).mpr ⟨id, e, he, rfl, hsource⟩
      rw [hnone] at hmem
      cases hmem
  · intro n
    rw [getNodeEvents_getD]
    exact h.stores

/-- **The node sets index the storage** in every run whose batches replace
stored events in place, and no check fails there. -/
theorem index_consistent_of_in_place {r : StorageRun}
    (h : storageMachine.Reaches StorageRun.InPlace r) :
    r.storage.Consistent ∧
      ∀ op, storageMachine.enabled r op → r.InPlace op →
        (storageMachine.step r op).isSome = true := by
  have hinv := Indexed.of_reaches h
  constructor
  · exact hinv.consistent
  · intro op hen hok
    obtain ⟨r', hr', -⟩ := hinv.step hen hok
    exact Option.isSome_iff_exists.mpr ⟨r', hr'⟩

/-- Two events of a node and one of another are stored; the first is delivered again with a
later time that is still before the second, and the second is acknowledged with a third one
of the node behind it. -/
theorem index_consistent_of_in_place_again :
    ∃ r, storageMachine.Reaches StorageRun.InPlace r ∧
      r.storage.getNodeEvents (.numeric 7 1) = some [0, 5] ∧
      r.storage.stored 1 = some ⟨0, ⟨1, 7, .numeric 7 1, 200, false⟩⟩ ∧
      r.storage.Consistent ∧
      (storageMachine.step r (.update [(6, ⟨1, 9, .numeric 7 1, 200, true⟩)])).isSome := by
  obtain ⟨r, hr, hp⟩ := Machine.exists_reaches_of_exec (M := storageMachine) StorageRun.InPlace
    (p := fun r => decide (r.storage.getNodeEvents (.numeric 7 1) = some [0, 5] ∧
      r.storage.stored 1 = some ⟨0, ⟨1, 7, .numeric 7 1, 200, false⟩⟩ ∧
      storageMachine.enabled r (.update [(6, ⟨1, 9, .numeric 7 1, 200, true⟩)]) ∧
      r.InPlace (.update [(6, ⟨1, 9, .numeric 7 1, 200, true⟩)])))
    [.addNodeObserver (.numeric 7 1) 9,
      .update [(0, ⟨1, 5, .numeric 7 1, 100, false⟩), (1, ⟨2, 10, .numeric 7 1, 100, false⟩),
        (2, ⟨3, 6, .numeric 8 1, 100, false⟩)],
      .update [(3, ⟨1, 7, .numeric 7 1, 200, false⟩)],
      .update [(4, ⟨2, 10, .numeric 7 1, 100, true⟩), (5, ⟨4, 12, .numeric 7 1, 100, false⟩)]]
    (by decide +kernel)
  obtain ⟨hset, hstored, hen, hplace⟩ := of_decide_eq_true hp
  obtain ⟨hconsistent, hsteps⟩ := index_consistent_of_in_place hr
  exact ⟨r, hr, hset, hstored, hconsistent, hsteps _ hen hplace⟩

/-- An event is stored for one node and delivered again for another: the first
node still lists it. With an event of the second node stored, the
acknowledgement then fails the check in `Remove`. -/
theorem moved_event_breaks_index :
    (∃ r, storageMachine.Reachable r ∧ ¬ r.storage.Consistent) ∧
    ∃ r op, storageMachine.Reachable r ∧ storageMachine.enabled r op ∧
      storageMachine.step r op = none := by
  constructor
  · obtain ⟨r, hr, hp⟩ := Machine.exists_reachable_of_exec (M := storageMachine)
      (p := fun r => decide (r.storage.getNodeEvents (.numeric 7 1) = some [0] ∧
        r.storage.stored 1 = some ⟨0, ⟨1, 5, .numeric 8 1, 100, false⟩⟩ ∧
        r.storage.events.keys = [1]))
      [.update [(0, ⟨1, 5, .numeric 7 1, 100, false⟩)],
        .update [(1, ⟨1, 5, .numeric 8 1, 100, false⟩)]] (by decide)
    obtain ⟨hset, hstored, hkeys⟩ := of_decide_eq_true hp
    refine ⟨r, hr, fun hcons => ?_⟩
    have hmem : 0 ∈ (r.storage.getNodeEvents (.numeric 7 1)).getD [] := by
      rw [hset]
      exact List.mem_cons_self ..
    obtain ⟨id, e, he, -, hsource⟩ := ((hcons.1 _ (by decide)).1 0).mp hmem
    have hid : id ∈ r.storage.events.keys := storesOnly_keys _ id e he
    rw [hkeys, List.mem_singleton] at hid
    subst hid
    cases hstored.symm.trans he
    cases hsource
  · obtain ⟨r, hr, hp⟩ := Machine.exists_reachable_of_exec (M := storageMachine)
      (p := fun r => decide
        (storageMachine.enabled r (.update [(3, ⟨1, 5, .numeric 8 1, 100, true⟩)])) &&
        (storageMachine.step r (.update [(3, ⟨1, 5, .numeric 8 1, 100, true⟩)])).isNone)
      [.update [(0, ⟨1, 5, .numeric 7 1, 100, false⟩), (1, ⟨2, 6, .numeric 8 1, 100, false⟩)],
        .update [(2, ⟨1, 5, .numeric 8 1, 100, false⟩)]] (by decide)
    rw [Bool.and_eq_true, decide_eq_true_eq] at hp
    exact ⟨r, _, hr, hp.1, Option.isNone_iff_eq_none.mp hp.2⟩

end ScadaCommon
