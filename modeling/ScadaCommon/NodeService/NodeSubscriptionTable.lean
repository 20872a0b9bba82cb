import ScadaCommon.Foundation.Emissions
import ScadaCommon.Foundation.Machine
import ScadaCommon.Foundation.WeakRegistries
import ScadaCommon.Scada.Basic

/-!
# Subscriptions to the events of nodes

The table has an entry for a node only while somebody is subscribed to it. The entry has
the signals of the node; the function that is connected to a signal holds the entry, and so
does an emission while it runs. The table itself only knows where the entries are. What is
called may subscribe, release its connection or another, and emit again. What a signal calls
and how long it keeps a function is a matter of the library that it is from.

§1 the table · §2 operations · §3 runs · §4 the invariant · §5 what operations keep · §6
entries · §7 emissions.
-/

namespace ScadaCommon

open Foundation

/-! ## §1  The table -/

/-- The signals of `NodeSignals`. -/
inductive NodeSignal where
  | modelChanged
  | nodeSemanticChanged
  | nodeFetched
  | nodeStateChanged
deriving DecidableEq

/-- An event, as far as the table looks at it: it passes the rest on. -/
structure NodeEvent where
  nodeId : NodeId
  signal : NodeSignal
deriving DecidableEq

/-- Where an entry is. -/
abbrev EntryPtr := ℕ

abbrev SlotId := ℕ

/-- What is used of `boost::signals2`. -/
structure SignalLibrary where
  signal : Signal SlotId
  /-- Whether a function is kept, by whether it is connected and whether it is at work. -/
  keeps : Bool → Bool → Bool

/-- What it is documented to do. -/
structure SignalLibrary.Documented (library : SignalLibrary) : Prop where
  inOrder : library.signal.InOrder
  /-- A function is destroyed when it is disconnected, but not while it is at work. -/
  keeps (connected active : Bool) : library.keeps connected active = (connected || active)

/-- A function that has been connected to a signal of an entry, which it holds. -/
structure NodeSlot where
  id : SlotId
  /-- The node that was subscribed to. -/
  nodeId : NodeId
  signal : NodeSignal
  entry : EntryPtr
  connected : Bool := true
deriving DecidableEq

namespace NodeSlot

/-- The function once a connection has been released. -/
def release (s : NodeSlot) (slot : SlotId) : NodeSlot :=
  if s.id = slot then { s with connected := false } else s

@[simp] theorem release_id (s : NodeSlot) (slot : SlotId) : (s.release slot).id = s.id := by
  unfold release
  split <;> rfl

@[simp] theorem release_nodeId (s : NodeSlot) (slot : SlotId) :
    (s.release slot).nodeId = s.nodeId := by
  unfold release
  split <;> rfl

@[simp] theorem release_signal (s : NodeSlot) (slot : SlotId) :
    (s.release slot).signal = s.signal := by
  unfold release
  split <;> rfl

@[simp] theorem release_entry (s : NodeSlot) (slot : SlotId) :
    (s.release slot).entry = s.entry := by
  unfold release
  split <;> rfl

theorem release_of_ne {s : NodeSlot} {slot : SlotId} (h : s.id ≠ slot) : s.release slot = s :=
  if_neg h

end NodeSlot

/-- A call of a signal; it holds the entry. -/
structure NodeEmission extends Emission SlotId where
  entry : EntryPtr
  event : NodeEvent
deriving DecidableEq

namespace NodeEmission

/-- The emission once a slot has been connected to a signal. -/
def see (e : NodeEmission) (s : NodeSlot) : NodeEmission :=
  if e.entry = s.entry ∧ e.event.signal = s.signal then { e with toEmission := e.join s.id } else e

variable (e : NodeEmission) (s : NodeSlot)

@[simp] theorem see_entry : (e.see s).entry = e.entry := by
  unfold see
  split <;> rfl

@[simp] theorem see_event : (e.see s).event = e.event := by
  unfold see
  split <;> rfl

@[simp] theorem see_active : (e.see s).active = e.active := by
  unfold see
  split <;> rfl

theorem see_slots : (e.see s).started ++ (e.see s).joined = (e.started ++ e.joined) ++
    if e.entry = s.entry ∧ e.event.signal = s.signal then [s.id] else [] := by
  unfold see
  split
  · exact (List.append_assoc ..).symm
  · exact (List.append_nil _).symm

theorem see_inv {connected : SlotId → Prop} (h : e.toEmission.Inv connected)
    (hs : s.id ∉ e.started ++ e.joined) : (e.see s).toEmission.Inv connected := by
  unfold see
  split
  · exact h.join hs
  · exact h

end NodeEmission

structure NodeSubscriptionTable where
  /-- `entries_`, with the entries. -/
  entries : WeakRegistry NodeId EntryPtr := {}
  /-- The functions that are, in the order in which they were connected. -/
  slots : List NodeSlot := []
  /-- The innermost first. -/
  emissions : List NodeEmission := []
  nextSlot : SlotId := 0

namespace NodeSubscriptionTable

def entryCount (t : NodeSubscriptionTable) : ℕ := t.entries.entries.keys.length

/-- Whether the connection has not been released. -/
def Connected (t : NodeSubscriptionTable) (slot : SlotId) : Prop :=
  ∃ s ∈ t.slots, s.id = slot ∧ s.connected = true

instance (t : NodeSubscriptionTable) : DecidablePred t.Connected :=
  fun slot => inferInstanceAs (Decidable (∃ s ∈ t.slots, s.id = slot ∧ s.connected = true))

/-- Whether the function is at work. -/
def Active (t : NodeSubscriptionTable) (slot : SlotId) : Prop :=
  ∃ e ∈ t.emissions, e.active = some slot

instance (t : NodeSubscriptionTable) : DecidablePred t.Active :=
  fun slot => inferInstanceAs (Decidable (∃ e ∈ t.emissions, e.active = some slot))

/-- The slots of a signal. -/
def slotsOf (t : NodeSubscriptionTable) (entry : EntryPtr) (signal : NodeSignal) : List SlotId :=
  (t.slots.filter fun s => s.connected ∧ s.entry = entry ∧ s.signal = signal).map (·.id)

/-! ## §2  Operations -/

/-- The four `Subscribe…`. -/
def subscribe (t : NodeSubscriptionTable) (nodeId : NodeId) (signal : NodeSignal)
    (fresh : EntryPtr) : Option NodeSubscriptionTable := do
  let (entry, entries) ← t.entries.ensure nodeId fresh
  let slot : NodeSlot := { id := t.nextSlot, nodeId, signal, entry }
  return {
    entries
    slots := t.slots ++ [slot]
    emissions := t.emissions.map (·.see slot)
    nextSlot := t.nextSlot + 1 }

variable (library : SignalLibrary)

/-- Destroys a function that the library does not keep, which releases its entry. -/
def collect (t : NodeSubscriptionTable) (slot : SlotId) : Option NodeSubscriptionTable :=
  match t.slots.find? (·.id = slot) with
  | none => some t
  | some s =>
      if library.keeps s.connected (t.Active slot) then some t
      else do
        let entries ← t.entries.release s.entry
        return { t with entries, slots := t.slots.filter (·.id ≠ slot) }

/-- A connection is released. -/
def disconnect (t : NodeSubscriptionTable) (slot : SlotId) : Option NodeSubscriptionTable :=
  { t with slots := t.slots.map (NodeSlot.release · slot) }.collect library slot

/-- The end of an emission. -/
def finish (t : NodeSubscriptionTable) : Option NodeSubscriptionTable :=
  match t.emissions with
  | [] => none
  | e :: emissions =>
      if e.active = none then do
        let entries ← t.entries.release e.entry
        return { t with entries, emissions }
      else some t

/-- The function that has returned, if any, may be destroyed now. -/
def collectReturned (t : NodeSubscriptionTable) : Option SlotId → Option NodeSubscriptionTable
  | none => some t
  | some slot => t.collect library slot

/-- The innermost emission goes on to its next slot, or ends. -/
def proceed (t : NodeSubscriptionTable) : Option NodeSubscriptionTable :=
  match t.emissions with
  | [] => none
  | e :: emissions => do
      let next := { e with toEmission := e.next library.signal t.Connected }
      let t ← { t with emissions := next :: emissions }.collectReturned library e.active
      t.finish

/-- The four `Emit…`, up to the first slot that is called. -/
def emit (t : NodeSubscriptionTable) (event : NodeEvent) : Option NodeSubscriptionTable :=
  match t.entries.lock event.nodeId with
  | none => some t
  | some entry => do
      let entries ← t.entries.retain entry
      let emission : NodeEmission := {
        toEmission := .start (t.slotsOf entry event.signal), entry, event }
      { t with entries, emissions := emission :: t.emissions }.proceed library

/-! ## §3  Runs -/

inductive SubscriptionAction where
  | subscribe (nodeId : NodeId) (signal : NodeSignal) (fresh : EntryPtr)
  | disconnect (slot : SlotId)
  | emit (event : NodeEvent)
  /-- The slot that is at work returns. -/
  | proceed
deriving DecidableEq

/-- Memory that is in use is not allocated; slots return only while some are at work. -/
def Enabled (t : NodeSubscriptionTable) : SubscriptionAction → Prop
  | .subscribe _ _ fresh => t.entries.objects fresh = none
  | .disconnect _ => True
  | .emit _ => True
  | .proceed => t.emissions ≠ []

def step (t : NodeSubscriptionTable) : SubscriptionAction → Option NodeSubscriptionTable
  | .subscribe nodeId signal fresh => t.subscribe nodeId signal fresh
  | .disconnect slot => t.disconnect library slot
  | .emit event => t.emit library event
  | .proceed => t.proceed library

def machine : Machine NodeSubscriptionTable SubscriptionAction where
  init := {}
  enabled := Enabled
  step := step library

instance (t : NodeSubscriptionTable) (a : SubscriptionAction) :
    Decidable ((machine library).enabled t a) := by
  apply SubscriptionAction.casesOn (motive := fun a => Decidable (t.Enabled a)) a <;>
    intros <;> unfold Enabled <;> infer_instance

/-! ## §4  The invariant -/

/-- The subscriptions that have not been released. -/
def subscriptions (t : NodeSubscriptionTable) : List NodeSlot := t.slots.filter (·.connected)

/-- Who is to be called for an event. -/
def subscribers (t : NodeSubscriptionTable) (event : NodeEvent) : List SlotId :=
  (t.subscriptions.filter fun s => s.nodeId = event.nodeId ∧ s.signal = event.signal).map (·.id)

/-- The node's subscribers are the slots of the signal that the emission runs on. -/
def Followed (t : NodeSubscriptionTable) (e : NodeEmission) : Prop :=
  t.subscribers e.event = (e.started ++ e.joined).filter (t.Connected ·)

/-- Who holds entries. -/
def owners (t : NodeSubscriptionTable) : List EntryPtr :=
  t.slots.map (·.entry) ++ t.emissions.map (·.entry)

/-- `exempt` is a function that is about to be destroyed unless it is still needed. -/
structure InvExcept (t : NodeSubscriptionTable) (exempt : Option SlotId) : Prop where
  owned : t.entries.Owned t.owners
  ids : (t.slots.map (·.id)).Nodup
  slots : ∀ s ∈ t.slots, s.id < t.nextSlot ∧ t.entries.keyOf s.entry = some s.nodeId
  needed : ∀ s ∈ t.slots, s.id ∉ exempt → s.connected = true ∨ t.Active s.id
  emissions : ∀ e ∈ t.emissions, e.toEmission.Inv t.Connected
  keyed : ∀ e ∈ t.emissions, t.entries.keyOf e.entry = some e.event.nodeId
  /-- An emission sees the slots of its signal only. -/
  seen : ∀ e ∈ t.emissions, ∀ slot ∈ e.started ++ e.joined,
    slot < t.nextSlot ∧ ∀ s ∈ t.slots, s.id = slot → s.entry = e.entry ∧ s.signal = e.event.signal
  followed : ∀ e ∈ t.emissions, t.Followed e

abbrev Inv (t : NodeSubscriptionTable) : Prop := t.InvExcept none

variable {t t' : NodeSubscriptionTable} {slot : SlotId} {s : NodeSlot} {e : NodeEmission}
  {exempt : Option SlotId} {emissions : List NodeEmission} {library : SignalLibrary}

theorem connected_iff : t.Connected slot ↔ slot ∈ t.subscriptions.map (·.id) := by
  simp only [Connected, subscriptions, List.mem_map, List.mem_filter]
  grind

theorem Followed.congr (h : t.Followed e) (hsubscriptions : t'.subscriptions = t.subscriptions) :
    t'.Followed e := by
  have hconnected : ∀ slot, t'.Connected slot ↔ t.Connected slot := by
    intro slot
    rw [connected_iff, connected_iff, hsubscriptions]
  unfold Followed subscribers at h ⊢
  rw [hsubscriptions, h]
  exact List.filter_congr fun slot _ => decide_eq_decide.mpr (hconnected slot).symm

theorem Inv.init : Inv {} where
  owned := .init
  ids := List.nodup_nil
  slots := by simp
  needed := by simp
  emissions := by simp
  keyed := by simp
  seen := by simp
  followed := by simp

namespace InvExcept

theorem slot_owner (hs : s ∈ t.slots) : s.entry ∈ t.owners :=
  List.mem_append_left _ (List.mem_map_of_mem hs)

theorem emission_owner (he : e ∈ t.emissions) : e.entry ∈ t.owners :=
  List.mem_append_right _ (List.mem_map_of_mem he)

theorem eq_of_id (h : t.InvExcept exempt) {s' : NodeSlot} (hs : s ∈ t.slots) (hs' : s' ∈ t.slots)
    (hid : s.id = s'.id) : s = s' :=
  List.inj_on_of_nodup_map h.ids hs hs' hid

/-! ## §5  What operations keep -/

/-- The owners but the one function. -/
theorem owners_erase_slot (h : t.InvExcept exempt) (hs : s ∈ t.slots) :
    (t.owners.erase s.entry).Perm
      ((t.slots.filter (·.id ≠ s.id)).map (·.entry) ++ t.emissions.map (·.entry)) := by
  have hfilter : t.slots.filter (·.id ≠ s.id) = t.slots.erase s := by
    rw [(List.Nodup.of_map _ h.ids).erase_eq_filter]
    apply List.filter_congr
    intro s' hs'
    by_cases heq : s' = s
    · simp [heq]
    · have hid : s'.id ≠ s.id := fun hid => heq (h.eq_of_id hs' hs hid)
      simp [heq, hid]
  rw [hfilter]
  have hperm : t.owners.Perm
      (s.entry :: ((t.slots.erase s).map (·.entry) ++ t.emissions.map (·.entry))) :=
    ((List.perm_cons_erase hs).map _).append_right _
  have herase := hperm.erase s.entry
  rwa [List.erase_cons_head] at herase

/-- Slots and emissions go, and the entries that only they held. -/
theorem of_entries (h : t.InvExcept exempt) {entries : WeakRegistry NodeId EntryPtr}
    (howned : entries.Owned t'.owners) (hkeys : ∀ p ∈ t'.owners, entries.keyOf p = t.entries.keyOf p)
    (hslots : t'.slots.Sublist t.slots) (hemissions : t'.emissions ⊆ t.emissions)
    (hsubscriptions : t'.subscriptions = t.subscriptions)
    (hneeded : ∀ s ∈ t'.slots, s.connected = true ∨ t'.Active s.id)
    (hentries : t'.entries = entries) (hnext : t'.nextSlot = t.nextSlot) : t'.Inv where
  owned := hentries ▸ howned
  ids := h.ids.sublist (hslots.map _)
  slots s hs := by
    obtain ⟨hlt, hkey⟩ := h.slots s (hslots.subset hs)
    refine ⟨hnext ▸ hlt, ?_⟩
    rw [hentries, hkeys _ (slot_owner hs)]
    exact hkey
  needed s hs _ := hneeded s hs
  emissions e he := by
    refine (h.emissions e (hemissions he)).mono fun slot _ hconnected => ?_
    rwa [connected_iff, ← hsubscriptions, ← connected_iff]
  keyed e he := by
    rw [hentries, hkeys _ (emission_owner he)]
    exact h.keyed e (hemissions he)
  seen e he slot hslot := by
    obtain ⟨hlt, hof⟩ := h.seen e (hemissions he) slot hslot
    exact ⟨hnext ▸ hlt, fun s hs => hof s (hslots.subset hs)⟩
  followed e he := (h.followed e (hemissions he)).congr hsubscriptions

/-- A function that is not needed any more is destroyed, and this fails nowhere. -/
theorem collect (h : t.InvExcept (some slot)) (hlibrary : library.Documented) :
    ∃ t', t.collect library slot = some t' ∧ t'.Inv ∧ t'.emissions = t.emissions ∧
      t'.subscriptions = t.subscriptions := by
  unfold NodeSubscriptionTable.collect
  cases hfind : t.slots.find? (·.id = slot) with
  | none =>
      refine ⟨t, rfl, { h with needed := fun s hs _ => ?_ }, rfl, rfl⟩
      have hid : s.id ≠ slot := by simpa using List.find?_eq_none.mp hfind s hs
      exact h.needed s hs (by simpa using Ne.symm hid)
  | some s =>
      have hs := List.mem_of_find?_eq_some hfind
      obtain rfl : s.id = slot := by simpa using List.find?_some hfind
      have hkeeps : library.keeps s.connected (t.Active s.id) = true ↔
          s.connected = true ∨ t.Active s.id := by
        rw [hlibrary.keeps]
        simp
      by_cases hkept : s.connected = true ∨ t.Active s.id
      · refine ⟨t, by simp [hkeeps.mpr hkept], { h with needed := fun s' hs' _ => ?_ }, rfl, rfl⟩
        by_cases hid : s'.id = s.id
        · rw [h.eq_of_id hs' hs hid]
          exact hkept
        · exact h.needed s' hs' (by simpa using Ne.symm hid)
      · obtain ⟨entries, hrelease, howned, hkeys⟩ := h.owned.release (slot_owner hs)
        have hperm := h.owners_erase_slot hs
        have hconnected : s.connected = false := by simpa using fun hc => hkept (Or.inl hc)
        have hfilter : (t.slots.filter (·.id ≠ s.id)).filter (·.connected) =
            t.slots.filter (·.connected) := by
          rw [List.filter_filter]
          apply List.filter_congr
          intro s' hs'
          by_cases hid : s'.id = s.id
          · simp [h.eq_of_id hs' hs hid, hconnected]
          · simp [hid]
        refine ⟨{ t with entries, slots := t.slots.filter (·.id ≠ s.id) },
          by simp only [if_neg (mt hkeeps.mp hkept), hrelease]; rfl, ?_, rfl, hfilter⟩
        refine h.of_entries ?_ ?_ List.filter_sublist (List.Subset.refl _) hfilter ?_ rfl rfl
        · exact howned.perm hperm
        · intro p hp
          exact hkeys p (hperm.mem_iff.mpr hp)
        · intro s' hs'
          obtain ⟨hs', hid⟩ := List.mem_filter.mp hs'
          exact h.needed s' hs' (by simpa using Ne.symm (by simpa using hid))

theorem collectReturned (h : t.InvExcept exempt) (hlibrary : library.Documented) :
    ∃ t', t.collectReturned library exempt = some t' ∧ t'.Inv ∧ t'.emissions = t.emissions ∧
      t'.subscriptions = t.subscriptions := by
  cases exempt with
  | none => exact ⟨t, rfl, h, rfl, rfl⟩
  | some slot => exact h.collect hlibrary

theorem finish (h : t.Inv) (ht : t.emissions = e :: emissions) :
    ∃ t', t.finish = some t' ∧ t'.Inv ∧ t'.slots = t.slots ∧
      t'.emissions = if e.active = none then emissions else t.emissions := by
  unfold NodeSubscriptionTable.finish
  rw [ht]
  by_cases hactive : e.active = none
  · have he : e ∈ t.emissions := ht ▸ List.mem_cons_self ..
    obtain ⟨entries, hrelease, howned, hkeys⟩ := h.owned.release (emission_owner he)
    have hperm : (t.owners.erase e.entry).Perm
        (t.slots.map (·.entry) ++ emissions.map (·.entry)) := by
      have hmiddle : t.owners.Perm
          (e.entry :: (t.slots.map (·.entry) ++ emissions.map (·.entry))) := by
        unfold owners
        rw [ht]
        exact List.perm_middle
      have herase := hmiddle.erase e.entry
      rwa [List.erase_cons_head] at herase
    refine ⟨{ t with entries, emissions }, by simp [hactive, hrelease], ?_, rfl,
      by simp [hactive]⟩
    refine h.of_entries ?_ ?_ (List.Sublist.refl _) ?_ rfl ?_ rfl rfl
    · exact howned.perm hperm
    · intro p hp
      exact hkeys p (hperm.mem_iff.mpr hp)
    · intro e' he'
      exact ht ▸ List.mem_cons_of_mem _ he'
    · intro s hs
      refine (h.needed s hs (by simp)).imp_right ?_
      rintro ⟨e', he', hworks⟩
      rw [ht] at he'
      rcases List.mem_cons.mp he' with rfl | he'
      · exact absurd (hactive.symm.trans hworks) (by simp)
      · exact ⟨e', he', hworks⟩
  · exact ⟨t, by simp [hactive], h, rfl, by simp [hactive, ht]⟩

/-- The emission that goes on. -/
theorem next (h : t.Inv) (hlibrary : library.Documented) (ht : t.emissions = e :: emissions) :
    InvExcept { t with
      emissions := { e with toEmission := e.next library.signal t.Connected } :: emissions }
      e.active where
  owned := by
    have howned := h.owned
    unfold owners at howned ⊢
    rw [ht] at howned
    exact howned
  ids := h.ids
  slots := h.slots
  needed s hs hexempt := by
    refine (h.needed s hs (by simp)).imp_right ?_
    rintro ⟨e', he', hworks⟩
    rw [ht] at he'
    rcases List.mem_cons.mp he' with rfl | he'
    · exact absurd hworks hexempt
    · exact ⟨e', List.mem_cons_of_mem _ he', hworks⟩
  emissions e' he' := by
    rcases List.mem_cons.mp he' with rfl | he'
    · exact (h.emissions e (ht ▸ List.mem_cons_self ..)).next hlibrary.inOrder
    · exact h.emissions e' (ht ▸ List.mem_cons_of_mem _ he')
  keyed e' he' := by
    rcases List.mem_cons.mp he' with rfl | he'
    · exact h.keyed e (ht ▸ List.mem_cons_self ..)
    · exact h.keyed e' (ht ▸ List.mem_cons_of_mem _ he')
  seen e' he' slot hslot := by
    rcases List.mem_cons.mp he' with rfl | he'
    · obtain ⟨hstarted, hjoined⟩ := e.next_slots library.signal t.Connected
      have hslot : slot ∈ (e.next library.signal t.Connected).started ++
          (e.next library.signal t.Connected).joined := hslot
      rw [hstarted, hjoined] at hslot
      exact h.seen e (ht ▸ List.mem_cons_self ..) slot hslot
    · exact h.seen e' (ht ▸ List.mem_cons_of_mem _ he') slot hslot
  followed e' he' := by
    rcases List.mem_cons.mp he' with rfl | he'
    · obtain ⟨hstarted, hjoined⟩ := e.next_slots library.signal t.Connected
      have hfollowed := h.followed e (ht ▸ List.mem_cons_self ..)
      unfold Followed at hfollowed ⊢
      dsimp only
      rw [hstarted, hjoined]
      exact hfollowed
    · exact h.followed e' (ht ▸ List.mem_cons_of_mem _ he')

theorem proceed (h : t.Inv) (hlibrary : library.Documented) (ht : t.emissions = e :: emissions) :
    ∃ t', t.proceed library = some t' ∧ t'.Inv ∧ t'.subscriptions = t.subscriptions ∧
      t'.emissions = if (e.next library.signal t.Connected).active = none then emissions
        else { e with toEmission := e.next library.signal t.Connected } :: emissions := by
  unfold NodeSubscriptionTable.proceed
  rw [ht]
  have hnext := h.next hlibrary ht
  obtain ⟨t₁, hcollect, hinv₁, hemissions₁, hsubscriptions⟩ := hnext.collectReturned hlibrary
  obtain ⟨t', hfinish, hinv, hslots, hemissions⟩ := finish hinv₁ hemissions₁
  rw [hemissions₁] at hemissions
  refine ⟨t', ?_, hinv, ?_, hemissions⟩
  · show (NodeSubscriptionTable.collectReturned library _ e.active).bind _ = some t'
    rw [hcollect]
    exact hfinish
  · rw [← show t₁.subscriptions = t.subscriptions from hsubscriptions]
    unfold subscriptions
    rw [hslots]

/-- The subscriptions but the one that is released. -/
theorem subscriptions_release (t : NodeSubscriptionTable) (slot : SlotId) :
    subscriptions { t with slots := t.slots.map (NodeSlot.release · slot) } =
      t.subscriptions.filter (·.id ≠ slot) := by
  unfold subscriptions
  show (t.slots.map (NodeSlot.release · slot)).filter (·.connected) = _
  rw [List.filter_map, List.filter_filter]
  have hkeep : t.slots.filter ((·.connected) ∘ (NodeSlot.release · slot)) =
      t.slots.filter fun s => s.id ≠ slot && s.connected := by
    apply List.filter_congr
    intro s _
    by_cases hid : s.id = slot
    · simp [NodeSlot.release, hid]
    · simp [NodeSlot.release, hid]
  rw [hkeep]
  have hsame : ∀ s ∈ t.slots.filter (fun s => s.id ≠ slot && s.connected),
      s.release slot = id s := by
    intro s hs
    have hs := (List.mem_filter.mp hs).2
    exact NodeSlot.release_of_ne (by simpa using (Bool.and_eq_true_iff.mp hs).1)
  rw [List.map_congr_left hsame, List.map_id]

theorem disconnect (h : t.Inv) (hlibrary : library.Documented) (slot : SlotId) :
    ∃ t', t.disconnect library slot = some t' ∧ t'.Inv ∧ t'.emissions = t.emissions ∧
      t'.subscriptions = t.subscriptions.filter (·.id ≠ slot) := by
  have hsubscriptions := subscriptions_release t slot
  have hconnected : ∀ x, Connected { t with slots := t.slots.map (NodeSlot.release · slot) } x ↔
      x ≠ slot ∧ t.Connected x := by
    intro x
    rw [connected_iff, connected_iff, hsubscriptions]
    simp only [List.mem_map, List.mem_filter]
    grind
  have hreleased : InvExcept { t with slots := t.slots.map (NodeSlot.release · slot) }
      (some slot) := by
    refine ⟨?_, ?_, ?_, ?_, ?_, h.keyed, ?_, ?_⟩
    · have howners : owners { t with slots := t.slots.map (NodeSlot.release · slot) } =
          t.owners := by
        simp [owners, Function.comp_def]
      rw [howners]
      exact h.owned
    · simpa [Function.comp_def] using h.ids
    · intro s hs
      obtain ⟨s₀, hs₀, rfl⟩ := List.mem_map.mp hs
      simpa using h.slots s₀ hs₀
    · intro s hs hexempt
      obtain ⟨s₀, hs₀, rfl⟩ := List.mem_map.mp hs
      have hid : s₀.id ≠ slot := by simpa using Ne.symm hexempt
      rw [NodeSlot.release_of_ne hid]
      exact h.needed s₀ hs₀ (by simp)
    · exact fun e he => (h.emissions e he).mono fun x _ hx => ((hconnected x).mp hx).2
    · intro e he x hx
      refine ⟨(h.seen e he x hx).1, ?_⟩
      rintro s hs rfl
      obtain ⟨s₀, hs₀, rfl⟩ := List.mem_map.mp hs
      simpa using (h.seen e he _ hx).2 s₀ hs₀ (by simp)
    · intro e he
      have hfollowed : t.subscribers e.event = (e.started ++ e.joined).filter (t.Connected ·) :=
        h.followed e he
      have hsubscribers : subscribers
          { t with slots := t.slots.map (NodeSlot.release · slot) } e.event =
          (t.subscribers e.event).filter (· ≠ slot) := by
        unfold subscribers
        rw [hsubscriptions, List.filter_comm, List.filter_map]
        rfl
      unfold Followed
      rw [hsubscribers, hfollowed, List.filter_filter]
      apply List.filter_congr
      intro x _
      rw [← Bool.decide_and]
      exact decide_eq_decide.mpr (hconnected x).symm
  obtain ⟨t', hcollect, hinv, hemissions, hsame⟩ := hreleased.collect hlibrary
  exact ⟨t', hcollect, hinv, hemissions, hsame.trans hsubscriptions⟩

/-- A slot that is new. -/
theorem added (h : t.Inv) (s : NodeSlot) (hid : s.id = t.nextSlot) (hs : s.connected = true)
    {entries : WeakRegistry NodeId EntryPtr} (howned : entries.Owned (s.entry :: t.owners))
    (hkey : entries.keyOf s.entry = some s.nodeId)
    (hkeys : ∀ p ∈ t.owners, entries.keyOf p = t.entries.keyOf p) :
    Inv {
      entries, slots := t.slots ++ [s], emissions := t.emissions.map (·.see s)
      nextSlot := t.nextSlot + 1 } := by
  have hother : ∀ s' ∈ t.slots, s'.id ≠ s.id := fun s' hs' =>
    hid ▸ (h.slots s' hs').1.ne
  have hseen : ∀ e ∈ t.emissions, ∀ x ∈ e.started ++ e.joined, x ≠ s.id := fun e he x hx =>
    hid ▸ (h.seen e he x hx).1.ne
  have hkeyed : ∀ e ∈ t.emissions, entries.keyOf e.entry = some e.event.nodeId := fun e he =>
    (hkeys _ (emission_owner he)).trans (h.keyed e he)
  have hsubscriptions : (t.slots ++ [s]).filter (·.connected) = t.subscriptions ++ [s] := by
    simp [subscriptions, hs]
  have hconnected : ∀ entries' emissions' next' x, x ≠ s.id → (Connected
      ⟨entries', t.slots ++ [s], emissions', next'⟩ x ↔ t.Connected x) := by
    intro entries' emissions' next' x hx
    rw [connected_iff, connected_iff]
    show x ∈ ((t.slots ++ [s]).filter _).map _ ↔ _
    rw [hsubscriptions]
    simp [hx]
  refine ⟨?_, ?_, ?_, ?_, ?_, ?_, ?_, ?_⟩
  · refine howned.perm ?_
    simpa [owners, Function.comp_def] using List.perm_middle.symm
  · show ((t.slots ++ [s]).map (·.id)).Nodup
    rw [List.map_append, List.map_cons, List.map_nil]
    refine List.nodup_append_comm.mp (List.nodup_cons.mpr ⟨?_, h.ids⟩)
    intro hmem
    obtain ⟨s', hs', hsame⟩ := List.mem_map.mp hmem
    exact hother s' hs' hsame
  · intro s' hs'
    rcases List.mem_append.mp hs' with hs' | hs'
    · obtain ⟨hlt, hkey'⟩ := h.slots s' hs'
      exact ⟨Nat.lt_succ_of_lt hlt, (hkeys _ (slot_owner hs')).trans hkey'⟩
    · obtain rfl := List.mem_singleton.mp hs'
      exact ⟨hid ▸ Nat.lt_succ_self _, hkey⟩
  · intro s' hs' _
    rcases List.mem_append.mp hs' with hs' | hs'
    · refine (h.needed s' hs' (by simp)).imp_right ?_
      rintro ⟨e, he, hworks⟩
      exact ⟨e.see s, List.mem_map_of_mem he, by simpa using hworks⟩
    · obtain rfl := List.mem_singleton.mp hs'
      exact Or.inl hs
  · intro e he
    obtain ⟨e, he₀, rfl⟩ := List.mem_map.mp he
    refine e.see_inv s ((h.emissions e he₀).mono fun x hx => ?_) fun hmem => ?_
    · exact (hconnected _ _ _ x (hseen e he₀ x (List.mem_append_left _ hx))).mp
    · exact hseen e he₀ s.id hmem rfl
  · intro e he
    obtain ⟨e, he₀, rfl⟩ := List.mem_map.mp he
    rw [NodeEmission.see_entry, NodeEmission.see_event]
    exact hkeyed e he₀
  · intro e he x hx
    obtain ⟨e, he₀, rfl⟩ := List.mem_map.mp he
    rw [NodeEmission.see_slots, List.mem_append] at hx
    rw [NodeEmission.see_entry, NodeEmission.see_event]
    rcases hx with hx | hx
    · obtain ⟨hlt, hof⟩ := h.seen e he₀ x hx
      refine ⟨Nat.lt_succ_of_lt hlt, fun s' hs' hsame => ?_⟩
      rcases List.mem_append.mp hs' with hs' | hs'
      · exact hof s' hs' hsame
      · obtain rfl := List.mem_singleton.mp hs'
        exact absurd (hsame.symm.trans hid) hlt.ne
    · split at hx
      · rename_i hof
        obtain rfl := List.mem_singleton.mp hx
        refine ⟨hid ▸ Nat.lt_succ_self _, fun s' hs' hsame => ?_⟩
        rcases List.mem_append.mp hs' with hs' | hs'
        · exact absurd hsame (hother s' hs')
        · obtain rfl := List.mem_singleton.mp hs'
          exact ⟨hof.1.symm, hof.2.symm⟩
      · cases hx
  · intro e he
    obtain ⟨e, he₀, rfl⟩ := List.mem_map.mp he
    have hfollowed : t.subscribers e.event = (e.started ++ e.joined).filter (t.Connected ·) :=
      h.followed e he₀
    have hsame : s.nodeId = e.event.nodeId ↔ e.entry = s.entry := by
      rw [howned.eq_iff (hkeyed e he₀) hkey (List.mem_cons_of_mem _ (emission_owner he₀))
        (List.mem_cons_self ..)]
      exact eq_comm
    have hold : (e.started ++ e.joined).filter (Connected
        ⟨entries, t.slots ++ [s], t.emissions.map (·.see s), t.nextSlot + 1⟩ ·) =
        (e.started ++ e.joined).filter (t.Connected ·) :=
      List.filter_congr fun x hx => decide_eq_decide.mpr (hconnected _ _ _ x (hseen e he₀ x hx))
    have hnew : Connected
        ⟨entries, t.slots ++ [s], t.emissions.map (·.see s), t.nextSlot + 1⟩ s.id :=
      ⟨s, List.mem_append_right _ (List.mem_singleton_self s), rfl, hs⟩
    unfold Followed
    rw [NodeEmission.see_slots, NodeEmission.see_event, List.filter_append, hold, ← hfollowed]
    unfold subscribers
    show (((t.slots ++ [s]).filter _).filter _).map _ = _
    rw [hsubscriptions, List.filter_append, List.map_append]
    congr 1
    by_cases hof : e.entry = s.entry ∧ e.event.signal = s.signal
    · have hof' : s.nodeId = e.event.nodeId ∧ s.signal = e.event.signal :=
        ⟨hsame.mpr hof.1, hof.2.symm⟩
      simp only [if_pos hof, List.filter_cons, List.filter_nil, decide_eq_true hof',
        decide_eq_true hnew, if_true, List.map_cons, List.map_nil]
    · have hof' : ¬ (s.nodeId = e.event.nodeId ∧ s.signal = e.event.signal) := fun hof' =>
        hof ⟨hsame.mp hof'.1, hof'.2.symm⟩
      simp only [if_neg hof, List.filter_cons, List.filter_nil, decide_eq_false hof',
        Bool.false_eq_true, if_false, List.map_nil]

theorem subscribe (h : t.Inv) (nodeId : NodeId) (signal : NodeSignal) {fresh : EntryPtr}
    (hfresh : t.entries.objects fresh = none) :
    ∃ t', t.subscribe nodeId signal fresh = some t' ∧ t'.Inv ∧
      ∃ entry, t'.subscriptions = t.subscriptions ++ [{ id := t.nextSlot, nodeId, signal, entry }] := by
  have hunowned : fresh ∉ t.owners := by
    rw [← h.owned.isSome_iff, hfresh]
    simp
  obtain ⟨entry, entries, hensure, howned, hkey, hkeys⟩ := h.owned.ensure nodeId hunowned
  refine ⟨_, by unfold NodeSubscriptionTable.subscribe; rw [hensure]; rfl, ?_, entry, ?_⟩
  · exact h.added { id := t.nextSlot, nodeId, signal, entry } rfl rfl howned hkey hkeys
  · simp [subscriptions]

theorem slotsOf_eq (h : t.InvExcept exempt) {entry : EntryPtr} {event : NodeEvent}
    (hlookup : t.entries.entries.lookup event.nodeId = some entry) :
    t.slotsOf entry event.signal = t.subscribers event := by
  obtain ⟨hmem, hkey⟩ := h.owned.lookup_eq_some.mp hlookup
  unfold slotsOf subscribers subscriptions
  rw [List.filter_filter]
  congr 1
  apply List.filter_congr
  intro s hs
  have hiff := h.owned.eq_iff (h.slots s hs).2 hkey (slot_owner hs) hmem
  by_cases hconnected : s.connected = true
  · simp [hconnected, hiff]
  · simp [hconnected]

theorem subscribers_connected {event : NodeEvent} (hslot : slot ∈ t.subscribers event) :
    t.Connected slot := by
  obtain ⟨s, hs, rfl⟩ := List.mem_map.mp hslot
  obtain ⟨hs, hconnected⟩ := List.mem_filter.mp (List.mem_of_mem_filter hs)
  exact ⟨s, hs, rfl, hconnected⟩

/-- An emission that is about to begin. -/
theorem begun (h : t.Inv) {entry : EntryPtr} {event : NodeEvent}
    (hlookup : t.entries.entries.lookup event.nodeId = some entry) {entries : WeakRegistry NodeId EntryPtr}
    (howned : entries.Owned (entry :: t.owners)) (hkeys : entries.keyOf = t.entries.keyOf) :
    Inv { t with
      entries
      emissions := {
        toEmission := .start (t.slotsOf entry event.signal), entry, event } :: t.emissions } := by
  have hkey := (h.owned.lookup_eq_some.mp hlookup).2
  refine ⟨?_, h.ids, ?_, ?_, ?_, ?_, ?_, ?_⟩
  · refine howned.perm ?_
    exact List.perm_middle.symm
  · intro s hs
    rw [hkeys]
    exact h.slots s hs
  · intro s hs _
    refine (h.needed s hs (by simp)).imp_right ?_
    rintro ⟨e, he, hworks⟩
    exact ⟨e, List.mem_cons_of_mem _ he, hworks⟩
  · intro e he
    rcases List.mem_cons.mp he with rfl | he
    · exact .start (h.ids.sublist (List.filter_sublist.map _))
    · exact h.emissions e he
  · intro e he
    rw [hkeys]
    rcases List.mem_cons.mp he with rfl | he
    · exact hkey
    · exact h.keyed e he
  · intro e he x hx
    rcases List.mem_cons.mp he with rfl | he
    · have hx : x ∈ t.slotsOf entry event.signal := by simpa [Emission.start] using hx
      obtain ⟨s, hs, rfl⟩ := List.mem_map.mp hx
      obtain ⟨hs, hof⟩ := List.mem_filter.mp hs
      simp only [decide_eq_true_eq] at hof
      refine ⟨(h.slots s hs).1, fun s' hs' hid => ?_⟩
      rw [h.eq_of_id hs' hs hid]
      exact hof.2
    · exact h.seen e he x hx
  · intro e he
    rcases List.mem_cons.mp he with rfl | he
    · have hsubscribers := h.slotsOf_eq hlookup
      show t.subscribers event = ((t.slotsOf entry event.signal) ++ []).filter (t.Connected ·)
      rw [List.append_nil, hsubscribers]
      symm
      exact List.filter_eq_self.mpr fun x hx => decide_eq_true (subscribers_connected hx)
    · exact h.followed e he

/-- An emission begins with the subscribers. -/
theorem emit (h : t.Inv) (hlibrary : library.Documented) (event : NodeEvent) :
    ∃ t', t.emit library event = some t' ∧ t'.Inv ∧ t'.subscriptions = t.subscriptions ∧
      (t.subscribers event = [] ∧ t'.emissions = t.emissions ∨
        ∃ first rest e, t.subscribers event = first :: rest ∧ t'.emissions = e :: t.emissions ∧
          e.event = event ∧ e.toEmission =
            { started := first :: rest, active := some first, ahead := rest, called := [first] }) := by
  unfold NodeSubscriptionTable.emit
  rw [h.owned.lock_eq]
  cases hlookup : t.entries.entries.lookup event.nodeId with
  | none =>
      refine ⟨t, rfl, h, rfl, Or.inl ⟨?_, rfl⟩⟩
      apply List.map_eq_nil_iff.mpr
      apply List.filter_eq_nil_iff.mpr
      intro s hs hof
      have hs := List.mem_of_mem_filter hs
      have hnode : s.nodeId = event.nodeId := by
        simp only [decide_eq_true_eq] at hof
        exact hof.1
      have hrecord := h.owned.lookup_eq_some.mpr ⟨slot_owner hs, (h.slots s hs).2⟩
      rw [hnode, hlookup] at hrecord
      cases hrecord
  | some entry =>
      obtain ⟨hmem, -⟩ := h.owned.lookup_eq_some.mp hlookup
      obtain ⟨entries, hretain, howned, hkeys⟩ := h.owned.retain hmem
      have hbegun := h.begun hlookup howned hkeys
      obtain ⟨t', hproceed, hinv, hsubscriptions, hemissions⟩ := hbegun.proceed hlibrary rfl
      refine ⟨t', ?_, hinv, hsubscriptions, ?_⟩
      · show (t.entries.retain entry).bind _ = some t'
        rw [hretain]
        exact hproceed
      · have hslots : t.slotsOf entry event.signal = t.subscribers event := h.slotsOf_eq hlookup
        rw [hslots] at hemissions
        cases hsubscribers : t.subscribers event with
        | nil =>
            refine Or.inl ⟨rfl, ?_⟩
            rw [hemissions, hsubscribers]
            exact if_pos (Emission.start_nil_next hlibrary.inOrder)
        | cons first rest =>
            have hfirst : t.Connected first :=
              subscribers_connected (hsubscribers ▸ List.mem_cons_self ..)
            have hnext := Emission.start_next rest hlibrary.inOrder hfirst
            let begun : NodeEmission := {
              toEmission := (Emission.start (first :: rest)).next library.signal t.Connected
              entry, event }
            refine Or.inr ⟨first, rest, begun, rfl, ?_, rfl, hnext⟩
            rw [hemissions, hsubscribers]
            apply if_neg
            show ((Emission.start (first :: rest)).next library.signal t.Connected).active ≠ none
            rw [hnext]
            exact Option.some_ne_none first

end InvExcept

/-- **No operation fails**, and each keeps the invariant. -/
theorem Inv.step (h : t.Inv) (hlibrary : library.Documented) {a : SubscriptionAction}
    (hen : (machine library).enabled t a) :
    ∃ t', (machine library).step t a = some t' ∧ t'.Inv := by
  cases a with
  | subscribe nodeId signal fresh =>
      obtain ⟨t', ht', hinv, -⟩ := h.subscribe nodeId signal hen
      exact ⟨t', ht', hinv⟩
  | disconnect slot =>
      obtain ⟨t', ht', hinv, -⟩ := h.disconnect hlibrary slot
      exact ⟨t', ht', hinv⟩
  | emit event =>
      obtain ⟨t', ht', hinv, -⟩ := h.emit hlibrary event
      exact ⟨t', ht', hinv⟩
  | proceed =>
      obtain ⟨e, emissions, ht⟩ := List.exists_cons_of_ne_nil hen
      obtain ⟨t', ht', hinv, -⟩ := h.proceed hlibrary ht
      exact ⟨t', ht', hinv⟩

theorem inv_of_reachable (hlibrary : library.Documented) (h : (machine library).Reachable t) :
    t.Inv := by
  apply h.invariant Inv.init
  intro u a u' hinv hen _ hstep
  obtain ⟨v, hv, hinv'⟩ := hinv.step hlibrary hen
  cases hv.symm.trans hstep
  exact hinv'

/-! ## §6  Entries -/

/-- A node has an entry while it is subscribed to or an event of it is being emitted. -/
theorem Inv.mem_entries (h : t.Inv) (nodeId : NodeId) :
    nodeId ∈ t.entries.entries ↔
      (∃ s ∈ t.subscriptions, s.nodeId = nodeId) ∨ ∃ e ∈ t.emissions, e.event.nodeId = nodeId := by
  rw [← AList.lookup_isSome, Option.isSome_iff_exists]
  constructor
  · rintro ⟨entry, hlookup⟩
    obtain ⟨howner, hkey⟩ := h.owned.lookup_eq_some.mp hlookup
    have hemission : ∀ e ∈ t.emissions, e.entry = entry → e.event.nodeId = nodeId := by
      rintro e he rfl
      exact Option.some.inj ((h.keyed e he).symm.trans hkey)
    rcases List.mem_append.mp howner with hslot | hslot
    · obtain ⟨s, hs, rfl⟩ := List.mem_map.mp hslot
      rcases h.needed s hs (by simp) with hconnected | ⟨e, he, hactive⟩
      · refine Or.inl ⟨s, List.mem_filter.mpr ⟨hs, hconnected⟩, ?_⟩
        exact Option.some.inj ((h.slots s hs).2.symm.trans hkey)
      · -- The function is at work in an emission of its own entry.
        have hcalled := (h.emissions e he).active s.id hactive
        have hseen := (h.emissions e he).order.subset (List.mem_append_left _ hcalled)
        have hentry := ((h.seen e he s.id hseen).2 s hs rfl).1
        exact Or.inr ⟨e, he, hemission e he hentry.symm⟩
    · obtain ⟨e, he, hentry⟩ := List.mem_map.mp hslot
      exact Or.inr ⟨e, he, hemission e he hentry⟩
  · rintro (⟨s, hs, rfl⟩ | ⟨e, he, rfl⟩)
    · have hs := List.mem_of_mem_filter hs
      exact ⟨s.entry, h.owned.lookup_eq_some.mpr ⟨InvExcept.slot_owner hs, (h.slots s hs).2⟩⟩
    · exact ⟨e.entry, h.owned.lookup_eq_some.mpr ⟨InvExcept.emission_owner he, h.keyed e he⟩⟩

/-- Between emissions there are as many entries as nodes that are subscribed to. -/
theorem Inv.entryCount_eq (h : t.Inv) (hidle : t.emissions = []) :
    t.entryCount = (t.subscriptions.map (·.nodeId)).toFinset.card := by
  unfold entryCount
  rw [← List.toFinset_card_of_nodup (AList.keys_nodup t.entries.entries)]
  congr 1
  ext nodeId
  rw [List.mem_toFinset, List.mem_toFinset, ← AList.mem_keys, h.mem_entries, hidle, List.mem_map]
  simp

/-- **The table has an entry for a node exactly while it is needed.** In every run, the
recorded nodes are those that are subscribed to or whose events are being emitted, no record
is of an entry that is gone, subscriptions share an entry exactly if they are of one node,
between emissions the number of entries is the number of nodes that are subscribed to, and no
operation fails. -/
theorem entries_of_reachable (hlibrary : library.Documented)
    (h : (machine library).Reachable t) :
    (∀ nodeId, nodeId ∈ t.entries.entries ↔ (∃ s ∈ t.subscriptions, s.nodeId = nodeId) ∨
      ∃ e ∈ t.emissions, e.event.nodeId = nodeId) ∧
    (∀ nodeId, t.entries.lock nodeId = t.entries.entries.lookup nodeId) ∧
    (∀ s ∈ t.subscriptions, ∀ s' ∈ t.subscriptions, s.entry = s'.entry ↔ s.nodeId = s'.nodeId) ∧
    (t.emissions = [] → t.entryCount = (t.subscriptions.map (·.nodeId)).toFinset.card) ∧
    ∀ a, (machine library).enabled t a → ((machine library).step t a).isSome := by
  have hinv := inv_of_reachable hlibrary h
  refine ⟨hinv.mem_entries, hinv.owned.lock_eq, ?_, hinv.entryCount_eq, ?_⟩
  · intro s hs s' hs'
    have hs := List.mem_of_mem_filter hs
    have hs' := List.mem_of_mem_filter hs'
    exact hinv.owned.eq_iff (hinv.slots s hs).2 (hinv.slots s' hs').2 (InvExcept.slot_owner hs)
      (InvExcept.slot_owner hs')
  · intro a hen
    obtain ⟨t', ht', -⟩ := hinv.step hlibrary hen
    exact Option.isSome_iff_exists.mpr ⟨t', ht'⟩

end NodeSubscriptionTable

/-- A library that does so: an emission looks at the slots of the signal once. -/
def SignalLibrary.signals2 : SignalLibrary where
  signal := .once
  keeps connected active := connected || active

theorem SignalLibrary.signals2_documented : signals2.Documented where
  inOrder := Signal.once_inOrder
  keeps _ _ := rfl

namespace NodeSubscriptionTable

variable {t : NodeSubscriptionTable} {slot : SlotId} {e : NodeEmission} {library : SignalLibrary}

/-- Both subscriptions of a node are released while an event of it is emitted: its entry is
there until the emission ends. -/
theorem entries_of_reachable_released :
    ∃ t, (machine .signals2).Reachable t ∧ t.subscriptions = [] ∧
      NodeId.numeric 1 1 ∈ t.entries.entries ∧ ((machine .signals2).step t .proceed).isSome := by
  obtain ⟨t, hreachable, hp⟩ := Machine.exists_reachable_of_exec (M := machine .signals2)
    (p := fun t => t.subscriptions = [] ∧ t.emissions.any (·.event.nodeId = .numeric 1 1))
    [.subscribe (.numeric 1 1) .modelChanged 0, .subscribe (.numeric 1 1) .nodeFetched 1,
      .emit ⟨.numeric 1 1, .modelChanged⟩, .disconnect 1, .disconnect 0] (by decide)
  obtain ⟨hsubscriptions, hemitted⟩ := of_decide_eq_true hp
  obtain ⟨e, he, hnode⟩ := List.any_eq_true.mp hemitted
  obtain ⟨hentries, -, -, -, hsteps⟩ :=
    entries_of_reachable SignalLibrary.signals2_documented hreachable
  have hrunning : (machine .signals2).enabled t .proceed := List.ne_nil_of_mem he
  exact ⟨t, hreachable, hsubscriptions,
    (hentries _).mpr (Or.inr ⟨e, he, of_decide_eq_true hnode⟩), hsteps _ hrunning⟩

/-! ## §7  Emissions -/

/-- The slots of the signal that are connected are the subscribers. -/
theorem Inv.mem_subscribers (h : t.Inv) (he : e ∈ t.emissions) :
    slot ∈ t.subscribers e.event ↔ slot ∈ e.started ++ e.joined ∧ t.Connected slot := by
  rw [show t.subscribers e.event = _ from h.followed e he, List.mem_filter, decide_eq_true_eq]

/-- **Each event reaches the subscribers of its node.** In every run, an emission begins with
the subscribers in the order in which they have come. While it runs, and whatever slots do,
the subscribers of the node are the slots of its signal that are connected, in the same
order, so that who subscribes or releases meanwhile does so on that signal. It calls in
this order, each at most once, and only who is subscribed at that moment; and when it ends it
has called all subscribers that were there at its beginning. -/
theorem emissions_of_reachable (hlibrary : library.Documented)
    (h : (machine library).Reachable t) :
    (∀ event, ∃ t', t.emit library event = some t' ∧
      (t.subscribers event = [] ∧ t'.emissions = t.emissions ∨
        ∃ first rest e, t.subscribers event = first :: rest ∧ t'.emissions = e :: t.emissions ∧
          e.event = event ∧ e.started = first :: rest ∧ e.joined = [] ∧ e.called = [first])) ∧
    (∀ e ∈ t.emissions, t.subscribers e.event = (e.started ++ e.joined).filter (t.Connected ·) ∧
      e.called.Nodup ∧ e.called.Sublist (e.started ++ e.joined)) ∧
    ∀ e emissions, t.emissions = e :: emissions → ∃ t', t.proceed library = some t' ∧
      ((∃ slot e', t'.emissions = e' :: emissions ∧ e'.event = e.event ∧ e'.started = e.started ∧
          e'.called = e.called ++ [slot] ∧ slot ∉ e.called ∧ slot ∈ t.subscribers e.event) ∨
        t'.emissions = emissions ∧
          ∀ slot ∈ e.started, slot ∈ t.subscribers e.event → slot ∈ e.called) := by
  have hinv := inv_of_reachable hlibrary h
  refine ⟨?_, ?_, ?_⟩
  · intro event
    obtain ⟨t', hemit, -, -, hbegins⟩ := hinv.emit hlibrary event
    refine ⟨t', hemit, hbegins.imp_right ?_⟩
    rintro ⟨first, rest, e, hsubscribers, hemissions, hevent, hemission⟩
    exact ⟨first, rest, e, hsubscribers, hemissions, hevent, congrArg (·.started) hemission,
      congrArg (·.joined) hemission, congrArg (·.called) hemission⟩
  · intro e he
    have hemission := hinv.emissions e he
    refine ⟨hinv.followed e he, (List.nodup_append.mp hemission.nodup_called).1, ?_⟩
    exact (List.sublist_append_left e.called e.ahead).trans hemission.order
  · intro e emissions ht
    have he : e ∈ t.emissions := ht ▸ List.mem_cons_self ..
    have hemission := hinv.emissions e he
    obtain ⟨t', hproceed, -, -, hemissions⟩ := hinv.proceed hlibrary ht
    refine ⟨t', hproceed, ?_⟩
    cases hactive : (e.next library.signal t.Connected).active with
    | none =>
        rw [if_pos hactive] at hemissions
        refine Or.inr ⟨hemissions, fun slot hslot hsubscribed => ?_⟩
        exact hemission.finished hlibrary.inOrder hactive slot hslot
          ((hinv.mem_subscribers he).mp hsubscribed).2
    | some slot =>
        rw [if_neg (by simp [hactive])] at hemissions
        obtain ⟨hcalled, hnot, hconnected, hslot⟩ :=
          hemission.next_notMem hlibrary.inOrder hactive
        have hstarted := (e.next_slots library.signal t.Connected).1
        exact Or.inl ⟨slot, _, hemissions, rfl, hstarted, hcalled, hnot,
          (hinv.mem_subscribers he).mpr ⟨hslot, hconnected⟩⟩

/-- The first of three slots releases the second and subscribes anew: the third is called
next, and the new one, which the node has as a subscriber now, is not waited for. -/
theorem emissions_of_reachable_skipped :
    ∃ t, (machine .signals2).Reachable t ∧ t.emissions.map (·.called) = [[0, 2]] ∧
      t.subscribers ⟨.numeric 1 1, .modelChanged⟩ = [0, 2, 3] ∧
      ∃ t', t.proceed .signals2 = some t' ∧ t'.emissions = [] := by
  obtain ⟨t, hreachable, hp⟩ := Machine.exists_reachable_of_exec (M := machine .signals2)
    (p := fun t => decide (t.emissions.map (fun e => (e.event, e.started, e.joined, e.called)) =
      [(⟨.numeric 1 1, .modelChanged⟩, [0, 1, 2], [3], [0, 2])] ∧
      [0, 1, 2, 3].filter (t.Connected ·) = [0, 2, 3] ∧
      (t.proceed .signals2).map (·.emissions) = some []))
    [.subscribe (.numeric 1 1) .modelChanged 0, .subscribe (.numeric 1 1) .modelChanged 1,
      .subscribe (.numeric 1 1) .modelChanged 1, .emit ⟨.numeric 1 1, .modelChanged⟩,
      .disconnect 1, .subscribe (.numeric 1 1) .modelChanged 1, .proceed] (by decide +kernel)
  obtain ⟨hemissions, hconnected, hproceed⟩ := of_decide_eq_true hp
  obtain ⟨e, hemissions, he⟩ := List.map_eq_singleton_iff.mp hemissions
  obtain ⟨hevent, hslots⟩ := Prod.mk.inj he
  obtain ⟨hstarted, hslots⟩ := Prod.mk.inj hslots
  obtain ⟨hjoined, hcalled⟩ := Prod.mk.inj hslots
  obtain ⟨-, hrunning, -⟩ := emissions_of_reachable SignalLibrary.signals2_documented hreachable
  obtain ⟨t', hproceed, hended⟩ := Option.map_eq_some_iff.mp hproceed
  refine ⟨t, hreachable, ?_, ?_, t', hproceed, hended⟩
  · rw [hemissions, List.map_singleton, hcalled]
  · rw [← hevent, (hrunning e (by simp [hemissions])).1, hstarted, hjoined]
    exact hconnected

end NodeSubscriptionTable

end ScadaCommon
