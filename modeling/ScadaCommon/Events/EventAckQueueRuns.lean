import ScadaCommon.Events.EventAckQueue

/-!
# Runs of the acknowledgement queue

§1 the invariant and what each operation does under it · §2 safety · §3 the
queue drains as confirmations come · §4 when the slots can wedge.
-/

namespace ScadaCommon

open Foundation EventAckQueue

/-! ## §1  The invariant -/

/-- The dispatch flag is set exactly while one dispatch is outstanding, and then
there is work for it, unless a `Reset` has emptied the queue under it. -/
structure AckInv (s : AckRun) : Prop where
  nodup : s.queue.pendingAckEventIds.Nodup
  disjoint : ∀ id ∈ s.queue.pendingAckEventIds, id ∉ s.queue.runningAckEventIds
  slots : s.queue.runningAckEventIds.card ≤ kMaxParallelAcks
  dispatched : s.dispatches = s.queue.ackPending.toNat
  scheduled : s.queue.hasWork = true → s.queue.ackPending = true
  useful : s.queue.ackPending = true → s.queue.hasWork = true ∨
    s.queue.pendingAckEventIds = [] ∧ s.queue.runningAckEventIds = ∅
  fifo : s.accepted = s.sent.flatten ++ s.queue.pendingAckEventIds

namespace AckInv

variable {s s' : AckRun} {id : EventId}

theorem init : AckInv .init := by
  refine ⟨?_, ?_, ?_, rfl, ?_, ?_, rfl⟩ <;> simp [AckRun.init, EventAckQueue.empty, hasWork]

theorem ack_eq (h : AckInv s) (hnew : ¬(id ∈ s.queue.runningAckEventIds ∨
    id ∈ s.queue.pendingAckEventIds)) :
    s.queue.ack id =
      let q := { s.queue with pendingAckEventIds := s.queue.pendingAckEventIds ++ [id] }
      some ({ q with ackPending := q.hasWork }, q.hasWork && !s.queue.ackPending) := by
  unfold EventAckQueue.ack
  rw [if_neg hnew]
  refine postAckPendingEvents_eq fun hp => hasWork_iff.mpr ⟨by simp, ?_⟩
  rcases h.useful hp with hw | ⟨-, hempty⟩
  · exact (hasWork_iff.mp hw).2
  · simp [hempty, kMaxParallelAcks]

theorem onAcked_eq (h : AckInv s) (hmem : id ∈ s.queue.runningAckEventIds) :
    s.queue.onAcked id =
      let q := { s.queue with runningAckEventIds := s.queue.runningAckEventIds.erase id }
      some ({ q with ackPending := q.hasWork }, q.hasWork && !s.queue.ackPending) := by
  unfold EventAckQueue.onAcked
  rw [if_pos hmem]
  refine postAckPendingEvents_eq fun hp => ?_
  have hw : s.queue.hasWork = true := by
    rcases h.useful hp with hw | ⟨-, hempty⟩
    · exact hw
    · simp [hempty] at hmem
  obtain ⟨hne, hfree⟩ := hasWork_iff.mp hw
  exact hasWork_iff.mpr ⟨hne, (Finset.card_le_card (Finset.erase_subset _ _)).trans_lt hfree⟩

/-- After the loop either no slot is free or nothing waits, so the post at the
end of `AckPendingEvents` schedules nothing. -/
theorem ackPendingEvents_eq {q : EventAckQueue} (hp : q.ackPending = true) :
    q.ackPendingEvents =
      let taken := fillSlots q.pendingAckEventIds q.runningAckEventIds
      some (⟨taken.2.1, taken.2.2, false⟩, taken.1, false) := by
  obtain ⟨-, -, hstop⟩ := fillSlots_spec q.pendingAckEventIds q.runningAckEventIds
  unfold EventAckQueue.ackPendingEvents postAckPendingEvents
  simp [check_of hp, hstop, check_of]

/-- Posting adds the dispatch that makes the count agree with the flag again. -/
theorem dispatches_post {n : ℕ} {pending work : Bool} (hn : n = pending.toNat)
    (hw : pending = true → work = true) : n + (work && !pending).toNat = work.toNat := by
  subst hn
  cases pending <;> cases work <;> simp_all

/-- The invariant of a state in which the queue was posted. -/
theorem posted {q : EventAckQueue} {accepted : List EventId} (hnodup : q.pendingAckEventIds.Nodup)
    (hdisj : ∀ id ∈ q.pendingAckEventIds, id ∉ q.runningAckEventIds)
    (hslots : q.runningAckEventIds.card ≤ kMaxParallelAcks)
    (hfifo : accepted = s.sent.flatten ++ q.pendingAckEventIds) (announced : Finset EventId) :
    AckInv { s with
      queue := { q with ackPending := q.hasWork }
      dispatches := q.hasWork.toNat
      accepted := accepted
      announced := announced } where
  nodup := hnodup
  disjoint := hdisj
  slots := hslots
  dispatched := rfl
  scheduled := id
  useful := Or.inl
  fifo := hfifo

theorem ack (h : AckInv s) (ackId : EventId) :
    ∃ s', s.step (.ack ackId) = some s' ∧ AckInv s' := by
  by_cases hold : ackId ∈ s.queue.runningAckEventIds ∨ ackId ∈ s.queue.pendingAckEventIds
  · refine ⟨s, ?_, h⟩
    simp [AckRun.step, EventAckQueue.ack, hold]
  · let q := { s.queue with pendingAckEventIds := s.queue.pendingAckEventIds ++ [ackId] }
    have hdisp : s.dispatches + (q.hasWork && !s.queue.ackPending).toNat = q.hasWork.toNat := by
      refine dispatches_post h.dispatched fun hp => hasWork_iff.mpr ⟨by simp [q], ?_⟩
      rcases h.useful hp with hw | ⟨-, hempty⟩
      · exact (hasWork_iff.mp hw).2
      · simp [q, hempty, kMaxParallelAcks]
    refine ⟨{ s with
        queue := { q with ackPending := q.hasWork }
        dispatches := q.hasWork.toNat
        accepted := s.accepted ++ [ackId] }, ?_, ?_⟩
    · simp only [AckRun.step, h.ack_eq hold, Option.bind_eq_bind, Option.bind_some, if_neg hold]
      rw [← hdisp]
      rfl
    · obtain ⟨hrun, hpend⟩ := not_or.mp hold
      refine posted (q := q) ?_ ?_ h.slots ?_ s.announced
      · exact List.Nodup.append h.nodup (List.nodup_singleton _) (by simpa using hpend)
      · intro id hid
        rcases List.mem_append.mp hid with hid | hid
        · exact h.disjoint id hid
        · rw [List.mem_singleton.mp hid]
          exact hrun
      · rw [h.fifo, List.append_assoc]

/-- An announcement of a running id frees its slot. -/
theorem onAcked_step (h : AckInv s) (hmem : id ∈ s.queue.runningAckEventIds) :
    s.step (.onAcked id) =
      let q := { s.queue with runningAckEventIds := s.queue.runningAckEventIds.erase id }
      some { s with
        queue := { q with ackPending := q.hasWork }
        dispatches := q.hasWork.toNat
        announced := insert id s.announced } := by
  let q := { s.queue with runningAckEventIds := s.queue.runningAckEventIds.erase id }
  have hdisp : s.dispatches + (q.hasWork && !s.queue.ackPending).toNat = q.hasWork.toNat := by
    refine dispatches_post h.dispatched fun hp => hasWork_iff.mpr ⟨?_, ?_⟩
    · rcases h.useful hp with hw | ⟨-, hempty⟩
      · exact (hasWork_iff.mp hw).1
      · simp [hempty] at hmem
    · exact (Finset.card_erase_lt_of_mem hmem).trans_le h.slots
  simp only [AckRun.step, h.onAcked_eq hmem, Option.bind_eq_bind, Option.bind_some]
  rw [← hdisp]
  rfl

/-- An announcement of any other id is only recorded. -/
theorem onAcked_step_other (hmem : id ∉ s.queue.runningAckEventIds) :
    s.step (.onAcked id) = some { s with announced := insert id s.announced } := by
  simp [AckRun.step, EventAckQueue.onAcked, hmem]

theorem onAcked (h : AckInv s) (acknowledgeId : EventId) :
    ∃ s', s.step (.onAcked acknowledgeId) = some s' ∧ AckInv s' := by
  by_cases hmem : acknowledgeId ∈ s.queue.runningAckEventIds
  · refine ⟨_, h.onAcked_step hmem, posted
      (q := { s.queue with
        runningAckEventIds := s.queue.runningAckEventIds.erase acknowledgeId })
      h.nodup ?_ ?_ h.fifo _⟩
    · intro id hid hrun
      exact h.disjoint id hid (Finset.mem_of_mem_erase hrun)
    · exact (Finset.card_le_card (Finset.erase_subset _ _)).trans h.slots
  · refine ⟨_, onAcked_step_other hmem, ?_⟩
    exact ⟨h.nodup, h.disjoint, h.slots, h.dispatched, h.scheduled, h.useful, h.fifo⟩

/-- `Reset` may leave the flag set over an empty queue. -/
theorem reset (h : AckInv s) : ∃ s', s.step .reset = some s' ∧ AckInv s' := by
  refine ⟨_, rfl, ?_⟩
  refine ⟨?_, ?_, ?_, h.dispatched, ?_, ?_, rfl⟩ <;> simp [EventAckQueue.reset, hasWork]

theorem dispatch (h : AckInv s) (hen : 0 < s.dispatches) :
    s.step .dispatch = some
      ({ s with
        queue := ⟨(fillSlots s.queue.pendingAckEventIds s.queue.runningAckEventIds).2.1,
          (fillSlots s.queue.pendingAckEventIds s.queue.runningAckEventIds).2.2, false⟩
        dispatches := 0 }.call
          (fillSlots s.queue.pendingAckEventIds s.queue.runningAckEventIds).1) := by
  have hp : s.queue.ackPending = true := by
    cases hb : s.queue.ackPending
    · rw [h.dispatched, hb] at hen
      exact absurd hen (by decide)
    · rfl
  have hone : s.dispatches - 1 + false.toNat = 0 := by
    rw [h.dispatched, hp]
    rfl
  simp only [AckRun.step, ackPendingEvents_eq hp, Option.bind_eq_bind, Option.bind_some, hone]
  rfl

theorem dispatch_inv (h : AckInv s) (hen : 0 < s.dispatches) :
    ∃ s', s.step .dispatch = some s' ∧ AckInv s' := by
  refine ⟨_, h.dispatch hen, ?_⟩
  obtain ⟨hsplit, hrun, hstop⟩ :=
    fillSlots_spec s.queue.pendingAckEventIds s.queue.runningAckEventIds
  have hslots := fillSlots_card_le s.queue.pendingAckEventIds h.slots
  have hnodup := h.nodup
  have hdisj := h.disjoint
  have hfifo := h.fifo
  generalize fillSlots s.queue.pendingAckEventIds s.queue.runningAckEventIds = taken at *
  obtain ⟨eventIds, pending, running⟩ := taken
  dsimp only at *
  rw [hsplit] at hnodup hdisj hfifo
  -- The loop stops without work, so the cleared flag agrees with the queue.
  have hidle : (⟨pending, running, false⟩ : EventAckQueue).hasWork = false := by
    rw [← Bool.not_eq_true, hasWork_iff]
    rintro ⟨hne, hfree⟩
    rcases hstop with hfull | hnil
    · exact absurd hfree (not_lt.mpr hfull)
    · exact hne hnil
  have hbase : AckInv { s with
      queue := ⟨pending, running, false⟩
      dispatches := 0
      sent := s.sent ++ [eventIds] } := by
    refine ⟨hnodup.of_append_right, ?_, hslots, rfl, ?_, ?_, ?_⟩
    · intro id hid hmem
      rw [hrun, Finset.mem_union, List.mem_toFinset] at hmem
      rcases hmem with hmem | hmem
      · exact hdisj id (List.mem_append_right _ hid) hmem
      · exact (List.nodup_append.mp hnodup).2.2 id hmem id hid rfl
    · intro hw
      rw [hidle] at hw
      cases hw
    · intro hp
      cases hp
    · simp [hfifo, List.append_assoc]
  unfold AckRun.call
  by_cases hnil : eventIds = []
  · rw [if_pos hnil]
    refine ⟨hbase.nodup, hbase.disjoint, hbase.slots, rfl, hbase.scheduled, hbase.useful, ?_⟩
    simpa [hnil] using hbase.fifo
  · rw [if_neg hnil]
    exact ⟨hbase.nodup, hbase.disjoint, hbase.slots, rfl, hbase.scheduled, hbase.useful,
      hbase.fifo⟩

/-- Under the invariant no operation fails a check, and each keeps it. -/
theorem step (h : AckInv s) {op : AckOp} (hen : s.enabled op) :
    ∃ s', s.step op = some s' ∧ AckInv s' := by
  cases op with
  | ack ackId => exact h.ack ackId
  | onAcked acknowledgeId => exact h.onAcked acknowledgeId
  | reset => exact h.reset
  | dispatch => exact h.dispatch_inv hen
  | callDone call good =>
      exact ⟨_, rfl, h.nodup, h.disjoint, h.slots, h.dispatched, h.scheduled, h.useful, h.fifo⟩

theorem of_reaches {ok : AckRun → AckOp → Prop} {t : AckRun}
    (h : ackMachine.ReachesFrom ok s t) (hs : AckInv s) : AckInv t := by
  refine h.invariant hs ?_
  intro t op t' ht hen _ hstep
  obtain ⟨u, hu, hinv⟩ := ht.step hen
  obtain rfl : u = t' := Option.some.inj (hu.symm.trans hstep)
  exact hinv

theorem of_reachable (h : ackMachine.Reachable s) : AckInv s :=
  of_reaches h init

end AckInv

/-! ## §2  The queue drains -/

/-- The server and the executor doing their part: an announcement or an
execution of a dispatch. -/
def AckOp.isProgress : AckOp → Prop
  | .onAcked _ => True
  | .dispatch => True
  | _ => False

abbrev AckRun.Progresses (s t : AckRun) : Prop :=
  ackMachine.ReachesFrom (fun _ op => op.isProgress) s t

namespace AckInv

variable {s : AckRun}

/-- With work to do a dispatch is outstanding, and executing it sends at least
the id at the front. -/
theorem dispatch_sends (h : AckInv s) (hw : s.queue.hasWork = true) :
    ∃ s', s.Progresses s' ∧ s'.accepted = s.accepted ∧
      s'.queue.pendingAckEventIds.length < s.queue.pendingAckEventIds.length := by
  have hen : 0 < s.dispatches := by
    rw [h.dispatched, h.scheduled hw]
    decide
  obtain ⟨hne, hfree⟩ := hasWork_iff.mp hw
  refine ⟨_, .tail (a := .dispatch) .refl hen trivial (h.dispatch hen), ?_, ?_⟩
  · unfold AckRun.call
    split <;> rfl
  · have hlen : (fillSlots s.queue.pendingAckEventIds s.queue.runningAckEventIds).2.1.length <
        s.queue.pendingAckEventIds.length := by
      obtain ⟨hsplit, -, -⟩ :=
        fillSlots_spec s.queue.pendingAckEventIds s.queue.runningAckEventIds
      obtain ⟨front, pending, hp⟩ := List.exists_cons_of_ne_nil hne
      rw [hp] at hsplit ⊢
      obtain ⟨eventIds, htaken⟩ :
          ∃ eventIds, (fillSlots (front :: pending) _).1 = front :: eventIds :=
        fillSlots_takes hfree
      rw [htaken] at hsplit
      have := congrArg List.length hsplit
      simp only [List.cons_append, List.length_cons, List.length_append] at this ⊢
      omega
    unfold AckRun.call
    split <;> exact hlen

/-- Full slots free up by an announcement. -/
theorem announce_frees (h : AckInv s) (hne : s.queue.pendingAckEventIds ≠ [])
    (hfull : ¬ s.queue.runningAckEventIds.card < kMaxParallelAcks) :
    ∃ s', s.Progresses s' ∧ s'.accepted = s.accepted ∧ s'.queue.hasWork = true ∧
      s'.queue.pendingAckEventIds = s.queue.pendingAckEventIds := by
  have hpos : 0 < s.queue.runningAckEventIds.card := by
    simp only [kMaxParallelAcks] at hfull
    omega
  obtain ⟨id, hid⟩ := Finset.card_pos.mp hpos
  have hfree : (s.queue.runningAckEventIds.erase id).card < kMaxParallelAcks :=
    (Finset.card_erase_lt_of_mem hid).trans_le h.slots
  exact ⟨_, .tail (a := .onAcked id) .refl trivial trivial (h.onAcked_step hid), rfl,
    hasWork_iff.mpr ⟨hne, hfree⟩, rfl⟩

/-- Announcements and dispatches alone empty the queue. -/
theorem drains (h : AckInv s) :
    ∃ t, s.Progresses t ∧ t.accepted = s.accepted ∧ t.queue.pendingAckEventIds = [] := by
  generalize hn : s.queue.pendingAckEventIds.length = n
  induction n using Nat.strongRecOn generalizing s with
  | ind n ih =>
      by_cases hne : s.queue.pendingAckEventIds = []
      · exact ⟨s, .refl, rfl, hne⟩
      · -- free a slot if none is free, then let the dispatch send from the front
        obtain ⟨u, hsu, hacc, hw, hpend⟩ : ∃ u, s.Progresses u ∧ u.accepted = s.accepted ∧
            u.queue.hasWork = true ∧
            u.queue.pendingAckEventIds = s.queue.pendingAckEventIds := by
          by_cases hfree : s.queue.runningAckEventIds.card < kMaxParallelAcks
          · exact ⟨s, .refl, rfl, hasWork_iff.mpr ⟨hne, hfree⟩, rfl⟩
          · exact h.announce_frees hne hfree
        obtain ⟨v, huv, hacc', hlt⟩ := (of_reaches hsu h).dispatch_sends hw
        rw [hpend, hn] at hlt
        obtain ⟨t, hvt, hacc'', hnil⟩ := ih _ hlt (of_reaches (hsu.trans huv) h) rfl
        exact ⟨t, (hsu.trans huv).trans hvt, by rw [hacc'', hacc', hacc], hnil⟩

end AckInv

/-! ## §3  Safety -/

/-- **Safety of the queue.** Nothing waits twice or both waits and runs, the
slots are never exceeded, no check fails, work is always scheduled, exactly the
one dispatch the flag stands for is outstanding, and the ids accepted since the
last `Reset` are, in order, those of the Calls made followed by those waiting;
announcements and dispatches can always bring every one of them into a Call. -/
theorem ack_queue_safe {s : AckRun} (h : ackMachine.Reachable s) :
    s.queue.pendingAckEventIds.Nodup ∧
    (∀ id ∈ s.queue.pendingAckEventIds, id ∉ s.queue.runningAckEventIds) ∧
    s.queue.runningAckEventIds.card ≤ kMaxParallelAcks ∧
    (∀ op, ackMachine.enabled s op → (ackMachine.step s op).isSome = true) ∧
    (s.queue.pendingAckEventIds ≠ [] → s.queue.runningAckEventIds.card < kMaxParallelAcks →
      s.queue.ackPending = true) ∧
    s.dispatches = s.queue.ackPending.toNat ∧
    s.accepted = s.sent.flatten ++ s.queue.pendingAckEventIds ∧
    (∃ t, s.Progresses t ∧ t.accepted = s.accepted ∧ t.sent.flatten = s.accepted) := by
  have hinv := AckInv.of_reachable h
  refine ⟨hinv.nodup, hinv.disjoint, hinv.slots, ?_, ?_, hinv.dispatched, hinv.fifo, ?_⟩
  · intro op hen
    obtain ⟨s', hs', -⟩ := hinv.step hen
    exact Option.isSome_iff_exists.mpr ⟨s', hs'⟩
  · exact fun hne hfree => hinv.scheduled (hasWork_iff.mpr ⟨hne, hfree⟩)
  · obtain ⟨t, hst, hacc, hnil⟩ := hinv.drains
    have hfifo := (AckInv.of_reaches hst hinv).fifo
    rw [hnil, List.append_nil] at hfifo
    exact ⟨t, hst, hacc, hfifo.symm.trans hacc⟩

/-- Seven ids are accepted and one of them refused a second time, the slots fill and an
announcement frees one; after a `Reset` two ids are sent, and a third one waits. -/
theorem ack_queue_safe_across_reset :
    ∃ s, ackMachine.Reachable s ∧ s.accepted = [8, 9, 10] ∧ s.sent = [[8, 9]] ∧
      s.queue.runningAckEventIds = {9} ∧ s.queue.ackPending = true ∧
      ∃ t, s.Progresses t ∧ t.sent.flatten = [8, 9, 10] := by
  obtain ⟨s, hs, hp⟩ := Machine.exists_reachable_of_exec (M := ackMachine)
    (p := fun s => decide (s.accepted = [8, 9, 10] ∧ s.sent = [[8, 9]] ∧
      s.queue.runningAckEventIds = {9} ∧ s.queue.pendingAckEventIds = [10]))
    [.ack 1, .ack 2, .ack 3, .ack 4, .ack 5, .ack 6, .ack 2, .dispatch, .onAcked 3, .ack 7,
      .dispatch, .callDone 0 true, .reset, .onAcked 1, .ack 8, .ack 9, .dispatch, .ack 10,
      .onAcked 8] (by decide +kernel)
  obtain ⟨haccepted, hsent, hrunning, hwaiting⟩ := of_decide_eq_true hp
  obtain ⟨-, -, -, -, hscheduled, -, -, t, ht, -, hall⟩ := ack_queue_safe hs
  refine ⟨s, hs, haccepted, hsent, hrunning, ?_, t, ht, hall.trans haccepted⟩
  refine hscheduled ?_ ?_
  · rw [hwaiting]
    exact List.cons_ne_nil _ _
  · rw [hrunning]
    decide

/-! ## §4  When the slots wedge

A slot is freed only by an announcement. It is held in vain when the Call that
took it has failed, or has succeeded for an event whose acknowledgement had
been announced before the Call was sent. -/

namespace AckRun

/-- The last Call of an id is outstanding, or succeeded with its announcement
still to come. -/
def Awaits (s : AckRun) (id : EventId) : Prop :=
  s.callStatus (s.callOf id) = .outstanding ∨
    s.callStatus (s.callOf id) = .succeeded ∧ id ∉ s.announced

instance (s : AckRun) (id : EventId) : Decidable (s.Awaits id) := by
  unfold Awaits
  infer_instance

/-- Waiting ids are about to be sent or wait for slots that will be freed; a
failed Call holds no slot. -/
def NeverWedged (s : AckRun) : Prop :=
  (s.queue.pendingAckEventIds ≠ [] → 0 < s.dispatches ∨
    s.queue.runningAckEventIds.card = kMaxParallelAcks ∧
      ∀ id ∈ s.queue.runningAckEventIds, s.Awaits id) ∧
  ∀ id ∈ s.queue.runningAckEventIds, s.callStatus (s.callOf id) ≠ .failed

instance (s : AckRun) : Decidable s.NeverWedged := by
  unfold NeverWedged
  infer_instance

/-- A Call completes badly, or for an event announced before it, only when it
no longer holds a slot. -/
def CompletesCleanly (s : AckRun) : AckOp → Prop
  | .callDone call good => ∀ id ∈ s.queue.runningAckEventIds, s.callOf id = call →
      good = true ∧ id ∉ s.announced
  | _ => True

instance (s : AckRun) (op : AckOp) : Decidable (s.CompletesCleanly op) := by
  apply AckOp.casesOn (motive := fun op => Decidable (s.CompletesCleanly op)) op <;>
    intros <;> unfold CompletesCleanly <;> infer_instance

end AckRun

/-- Every slot is held by a Call that will free it. -/
def SlotsHeld (s : AckRun) : Prop :=
  ∀ id ∈ s.queue.runningAckEventIds, s.Awaits id ∧ s.callOf id < s.calls

namespace SlotsHeld

variable {s : AckRun}

/-- Sending a Call justifies the slots it takes and touches no other. -/
theorem call {eventIds : List EventId}
    (h : ∀ id ∈ s.queue.runningAckEventIds, id ∈ eventIds ∨ s.Awaits id ∧ s.callOf id < s.calls) :
    SlotsHeld (s.call eventIds) := by
  intro id hid
  unfold AckRun.call at hid ⊢
  split at hid
  · rename_i hnil
    rw [if_pos hnil]
    simpa [hnil] using h id hid
  · rename_i hne
    rw [if_neg hne]
    by_cases hmem : id ∈ eventIds
    · simp [AckRun.Awaits, hmem]
    · obtain ⟨haw, hlt⟩ := (h id hid).resolve_left hmem
      refine ⟨?_, ?_⟩
      · simpa [AckRun.Awaits, hmem, Function.update_of_ne hlt.ne] using haw
      · simp only [if_neg hmem]
        exact hlt.trans (Nat.lt_succ_self _)

theorem onAcked {acknowledgeId : EventId} {q : EventAckQueue} {dispatches : ℕ}
    (h : SlotsHeld s)
    (hq : q.runningAckEventIds = s.queue.runningAckEventIds.erase acknowledgeId) :
    SlotsHeld { s with
      queue := q, dispatches := dispatches, announced := insert acknowledgeId s.announced } := by
  intro id hid
  dsimp only at hid
  rw [hq, Finset.mem_erase] at hid
  obtain ⟨haw, hlt⟩ := h id hid.2
  refine ⟨?_, hlt⟩
  rcases haw with hout | ⟨hsucc, hnew⟩
  · exact Or.inl hout
  · exact Or.inr ⟨hsucc, by simpa using ⟨hid.1, hnew⟩⟩

/-- One step keeps the slots held when completions are clean. -/
theorem step {s' : AckRun} {op : AckOp} (hinv : AckInv s) (h : SlotsHeld s)
    (hen : s.enabled op) (hok : s.CompletesCleanly op) (hs : s.step op = some s') :
    SlotsHeld s' := by
  cases op with
  | ack ackId =>
      by_cases hold : ackId ∈ s.queue.runningAckEventIds ∨ ackId ∈ s.queue.pendingAckEventIds
      · simp only [AckRun.step, EventAckQueue.ack, if_pos hold, Option.bind_eq_bind,
          Option.bind_some] at hs
        cases hs
        exact h
      · simp only [AckRun.step, hinv.ack_eq hold, Option.bind_eq_bind, Option.bind_some] at hs
        cases hs
        exact h
  | onAcked acknowledgeId =>
      by_cases hmem : acknowledgeId ∈ s.queue.runningAckEventIds
      · cases (hinv.onAcked_step hmem).symm.trans hs
        exact h.onAcked rfl
      · cases (AckInv.onAcked_step_other hmem).symm.trans hs
        exact h.onAcked (Finset.erase_eq_of_notMem hmem).symm
  | reset =>
      cases hs
      intro id hid
      simp [EventAckQueue.reset] at hid
  | dispatch =>
      cases (hinv.dispatch hen).symm.trans hs
      obtain ⟨-, hrun, -⟩ :=
        fillSlots_spec s.queue.pendingAckEventIds s.queue.runningAckEventIds
      refine SlotsHeld.call ?_
      intro id hid
      dsimp only at hid
      rw [hrun, Finset.mem_union, List.mem_toFinset] at hid
      exact hid.symm.imp_right (h id)
  | callDone call good =>
      cases hs
      intro id hid
      obtain ⟨haw, hlt⟩ := h id hid
      refine ⟨?_, hlt⟩
      by_cases hcall : s.callOf id = call
      · obtain ⟨rfl, hnew⟩ := hok id hid hcall
        subst hcall
        exact Or.inr ⟨by simp, hnew⟩
      · simpa [AckRun.Awaits, Function.update_of_ne hcall] using haw

end SlotsHeld

/-- In every run whose Calls complete cleanly the queue never wedges. -/
theorem never_wedged_of_clean {s : AckRun} (h : ackMachine.Reaches AckRun.CompletesCleanly s) :
    s.NeverWedged := by
  have hboth : AckInv s ∧ SlotsHeld s := by
    refine h.invariant (I := fun s => AckInv s ∧ SlotsHeld s)
      ⟨.init, by simp [SlotsHeld, AckRun.init, EventAckQueue.empty]⟩ ?_
    rintro t op t' ⟨hinv, hheld⟩ hen hok hs
    obtain ⟨u, hu, hinv'⟩ := hinv.step hen
    obtain rfl : u = t' := Option.some.inj (hu.symm.trans hs)
    exact ⟨hinv', SlotsHeld.step hinv hheld hen hok hs⟩
  obtain ⟨hinv, hheld⟩ := hboth
  refine ⟨fun hne => ?_, fun id hid hfail => ?_⟩
  · by_cases hfree : s.queue.runningAckEventIds.card < kMaxParallelAcks
    · left
      rw [hinv.dispatched, hinv.scheduled (hasWork_iff.mpr ⟨hne, hfree⟩)]
      decide
    · exact Or.inr ⟨le_antisymm hinv.slots (not_lt.mp hfree), fun id hid => (hheld id hid).1⟩
  · rcases (hheld id hid).1 with hout | ⟨hsucc, -⟩
    · rw [hfail] at hout
      cases hout
    · rw [hfail] at hsucc
      cases hsucc

/-- The first Call succeeds and is announced in part, the second one fails when its id
holds no slot any more: the eighth id waits for slots that will be freed. -/
theorem never_wedged_of_clean_full :
    ∃ s, ackMachine.Reaches AckRun.CompletesCleanly s ∧ s.queue.pendingAckEventIds = [8] ∧
      s.dispatches = 0 ∧ s.queue.runningAckEventIds = {2, 3, 4, 5, 7} ∧
      ∀ id ∈ s.queue.runningAckEventIds, s.Awaits id := by
  obtain ⟨s, hs, hp⟩ := Machine.exists_reaches_of_exec (M := ackMachine) AckRun.CompletesCleanly
    (p := fun s => decide (s.queue.pendingAckEventIds = [8] ∧ s.dispatches = 0 ∧
      s.queue.runningAckEventIds = {2, 3, 4, 5, 7}))
    [.ack 1, .ack 2, .ack 3, .ack 4, .ack 5, .ack 6, .ack 7, .dispatch, .callDone 0 true,
      .onAcked 1, .dispatch, .onAcked 6, .callDone 1 false, .dispatch, .ack 8] (by decide +kernel)
  obtain ⟨hwaiting, hdispatches, hrunning⟩ := of_decide_eq_true hp
  refine ⟨s, hs, hwaiting, hdispatches, hrunning, ?_⟩
  have hne : s.queue.pendingAckEventIds ≠ [] := by
    rw [hwaiting]
    exact List.cons_ne_nil _ _
  rcases (never_wedged_of_clean hs).1 hne with hscheduled | ⟨-, hawaits⟩
  · rw [hdispatches] at hscheduled
    exact absurd hscheduled (lt_irrefl 0)
  · exact hawaits

/-- Six ids are acknowledged and the Call of the first five fails: the sixth
waits for slots that nothing will free. -/
theorem failed_call_wedges : ∃ s, ackMachine.Reachable s ∧ ¬ s.NeverWedged := by
  obtain ⟨s, hs, hp⟩ := Machine.exists_reachable_of_exec (M := ackMachine)
    (p := fun s => decide ¬ s.NeverWedged)
    [.ack 1, .ack 2, .ack 3, .ack 4, .ack 5, .ack 6, .dispatch, .callDone 0 false] (by decide)
  exact ⟨s, hs, of_decide_eq_true hp⟩

end ScadaCommon
