import ScadaCommon.Events.EventFetcher

/-!
# Runs of the event fetcher

What the two sources of the fetcher leave in its storage. §1 and §2 are about
every run. §3 is about events whose acknowledgement the fetcher has seen: only
the answer of a read brings one back. §4 is about reconnecting: a read adds
what the outage hid, and nothing takes out what the outage acknowledged.
-/

namespace ScadaCommon

open Foundation

variable {range : SeverityRange} {w w' : FetcherWorld} {op : FetcherOp}

/-! ## §1  The announcements -/

/-- What the server has raised and what is on its way to the fetcher. -/
structure Announced (w : FetcherWorld) : Prop where
  raised_unacked : ∀ e ∈ w.raised, e.acked = false
  raised_inj : ∀ e ∈ w.raised, ∀ e' ∈ w.raised, e.eventId = e'.eventId → e = e'
  acked_raised : ∀ id ∈ w.acked, ∃ e ∈ w.raised, e.eventId = id
  inFlight_raised : ∀ e ∈ w.inFlight, { e with acked := false } ∈ w.raised
  inFlight_acked : ∀ e ∈ w.inFlight, e.acked = true → e.eventId ∈ w.acked
  order : w.inFlight.Pairwise fun e e' =>
    e.eventId = e'.eventId → e.acked = false ∧ e'.acked = true
  processed : ∀ id ∈ w.processedAcked, id ∈ w.acked ∧ ∀ e ∈ w.inFlight, e.eventId ≠ id

namespace Announced

theorem init : Announced (.init range) := by
  constructor <;> simp [FetcherWorld.init]

/-- The invariant reads four fields. -/
theorem congr (h : Announced w) (hraised : w'.raised = w.raised) (hacked : w'.acked = w.acked)
    (hflight : w'.inFlight = w.inFlight) (hprocessed : w'.processedAcked = w.processedAcked) :
    Announced w' := by
  obtain ⟨h₁, h₂, h₃, h₄, h₅, h₆, h₇⟩ := h
  constructor
  · rwa [hraised]
  · rwa [hraised]
  · rwa [hacked, hraised]
  · rwa [hflight, hraised]
  · rwa [hflight, hacked]
  · rwa [hflight]
  · rwa [hprocessed, hacked, hflight]

/-- An announcement on its way before its acknowledgement is the raised event. -/
theorem mem_raised (h : Announced w) {e : Event} (he : e ∈ w.inFlight) (hun : e.acked = false) :
    e ∈ w.raised := by
  have hraised := h.inFlight_raised e he
  rwa [← hun] at hraised

theorem mem_unacked {e : Event} : e ∈ w.unacked ↔ e ∈ w.raised ∧ e.eventId ∉ w.acked := by
  simp [FetcherWorld.unacked]

/-- An announcement comes after those on their way. -/
theorem announce (h : Announced w) {event : Event}
    (hraised : { event with acked := false } ∈ w.raised)
    (hacked : event.acked = true → event.eventId ∈ w.acked)
    (horder : ∀ e ∈ w.inFlight, e.eventId = event.eventId → e.acked = false ∧ event.acked = true)
    (hnew : event.eventId ∉ w.processedAcked) : Announced (w.announce event) := by
  have hmem : ∀ e ∈ (w.announce event).inFlight, e ∈ w.inFlight ∨ e = event := by
    intro e he
    rw [FetcherWorld.announce_eq] at he
    rcases List.mem_append.mp he with hold | hlast
    · exact Or.inl hold
    · split at hlast
      · exact Or.inr (List.mem_singleton.mp hlast)
      · cases hlast
  rw [FetcherWorld.announce_eq] at hmem ⊢
  refine ⟨h.raised_unacked, h.raised_inj, h.acked_raised, ?_, ?_, ?_, ?_⟩
  · intro e he
    rcases hmem e he with hold | rfl
    · exact h.inFlight_raised e hold
    · exact hraised
  · intro e he
    rcases hmem e he with hold | rfl
    · exact h.inFlight_acked e hold
    · exact hacked
  · refine List.pairwise_append.mpr ⟨h.order, ?_, ?_⟩
    · split <;> simp
    · intro e he e' hlast
      split at hlast
      · obtain rfl := List.mem_singleton.mp hlast
        exact horder e he
      · cases hlast
  · intro id hid
    obtain ⟨hid_acked, hgone⟩ := h.processed id hid
    refine ⟨hid_acked, ?_⟩
    intro e he
    rcases hmem e he with hold | rfl
    · exact hgone e hold
    · rintro rfl
      exact hnew hid

theorem raise (h : Announced w) {event : Event} (hen : w.enabled (.raise event)) :
    Announced ({ w with raised := w.raised ++ [event] }.announce event) := by
  obtain ⟨hun, hnew⟩ := hen
  have hmem : ∀ e ∈ w.raised ++ [event], e ∈ w.raised ∨ e = event := by
    intro e he
    simpa using he
  have hself : { event with acked := false } = event := by
    rw [← hun]
  have hraised : Announced { w with raised := w.raised ++ [event] } := by
    refine ⟨?_, ?_, ?_, ?_, h.inFlight_acked, h.order, h.processed⟩
    · intro e he
      rcases hmem e he with hold | rfl
      · exact h.raised_unacked e hold
      · exact hun
    · intro e he e' he' hid
      rcases hmem e he with hold | rfl
      · rcases hmem e' he' with hold' | rfl
        · exact h.raised_inj e hold e' hold' hid
        · exact absurd hid (hnew e hold)
      · rcases hmem e' he' with hold' | rfl
        · exact absurd hid.symm (hnew e' hold')
        · rfl
    · intro id hid
      obtain ⟨e, he, heq⟩ := h.acked_raised id hid
      exact ⟨e, List.mem_append_left _ he, heq⟩
    · exact fun e he => List.mem_append_left _ (h.inFlight_raised e he)
  refine hraised.announce ?_ ?_ ?_ ?_
  · rw [hself]
    exact List.mem_append_right _ (List.mem_singleton_self _)
  · rw [hun]
    exact fun h => absurd h (by decide)
  · intro e he hid
    exact absurd hid (hnew { e with acked := false } (h.inFlight_raised e he))
  · intro hid
    obtain ⟨e, he, heq⟩ := h.acked_raised _ (h.processed _ hid).1
    exact hnew e he heq

theorem acknowledge (h : Announced w) {event : Event} (hen : w.enabled (.acknowledge event)) :
    Announced ({ w with acked := insert event.eventId w.acked }.announce
      { event with acked := true }) := by
  obtain ⟨hraised, hnew⟩ := mem_unacked.mp hen
  have hself : { event with acked := false } = event := by
    rw [← h.raised_unacked event hraised]
  have hacked : Announced { w with acked := insert event.eventId w.acked } := by
    refine ⟨h.raised_unacked, h.raised_inj, ?_, h.inFlight_raised, ?_, h.order, ?_⟩
    · intro id hid
      rcases Finset.mem_insert.mp hid with rfl | hold
      · exact ⟨event, hraised, rfl⟩
      · exact h.acked_raised id hold
    · exact fun e he hacked => Finset.mem_insert_of_mem (h.inFlight_acked e he hacked)
    · intro id hid
      obtain ⟨hold, hgone⟩ := h.processed id hid
      exact ⟨Finset.mem_insert_of_mem hold, hgone⟩
  refine hacked.announce ?_ ?_ ?_ ?_
  · exact hself.symm ▸ hraised
  · exact fun _ => Finset.mem_insert_self _ _
  · intro e he hid
    refine ⟨?_, rfl⟩
    cases hacked_e : e.acked with
    | false => rfl
    | true => exact absurd (hid ▸ h.inFlight_acked e he hacked_e) hnew
  · exact fun hid => hnew (h.processed _ hid).1

/-- A delivered acknowledgement is the last announcement of its event. -/
theorem deliver (h : Announced w) {index : ℕ} {ptr : EventPtr} {event : Event}
    (hen : w.enabled (.deliver index ptr)) (hevent : w.inFlight[index]? = some event) :
    Announced { w with
      inFlight := w.inFlight.eraseIdx index
      processedAcked :=
        if event.acked then insert event.eventId w.processedAcked else w.processedAcked } := by
  obtain ⟨hlt, -, hfirst⟩ := hen
  have hsub : ∀ e ∈ w.inFlight.eraseIdx index, e ∈ w.inFlight :=
    fun e he => List.mem_of_mem_eraseIdx he
  refine ⟨h.raised_unacked, h.raised_inj, h.acked_raised, ?_, ?_, ?_, ?_⟩
  · exact fun e he => h.inFlight_raised e (hsub e he)
  · exact fun e he => h.inFlight_acked e (hsub e he)
  · exact h.order.sublist (List.eraseIdx_sublist _ _)
  · intro id hid
    dsimp only at hid
    split at hid
    · rename_i hacked
      rcases Finset.mem_insert.mp hid with rfl | hold
      · refine ⟨h.inFlight_acked event (List.mem_of_getElem? hevent) hacked, ?_⟩
        intro e he heq
        -- Before the delivered one there is no announcement of this event, and
        -- after an acknowledgement neither.
        rw [List.eraseIdx_eq_take_drop_succ] at he
        rcases List.mem_append.mp he with hbefore | hafter
        · rw [hevent] at hfirst
          exact hfirst e hbefore (congrArg some heq)
        · have hsplit : w.inFlight =
              w.inFlight.take index ++ event :: w.inFlight.drop (index + 1) := by
            obtain ⟨hlt', hget⟩ := List.getElem?_eq_some_iff.mp hevent
            rw [← hget, List.cons_getElem_drop_succ, List.take_append_drop]
          have horder := h.order
          rw [hsplit] at horder
          have hpair := (List.pairwise_append.mp horder).2.1
          have hun := ((List.pairwise_cons.mp hpair).1 e hafter heq.symm).1
          rw [hacked] at hun
          cases hun
      · obtain ⟨hid_acked, hgone⟩ := h.processed id hold
        exact ⟨hid_acked, fun e he => hgone e (hsub e he)⟩
    · obtain ⟨hid_acked, hgone⟩ := h.processed id hid
      exact ⟨hid_acked, fun e he => hgone e (hsub e he)⟩

theorem step (h : Announced w) (hen : w.enabled op) (hs : w.step range op = some w') :
    Announced w' := by
  cases op with
  | raise event =>
      cases hs
      exact h.raise hen
  | acknowledge event =>
      cases hs
      exact h.acknowledge hen
  | deliver index ptr =>
      obtain ⟨event, fetcher, hevent, rfl, -⟩ := FetcherWorld.deliver_spec hs
      exact (h.deliver hen hevent).congr rfl rfl rfl rfl
  | setSeverityMin severity =>
      rcases FetcherWorld.setSeverityMin_spec hs with rfl | ⟨fetcher, rfl, -⟩
      · exact h
      · exact h.congr rfl rfl rfl rfl
  | channelOpened =>
      cases hs
      exact h.congr rfl rfl rfl rfl
  | channelClosed =>
      cases hs
      exact h.congr rfl rfl rfl rfl
  | snapshot read events =>
      cases hs
      exact h.congr rfl rfl rfl rfl
  | readDone read ptrs =>
      obtain ⟨fetcher, -, rfl, -⟩ := FetcherWorld.readDone_spec hen hs
      exact h.congr rfl rfl rfl rfl
  | readFailed read =>
      obtain rfl := FetcherWorld.readFailed_spec hs
      exact h.congr rfl rfl rfl rfl
  | ack ackId =>
      obtain ⟨acks, rfl⟩ := FetcherWorld.ackStep_spec hs
      exact h.congr rfl rfl rfl rfl
  | ackDispatch =>
      obtain ⟨acks, rfl⟩ := FetcherWorld.ackStep_spec hs
      exact h.congr rfl rfl rfl rfl
  | ackCallDone call good =>
      obtain ⟨acks, rfl⟩ := FetcherWorld.ackStep_spec hs
      exact h.congr rfl rfl rfl rfl

end Announced

/-! ## §2  The contents -/

/-- The storage holds raised events that pass the severity filter, and reads
are answered with raised events. -/
structure Supplied (w : FetcherWorld) : Prop where
  answers : ∀ events, some events ∈ w.reads → ∀ e ∈ events, e ∈ w.raised
  stored : ∀ id e, w.fetcher.unackedEvents id = some e →
    e.eventId = id ∧ e ∈ w.raised ∧ w.fetcher.severityMin ≤ e.severity

namespace Supplied

theorem init : Supplied (.init range) := by
  constructor
  · rintro events ⟨⟩
  · rintro id e ⟨⟩

/-- More may be raised and fewer reads outstanding. -/
theorem mono (h : Supplied w) (hraised : ∀ e ∈ w.raised, e ∈ w'.raised)
    (hreads : ∀ events, some events ∈ w'.reads → some events ∈ w.reads)
    (hmin : w'.fetcher.severityMin = w.fetcher.severityMin)
    (hcontents : w'.fetcher.unackedEvents = w.fetcher.unackedEvents) : Supplied w' := by
  constructor
  · exact fun events hevents e he => hraised e (h.answers events (hreads events hevents) e he)
  · intro id e he
    rw [hcontents] at he
    obtain ⟨hid, hmem, hsev⟩ := h.stored id e he
    exact ⟨hid, hraised e hmem, hmin ▸ hsev⟩

theorem announce (h : Supplied w) (event : Event) : Supplied (w.announce event) := by
  rw [FetcherWorld.announce_eq]
  exact h.mono (fun _ he => he) (fun _ he => he) rfl rfl

theorem some_mem_append_none {reads : List (Option (List Event))} {events : List Event}
    (h : some events ∈ reads ++ [none]) : some events ∈ reads := by
  simpa using h

theorem step (h : Supplied w) (hann : Announced w) (hen : w.enabled op)
    (hs : w.step range op = some w') : Supplied w' := by
  cases op with
  | raise event =>
      cases hs
      have hmore : Supplied { w with raised := w.raised ++ [event] } :=
        h.mono (fun _ he => List.mem_append_left _ he) (fun _ he => he) rfl rfl
      exact hmore.announce event
  | acknowledge event =>
      cases hs
      have hsame : Supplied { w with acked := insert event.eventId w.acked } :=
        h.mono (fun _ he => he) (fun _ he => he) rfl rfl
      exact hsame.announce _
  | deliver index ptr =>
      obtain ⟨event, fetcher, hevent, rfl, hmin, hcontents⟩ := FetcherWorld.deliver_spec hs
      constructor
      · exact h.answers
      · intro id e he
        dsimp only at he ⊢
        rw [hmin]
        rw [hcontents] at he
        split at he
        · rename_i hsev
          have hfold : [event].foldl EventStorage.deliver w.fetcher.unackedEvents id = some e := he
          rcases EventStorage.foldl_deliver_mem hfold with hold | ⟨hmem, hid, hun⟩
          · exact h.stored id e hold
          · obtain rfl := List.mem_singleton.mp hmem
            exact ⟨hid, hann.mem_raised (List.mem_of_getElem? hevent) hun, hsev⟩
        · exact h.stored id e he
  | setSeverityMin severity =>
      rcases FetcherWorld.setSeverityMin_spec hs with rfl | ⟨fetcher, rfl, hcontents⟩
      · exact h
      · constructor
        · exact fun events hevents => h.answers events (some_mem_append_none hevents)
        · intro id e he
          dsimp only at he
          rw [hcontents] at he
          cases he
  | channelOpened =>
      cases hs
      exact h.mono (fun _ he => he) (fun _ => some_mem_append_none) rfl rfl
  | channelClosed =>
      cases hs
      exact h.mono (fun _ he => he) (fun _ he => he) rfl rfl
  | snapshot read events =>
      cases hs
      refine ⟨?_, h.stored⟩
      intro answer hanswer e he
      rcases List.mem_or_eq_of_mem_set hanswer with hold | hnew
      · exact h.answers answer hold e he
      · cases hnew
        exact (Announced.mem_unacked.mp (hen.2.mem_iff.mp he)).1
  | readDone read ptrs =>
      obtain ⟨fetcher, hread, rfl, hmin, hcontents⟩ := FetcherWorld.readDone_spec hen hs
      constructor
      · exact fun answer hanswer => h.answers answer (List.mem_of_mem_eraseIdx hanswer)
      · intro id e he
        dsimp only at he ⊢
        rw [hmin]
        rw [hcontents] at he
        rcases EventStorage.foldl_deliver_mem he with hold | ⟨hmem, hid, -⟩
        · exact h.stored id e hold
        · obtain ⟨hmem, hsev⟩ := List.mem_filter.mp hmem
          exact ⟨hid, h.answers _ (List.mem_of_getElem? hread) e hmem,
            of_decide_eq_true hsev⟩
  | readFailed read =>
      obtain rfl := FetcherWorld.readFailed_spec hs
      exact h.mono (fun _ he => he) (fun _ he => List.mem_of_mem_eraseIdx he) rfl rfl
  | ack ackId =>
      obtain ⟨acks, rfl⟩ := FetcherWorld.ackStep_spec hs
      exact h.mono (fun _ he => he) (fun _ he => he) rfl rfl
  | ackDispatch =>
      obtain ⟨acks, rfl⟩ := FetcherWorld.ackStep_spec hs
      exact h.mono (fun _ he => he) (fun _ he => he) rfl rfl
  | ackCallDone call good =>
      obtain ⟨acks, rfl⟩ := FetcherWorld.ackStep_spec hs
      exact h.mono (fun _ he => he) (fun _ he => he) rfl rfl

/-- What a delivered announcement leaves in the storage: an acknowledgement
takes its event out, whatever the filter is now. -/
theorem after_deliver (h : Supplied w) (hann : Announced w) {index : ℕ} {event : Event}
    (hevent : w.inFlight[index]? = some event) (hacked : event.acked = true) :
    (if w.fetcher.severityMin ≤ event.severity then
      EventStorage.deliver w.fetcher.unackedEvents event
      else w.fetcher.unackedEvents) event.eventId = none := by
  split
  · simp [EventStorage.deliver, hacked]
  · rename_i hsev
    cases hstored : w.fetcher.unackedEvents event.eventId with
    | none => rfl
    | some e =>
        obtain ⟨hid, hmem, hmin⟩ := h.stored _ _ hstored
        have hraised := hann.inFlight_raised event (List.mem_of_getElem? hevent)
        obtain rfl := hann.raised_inj _ hmem _ hraised hid
        exact absurd hmin hsev

end Supplied

/-! ## §3  Acknowledged events stay away -/

namespace FetcherWorld

/-- No stored event has been seen acknowledged. -/
def NoResurrection (w : FetcherWorld) : Prop :=
  ∀ id ∈ w.processedAcked, w.fetcher.unackedEvents id = none

instance (w : FetcherWorld) : Decidable w.NoResurrection := by
  unfold NoResurrection
  infer_instance

/-- A read completes with no event, of those that pass the filter, whose
acknowledgement the fetcher has seen. -/
def AnswersNotProcessed (w : FetcherWorld) : FetcherOp → Prop
  | .readDone read _ => ∀ e ∈ w.answer read,
      w.fetcher.severityMin ≤ e.severity → e.eventId ∉ w.processedAcked
  | _ => True

instance (w : FetcherWorld) (op : FetcherOp) : Decidable (w.AnswersNotProcessed op) := by
  apply FetcherOp.casesOn (motive := fun op => Decidable (w.AnswersNotProcessed op)) op <;>
    intros <;> unfold AnswersNotProcessed <;> infer_instance

/-- One step brings back no acknowledged event. -/
theorem NoResurrection.step (h : w.NoResurrection) (hann : Announced w) (hsup : Supplied w)
    (hen : w.enabled op) (hok : w.AnswersNotProcessed op) (hs : w.step range op = some w') :
    w'.NoResurrection := by
  cases op with
  | raise event =>
      cases hs
      rw [announce_eq]
      exact h
  | acknowledge event =>
      cases hs
      rw [announce_eq]
      exact h
  | deliver index ptr =>
      obtain ⟨event, fetcher, hevent, rfl, -, hcontents⟩ := deliver_spec hs
      intro id hid
      dsimp only at hid ⊢
      rw [hcontents]
      by_cases heq : id = event.eventId
      · subst heq
        split at hid
        -- An open event is not announced after its acknowledgement was processed.
        · rename_i hacked
          exact hsup.after_deliver hann hevent hacked
        · exact absurd rfl ((hann.processed _ hid).2 event (List.mem_of_getElem? hevent))
      · have hold : id ∈ w.processedAcked := by
          split at hid
          · exact (Finset.mem_insert.mp hid).resolve_left heq
          · exact hid
        split
        · rw [EventStorage.deliver, Function.update_of_ne heq]
          exact h id hold
        · exact h id hold
  | setSeverityMin severity =>
      rcases setSeverityMin_spec hs with rfl | ⟨fetcher, rfl, hcontents⟩
      · exact h
      · intro id _
        dsimp only
        rw [hcontents]
  | channelOpened =>
      cases hs
      exact h
  | channelClosed =>
      cases hs
      exact h
  | snapshot read events =>
      cases hs
      exact h
  | readDone read ptrs =>
      obtain ⟨fetcher, -, rfl, -, hcontents⟩ := readDone_spec hen hs
      intro id hid
      dsimp only at hid ⊢
      rw [hcontents]
      -- What is stored now was stored before, or came in the answer.
      cases hafter : ((w.answer read).filter fun e => w.fetcher.severityMin ≤ e.severity).foldl
          EventStorage.deliver w.fetcher.unackedEvents id with
      | none => rfl
      | some e =>
          rcases EventStorage.foldl_deliver_mem hafter with hold | ⟨hmem, rfl, -⟩
          · rw [h id hid] at hold
            cases hold
          · obtain ⟨hmem, hsev⟩ := List.mem_filter.mp hmem
            exact absurd hid (hok e hmem (of_decide_eq_true hsev))
  | readFailed read =>
      obtain rfl := readFailed_spec hs
      exact h
  | ack ackId =>
      obtain ⟨acks, rfl⟩ := ackStep_spec hs
      exact h
  | ackDispatch =>
      obtain ⟨acks, rfl⟩ := ackStep_spec hs
      exact h
  | ackCallDone call good =>
      obtain ⟨acks, rfl⟩ := ackStep_spec hs
      exact h

end FetcherWorld

/-- **Acknowledged events stay away** in every run whose reads bring none
back. -/
theorem processed_stay_away (h : (fetcherMachine range).Reaches FetcherWorld.AnswersNotProcessed w) :
    w.NoResurrection := by
  have hall : (Announced w ∧ Supplied w) ∧ w.NoResurrection := by
    refine h.invariant (I := fun w => (Announced w ∧ Supplied w) ∧ w.NoResurrection)
      ⟨⟨.init, .init⟩, ?_⟩ ?_
    · intro id hid
      cases hid
    · rintro t op t' ⟨⟨hann, hsup⟩, hno⟩ hen hok hs
      exact ⟨⟨hann.step hen hs, hsup.step hann hen hs⟩, hno.step hann hsup hen hok hs⟩
  exact hall.2

/-- An event is raised, announced and acknowledged; a read that began before all of it then
completes with another event. -/
theorem processed_stay_away_read :
    ∃ w, (fetcherMachine ⟨1, 1000⟩).Reaches FetcherWorld.AnswersNotProcessed w ∧
      w.processedAcked = {1} ∧ w.reads = [] ∧ (w.fetcher.unackedEvents 2).isSome = true ∧
      w.fetcher.unackedEvents 1 = none := by
  obtain ⟨w, hw, hp⟩ := Machine.exists_reaches_of_exec (M := fetcherMachine ⟨1, 1000⟩)
    FetcherWorld.AnswersNotProcessed
    (p := fun w => decide (w.processedAcked = {1} ∧ w.reads = [] ∧
      (w.fetcher.unackedEvents 2).isSome = true))
    [.channelOpened, .raise ⟨1, 5, .numeric 7 1, 500, false⟩, .deliver 0 0,
      .raise ⟨2, 6, .numeric 7 1, 500, false⟩, .acknowledge ⟨1, 5, .numeric 7 1, 500, false⟩,
      .snapshot 0 [⟨2, 6, .numeric 7 1, 500, false⟩], .deliver 1 1, .readDone 0 [2]]
    (by decide +kernel)
  obtain ⟨hprocessed, hreads, hstored⟩ := of_decide_eq_true hp
  refine ⟨w, hw, hprocessed, hreads, hstored, processed_stay_away hw 1 ?_⟩
  rw [hprocessed]
  exact Finset.mem_singleton_self 1

/-- The event is in the answer of a read, acknowledged after the server took
it and announced before the read completes. -/
theorem late_answer_resurrects :
    ∃ w, (fetcherMachine ⟨1, 1000⟩).Reachable w ∧ ¬ w.NoResurrection := by
  obtain ⟨w, hw, hp⟩ := Machine.exists_reachable_of_exec (M := fetcherMachine ⟨1, 1000⟩)
    (p := fun w => decide ¬ w.NoResurrection)
    [.channelOpened, .raise ⟨1, 5, .numeric 7 1, 500, false⟩,
      .snapshot 0 [⟨1, 5, .numeric 7 1, 500, false⟩], .deliver 0 0,
      .acknowledge ⟨1, 5, .numeric 7 1, 500, false⟩, .deliver 0 1, .readDone 0 [2]] (by decide)
  exact ⟨w, hw, of_decide_eq_true hp⟩

/-! ## §4  Reconnecting -/

namespace FetcherWorld

/-- The event is acknowledged and its acknowledgement is not on its way: it was
delivered, or lost. -/
def Settled (w : FetcherWorld) (id : EventId) : Prop :=
  id ∈ w.acked ∧ ∀ e ∈ w.inFlight, e.eventId = id → e.acked = false

instance (w : FetcherWorld) (id : EventId) : Decidable (w.Settled id) := by
  unfold Settled
  infer_instance

/-- The event is stored, or about to be by an announcement on its way. -/
def Held (w : FetcherWorld) (id : EventId) : Prop :=
  (w.fetcher.unackedEvents id).isSome = true ∨
    ∃ e ∈ w.inFlight, e.eventId = id ∧ e.acked = false

instance (w : FetcherWorld) (id : EventId) : Decidable (w.Held id) := by
  unfold Held
  infer_instance

/-- Nothing keeps an event that no announcement will take out. -/
def NoneStale (w : FetcherWorld) : Prop :=
  ∀ id, w.Held id → ¬ w.Settled id

instance (w : FetcherWorld) : Decidable w.NoneStale :=
  decidable_of_iff (∀ id ∈ w.acked, w.Settled id → ¬ w.Held id)
    ⟨fun h id hheld hsettled => h id hsettled.1 hsettled hheld,
      fun h id _ hsettled hheld => h id hheld hsettled⟩

/-- Every event the storage should hold is there or on its way. -/
def NoneMissing (w : FetcherWorld) : Prop :=
  ∀ e ∈ w.unacked, w.fetcher.severityMin ≤ e.severity →
    (w.fetcher.unackedEvents e.eventId).isSome = true ∨ e ∈ w.inFlight ∨
      ∃ read ∈ w.currentReads, ∀ events, read = some events → e ∈ events

/-- The channel opens with nothing stale, and no read completes with an event,
of those that pass the filter, that is settled. -/
def NothingSettled (w : FetcherWorld) : FetcherOp → Prop
  | .channelOpened => w.NoneStale
  | .readDone read _ => ∀ e ∈ w.answer read,
      w.fetcher.severityMin ≤ e.severity → ¬ w.Settled e.eventId
  | _ => True

instance (w : FetcherWorld) (op : FetcherOp) : Decidable (w.NothingSettled op) := by
  apply FetcherOp.casesOn (motive := fun op => Decidable (w.NothingSettled op)) op <;>
    intros <;> unfold NothingSettled <;> infer_instance

/-- The ids of the storage are those of the server's unacknowledged events that
pass the filter. -/
def Converged (w : FetcherWorld) : Prop :=
  ∀ id, (w.fetcher.unackedEvents id).isSome = true ↔
    ∃ e ∈ w.unacked, e.eventId = id ∧ w.fetcher.severityMin ≤ e.severity

theorem mem_eraseIdx_or_eq {α : Type*} {l : List α} {index : ℕ} {a b : α}
    (hindex : l[index]? = some a) (hb : b ∈ l) : b ∈ l.eraseIdx index ∨ b = a := by
  obtain ⟨i, hi⟩ := List.mem_iff_getElem?.mp hb
  by_cases heq : i = index
  · subst heq
    exact Or.inr (Option.some.inj (hi.symm.trans hindex))
  · exact Or.inl (List.mem_eraseIdx_iff_getElem?.mpr ⟨i, heq, hi⟩)

theorem drop_eraseIdx_of_lt {α : Type*} {l : List α} {index n : ℕ} (h : index < n) :
    (l.eraseIdx index).drop (n - 1) = l.drop n := by
  refine List.ext_getElem? fun i => ?_
  rw [List.getElem?_drop, List.getElem?_drop, List.getElem?_eraseIdx_of_ge (by omega)]
  congr 1
  omega

theorem drop_eraseIdx_of_le {α : Type*} {l : List α} {index n : ℕ} (h : n ≤ index) :
    (l.eraseIdx index).drop n = (l.drop n).eraseIdx (index - n) := by
  refine List.ext_getElem? fun i => ?_
  rw [List.getElem?_drop, List.getElem?_eraseIdx, List.getElem?_eraseIdx, List.getElem?_drop,
    List.getElem?_drop]
  by_cases hi : n + i < index
  · rw [if_pos hi, if_pos (by omega)]
  · rw [if_neg hi, if_neg (by omega), Nat.add_assoc]

/-- Held and settled events read three fields. -/
theorem NoneStale.congr (h : w.NoneStale)
    (hcontents : w'.fetcher.unackedEvents = w.fetcher.unackedEvents)
    (hacked : w'.acked = w.acked) (hflight : w'.inFlight = w.inFlight) : w'.NoneStale := by
  intro id
  have hid := h id
  unfold Held Settled at *
  rwa [hcontents, hacked, hflight]

theorem NoneMissing.congr (h : w.NoneMissing) (hraised : w'.raised = w.raised)
    (hacked : w'.acked = w.acked) (hmin : w'.fetcher.severityMin = w.fetcher.severityMin)
    (hcontents : w'.fetcher.unackedEvents = w.fetcher.unackedEvents)
    (hflight : w'.inFlight = w.inFlight) (hreads : w'.currentReads = w.currentReads) :
    w'.NoneMissing := by
  unfold NoneMissing unacked at *
  rwa [hraised, hacked, hmin, hcontents, hflight, hreads]

/-! ### Nothing goes stale while the channel is open -/

theorem NoneStale.raise (h : w.NoneStale) (hann : Announced w) {event : Event}
    (hen : w.enabled (.raise event)) :
    NoneStale ({ w with raised := w.raised ++ [event] }.announce event) := by
  rw [announce_eq]
  rintro id hheld ⟨hacked, hflight⟩
  have hsettled : w.Settled id := ⟨hacked, fun e he => hflight e (List.mem_append_left _ he)⟩
  rcases hheld with hstored | ⟨e, he, rfl, hun⟩
  · exact h id (Or.inl hstored) hsettled
  · rcases List.mem_append.mp he with hold | hnew
    · exact h _ (Or.inr ⟨e, hold, rfl, hun⟩) hsettled
    · split at hnew
      · obtain rfl := List.mem_singleton.mp hnew
        obtain ⟨e', he', hid⟩ := hann.acked_raised _ hacked
        exact hen.2 e' he' hid
      · cases hnew

/-- The announcement of the acknowledgement is on its way. -/
theorem NoneStale.acknowledge (h : w.NoneStale) (hopen : w.channelOpen = true) (event : Event) :
    NoneStale ({ w with acked := insert event.eventId w.acked }.announce
      { event with acked := true }) := by
  simp only [announce_eq, hopen, if_true]
  rintro id hheld ⟨hacked, hflight⟩
  have hne : id ≠ event.eventId := by
    rintro rfl
    have := hflight _ (List.mem_append_right _ (List.mem_singleton_self _)) rfl
    cases this
  refine h id ?_ ⟨(Finset.mem_insert.mp hacked).resolve_left hne,
    fun e he => hflight e (List.mem_append_left _ he)⟩
  rcases hheld with hstored | ⟨e, he, hid, hun⟩
  · exact Or.inl hstored
  · rcases List.mem_append.mp he with hold | hnew
    · exact Or.inr ⟨e, hold, hid, hun⟩
    · obtain rfl := List.mem_singleton.mp hnew
      cases hun

theorem NoneStale.deliver (h : w.NoneStale) (hann : Announced w) (hsup : Supplied w)
    {index : ℕ} {ptr : EventPtr} (hen : w.enabled (.deliver index ptr))
    (hs : w.step range (.deliver index ptr) = some w') : w'.NoneStale := by
  have hann' := hann.step hen hs
  obtain ⟨event, fetcher, hevent, rfl, -, hcontents⟩ := deliver_spec hs
  have hmem : event ∈ w.inFlight := List.mem_of_getElem? hevent
  have hother : ∀ {id}, id ≠ event.eventId →
      fetcher.unackedEvents id = w.fetcher.unackedEvents id := by
    intro id hne
    rw [hcontents]
    split
    · rw [EventStorage.deliver, Function.update_of_ne hne]
    · rfl
  rintro id hheld ⟨hacked, hflight⟩
  cases hkind : event.acked with
  | true =>
      -- The acknowledgement takes its event out; other events do not notice.
      have hne : id ≠ event.eventId := by
        rintro rfl
        rcases hheld with hstored | ⟨e, he, hid, -⟩
        · dsimp only at hstored
          rw [hcontents, hsup.after_deliver hann hevent hkind] at hstored
          cases hstored
        · refine (hann'.processed event.eventId ?_).2 e he hid
          dsimp only
          rw [if_pos hkind]
          exact Finset.mem_insert_self _ _
      refine h id ?_ ⟨hacked, ?_⟩
      · rcases hheld with hstored | ⟨e, he, hid, hun⟩
        · exact Or.inl (hother hne ▸ hstored)
        · exact Or.inr ⟨e, List.mem_of_mem_eraseIdx he, hid, hun⟩
      · intro e he hid
        rcases mem_eraseIdx_or_eq hevent he with hrest | rfl
        · exact hflight e hrest hid
        · exact absurd hid.symm hne
  | false =>
      -- The event was held before as well: it was on its way.
      refine h id ?_ ⟨hacked, ?_⟩
      · rcases hheld with hstored | ⟨e, he, hid, hun⟩
        · by_cases heq : id = event.eventId
          · exact Or.inr ⟨event, hmem, heq.symm, hkind⟩
          · exact Or.inl (hother heq ▸ hstored)
        · exact Or.inr ⟨e, List.mem_of_mem_eraseIdx he, hid, hun⟩
      · intro e he hid
        rcases mem_eraseIdx_or_eq hevent he with hrest | rfl
        · exact hflight e hrest hid
        · exact hkind

theorem NoneStale.readDone (h : w.NoneStale) {read : ℕ} {ptrs : List EventPtr}
    (hen : w.enabled (.readDone read ptrs)) (hok : w.NothingSettled (.readDone read ptrs))
    (hs : w.step range (.readDone read ptrs) = some w') : w'.NoneStale := by
  obtain ⟨fetcher, -, rfl, -, hcontents⟩ := readDone_spec hen hs
  rintro id (hstored | hflight) hsettled
  · dsimp only at hstored
    rw [hcontents] at hstored
    obtain ⟨e, he⟩ := Option.isSome_iff_exists.mp hstored
    rcases EventStorage.foldl_deliver_mem he with hold | ⟨hmem, rfl, -⟩
    · exact h id (Or.inl (Option.isSome_iff_exists.mpr ⟨e, hold⟩)) hsettled
    · obtain ⟨hmem, hsev⟩ := List.mem_filter.mp hmem
      exact hok e hmem (of_decide_eq_true hsev) hsettled
  · exact h id (Or.inr hflight) hsettled

/-! ### Nothing is missed while the channel is open -/

theorem NoneMissing.raise (h : w.NoneMissing) (hopen : w.channelOpen = true) (event : Event) :
    NoneMissing ({ w with raised := w.raised ++ [event] }.announce event) := by
  simp only [announce_eq, hopen, if_true]
  intro e he hsev
  obtain ⟨hraised, hacked⟩ := Announced.mem_unacked.mp he
  rcases List.mem_append.mp hraised with hold | hnew
  · rcases h e (Announced.mem_unacked.mpr ⟨hold, hacked⟩) hsev with hstored | hflight | hread
    · exact Or.inl hstored
    · exact Or.inr (Or.inl (List.mem_append_left _ hflight))
    · exact Or.inr (Or.inr hread)
  · exact Or.inr (Or.inl (List.mem_append_right _ hnew))

theorem NoneMissing.acknowledge (h : w.NoneMissing) (event : Event) :
    NoneMissing ({ w with acked := insert event.eventId w.acked }.announce
      { event with acked := true }) := by
  rw [announce_eq]
  intro e he hsev
  obtain ⟨hraised, hacked⟩ := Announced.mem_unacked.mp he
  have hun : e ∈ w.unacked :=
    Announced.mem_unacked.mpr ⟨hraised, fun hmem => hacked (Finset.mem_insert_of_mem hmem)⟩
  rcases h e hun hsev with hstored | hflight | hread
  · exact Or.inl hstored
  · exact Or.inr (Or.inl (List.mem_append_left _ hflight))
  · exact Or.inr (Or.inr hread)

theorem NoneMissing.deliver (h : w.NoneMissing) (hann : Announced w)
    {index : ℕ} {ptr : EventPtr} (hs : w.step range (.deliver index ptr) = some w') :
    w'.NoneMissing := by
  obtain ⟨event, fetcher, hevent, rfl, hmin, hcontents⟩ := deliver_spec hs
  intro e he hsev
  obtain ⟨hraised, hacked⟩ := Announced.mem_unacked.mp he
  dsimp only at hsev hcontents ⊢
  rw [hmin] at hsev
  rw [hcontents]
  rcases h e he hsev with hstored | hflight | hread
  -- An unacknowledged event is not taken out, only overwritten.
  · left
    split
    · by_cases heq : e.eventId = event.eventId
      · have hkind : event.acked = false := by
          cases hkind : event.acked with
          | false => rfl
          | true =>
              have := hann.inFlight_acked event (List.mem_of_getElem? hevent) hkind
              exact absurd (heq ▸ this) hacked
        simp [EventStorage.deliver, heq, hkind]
      · rwa [EventStorage.deliver, Function.update_of_ne heq]
    · exact hstored
  · rcases mem_eraseIdx_or_eq hevent hflight with hrest | rfl
    · exact Or.inr (Or.inl hrest)
    · left
      rw [if_pos hsev]
      simp [EventStorage.deliver, hann.raised_unacked e hraised]
  · exact Or.inr (Or.inr hread)

/-- What is read for the connection is not touched by older reads that complete. -/
theorem currentReads_endRead_of_lt {read : ℕ} (h : read < w.staleReads) :
    (w.endRead read).currentReads = w.currentReads := by
  unfold currentReads endRead
  rw [if_pos h]
  exact drop_eraseIdx_of_lt h

theorem currentReads_endRead_of_le {read : ℕ} (h : w.staleReads ≤ read) :
    (w.endRead read).currentReads = w.currentReads.eraseIdx (read - w.staleReads) := by
  unfold currentReads endRead
  rw [if_neg (not_lt.mpr h)]
  exact drop_eraseIdx_of_le h

theorem getElem?_currentReads {read : ℕ} (h : w.staleReads ≤ read) :
    w.currentReads[read - w.staleReads]? = w.reads[read]? := by
  rw [currentReads, List.getElem?_drop, Nat.add_sub_cancel' h]

/-- A read for the connection is still there unless it is the one that completes. -/
theorem mem_currentReads_endRead {read : ℕ} {answer other : Option (List Event)}
    (hread : w.reads[read]? = some answer) (hother : other ∈ w.currentReads) :
    other ∈ (w.endRead read).currentReads ∨ other = answer := by
  by_cases hlt : read < w.staleReads
  · rw [currentReads_endRead_of_lt hlt]
    exact Or.inl hother
  · have hle := not_lt.mp hlt
    rw [currentReads_endRead_of_le hle]
    exact mem_eraseIdx_or_eq ((getElem?_currentReads hle).trans hread) hother

theorem NoneMissing.readDone (h : w.NoneMissing) (hann : Announced w) (hsup : Supplied w)
    {read : ℕ} {ptrs : List EventPtr} (hen : w.enabled (.readDone read ptrs))
    (hs : w.step range (.readDone read ptrs) = some w') : w'.NoneMissing := by
  obtain ⟨fetcher, hread, rfl, hmin, hcontents⟩ := readDone_spec hen hs
  have hun : ∀ e ∈ (w.answer read).filter fun e => w.fetcher.severityMin ≤ e.severity,
      e.acked = false := by
    intro e he
    have hraised := hsup.answers _ (List.mem_of_getElem? hread) e (List.mem_filter.mp he).1
    exact hann.raised_unacked e hraised
  intro e he hsev
  dsimp only at hsev ⊢
  rw [hmin] at hsev
  rw [hcontents, EventStorage.foldl_deliver_unacked hun]
  rcases h e he hsev with hstored | hflight | ⟨answer, hanswer, hcovers⟩
  · exact Or.inl (Or.inl hstored)
  · exact Or.inr (Or.inl hflight)
  · rcases mem_currentReads_endRead hread hanswer with hrest | rfl
    · exact Or.inr (Or.inr ⟨answer, hrest, hcovers⟩)
    · refine Or.inl (Or.inr ⟨e, List.mem_filter.mpr ⟨hcovers _ rfl, ?_⟩, rfl⟩)
      exact decide_eq_true hsev

/-- A read that the server has not got to covers everything. -/
theorem noneMissing_of_read (hread : none ∈ w.currentReads) : w.NoneMissing := by
  intro e _ _
  refine Or.inr (Or.inr ⟨none, hread, ?_⟩)
  intro events hevents
  cases hevents

/-! ### Since the last opening of the channel -/

/-- What an undisturbed connection guarantees. -/
structure Tracking (w : FetcherWorld) : Prop where
  stale : w.staleReads ≤ w.reads.length
  tracked : w.undisturbed = true → w.channelOpen = true ∧ w.NoneStale ∧ w.NoneMissing

/-- The new read is one for the connection. -/
theorem none_mem_currentReads (h : w.staleReads ≤ w.reads.length) :
    none ∈ (w.reads ++ [none]).drop w.staleReads := by
  rw [List.drop_append_of_le_length h]
  exact List.mem_append_right _ (List.mem_singleton_self _)

/-- The reads before the last `OnChannelOpened` are reads. -/
theorem stale_endRead {read : ℕ} (h : w.staleReads ≤ w.reads.length)
    (hread : read < w.reads.length) :
    (w.endRead read).staleReads ≤ (w.endRead read).reads.length := by
  unfold endRead
  rw [List.length_eraseIdx_of_lt hread]
  dsimp only
  split <;> omega

theorem Tracking.step (h : w.Tracking) (hann : Announced w) (hsup : Supplied w)
    (hen : w.enabled op) (hok : w.NothingSettled op) (hs : w.step range op = some w') :
    w'.Tracking := by
  cases op with
  | raise event =>
      cases hs
      constructor
      · rw [announce_eq]
        exact h.stale
      · intro hund
        have hund : w.undisturbed = true := by
          rwa [announce_eq] at hund
        obtain ⟨hopen, hstale, hmissing⟩ := h.tracked hund
        exact ⟨by rwa [announce_eq], hstale.raise hann hen, hmissing.raise hopen event⟩
  | acknowledge event =>
      cases hs
      constructor
      · rw [announce_eq]
        exact h.stale
      · intro hund
        have hund : w.undisturbed = true := by
          rwa [announce_eq] at hund
        obtain ⟨hopen, hstale, hmissing⟩ := h.tracked hund
        exact ⟨by rwa [announce_eq], hstale.acknowledge hopen event, hmissing.acknowledge event⟩
  | deliver index ptr =>
      obtain ⟨event, fetcher, -, hw', -⟩ := deliver_spec hs
      constructor
      · rw [hw']
        exact h.stale
      · intro hund
        have hund : w.undisturbed = true := by
          rwa [hw'] at hund
        obtain ⟨hopen, hstale, hmissing⟩ := h.tracked hund
        refine ⟨?_, hstale.deliver hann hsup hen hs, hmissing.deliver hann hs⟩
        rw [hw']
        exact hopen
  | setSeverityMin severity =>
      rcases setSeverityMin_spec hs with rfl | ⟨fetcher, rfl, hcontents⟩
      · exact h
      · constructor
        · simpa using h.stale.trans (Nat.le_succ _)
        · intro hund
          obtain ⟨hopen, hstale, -⟩ := h.tracked hund
          -- The storage is cleared, and a new read is sent.
          refine ⟨hopen, ?_, noneMissing_of_read (none_mem_currentReads h.stale)⟩
          rintro id (hstored | hflight) hsettled
          · dsimp only at hstored
            rw [hcontents] at hstored
            cases hstored
          · exact hstale id (Or.inr hflight) hsettled
  | channelOpened =>
      cases hs
      constructor
      · simp
      · intro _
        exact ⟨rfl, NoneStale.congr hok rfl rfl rfl,
          noneMissing_of_read (none_mem_currentReads (w := { w with staleReads := _ }) le_rfl)⟩
  | channelClosed =>
      cases hs
      constructor
      · exact h.stale
      · intro hund
        cases hund
  | snapshot read events =>
      cases hs
      constructor
      · rw [List.length_set]
        exact h.stale
      · intro hund
        obtain ⟨hopen, hstale, hmissing⟩ := h.tracked hund
        refine ⟨hopen, hstale.congr rfl rfl rfl, ?_⟩
        obtain ⟨hlt, -⟩ := List.getElem?_eq_some_iff.mp hen.1
        by_cases hread : read < w.staleReads
        · refine hmissing.congr rfl rfl rfl rfl rfl ?_
          exact List.drop_set_of_lt hread
        · intro e he _
          refine Or.inr (Or.inr ⟨some events, ?_, ?_⟩)
          · have hlength : read - w.staleReads < (w.reads.drop w.staleReads).length := by
              rw [List.length_drop]
              omega
            show some events ∈ (w.reads.set read (some events)).drop w.staleReads
            rw [List.drop_set, if_neg hread]
            exact List.mem_set hlength _
          · rintro answer ⟨⟩
            exact hen.2.mem_iff.mpr he
  | readDone read ptrs =>
      obtain ⟨fetcher, hread, hw', -⟩ := readDone_spec hen hs
      obtain ⟨hlt, -⟩ := List.getElem?_eq_some_iff.mp hread
      constructor
      · rw [hw']
        exact stale_endRead h.stale hlt
      · intro hund
        have hund : w.undisturbed = true := by
          rwa [hw'] at hund
        obtain ⟨hopen, hstale, hmissing⟩ := h.tracked hund
        refine ⟨?_, hstale.readDone hen hok hs, hmissing.readDone hann hsup hen hs⟩
        rw [hw']
        exact hopen
  | readFailed read =>
      obtain rfl := readFailed_spec hs
      constructor
      · exact stale_endRead h.stale hen
      · intro hund
        -- Only a read issued before the channel opened may fail.
        obtain ⟨hund, hread⟩ := Bool.and_eq_true_iff.mp hund
        obtain ⟨hopen, hstale, hmissing⟩ := h.tracked hund
        exact ⟨hopen, hstale.congr rfl rfl rfl, hmissing.congr rfl rfl rfl rfl rfl
          (currentReads_endRead_of_lt (of_decide_eq_true hread))⟩
  | ack ackId =>
      obtain ⟨acks, rfl⟩ := ackStep_spec hs
      exact ⟨h.stale, h.tracked⟩
  | ackDispatch =>
      obtain ⟨acks, rfl⟩ := ackStep_spec hs
      exact ⟨h.stale, h.tracked⟩
  | ackCallDone call good =>
      obtain ⟨acks, rfl⟩ := ackStep_spec hs
      exact ⟨h.stale, h.tracked⟩

/-- With nothing on its way, nothing stale and nothing missing, the storage is
the server's. -/
theorem Tracking.converged (h : w.Tracking) (hund : w.undisturbed = true) (hsup : Supplied w)
    (hquiet : w.inFlight = []) (hreads : w.reads = []) : w.Converged := by
  obtain ⟨-, hstale, hmissing⟩ := h.tracked hund
  intro id
  constructor
  · intro hstored
    obtain ⟨e, he⟩ := Option.isSome_iff_exists.mp hstored
    obtain ⟨hid, hraised, hsev⟩ := hsup.stored id e he
    refine ⟨e, Announced.mem_unacked.mpr ⟨hraised, ?_⟩, hid, hsev⟩
    intro hacked
    refine hstale id (Or.inl hstored) ⟨hid ▸ hacked, ?_⟩
    rw [hquiet]
    rintro e ⟨⟩
  · rintro ⟨e, he, rfl, hsev⟩
    rcases hmissing e he hsev with hstored | hflight | ⟨read, hread, -⟩
    · exact hstored
    · rw [hquiet] at hflight
      cases hflight
    · rw [currentReads, hreads, List.drop_nil] at hread
      cases hread

end FetcherWorld

/-- **Reconnecting converges.** In a run whose openings and reads bring nothing
settled, the storage agrees with the server when a read completes last, on a
connection that was not disturbed since the channel opened. -/
theorem reconnect_converges (h : (fetcherMachine range).Reaches FetcherWorld.NothingSettled w)
    {read : ℕ} {ptrs : List EventPtr} (hen : (fetcherMachine range).enabled w (.readDone read ptrs))
    (hok : w.NothingSettled (.readDone read ptrs))
    (hs : (fetcherMachine range).step w (.readDone read ptrs) = some w')
    (honly : w.reads.length = 1) (hquiet : w.inFlight = []) (hund : w.undisturbed = true) :
    w'.Converged := by
  have hall : (Announced w ∧ Supplied w) ∧ w.Tracking := by
    refine h.invariant (I := fun w => (Announced w ∧ Supplied w) ∧ w.Tracking)
      ⟨⟨.init, .init⟩, le_rfl, ?_⟩ ?_
    · intro hund
      cases hund
    · rintro t op t' ⟨⟨hann, hsup⟩, htrack⟩ hen hok hs
      exact ⟨⟨hann.step hen hs, hsup.step hann hen hs⟩, htrack.step hann hsup hen hok hs⟩
  obtain ⟨⟨hann, hsup⟩, htrack⟩ := hall
  change w.enabled (.readDone read ptrs) at hen
  change w.step range (.readDone read ptrs) = some w' at hs
  have htrack' := htrack.step hann hsup hen hok hs
  have hsup' := hsup.step hann hen hs
  obtain ⟨fetcher, hread, rfl, -⟩ := FetcherWorld.readDone_spec hen hs
  refine htrack'.converged hund hsup' hquiet ?_
  obtain ⟨answer, hanswer⟩ := List.length_eq_one_iff.mp honly
  -- The read that completes was the only one.
  have hzero : read = 0 := by
    obtain ⟨hlt, -⟩ := List.getElem?_eq_some_iff.mp hread
    omega
  subst hzero
  show w.reads.eraseIdx 0 = []
  rw [hanswer]
  rfl

/-- An event raised while the channel was closed is read when it opens again, and it does not
matter that the read of the connection before fails only then. -/
theorem reconnect_converges_reopened : ∃ w w',
    (fetcherMachine ⟨1, 1000⟩).step w (.readDone 0 [1]) = some w' ∧
    w.unacked = [⟨2, 6, .numeric 7 1, 500, false⟩, ⟨3, 7, .numeric 7 1, 500, false⟩] ∧
    (w.fetcher.unackedEvents 2).isSome = false ∧ w'.Converged := by
  obtain ⟨w, hw, hp⟩ := Machine.exists_reaches_of_exec (M := fetcherMachine ⟨1, 1000⟩)
    FetcherWorld.NothingSettled
    (p := fun w => decide ((fetcherMachine ⟨1, 1000⟩).enabled w (.readDone 0 [1])) &&
      decide (w.NothingSettled (.readDone 0 [1]) ∧ w.reads.length = 1 ∧ w.inFlight = [] ∧
        w.undisturbed = true ∧
        w.unacked = [⟨2, 6, .numeric 7 1, 500, false⟩, ⟨3, 7, .numeric 7 1, 500, false⟩] ∧
        (w.fetcher.unackedEvents 2).isSome = false) &&
      ((fetcherMachine ⟨1, 1000⟩).step w (.readDone 0 [1])).isSome)
    [.channelOpened, .raise ⟨1, 5, .numeric 7 1, 500, false⟩, .deliver 0 0,
      .acknowledge ⟨1, 5, .numeric 7 1, 500, false⟩, .deliver 0 1, .channelClosed,
      .raise ⟨2, 6, .numeric 7 1, 500, false⟩, .channelOpened,
      .snapshot 1 [⟨2, 6, .numeric 7 1, 500, false⟩], .readFailed 0,
      .raise ⟨3, 7, .numeric 7 1, 500, false⟩, .deliver 0 0] (by decide +kernel)
  obtain ⟨hcond, hstep⟩ := Bool.and_eq_true_iff.mp hp
  obtain ⟨hen, hcond⟩ := Bool.and_eq_true_iff.mp hcond
  obtain ⟨hok, honly, hquiet, hund, hunacked, hnew⟩ := of_decide_eq_true hcond
  obtain ⟨w', hw'⟩ := Option.isSome_iff_exists.mp hstep
  exact ⟨w, w', hw', hunacked, hnew,
    reconnect_converges hw (of_decide_eq_true hen) hok hw' honly hquiet hund⟩

/-- A stored event is acknowledged while the channel is closed: the read after
the reconnect does not mention it, and nothing takes it out. -/
theorem outage_leaves_stale : ∃ w w', (fetcherMachine ⟨1, 1000⟩).Reachable w ∧
    (fetcherMachine ⟨1, 1000⟩).enabled w (.readDone 0 []) ∧
    (fetcherMachine ⟨1, 1000⟩).step w (.readDone 0 []) = some w' ∧
    w.reads.length = 1 ∧ w.inFlight = [] ∧ w.undisturbed = true ∧ ¬ w'.Converged := by
  obtain ⟨w, hw, hp⟩ := Machine.exists_reachable_of_exec (M := fetcherMachine ⟨1, 1000⟩)
    (p := fun w => decide ((fetcherMachine ⟨1, 1000⟩).enabled w (.readDone 0 [])) &&
      decide (w.reads.length = 1 ∧ w.inFlight = [] ∧ w.undisturbed = true) &&
      ((fetcherMachine ⟨1, 1000⟩).step w (.readDone 0 [])).any fun w' : FetcherWorld =>
        decide ((w'.fetcher.unackedEvents 1).isSome = true ∧ w'.unacked = []))
    [.channelOpened, .snapshot 0 [], .readDone 0 [],
      .raise ⟨1, 5, .numeric 7 1, 500, false⟩, .deliver 0 0, .channelClosed,
      .acknowledge ⟨1, 5, .numeric 7 1, 500, false⟩, .channelOpened, .snapshot 0 []] (by decide)
  obtain ⟨hcond, hstep⟩ := Bool.and_eq_true_iff.mp hp
  obtain ⟨hen, hcond⟩ := Bool.and_eq_true_iff.mp hcond
  obtain ⟨honly, hquiet, hund⟩ := of_decide_eq_true hcond
  obtain ⟨w', hw', hstale⟩ := (Option.any_eq_true _ _).mp hstep
  obtain ⟨hstored, hnone⟩ := of_decide_eq_true hstale
  refine ⟨w, w', hw, of_decide_eq_true hen, hw', honly, hquiet, hund, ?_⟩
  intro hconv
  obtain ⟨e, he, -⟩ := (hconv 1).mp hstored
  rw [hnone] at he
  cases he

end ScadaCommon
