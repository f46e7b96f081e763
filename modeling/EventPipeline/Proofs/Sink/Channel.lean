import EventPipeline.Proofs.Sink.Intake
import EventPipeline.Proofs.Sink.Progress
/-!
# The channels of a sink

What a sink sent on as an acknowledgment was taken from its channel or is still in it
(`State.Delivers`), as long as somebody hears it. A sink that stopped does nothing any
more, and one that left an error has stopped.
-/
namespace EventPipeline.Sink

variable {ω : Type} {c : Setup ω} {s t : State ω} {taken : List Ack}

/-! ## A sink that stopped -/

theorem State.live_of_take (h : s.take c = some t) : s.phase ≠ .stopped := by
  intro hp
  unfold State.take at h
  split at h
  next hr _ => rw [hp] at hr; cases hr
  next => cases h

theorem State.live_of_windUp (h : s.windUp c = some t) : s.phase ≠ .stopped := by
  intro hp
  simp [State.windUp, hp] at h

theorem State.live_of_work (h : s.work c = some t) : s.phase ≠ .stopped := by
  intro hp
  simp [State.work, hp] at h

theorem State.live_of_offer {m : Message} (hw : WindingUp s) (h : s.offer c m = some t) :
    s.phase ≠ .stopped := by
  intro hp
  simp [State.offer, (hw.stopped hp).1] at h

/-- A sink that stopped stays so, adds nothing to its log and sends nothing on. -/
theorem Move.of_stopped (h : Move c s t) (hw : WindingUp s) (hs : s.phase = .stopped) :
    t.phase = .stopped ∧ t.log = s.log ∧ (t.ack = s.ack ∨ t.ack = none) ∧
      (t.error = s.error ∨ t.error = none) := by
  cases h with
  | take h => exact absurd hs (State.live_of_take h)
  | windUp h => exact absurd hs (State.live_of_windUp h)
  | work h => exact absurd hs (State.live_of_work h)
  | offer m h => exact absurd hs (State.live_of_offer hw h)
  | takeAck h =>
    obtain ⟨a, -, he⟩ := Option.map_eq_some_iff.1 h
    cases he
    exact ⟨hs, rfl, .inr rfl, .inl rfl⟩
  | takeError h =>
    obtain ⟨e, -, he⟩ := Option.map_eq_some_iff.1 h
    cases he
    exact ⟨hs, rfl, .inl rfl, .inr rfl⟩
  | muteAcks => exact ⟨hs, rfl, .inr rfl, .inl rfl⟩
  | muteErrors => exact ⟨hs, rfl, .inl rfl, .inr rfl⟩
  | askStop | releaseInput => exact ⟨hs, rfl, .inl rfl, .inl rfl⟩

/-! ## What a sink leaves to others -/

/-- Nobody asked the sink to stop, and its input is not opened again. -/
structure State.OwnStep (s t : State ω) : Prop where
  stopAsked : t.stopAsked = s.stopAsked
  inputOpen : t.inputOpen → s.inputOpen

theorem State.OwnStep.of_kept (hk : s.Kept t) : s.OwnStep t :=
  ⟨hk.stopAsked, fun ht => hk.inputOpen ▸ ht⟩

theorem State.OwnStep.of_record {x : Happening} (hk : (s.record x).Kept t) : s.OwnStep t :=
  have h := State.OwnStep.of_kept hk
  ⟨h.stopAsked, h.inputOpen⟩

theorem State.OwnStep.handle (m : Message) : s.OwnStep (s.handle c m) := by
  cases hm : c.marshal (s.marshalCalls + 1) m with
  | error e => rw [State.handle_error hm]; exact ⟨rfl, id⟩
  | ok bytes =>
    by_cases hfull : s.Full c bytes
    · rw [State.handle_full hm hfull]
      have h := State.OwnStep.of_kept (State.kept_handOut (s := { s with
        marshalCalls := s.marshalCalls + 1
        log := s.log ++ [.marshaled m bytes] }) (.append bytes m.ack))
      exact ⟨h.stopAsked, h.inputOpen⟩
    · rw [State.handle_fits hm hfull]
      have h := State.OwnStep.of_kept (State.kept_store (c := c) (s := { s with
        marshalCalls := s.marshalCalls + 1
        log := s.log ++ [.marshaled m bytes] }) bytes m.ack)
      exact ⟨h.stopAsked, h.inputOpen⟩

theorem State.OwnStep.take (h : s.take c = some t) : s.OwnStep t := by
  unfold State.take at h
  split at h
  next m rest hp hq =>
    cases h
    have h := State.OwnStep.handle (c := c)
      (s := State.record { s with queue := rest } (.taken m)) m
    exact ⟨h.stopAsked, h.inputOpen⟩
  next => cases h

theorem State.OwnStep.windUp (h : s.windUp c = some t) : s.OwnStep t := by
  unfold State.windUp at h
  split at h
  next =>
    split at h
    next =>
      split at h
      next => cases h
      next =>
        split at h
        next => cases h; exact .of_kept (State.kept_handOut .stop)
        next => cases h; exact .of_kept (State.kept_emit .stop)
    next =>
      split at h
      next => cases h; exact ⟨rfl, fun ht => by cases ht⟩
      next => cases h
  next => cases h

theorem State.OwnStep.work (h : s.work c = some t) : s.OwnStep t := by
  unfold State.work at h
  split at h
  next => cases h
  next => cases h
  next rest next hp =>
    cases h
    obtain ⟨x, -, hk⟩ := State.kept_write (c := c) (s := s) rest next
    exact .of_record hk
  next next hp =>
    cases h
    obtain ⟨x, -, hk⟩ := State.kept_sync (c := c) (s := s) next
    exact .of_record hk
  next a next hp =>
    unfold State.send at h
    split at h
    next => cases h; exact .of_record (State.kept_proceed next)
    next =>
      split at h
      next => cases h
      next =>
        cases h
        have hk := State.kept_proceed (c := c)
          (s := { s with ack := some a }.record (.emitted a)) next
        exact ⟨hk.stopAsked, fun ht => hk.inputOpen ▸ ht⟩
  next => cases h; exact ⟨rfl, fun ht => by cases ht⟩
  next => cases h; exact ⟨rfl, id⟩

theorem State.OwnStep.offer {m : Message} (h : s.offer c m = some t) : s.OwnStep t := by
  unfold State.offer at h
  split at h
  next => cases h; exact ⟨rfl, id⟩
  next => cases h

/-- A sink that was asked to stop stays so. -/
theorem Move.stopAsked (h : Move c s t) (hs : s.stopAsked) : t.stopAsked := by
  cases h with
  | take h => rwa [(State.OwnStep.take h).stopAsked]
  | windUp h => rwa [(State.OwnStep.windUp h).stopAsked]
  | work h => rwa [(State.OwnStep.work h).stopAsked]
  | offer m h => rwa [(State.OwnStep.offer h).stopAsked]
  | takeAck h | takeError h =>
    obtain ⟨a, -, he⟩ := Option.map_eq_some_iff.1 h
    cases he
    exact hs
  | askStop => rfl
  | releaseInput | muteAcks | muteErrors => exact hs

/-- A sink that was asked to stop does, unless it waits for somebody to take an acknowledgment. -/
theorem State.moves_of_stopAsked (hasked : s.stopAsked) (hlive : s.phase ≠ .stopped) :
    (s.take c).isSome ∨ (s.windUp c).isSome ∨ (s.work c).isSome ∨
      (∃ a next, s.phase = .acking a next) ∧ s.acksHeard ∧ s.ack.isSome := by
  cases hp : s.phase with
  | receiving =>
    cases hq : s.queue with
    | cons m rest => exact .inl (by simp [State.take, hp, hq])
    | nil =>
      refine .inr (.inl ?_)
      by_cases hdrain : s.draining
      · by_cases hbuf : s.buffer = [] <;> simp [State.windUp, hp, hq, hdrain, hbuf]
      · simp [State.windUp, hp, hdrain, hasked]
  | acking a next =>
    by_cases hheard : s.acksHeard
    · cases hack : s.ack with
      | none => exact .inr (.inr (.inl (by simp [State.work, hp, State.send, hheard, hack])))
      | some b => exact .inr (.inr (.inr ⟨⟨a, next, rfl⟩, hheard, rfl⟩))
    · exact .inr (.inr (.inl (by simp [State.work, hp, State.send, hheard])))
  | stopped => exact absurd hp hlive
  | writing | syncing | failing | reporting => exact .inr (.inr (.inl (by simp [State.work, hp])))

/-! ## Moves that send nothing -/

/-- Nothing is put in or sent on between two states, and an error is left only by stopping. -/
structure State.Silent (s t : State ω) : Prop where
  accepted : acceptedIn t.log = acceptedIn s.log
  emitted : emittedIn t.log = emittedIn s.log
  unheard : ∀ a, .unheard a ∈ t.log → .unheard a ∈ s.log
  ack : t.ack = s.ack
  acksHeard : t.acksHeard = s.acksHeard
  error : t.error = s.error ∨ t.phase = .stopped

theorem State.Silent.of_kept {u : State ω} (h : s.Silent u) (hk : u.Kept t)
    (he : u.error = s.error) : s.Silent t where
  accepted := by rw [hk.log, h.accepted]
  emitted := by rw [hk.log, h.emitted]
  unheard := by rw [hk.log]; exact h.unheard
  ack := by rw [hk.ack, h.ack]
  acksHeard := by rw [hk.acksHeard, h.acksHeard]
  error := .inl (by rw [hk.error, he])

theorem State.Silent.record {x : Happening} (hx : x.ack? = none)
    (ha : acceptedIn (s.log ++ [x]) = acceptedIn s.log) : s.Silent (s.record x) where
  accepted := ha
  emitted := by cases x <;> simp_all [State.record, Happening.ack?]
  unheard := by
    intro a ha
    rcases List.mem_append.1 ha with ha | ha
    · exact ha
    · obtain rfl := List.mem_singleton.1 ha
      cases hx
  ack := rfl
  acksHeard := rfl
  error := .inl rfl

theorem State.Silent.handle (m : Message) :
    s.Silent (s.handle c m) ∧ (s.handle c m).error = s.error := by
  cases hm : c.marshal (s.marshalCalls + 1) m with
  | error e =>
    rw [State.handle_error hm]
    exact ⟨⟨rfl, rfl, fun _ h => h, rfl, rfl, .inl rfl⟩, rfl⟩
  | ok bytes =>
    have hrec : s.Silent (s.record (.marshaled m bytes)) := .record rfl (by simp)
    have hcalls : s.Silent
        { s with
          marshalCalls := s.marshalCalls + 1
          log := s.log ++ [.marshaled m bytes] } :=
      ⟨hrec.accepted, hrec.emitted, hrec.unheard, rfl, rfl, .inl rfl⟩
    by_cases hfull : s.Full c bytes
    · rw [State.handle_full hm hfull]
      have hk := State.kept_handOut (s := { s with
        marshalCalls := s.marshalCalls + 1
        log := s.log ++ [.marshaled m bytes] }) (.append bytes m.ack)
      exact ⟨hcalls.of_kept hk rfl, hk.error⟩
    · rw [State.handle_fits hm hfull]
      have hk := State.kept_store (c := c) (s := { s with
        marshalCalls := s.marshalCalls + 1
        log := s.log ++ [.marshaled m bytes] }) bytes m.ack
      exact ⟨hcalls.of_kept hk rfl, hk.error⟩

theorem State.Silent.take (h : s.take c = some t) : s.Silent t := by
  unfold State.take at h
  split at h
  next m rest hp hq =>
    cases h
    have htaken : s.Silent (s.record (.taken m)) := .record rfl (by simp)
    obtain ⟨hh, he⟩ := State.Silent.handle (c := c)
      (s := State.record { s with queue := rest } (.taken m)) m
    exact ⟨hh.accepted.trans htaken.accepted, hh.emitted.trans htaken.emitted,
      fun a ha => htaken.unheard a (hh.unheard a ha),
      hh.ack, hh.acksHeard, .inl he⟩
  next => cases h

theorem State.Silent.windUp (h : s.windUp c = some t) : s.Silent t := by
  have hself : s.Silent s := ⟨rfl, rfl, fun _ h => h, rfl, rfl, .inl rfl⟩
  unfold State.windUp at h
  split at h
  next =>
    split at h
    next =>
      split at h
      next => cases h
      next =>
        split at h
        next => cases h; exact hself.of_kept (State.kept_handOut .stop) rfl
        next => cases h; exact hself.of_kept (State.kept_emit .stop) rfl
    next =>
      split at h
      next => cases h; exact ⟨rfl, rfl, fun _ h => h, rfl, rfl, .inl rfl⟩
      next => cases h
  next => cases h

/-- Somebody hears an acknowledgment: it is put into the empty channel. -/
structure State.Sends (s t : State ω) (a : Ack) : Prop where
  empty : s.ack = none
  ack : t.ack = some a
  emitted : emittedIn t.log = emittedIn s.log ++ [a]
  unheard : ∀ a, .unheard a ∈ t.log → .unheard a ∈ s.log

theorem State.silent_or_sends_of_work (h : s.work c = some t) :
    s.Silent t ∨
      (t.error = s.error ∧ t.acksHeard = s.acksHeard ∧ acceptedIn t.log = acceptedIn s.log) ∧
        (s.acksHeard → ∃ a, s.Sends t a) := by
  have hcall {x : Happening} (hx : x.isCall) (hk : (s.record x).Kept t) : s.Silent t :=
    State.Silent.of_kept (.record (by cases x <;> first | rfl | cases hx)
      (acceptedIn_concat_of_isCall hx)) hk rfl
  unfold State.work at h
  split at h
  next => cases h
  next => cases h
  next rest next hp =>
    cases h
    obtain ⟨x, hx, hk⟩ := State.kept_write (c := c) (s := s) rest next
    exact .inl (hcall hx hk)
  next next hp =>
    cases h
    obtain ⟨x, hx, hk⟩ := State.kept_sync (c := c) (s := s) next
    exact .inl (hcall hx hk)
  next a next hp =>
    refine .inr ?_
    unfold State.send at h
    split at h
    next hmute =>
      cases h
      have hk := State.kept_proceed (c := c) (s := s.record (.unheard a)) next
      refine ⟨⟨hk.error, hk.acksHeard, ?_⟩, fun hheard => ?_⟩
      · rw [hk.log]
        simp [State.record]
      · simp [hheard] at hmute
    next =>
      split at h
      next => cases h
      next hack =>
        cases h
        have hk := State.kept_proceed (c := c)
          (s := { s with ack := some a }.record (.emitted a)) next
        refine ⟨⟨hk.error, hk.acksHeard, ?_⟩, fun _ => ⟨a, by simpa using hack, hk.ack, ?_, ?_⟩⟩
        · rw [hk.log]
          simp [State.record]
        · rw [hk.log]
          simp [State.record]
        · intro b hb
          rw [hk.log] at hb
          simpa [State.record] using hb
  next =>
    cases h
    exact .inl ⟨rfl, rfl, fun _ h => h, rfl, rfl, .inl rfl⟩
  next e hp =>
    cases h
    have hrec : s.Silent (s.record (.failed e)) := .record rfl (by simp)
    exact .inl ⟨hrec.accepted, hrec.emitted, hrec.unheard, rfl, rfl, .inr rfl⟩

theorem State.acksHeard_work (h : s.work c = some t) : t.acksHeard = s.acksHeard := by
  rcases State.silent_or_sends_of_work h with hs | ⟨⟨-, hs, -⟩, -⟩
  · exact hs.acksHeard
  · exact hs

theorem State.acceptedIn_work (h : s.work c = some t) : acceptedIn t.log = acceptedIn s.log := by
  rcases State.silent_or_sends_of_work h with hs | ⟨⟨-, -, hs⟩, -⟩
  · exact hs.accepted
  · exact hs

/-- What a sink took once, it took. -/
theorem Move.acceptedIn_isPrefix (h : Move c s t) : acceptedIn s.log <+: acceptedIn t.log := by
  cases h with
  | take h => exact (State.Silent.take h).accepted ▸ List.prefix_refl _
  | windUp h => exact (State.Silent.windUp h).accepted ▸ List.prefix_refl _
  | work h => exact State.acceptedIn_work h ▸ List.prefix_refl _
  | offer m h =>
    unfold State.offer at h
    split at h
    next => cases h; simp [State.record]
    next => cases h
  | takeAck h | takeError h =>
    obtain ⟨a, -, he⟩ := Option.map_eq_some_iff.1 h
    cases he
    exact List.prefix_refl _
  | askStop | releaseInput | muteAcks | muteErrors => exact List.prefix_refl _

theorem State.acksHeard_offer {m : Message} (h : s.offer c m = some t) :
    t.acksHeard = s.acksHeard := by
  unfold State.offer at h
  split at h
  next => cases h; rfl
  next => cases h

theorem State.accepted_of_offer {m : Message} (h : s.offer c m = some t) :
    s.inputOpen ∧ acceptedIn t.log = acceptedIn s.log ++ [m] := by
  unfold State.offer at h
  split at h
  next hopen =>
    cases h
    exact ⟨(Bool.and_eq_true_iff.1 hopen).1, by simp [State.record]⟩
  next => cases h

/-! ## The acknowledgments -/

/-- What was sent on was taken from the channel or is still in it, and somebody heard it all. -/
structure State.Delivers (s : State ω) (taken : List Ack) : Prop where
  emitted : emittedIn s.log = taken ++ s.ack.toList
  heard : ∀ a, .unheard a ∉ s.log

theorem State.Delivers.of_silent (h : s.Delivers taken) (ht : s.Silent t) : t.Delivers taken where
  emitted := by rw [ht.emitted, ht.ack, h.emitted]
  heard := fun a ha => h.heard a (ht.unheard a ha)

theorem State.Delivers.of_sends {a : Ack} (h : s.Delivers taken) (ht : s.Sends t a) :
    t.Delivers taken where
  emitted := by rw [ht.emitted, ht.ack, h.emitted, ht.empty]; simp
  heard := fun a ha => h.heard a (ht.unheard a ha)

theorem State.Delivers.work (h : s.Delivers taken) (hheard : s.acksHeard)
    (ht : s.work c = some t) : t.Delivers taken := by
  rcases State.silent_or_sends_of_work ht with hs | ⟨-, hs⟩
  · exact h.of_silent hs
  · obtain ⟨a, hs⟩ := hs hheard
    exact h.of_sends hs

theorem State.Delivers.offer {m : Message} (h : s.Delivers taken)
    (ht : s.offer c m = some t) : t.Delivers taken := by
  unfold State.offer at ht
  split at ht
  next =>
    cases ht
    refine ⟨by simpa [State.record] using h.emitted, fun a ha => h.heard a ?_⟩
    simpa [State.record] using ha
  next => cases ht

theorem State.Delivers.takeAck {a : Ack} (h : s.Delivers taken) (ha : s.ack = some a) :
    State.Delivers { s with ack := none } (taken ++ [a]) where
  emitted := by simp [h.emitted, ha]
  heard := h.heard

theorem mem_acksIn_of_mem_emittedIn {log : List Happening} {a : Ack} (h : a ∈ emittedIn log) :
    a ∈ acksIn log := by
  obtain ⟨x, hx, he⟩ := List.mem_filterMap.1 h
  refine List.mem_filterMap.2 ⟨x, hx, ?_⟩
  cases x <;> first | exact he | cases he

theorem acksIn_eq_emittedIn {log : List Happening} (h : ∀ a, .unheard a ∉ log) :
    acksIn log = emittedIn log := by
  induction log with
  | nil => rfl
  | cons x log ih =>
    have ih := ih fun a ha => h a (List.mem_cons_of_mem _ ha)
    cases x with
    | unheard a => exact absurd List.mem_cons_self (h a)
    | emitted a => exact congrArg (a :: ·) ih
    | _ => exact ih

/-- A sink that took no message has nothing to acknowledge. -/
theorem State.Reachable.emittedIn_eq_nil {writer : ω} (h : s.Reachable c writer)
    (ha : acceptedIn s.log = []) : emittedIn s.log = [] := by
  obtain ⟨sent, held, extra, hacc, -⟩ := h.progress
  have hrec := (h.intake.nothing ha).2
  have hsent : sent = [] := by
    rw [hacc.records] at hrec
    apply List.eq_nil_iff_forall_not_mem.2
    intro g hg
    exact hacc.nonempty g hg
      (List.flatten_eq_nil_iff.1 (List.append_eq_nil_iff.1 hrec).1 g hg)
  have hacks : acksIn s.log = [] := by
    apply List.eq_nil_of_length_eq_zero
    rw [hacc.length_acks, hsent]
    rfl
  apply List.eq_nil_iff_forall_not_mem.2
  intro a hmem
  exact List.not_mem_nil (hacks ▸ mem_acksIn_of_mem_emittedIn hmem)

/-! ## The error -/

/-- A sink leaves an error when it stops. -/
theorem State.Reachable.stopped_of_error {writer : ω} (h : s.Reachable c writer) :
    s.error.isSome → s.phase = .stopped := by
  induction h with
  | initial => exact fun h => nomatch h
  | @move s t hs hm ih =>
    have hlive (hp : s.phase ≠ .stopped) (ht : t.error = s.error ∨ t.phase = .stopped)
        (he : t.error.isSome) : t.phase = .stopped := by
      rcases ht with ht | ht
      · exact absurd (ih (ht ▸ he)) hp
      · exact ht
    cases hm with
    | take hm => exact hlive (State.live_of_take hm) (State.Silent.take hm).error
    | windUp hm => exact hlive (State.live_of_windUp hm) (State.Silent.windUp hm).error
    | work hm =>
      refine hlive (State.live_of_work hm) ?_
      rcases State.silent_or_sends_of_work hm with hs | ⟨⟨he, -⟩, -⟩
      · exact hs.error
      · exact .inl he
    | offer m hm =>
      unfold State.offer at hm
      split at hm
      next => cases hm; exact ih
      next => cases hm
    | takeAck hm =>
      obtain ⟨a, -, he⟩ := Option.map_eq_some_iff.1 hm
      cases he
      exact ih
    | takeError hm =>
      obtain ⟨e, -, he⟩ := Option.map_eq_some_iff.1 hm
      cases he
      exact fun he => nomatch he
    | muteErrors => exact fun he => nomatch he
    | askStop | releaseInput | muteAcks => exact ih

end EventPipeline.Sink
