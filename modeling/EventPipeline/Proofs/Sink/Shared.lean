import EventPipeline.Proofs.Drawn
import EventPipeline.Proofs.Sink.Failure
import EventPipeline.Proofs.Sink.Segmentation
import EventPipeline.Sink.Shared
/-!
# Closing a shared sink

A call of `close` returns once the sink has stopped, whether it waited for the sink
itself or for another call to let go of the lock (`Shared.Joins`). What the senders
sent is what the sink took in, interleaved (`Drawn`), and a sink that stops without an
error has written and acknowledged all it took in. So nothing that was sent gets lost,
and after a call of `close` nothing happens any more (`Shared.Over`).
-/
namespace EventPipeline.Sink

variable {ω : Type} {c : Setup ω} {writer : ω}

namespace Shared

variable {s t : Shared ω} {i : Nat}

/-- An entry of a list changes, but not what is seen of it. -/
theorem map_set_of_eq {α β : Type} {f : α → β} {l : List α} {x y : α} (hi : l[i]? = some x)
    (hy : f y = f x) : (l.set i y).map f = l.map f := by
  obtain ⟨hlt, rfl⟩ := List.getElem?_eq_some_iff.1 hi
  rw [List.map_set, hy, ← List.getElem_map f (h := by simpa using hlt), List.set_getElem_self]

/-! ## Moves -/

/-- One move of a sink or its users. -/
inductive Move (c : Setup ω) (s : Shared ω) : Shared ω → Prop
  | take {sink : State ω} : s.sink.take c = some sink → Move c s { s with sink := sink }
  | windUp {sink : State ω} : s.sink.windUp c = some sink → Move c s { s with sink := sink }
  | work {sink : State ω} : s.sink.work c = some sink → Move c s { s with sink := sink }
  | input : Move c s { s with senders := s.senders ++ [{}] }
  | callSend {i : Nat} {x : Sender} {m : Message} : s.senders[i]? = some x → x.sending = none →
    Move c s { s with senders := s.senders.set i { x with sending := some m } }
  | send {i : Nat} {x : Sender} {m : Message} {sink : State ω} : s.senders[i]? = some x →
    x.sending = some m → s.sink.offer c m = some sink →
    Move c s
      { s with
        sink := sink
        senders := s.senders.set i { x with sending := none, sent := x.sent ++ [m] } }
  | refuse {i : Nat} {x : Sender} {m : Message} : s.senders[i]? = some x → x.sending = some m →
    s.sink.inputOpen = false →
    Move c s
      { s with senders := s.senders.set i { x with sending := none, refused := x.refused ++ [m] } }
  | giveUp {i : Nat} {x : Sender} : s.senders[i]? = some x →
    Move c s { s with senders := s.senders.set i { x with sending := none } }
  | callClose : Move c s { s with sink := s.sink.askStop, closers := s.closers ++ [.locking] }
  | lock {i : Nat} : s.closers[i]? = some .locking → s.locked = false → s.handle →
    Move c s { s with locked := true, handle := false, closers := s.closers.set i .joining }
  | noHandle {i : Nat} : s.closers[i]? = some .locking → s.locked = false → s.handle = false →
    Move c s { s with closers := s.closers.set i .returned }
  | joined {i : Nat} : s.closers[i]? = some .joining → s.sink.stopped →
    Move c s { s with locked := false, closers := s.closers.set i .returned }
  | receive {a : Ack} : s.sink.ack = some a →
    Move c s { s with sink := { s.sink with ack := none }, received := s.received ++ [a] }
  | takeError {e : SinkError} : s.sink.error = some e →
    Move c s { s with sink := { s.sink with error := none } }
  | muteErrors : Move c s { s with sink := s.sink.muteErrors }

theorem Move.of_send (h : s.step c (.send i) = some t) :
    ∃ x m, s.senders[i]? = some x ∧ x.sending = some m ∧
      ((∃ sink, s.sink.offer c m = some sink ∧
          t = { s with
            sink := sink
            senders := s.senders.set i { x with sending := none, sent := x.sent ++ [m] } }) ∨
        s.sink.inputOpen = false ∧
          t = { s with
            senders :=
              s.senders.set i { x with sending := none, refused := x.refused ++ [m] } }) := by
  obtain ⟨x, hi, h⟩ := Option.bind_eq_some_iff.1 h
  obtain ⟨r, hr, rfl⟩ := Option.map_eq_some_iff.1 h
  obtain ⟨m, hm, hr⟩ := Option.bind_eq_some_iff.1 hr
  refine ⟨x, m, hi, hm, ?_⟩
  split at hr
  next =>
    obtain ⟨sink, hs, rfl⟩ := Option.map_eq_some_iff.1 hr
    exact .inl ⟨sink, hs, rfl⟩
  next hclosed =>
    cases hr
    exact .inr ⟨Bool.eq_false_iff.2 hclosed, rfl⟩

theorem Move.of_close (h : s.step c (.close i) = some t) : Move c s t := by
  obtain ⟨k, hi, h⟩ := Option.bind_eq_some_iff.1 h
  obtain ⟨r, hr, rfl⟩ := Option.map_eq_some_iff.1 h
  unfold close at hr
  split at hr
  next =>
    split at hr
    next => cases hr
    next hlocked =>
      have hlocked := Bool.eq_false_iff.2 hlocked
      split at hr
      next hhandle => cases hr; exact .lock hi hlocked hhandle
      next hhandle => cases hr; exact .noHandle hi hlocked (Bool.eq_false_iff.2 hhandle)
  next =>
    split at hr
    next hstop => cases hr; exact .joined hi hstop
    next => cases hr
  next => cases hr

theorem Move.of_step {a : Action} (h : s.step c a = some t) : Move c s t := by
  cases a with
  | take =>
    obtain ⟨sink, hs, rfl⟩ := Option.map_eq_some_iff.1 h
    exact .take hs
  | windUp =>
    obtain ⟨sink, hs, rfl⟩ := Option.map_eq_some_iff.1 h
    exact .windUp hs
  | work =>
    obtain ⟨sink, hs, rfl⟩ := Option.map_eq_some_iff.1 h
    exact .work hs
  | input => cases h; exact .input
  | callSend i m =>
    obtain ⟨x, hi, h⟩ := Option.bind_eq_some_iff.1 h
    split at h
    next => cases h
    next hnone => cases h; exact .callSend hi (by simpa using hnone)
  | send i =>
    obtain ⟨x, m, hi, hm, ⟨sink, hs, rfl⟩ | ⟨hclosed, rfl⟩⟩ := Move.of_send h
    · exact .send hi hm hs
    · exact .refuse hi hm hclosed
  | giveUp i =>
    obtain ⟨x, hi, rfl⟩ := Option.map_eq_some_iff.1 h
    exact .giveUp hi
  | callClose => cases h; exact .callClose
  | close i => exact .of_close h
  | receive =>
    obtain ⟨r, hr, rfl⟩ := Option.map_eq_some_iff.1 h
    obtain ⟨a, ha, rfl⟩ := Option.map_eq_some_iff.1 hr
    exact .receive ha
  | takeError =>
    obtain ⟨r, hr, rfl⟩ := Option.map_eq_some_iff.1 h
    obtain ⟨e, he, rfl⟩ := Option.map_eq_some_iff.1 hr
    exact .takeError he
  | muteErrors => cases h; exact .muteErrors

/-- A move moves the sink or leaves it alone. -/
theorem Move.sink (h : Move c s t) : Sink.Move c s.sink t.sink ∨ t.sink = s.sink := by
  cases h with
  | take h => exact .inl (.take h)
  | windUp h => exact .inl (.windUp h)
  | work h => exact .inl (.work h)
  | send _ _ h => exact .inl (.offer _ h)
  | callClose => exact .inl (.askStop _)
  | receive h => exact .inl (.takeAck (Option.map_eq_some_iff.2 ⟨_, h, rfl⟩))
  | takeError h => exact .inl (.takeError (Option.map_eq_some_iff.2 ⟨_, h, rfl⟩))
  | muteErrors => exact .inl (.muteErrors _)
  | input | callSend | refuse | giveUp | lock | noHandle | joined => exact .inr rfl

theorem Reachable.sink (h : s.Reachable c writer) : s.sink.Reachable c writer := by
  induction h with
  | initial => exact .initial
  | step _ ht ih =>
    rcases (Move.of_step ht).sink with hm | he
    · exact ih.move hm
    · rwa [he]

/-! ## The lock -/

/-- Whoever holds the lock waits for the sink to stop, and once the lock is free and the handle
gone, the sink has stopped. -/
structure Joins (s : Shared ω) : Prop where
  joining : s.closers.count .joining = if s.locked then 1 else 0
  handle : s.handle = false → s.locked ∨ s.sink.phase = .stopped
  returned : .returned ∈ s.closers → s.sink.phase = .stopped
  asked : s.closers ≠ [] → s.sink.stopAsked

theorem Joins.of_sink (h : Joins s) (hc : t.closers = s.closers) (hl : t.locked = s.locked)
    (hh : t.handle = s.handle) (hr : s.sink.Reachable c writer)
    (hm : Sink.Move c s.sink t.sink ∨ t.sink = s.sink) : Joins t := by
  have hstop (hs : s.sink.phase = .stopped) : t.sink.phase = .stopped := by
    rcases hm with hm | he
    · exact (hm.of_stopped hr.windingUp hs).1
    · rwa [he]
  have hasked (hs : s.sink.stopAsked) : t.sink.stopAsked := by
    rcases hm with hm | he
    · exact hm.stopAsked hs
    · rwa [he]
  exact
    { joining := by rw [hc, hl]; exact h.joining
      handle := by rw [hl, hh]; exact fun hg => (h.handle hg).imp_right hstop
      returned := by rw [hc]; exact fun hret => hstop (h.returned hret)
      asked := by rw [hc]; exact fun hne => hasked (h.asked hne) }

theorem Joins.count_set (h : Joins s) {k : Closer} (hi : s.closers[i]? = some k) (k' : Closer) :
    (s.closers.set i k').count .joining =
      (if s.locked then 1 else 0) - (if k = .joining then 1 else 0) +
        if k' = .joining then 1 else 0 := by
  obtain ⟨hlt, rfl⟩ := List.getElem?_eq_some_iff.1 hi
  simp [List.count_set hlt, h.joining]

theorem Joins.move (h : Joins s) (hr : s.Reachable c writer) (hm : Move c s t) : Joins t := by
  have hasked {i : Nat} {k : Closer} (hi : s.closers[i]? = some k) : s.sink.stopAsked :=
    h.asked (List.ne_nil_of_mem (List.mem_of_getElem? hi))
  have hsink := hm.sink
  cases hm with
  | callClose =>
    refine ⟨?_, h.handle, ?_, fun _ => rfl⟩
    · rw [List.count_append]
      exact h.joining
    · intro hret
      exact h.returned (by simpa using hret)
  | lock hi hlocked =>
    refine ⟨?_, fun _ => .inl rfl, ?_, fun _ => hasked hi⟩
    · simp [h.count_set hi, hlocked]
    · intro hret
      rcases List.mem_or_eq_of_mem_set hret with hret | hret
      · exact h.returned hret
      · cases hret
  | noHandle hi hlocked hhandle =>
    have hstop := (h.handle hhandle).resolve_left (by simp [hlocked])
    exact ⟨by simp [h.count_set hi, hlocked], h.handle, fun _ => hstop, fun _ => hasked hi⟩
  | joined hi hstop =>
    have hstop : s.sink.phase = .stopped := of_decide_eq_true hstop
    refine ⟨?_, fun _ => .inr hstop, fun _ => hstop, fun _ => hasked hi⟩
    rw [h.count_set hi]
    cases s.locked <;> simp
  | _ => exact h.of_sink rfl rfl rfl hr.sink hsink

theorem Reachable.joins (h : s.Reachable c writer) : Joins s := by
  induction h with
  | initial =>
    exact ⟨rfl, fun hh => (by cases hh), fun hret => (by cases hret), fun hne => absurd rfl hne⟩
  | step hs ht ih => exact ih.move hs (.of_step ht)

/-- A call of `close` that is under way can go on, or the sink can, or somebody takes an
acknowledgment from the sink. -/
theorem Reachable.close_goes_on (h : s.Reachable c writer) {k : Closer}
    (hi : s.closers[i]? = some k) (hk : k ≠ .returned) :
    ∃ a ∈ s.ownActions, (s.step c a).isSome := by
  have hown (i : Nat) (hlt : i < s.closers.length) : .close i ∈ s.ownActions :=
    List.mem_append_right _ (List.mem_map_of_mem (List.mem_range.2 hlt))
  by_cases hstop : s.sink.phase = .stopped
  · by_cases hlocked : s.locked
    · -- whoever holds the lock can return
      have hcount := h.joins.joining
      rw [if_pos hlocked] at hcount
      have hmem : .joining ∈ s.closers := List.count_pos_iff.1 (by omega)
      obtain ⟨j, hlt, hj⟩ := List.getElem_of_mem hmem
      exact ⟨.close j, hown j hlt, by simp [Shared.step, hlt, hj, close, State.stopped, hstop]⟩
    · have hlt : i < s.closers.length := (List.getElem?_eq_some_iff.1 hi).1
      have hkl : k = .locking := by
        have hcount := h.joins.joining
        rw [if_neg hlocked] at hcount
        have hnot : .joining ∉ s.closers := List.count_eq_zero.1 hcount
        cases k with
        | locking => rfl
        | joining => exact absurd (List.mem_of_getElem? hi) hnot
        | returned => exact absurd rfl hk
      refine ⟨.close i, hown i hlt, ?_⟩
      cases hh : s.handle <;> simp [Shared.step, hi, hkl, close, hlocked, hh]
  · have hasked := h.joins.asked (List.ne_nil_of_mem (List.mem_of_getElem? hi))
    rcases State.moves_of_stopAsked (c := c) hasked hstop with hm | hm | hm | ⟨-, -, hack⟩
    · exact ⟨.take, by simp [ownActions], by simpa [Shared.step] using hm⟩
    · exact ⟨.windUp, by simp [ownActions], by simpa [Shared.step] using hm⟩
    · exact ⟨.work, by simp [ownActions], by simpa [Shared.step] using hm⟩
    · exact ⟨.receive, by simp [ownActions], by simpa [Shared.step, State.takeAck] using hack⟩

/-! ## What was sent -/

/-- A move puts one message in at most, which its sender has sent then. -/
theorem Move.sent (hm : Move c s t)
    (h : Interleaves (acceptedIn s.sink.log) (s.senders.map Sender.sent)) :
    Interleaves (acceptedIn t.sink.log) (t.senders.map Sender.sent) := by
  have hset {i : Nat} {x y : Sender} (hi : s.senders[i]? = some x) (hy : y.sent = x.sent) :
      Interleaves (acceptedIn s.sink.log) ((s.senders.set i y).map Sender.sent) := by
    rw [map_set_of_eq hi hy]
    exact h
  cases hm with
  | take hm => exact (State.Silent.take hm).accepted ▸ h
  | windUp hm => exact (State.Silent.windUp hm).accepted ▸ h
  | work hm => exact State.acceptedIn_work hm ▸ h
  | input => exact (List.map_append (f := Sender.sent)) ▸ h.snoc
  | @send i x m sink hi _ hm =>
    rw [(State.accepted_of_offer hm).2, List.map_set]
    exact h.push (by rw [List.getElem?_map, hi]; rfl) m
  | callSend hi | refuse hi | giveUp hi =>
    exact hset hi rfl
  | _ => exact h

theorem Reachable.sent (h : s.Reachable c writer) :
    Interleaves (acceptedIn s.sink.log) (s.senders.map Sender.sent) := by
  induction h with
  | initial => exact .nil
  | step _ ht ih => exact (Move.of_step ht).sent ih

/-- What was sent on was received, or is in the channel still. -/
theorem Reachable.delivers (h : s.Reachable c writer) :
    s.sink.acksHeard ∧ s.sink.Delivers s.received := by
  induction h with
  | initial => exact ⟨rfl, rfl, fun _ ha => by cases ha⟩
  | step _ ht ih =>
    obtain ⟨hheard, hd⟩ := ih
    cases Move.of_step ht with
    | take hm =>
      have hs := State.Silent.take hm
      exact ⟨hs.acksHeard ▸ hheard, hd.of_silent hs⟩
    | windUp hm =>
      have hs := State.Silent.windUp hm
      exact ⟨hs.acksHeard ▸ hheard, hd.of_silent hs⟩
    | work hm => exact ⟨State.acksHeard_work hm ▸ hheard, hd.work hheard hm⟩
    | send _ _ hm => exact ⟨State.acksHeard_offer hm ▸ hheard, hd.offer hm⟩
    | receive ha => exact ⟨hheard, hd.takeAck ha⟩
    | _ => exact ⟨hheard, hd.emitted, hd.heard⟩

/-- All that the senders sent was written and acknowledged, segment by segment. -/
structure Delivered (c : Setup ω) (s : Shared ω) (segments : List Segment) : Prop where
  /-- What each sender sent, in its order, and nothing else. -/
  sent : Interleaves (segments.flatten.map Prod.fst) (s.senders.map Sender.sent)
  records : ∀ i m bytes, segments.flatten[i]? = some (m, bytes) → c.marshal (i + 1) m = .ok bytes
  written : writtenIn s.sink.log = Segment.bytes segments.flatten
  flushed : Settled s.sink.log (Segment.bytes segments.flatten)
  nonempty : ∀ g ∈ segments, g ≠ []
  /-- There is one acknowledgment for each segment, which covers all its messages. -/
  emitted : (emittedIn s.sink.log).map some = segments.map Segment.ack?
  covered : ∀ (j : Nat) g (a : Ack), segments[j]? = some g → (emittedIn s.sink.log)[j]? = some a →
    ∀ e ∈ g, a.Covers (e.1.ack.key, e.1.ack.offset)
  received : emittedIn s.sink.log = s.received ++ s.sink.ack.toList

theorem Reachable.delivered (h : s.Reachable c writer) (hstop : s.sink.phase = .stopped)
    (hok : s.sink.failures = []) : ∃ segments, s.Delivered c segments := by
  have hin := h.sink.intake
  obtain ⟨-, hd⟩ := h.delivers
  obtain ⟨segments, held, extra, hp⟩ := h.sink.progress
  have hnone (e : SinkError) : .failed e ∉ s.sink.log := by
    rw [← mem_errorsIn, State.errorsIn_eq_nil hok]
    exact List.not_mem_nil
  obtain ⟨hrecords, htaken, hqueue, hwritten⟩ := hp.whole h.sink.windingUp hstop hnone
  have haccepted : acceptedIn s.sink.log = segments.flatten.map Prod.fst := by
    rw [hin.accepted, hqueue, List.append_nil, htaken]
  have hemitted : (emittedIn s.sink.log).map some = segments.map Segment.ack? := by
    rw [← acksIn_eq_emittedIn hd.heard]
    exact hp.accounted.acks
  refine ⟨segments,
    { sent := haccepted ▸ h.sent
      records := hrecords ▸ hin.made
      written := hwritten
      flushed := hp.accounted.settled
      nonempty := hp.accounted.nonempty
      emitted := hemitted
      covered := ?_
      received := hd.emitted }⟩
  intro j g a hg ha e he
  have hsame := congrArg (·[j]?) hemitted
  simp only [List.getElem?_map, hg, ha, Option.map_some, Option.some.injEq] at hsame
  exact Segment.covers_of_ack? hsame.symm he

/-! ## After a call of `close` -/

/-- Actions one after the other. -/
def run (c : Setup ω) (s : Shared ω) (actions : List Action) : Option (Shared ω) :=
  runFrom (Shared.step c) s actions

theorem Reachable.run {actions : List Action} (h : s.Reachable c writer)
    (ht : s.run c actions = some t) : t.Reachable c writer :=
  runFrom_keeps ht h fun _ _ _ hu hv => hu.step hv

/-- From `s` on the sink does nothing any more, and in `t` it takes nothing in: whatever is sent is
refused. -/
structure Over (c : Setup ω) (s t : Shared ω) : Prop where
  stopped : t.sink.phase = .stopped
  log : t.sink.log = s.sink.log
  refuses : ∀ i u, t.step c (.send i) = some u → ∃ x m, t.senders[i]? = some x ∧
    x.sending = some m ∧
    u = { t with
      senders := t.senders.set i { x with sending := none, refused := x.refused ++ [m] } }

/-- A sink that stopped refuses what is sent. -/
theorem Reachable.refuses (h : s.Reachable c writer) (hstop : s.sink.phase = .stopped)
    (ht : s.step c (.send i) = some t) : ∃ x m, s.senders[i]? = some x ∧ x.sending = some m ∧
      t = { s with
        senders := s.senders.set i { x with sending := none, refused := x.refused ++ [m] } } := by
  obtain ⟨x, m, hi, hm, ⟨sink, hs, -⟩ | ⟨-, he⟩⟩ := Move.of_send ht
  · exact absurd hstop (State.live_of_offer h.sink.windingUp hs)
  · exact ⟨x, m, hi, hm, he⟩

theorem Reachable.over_run {actions : List Action} (h : s.Reachable c writer)
    (hstop : s.sink.phase = .stopped) (ht : s.run c actions = some t) : Over c s t := by
  have hkept := runFrom_keeps (P := fun u => u.Reachable c writer ∧ u.sink.phase = .stopped ∧
      u.sink.log = s.sink.log) ht ⟨h, hstop, rfl⟩ ?_
  · obtain ⟨hr, hp, hl⟩ := hkept
    exact ⟨hp, hl, fun _ _ => hr.refuses hp⟩
  · rintro u a v ⟨hr, hp, hl⟩ hv
    rcases (Move.of_step hv).sink with hm | he
    · obtain ⟨hp', hl', -⟩ := hm.of_stopped hr.sink.windingUp hp
      exact ⟨hr.step hv, hp', hl'.trans hl⟩
    · rw [he]
      exact ⟨hr.step hv, hp, hl⟩

/-- Closing a sink loses nothing that was sent. Once a call of `close` has returned and nothing went
wrong, all that was sent has been written and acknowledged, and whatever happens then, nothing is
written or acknowledged any more, and whatever is sent is refused. Until then somebody can go on. -/
theorem Reachable.close_lossless (h : s.Reachable c writer) :
    (.returned ∈ s.closers →
      (s.sink.failures = [] → ∃ segments, s.Delivered c segments) ∧
        ∀ actions t, s.run c actions = some t → Over c s t) ∧
      ∀ k ∈ s.closers, k ≠ .returned → ∃ a ∈ s.ownActions, (s.step c a).isSome := by
  refine ⟨fun hret => ?_, fun k hk hne => ?_⟩
  · have hstop := h.joins.returned hret
    exact ⟨h.delivered hstop, fun actions t => h.over_run hstop⟩
  · obtain ⟨i, hi⟩ := List.getElem?_of_mem hk
    exact h.close_goes_on hi hne

/-- Two senders and three calls of `close`. The message 3 is sent after the first call, but before
the sink has closed its input, and the message 4 when the first two calls have returned. -/
def lateSends : List Action :=
  [.input, .input, .callSend 0 (numbered 1), .send 0, .callSend 1 (numbered 2), .send 1, .take,
    .callClose, .callSend 0 (numbered 3), .send 0, .callClose, .close 0, .windUp, .take, .take,
    .work, .work, .work, .work, .work, .receive, .windUp, .work, .work, .work, .close 0, .close 1,
    .callClose, .close 2, .callSend 1 (numbered 4), .send 1]

theorem close_lossless_lateSends :
    ∃ s : Shared Writer.Calls, .returned ∈ s.closers ∧ s.sink.failures = [] ∧
      s.senders.map (fun x => (x.sent, x.refused)) =
        [([numbered 1, numbered 3], []), ([numbered 2], [numbered 4])] ∧
      (∃ segments, s.Delivered pairs segments) ∧
      ∀ actions t, s.run pairs actions = some t → Over pairs s t := by
  have hrun : (run pairs { sink := .initial {} } lateSends).map (fun s =>
      (s.closers, s.sink.failures, s.senders.map (fun x => (x.sent, x.refused)))) =
      some ([.returned, .returned, .returned], [],
        [([numbered 1, numbered 3], []), ([numbered 2], [numbered 4])]) := by
    decide
  obtain ⟨s, hs, hends⟩ := Option.map_eq_some_iff.1 hrun
  simp only [Prod.mk.injEq] at hends
  obtain ⟨hclosers, hok, hsenders⟩ := hends
  have hret : .returned ∈ s.closers := by simp [hclosers]
  obtain ⟨hlossless, hover⟩ := (Reachable.close_lossless (.run .initial hs)).1 hret
  exact ⟨s, hret, hok, hsenders, hlossless hok, hover⟩

end Shared

end EventPipeline.Sink
