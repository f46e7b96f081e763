import EventPipeline.Proofs.Consumer.Drained
/-!
# A consumer that closes never gets stuck

A consumer that is closing has bounded channels between its parts: a claim may wait for
room in the queue of the sink, the sink for the coordinator to take an acknowledgment,
the coordinator for shutdown, and the call that takes the consumer down for each of them.
There is no cycle: as long as the sink may wait, the coordinator is there and takes what
is in the channel, and the claims are awaited only after they were told to leave.
-/
namespace EventPipeline.Consumer

open Sink (acceptedIn emittedIn)

variable {ω : Type} {c : Setup ω} {writer : ω} {plans : List Plan} {s t : State ω} {i : Nat}

/-- The moves that bring the end about: those of the sink, of the claims, of the coordinator when
there is something for it to find, and of the calls that take the consumer down or run it. -/
def State.Advances (s : State ω) : Action → Prop
  | .sinkTake | .sinkWindUp | .sinkWork => True
  | .claimReceive _ | .claimSend _ | .claimLeave _ => True
  | .coordinate => ∃ k, s.coordinator = some k ∧ (k.poll = .draining ∨ s.stirs k)
  | .advance i => s.Acts i ∨ s.Past i
  | _ => False

/-! ## What can be relied on -/

/-- The coordinator takes the channel for acknowledgments to be closed only once the sink has
stopped. -/
theorem State.Reachable.acksOpen (h : s.Reachable c writer plans) :
    ∀ k, s.coordinator = some k → k.acksOpen = false → s.sink.phase = .stopped := by
  refine State.Reachable.induct (P := fun s => ∀ k, s.coordinator = some k →
    k.acksOpen = false → s.sink.phase = .stopped) h (fun _ hk => by cases hk) ?_
  intro s t hr ih hm k hk hopen
  have hstop := fun hs => (hm.sink_of_stopped hr hs).1
  have hsame (ht : t.coordinator = s.coordinator) : t.sink.phase = .stopped :=
    hstop (ih k (ht ▸ hk) hopen)
  cases hm with
  | claim _ hm => cases hm <;> exact hsame rfl
  | @coordinate k' _ hk' hm =>
    cases hm with
    | mark | fail | countBrokerError | stop =>
      obtain rfl := Option.some.inj hk
      exact hstop (ih k' hk' hopen)
    | look _ _ _ _ hlook =>
      obtain rfl := Option.some.inj hk
      rcases hlook.acksClosed hopen with hopen | hs
      · exact hstop (ih k' hk' hopen)
      · exact hstop hs
  | close _ _ hm => cases hm <;> exact hsame rfl
  | start _ hm =>
    cases hm with
    | spawn =>
      obtain rfl := Option.some.inj hk
      cases hopen
    | _ => exact hsame rfl
  | _ => exact hsame rfl

/-- Whoever waits for the sink has asked it to stop. -/
theorem State.Reachable.asked (h : s.Reachable c writer plans) :
    .joiningSink ∈ s.closers → s.sink.stopAsked := by
  refine State.Reachable.induct (P := fun s => .joiningSink ∈ s.closers → s.sink.stopAsked) h
    (fun hx => by cases hx) ?_
  intro s t hr ih hm hx
  rcases hm.mem_closers _ hx with hx | ⟨i, task, stage, u, htask, hi, hclose, rfl⟩
  · exact hm.sink_keeps (P := fun u => u.stopAsked) (ih hx) fun _ _ hu hm => hm.stopAsked hu
  · generalize hy : Closing.joiningSink = y at hclose
    cases hclose with
    | stopSink => rfl
    | _ => cases hy

/-- While an acknowledgment waits in its channel and the sink goes on, the coordinator is there to
take it. -/
theorem State.Reachable.heard (h : s.Reachable c writer plans) (hack : s.sink.ack.isSome)
    (hlive : s.sink.phase ≠ .stopped) :
    ∃ k, s.coordinator = some k ∧ k.poll ≠ .draining ∧ k.poll ≠ .stopped ∧ k.acksOpen := by
  have hkept : s.handle ≠ .absent := by
    intro habsent
    -- nothing was sent before the handle is kept, so there is nothing to acknowledge
    have hnil := h.sink.emittedIn_eq_nil (h.handleFirst.idle habsent).2.2
    rw [h.delivers.emitted] at hnil
    have hnone : s.sink.ack = none := Option.toList_eq_nil_iff.1 (List.append_eq_nil_iff.1 hnil).2
    rw [hnone] at hack
    cases hack
  obtain ⟨k, hk⟩ := Option.isSome_iff_exists.1 (h.handleFirst.coordinator hkept)
  refine ⟨k, hk, fun hp => ?_, fun hp => ?_, ?_⟩
  · exact hlive (h.sinkFirst.coordinator k hk (.inl hp))
  · exact hlive (h.sinkFirst.coordinator k hk (.inr hp))
  · by_cases hopen : k.acksOpen
    · exact hopen
    · exact absurd (h.acksOpen k hk (Bool.eq_false_iff.2 hopen)) hlive

theorem State.coordinate_isSome {k : Coordinator} (hk : s.coordinator = some k)
    (hfinds : k.poll = .draining ∨ k.poll ≠ .stopped ∧ s.stirs k) : (s.coordinate c).isSome := by
  unfold State.coordinate
  rw [hk]
  rcases hfinds with hp | ⟨hp, hs⟩
  · simp [hp]
  · cases hpoll : k.poll <;> simp_all

/-- A call that takes the consumer down goes on when its `close` does. -/
theorem State.step_advance {task : Closing → Task} {stage : Closing} (htask : Task.Closes task)
    (hi : s.tasks[i]? = some (task stage)) (hacts : stage.acts)
    (hclose : (s.close c stage).isSome) : (s.step c (.advance i)).isSome := by
  cases htask with
  | caller | coordinator => simpa [State.step, hi, State.advance] using hclose
  | start e => cases stage <;> simp_all [State.step, State.advance, State.start, Closing.acts]

theorem State.exists_unfinished (h : s.finished (fun _ => true) = false) :
    ∃ (i : Nat) (claim : Claim), s.claims[i]? = some claim ∧ claim.phase ≠ .finished := by
  obtain ⟨claim, hmem, hp⟩ := List.all_eq_false.1 h
  obtain ⟨i, hi⟩ := List.getElem?_of_mem hmem
  exact ⟨i, claim, hi, by simpa using hp⟩

/-- A claim that is not finished can be left once shutdown is announced. -/
theorem State.step_claimLeave {claim : Claim} (hs : s.shutdown) (hi : s.claims[i]? = some claim)
    (hp : claim.phase ≠ .finished) : (s.step c (.claimLeave i)).isSome := by
  cases hphase : claim.phase with
  | finished => exact absurd hphase hp
  | receiving | sending =>
    simp [State.step, hi, State.claimLeave, hs, State.claimDrop, hphase]

/-! ## No deadlock -/

/-- Nothing stands in the way of the end. -/
structure Unblocked (c : Setup ω) (s : State ω) : Prop where
  /-- While the consumer closes, something can be done about it. -/
  advances : s.lifecycle = .closing → ∃ a, s.Advances a ∧ (s.step c a).isSome
  /-- A sink that waits for room in the channel for acknowledgments has a coordinator that has not
  stopped, and is not about to before it took what is in there. -/
  acks : ∀ a next, s.sink.phase = .acking a next → s.sink.ack.isSome →
    ∃ k, s.coordinator = some k ∧ k.poll ≠ .draining ∧ k.poll ≠ .stopped ∧ k.acksOpen
  /-- A claim that waits for room in the queue of a sink that stopped, can give up. -/
  sends : s.sink.stopped → ∀ (i : Nat) (claim : Claim) (m : Sink.Message),
    s.claims[i]? = some claim → claim.phase = .sending m →
      ∃ t, s.step c (.claimSend i) = some t ∧
        t.claims[i]? = some { claim with phase := .finished }

/-- What the call waits for that takes the consumer down, can be brought about. -/
theorem State.Reachable.advances (h : s.Reachable c writer plans)
    (hl : s.lifecycle = .closing) : ∃ a, s.Advances a ∧ (s.step c a).isSome := by
  have hone := h.calls.closers
  rw [if_pos hl] at hone
  obtain ⟨stage, hstage⟩ := List.length_eq_one_iff.1 hone
  have hmem : stage ∈ s.closers := hstage ▸ List.mem_singleton_self stage
  obtain ⟨i, task, htask, hi, hacts⟩ := State.exists_of_mem_closers hmem
  have hcall (hclose : (s.close c stage).isSome) : ∃ a, s.Advances a ∧ (s.step c a).isSome := by
    refine ⟨.advance i, .inl ⟨_, hi, ?_⟩, State.step_advance htask hi hacts hclose⟩
    rw [htask.closers, if_pos hacts]
    exact List.cons_ne_nil _ _
  cases stage with
  | joiningSink =>
    by_cases hstop : s.sink.phase = .stopped
    · exact hcall (by simp [State.close, Sink.State.stopped, hstop])
    · rcases Sink.State.moves_of_stopAsked (c := c.sink) (h.asked hmem) hstop with
        hm | hm | hm | ⟨-, -, hack⟩
      · exact ⟨.sinkTake, trivial, by simpa [State.step] using hm⟩
      · exact ⟨.sinkWindUp, trivial, by simpa [State.step] using hm⟩
      · exact ⟨.sinkWork, trivial, by simpa [State.step] using hm⟩
      · -- the channel is full: the coordinator finds an acknowledgment in it
        obtain ⟨k, hk, -, hp, hopen⟩ := h.heard hack hstop
        have hstirs : s.stirs k := by simp [State.stirs, hopen, hack]
        exact ⟨.coordinate, ⟨k, hk, .inr hstirs⟩, State.coordinate_isSome hk (.inr ⟨hp, hstirs⟩)⟩
  | awaitingClaims =>
    cases hf : s.finished (fun _ => true) with
    | true => exact hcall (by simp [State.close, hf])
    | false =>
      obtain ⟨j, claim, hj, hp⟩ := State.exists_unfinished hf
      exact ⟨.claimLeave j, trivial, State.step_claimLeave (h.told.1 _ hmem rfl) hj hp⟩
  | joiningCoordinator =>
    by_cases hstop : s.coordinatorStopped
    · exact hcall (by simp [State.close, hstop])
    · obtain ⟨k, hk⟩ :=
        Option.isSome_iff_exists.1 (h.handleFirst.coordinator (h.handleFirst.closers hmem))
      have hp : k.poll ≠ .stopped := by
        intro hp
        simp [State.coordinatorStopped, hk, hp] at hstop
      have hstirs : s.stirs k := by simp [State.stirs, h.told.1 _ hmem rfl]
      exact ⟨.coordinate, ⟨k, hk, .inr hstirs⟩, State.coordinate_isSome hk (.inr ⟨hp, hstirs⟩)⟩
  | takingHandle =>
    refine hcall ?_
    by_cases hk : s.handle = .kept <;> simp [State.close, hk]
  | stoppingSink | cancelling | leavingGroup | publishing => exact hcall rfl
  | entering | waiting | returned => cases hacts

/-- Whatever the writer answers, however small the channels are and however many claims there are,
the consumer never gets stuck on its way to the end. -/
theorem State.Reachable.unblocked (h : s.Reachable c writer plans) : Unblocked c s where
  advances := h.advances
  acks a next hp hack := h.heard hack (by rw [hp]; simp)
  sends := by
    intro hstop i claim m hi hp
    have hclosed : s.sink.inputOpen = false :=
      (h.sink.windingUp.stopped (of_decide_eq_true hstop)).1
    have hlt : i < s.claims.length := (List.getElem?_eq_some_iff.1 hi).1
    refine ⟨(s.record (.abandoned m)).setClaim i { claim with phase := .finished }, ?_, ?_⟩
    · simp [State.step, hi, State.claimSend, hp, hclosed]
    · exact List.getElem?_set_self hlt

/-- Two messages are sent, the consumer is closed, and the sink writes both before the coordinator
moves: then it waits with the second acknowledgment, and the call of `close` for it. -/
def fullChannel : List Action :=
  [.callStart, .advance 0, .advance 0, .advance 0, .advance 0, .advance 0, .advance 0, .advance 0,
    .claimReceive 0, .claimSend 0, .claimReceive 0, .claimSend 0, .callClose, .advance 1,
    .advance 1, .sinkTake, .sinkTake, .sinkWork, .sinkWork, .sinkWork, .sinkWindUp, .sinkWindUp,
    .sinkWork, .sinkWork]

theorem unblocked_fullChannel : ∃ s : State Writer.Calls, s.lifecycle = .closing ∧
    s.sink.phase = .acking (.ofMessage 1 ⟨"events", 0⟩ 2) .stop ∧ s.sink.ack.isSome ∧
    (∃ a, s.Advances a ∧ (s.step (oneByteEach (.of 2 1)) a).isSome) ∧
    ∃ k, s.coordinator = some k ∧ k.poll ≠ .draining ∧ k.poll ≠ .stopped ∧ k.acksOpen := by
  have hrun : ((State.initial {} twoMessages).run (oneByteEach (.of 2 1)) fullChannel).map
      (fun s => (s.lifecycle, s.sink.phase, s.sink.ack.isSome)) =
      some (.closing, .acking (.ofMessage 1 ⟨"events", 0⟩ 2) .stop, true) := by
    decide
  obtain ⟨s, hs, hends⟩ := Option.map_eq_some_iff.1 hrun
  simp only [Prod.mk.injEq] at hends
  obtain ⟨hl, hp, hack⟩ := hends
  have hfree := State.Reachable.unblocked (.run .initial hs)
  exact ⟨s, hl, hp, hack, hfree.advances hl, hfree.acks _ _ hp hack⟩

end EventPipeline.Consumer
