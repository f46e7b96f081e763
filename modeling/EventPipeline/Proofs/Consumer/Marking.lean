import EventPipeline.Proofs.Consumer.Calls
import EventPipeline.Proofs.Sink.Failure
import EventPipeline.Writer.Scripted
/-!
# Acknowledgments are marked once

The sink stops before anybody is told to shut down, the coordinator stops after the sink
did, and the consumer is closed after the coordinator stopped. So every acknowledgment
that the sink sends on reaches the coordinator, which marks it, and once the consumer
is closed nothing is left to mark.
-/
namespace EventPipeline.Consumer

open Sink (emittedIn acceptedIn)

variable {ω : Type} {c : Setup ω} {writer : ω} {plans : List Plan} {s t : State ω}

/-- The acknowledgments marked, in order. -/
def ackMarkedIn (log : List Happening) : List Ack :=
  log.filterMap (fun
    | .ackMarked a => some a
    | _ => none)

@[simp] theorem ackMarkedIn_concat (log : List Happening) (h : Happening) :
    ackMarkedIn (log ++ [h]) = ackMarkedIn log ++ match h with
      | .ackMarked a => [a]
      | _ => [] := by
  cases h <;> simp [ackMarkedIn]

theorem ackMarkedIn_append (log more : List Happening) :
    ackMarkedIn (log ++ more) = ackMarkedIn log ++ ackMarkedIn more :=
  List.filterMap_append

/-- Offsets reported are no acknowledgments. -/
theorem ackMarkedIn_attempts (l : List Attempt) : ackMarkedIn (l.map .marked) = [] := by
  induction l with
  | nil => rfl
  | cons x l ih => exact ih

theorem ackMarkedIn_one (a : Ack) (l : List Attempt) :
    ackMarkedIn (.ackMarked a :: l.map .marked) = [a] :=
  congrArg (a :: ·) (ackMarkedIn_attempts l)

theorem ackMarkedIn_mark (a : Ack) : ackMarkedIn (s.mark c a).log = ackMarkedIn s.log ++ [a] := by
  show ackMarkedIn (s.log ++ .ackMarked a :: (a.mark c.refuses).map .marked) = _
  rw [ackMarkedIn_append, ackMarkedIn_one]

/-! ## The sink stops first -/

/-- Whether a call of `close` has seen that the sink stopped. -/
def Closing.sinkDone : Closing → Bool
  | .cancelling | .awaitingClaims | .takingHandle | .joiningCoordinator | .leavingGroup
  | .publishing _ => true
  | _ => false

/-- Everybody who may stop hearing the sink knows that it stopped. -/
structure SinkFirst (s : State ω) : Prop where
  shutdown : s.shutdown → s.sink.phase = .stopped
  closers : ∀ stage ∈ s.closers, stage.sinkDone → s.sink.phase = .stopped
  coordinator : ∀ k, s.coordinator = some k → k.poll = .draining ∨ k.poll = .stopped →
    s.sink.phase = .stopped
  heard : s.sink.acksHeard = false → s.sink.phase = .stopped

/-- A call that closes the consumer goes on only after the sink stopped. -/
theorem SinkFirst.closers_move (h : SinkFirst s) (hm : Move c s t)
    (hstop : s.sink.phase = .stopped → t.sink.phase = .stopped) :
    ∀ x ∈ t.closers, x.sinkDone → t.sink.phase = .stopped := by
  intro x hx hd
  rcases hm.mem_closers x hx with hx | ⟨i, task, stage, u, htask, hi, hclose, rfl⟩
  · exact hstop (h.closers x hx hd)
  · cases hclose with
    | sinkStopped hs => exact of_decide_eq_true hs
    | begin | join | joined | stopSink | publish => cases hd
    | _ => exact h.closers _ (htask.mem_closers hi rfl) rfl

theorem SinkFirst.move (h : SinkFirst s) (hr : s.Reachable c writer plans) (hm : Move c s t) :
    SinkFirst t := by
  have hstop := fun hs => (hm.sink_of_stopped hr hs).1
  have hclosers := h.closers_move hm hstop
  have hshut := fun hs => hstop (h.shutdown hs)
  have hcoord := fun k hk hp => hstop (h.coordinator k hk hp)
  have hheard (he : t.sink.acksHeard = s.sink.acksHeard) (hs : t.sink.acksHeard = false) :
      t.sink.phase = .stopped := hstop (h.heard (he ▸ hs))
  cases hm with
  | sinkTake hm => exact ⟨hshut, hclosers, hcoord, hheard (Sink.State.Silent.take hm).acksHeard⟩
  | sinkWindUp hm => exact ⟨hshut, hclosers, hcoord, hheard (Sink.State.Silent.windUp hm).acksHeard⟩
  | sinkWork hm => exact ⟨hshut, hclosers, hcoord, hheard (Sink.State.acksHeard_work hm)⟩
  | claim _ hm =>
    cases hm with
    | send _ hm => exact ⟨hshut, hclosers, hcoord, hheard (Sink.State.acksHeard_offer hm)⟩
    | _ => exact ⟨hshut, hclosers, hcoord, hheard rfl⟩
  | @coordinate k _ hk hm =>
    cases hm with
    | mark => exact ⟨hshut, hclosers, fun k' hk' => hcoord k' (hk.trans hk'), hheard rfl⟩
    | fail hp he =>
      have hs := hr.sink.stopped_of_error (by rw [he]; rfl)
      exact ⟨fun _ => hs, fun _ _ _ => hs, fun _ _ _ => hs, fun _ => hs⟩
    | countBrokerError =>
      refine ⟨hshut, hclosers, ?_, hheard rfl⟩
      intro k' hk' hp'
      obtain rfl := Option.some.inj hk'
      simp at hp'
    | look _ _ hne hdrain =>
      refine ⟨hshut, hclosers, ?_, hheard rfl⟩
      intro k' hk' hp'
      obtain rfl := Option.some.inj hk'
      exact hshut (hdrain (hp'.resolve_right hne))
    | stop hp _ =>
      have hs := h.coordinator k hk (.inl hp)
      exact ⟨fun _ => hs, fun _ _ _ => hs, fun _ _ _ => hs, fun _ => hs⟩
  | close htask hi hm =>
    cases hm with
    | cancel =>
      have hs := h.closers _ (htask.mem_closers hi rfl) rfl
      exact ⟨fun _ => hs, hclosers, hcoord, hheard rfl⟩
    | _ => exact ⟨hshut, hclosers, hcoord, hheard rfl⟩
  | start _ hm =>
    cases hm with
    | spawn =>
      refine ⟨hshut, hclosers, ?_, hheard rfl⟩
      intro k' hk' hp'
      obtain rfl := Option.some.inj hk'
      simp at hp'
    | _ => exact ⟨hshut, hclosers, hcoord, hheard rfl⟩
  | _ => exact ⟨hshut, hclosers, hcoord, hheard rfl⟩

theorem State.Reachable.sinkFirst (h : s.Reachable c writer plans) : SinkFirst s :=
  h.induct ⟨fun hs => (nomatch hs), fun _ hx => (nomatch hx), fun _ hk => (nomatch hk),
    fun hs => (nomatch hs)⟩ fun _ _ hr ih hm => ih.move hr hm

/-! ## Nothing before the handle is kept -/

/-- Nothing was claimed, and nothing sent to the sink. -/
def State.Idle (s : State ω) : Prop :=
  s.claims = [] ∧ s.free = false ∧ acceptedIn s.sink.log = []

/-- Before the handle of the coordinator is kept the consumer is idle, and then there is a
coordinator. -/
structure HandleFirst (s : State ω) : Prop where
  idle : s.handle = .absent → s.Idle
  coordinator : s.handle ≠ .absent → s.coordinator.isSome
  starts : .keepingHandle ∈ s.starts → s.coordinator.isSome
  closers : .joiningCoordinator ∈ s.closers → s.handle ≠ .absent

theorem State.Idle.move (h : s.Idle) (hearly : ∀ stage ∈ s.starts, stage.early) (hm : Move c s t) :
    t.Idle := by
  obtain ⟨hclaims, hfree, hacc⟩ := h
  have hnotFree := Bool.eq_false_iff.1 hfree
  cases hm with
  | sinkTake hm => exact ⟨hclaims, hfree, (Sink.State.Silent.take hm).accepted.trans hacc⟩
  | sinkWindUp hm => exact ⟨hclaims, hfree, (Sink.State.Silent.windUp hm).accepted.trans hacc⟩
  | sinkWork hm => exact ⟨hclaims, hfree, (Sink.State.acceptedIn_work hm).trans hacc⟩
  | claim hi _ => simp [hclaims] at hi
  | coordinate _ hm => cases hm <;> exact ⟨hclaims, hfree, hacc⟩
  | close _ _ hm => cases hm <;> exact ⟨hclaims, hfree, hacc⟩
  | start hi hm =>
    have hstage := fun hr => hearly _ (State.mem_starts hi hr)
    cases hm with
    | serveFreely | dispatch => cases hstage rfl
    | release => exact ⟨by simp [State.release, hclaims], hfree, hacc⟩
    | _ => exact ⟨hclaims, hfree, hacc⟩
  | claimFreely hf | feed hf | cutOff hf | leaveSession hf => exact absurd hf hnotFree
  | _ => exact ⟨hclaims, hfree, hacc⟩

/-- A handle that is kept never gets absent again. -/
theorem Move.handle_absent (hm : Move c s t) (h : t.handle = .absent) : s.handle = .absent := by
  cases hm with
  | claim _ hm => cases hm <;> exact h
  | coordinate _ hm => cases hm <;> exact h
  | close _ _ hm =>
    cases hm with
    | takeHandle => cases h
    | _ => exact h
  | start _ hm =>
    cases hm with
    | keepHandle => cases h
    | _ => exact h
  | _ => exact h

theorem Move.coordinator_isSome (hm : Move c s t) (h : s.coordinator.isSome) :
    t.coordinator.isSome := by
  cases hm with
  | claim _ hm => cases hm <;> exact h
  | coordinate _ hm => cases hm <;> rfl
  | close _ _ hm => cases hm <;> exact h
  | start _ hm =>
    cases hm with
    | spawn => rfl
    | _ => exact h
  | _ => exact h

/-- The handle is only kept by the call of `start` that keeps it. -/
theorem Move.handle_kept (hm : Move c s t) (h : s.handle = .absent) :
    t.handle = .absent ∨ .keepingHandle ∈ s.starts ∨ s.handle = .kept := by
  cases hm with
  | claim _ hm => cases hm <;> exact .inl h
  | coordinate _ hm => cases hm <;> exact .inl h
  | close _ _ hm =>
    cases hm with
    | takeHandle hk => exact .inr (.inr hk)
    | _ => exact .inl h
  | start hi hm =>
    cases hm with
    | keepHandle => exact .inr (.inl (State.mem_starts hi rfl))
    | _ => exact .inl h
  | _ => exact .inl h

theorem HandleFirst.move (h : HandleFirst s) (hcalls : Calls s) (hm : Move c s t) :
    HandleFirst t where
  idle := by
    intro ht
    have hs := hm.handle_absent ht
    exact (h.idle hs).move (fun stage hx => (hcalls.early stage hx).2 hs) hm
  coordinator := by
    intro ht
    apply hm.coordinator_isSome
    by_cases hs : s.handle = .absent
    · rcases hm.handle_kept hs with ha | hk | hk
      · exact absurd ha ht
      · exact h.starts hk
      · exact h.coordinator (by rw [hk]; decide)
    · exact h.coordinator hs
  starts := by
    intro hx
    rcases hm.starts _ hx with hx | ⟨e, stage, hx⟩ | ⟨-, hx⟩ | ⟨i, stage, u, -, hstart, rfl⟩
    · exact hm.coordinator_isSome (h.starts hx)
    · cases hx
    · cases hx
    · show u.coordinator.isSome
      generalize hy : Starting.keepingHandle = y at hstart
      cases hstart with
      | spawn => rfl
      | dispatched => split at hy <;> cases hy
      | _ => cases hy
  closers := by
    intro hx ht
    have hs := hm.handle_absent ht
    rcases hm.mem_closers _ hx with hx | ⟨i, task, stage, u, htask, hi, hclose, rfl⟩
    · exact h.closers hx hs
    · generalize hy : Closing.joiningCoordinator = y at hclose
      cases hclose with
      | takeHandle => cases ht
      | _ => cases hy

theorem State.Reachable.handleFirst (h : s.Reachable c writer plans) : HandleFirst s :=
  h.induct ⟨fun _ => ⟨rfl, rfl, rfl⟩, fun hs => absurd rfl hs, fun hx => (nomatch hx),
    fun hx => (nomatch hx)⟩ fun _ _ hr ih hm => ih.move hr.calls hm

/-! ## Nothing is lost -/

/-- The coordinator marks what it takes from the channel. -/
theorem Delivers.move (h : s.sink.Delivers (ackMarkedIn s.log)) (hr : s.Reachable c writer plans)
    (hm : Move c s t) : t.sink.Delivers (ackMarkedIn t.log) := by
  cases hm with
  | sinkTake hm => exact h.of_silent (.take hm)
  | sinkWindUp hm => exact h.of_silent (.windUp hm)
  | sinkWork hm =>
    refine h.work ?_ hm
    by_cases hs : s.sink.acksHeard
    · exact hs
    · exact absurd (hr.sinkFirst.heard (Bool.eq_false_iff.2 hs)) (Sink.State.live_of_work hm)
  | claim _ hm =>
    cases hm with
    | send _ hm => exact h.offer hm
    | skip | decode | abandon =>
      simp only [State.setClaim, State.record, ackMarkedIn_concat, List.append_nil]
      exact h
    | _ => exact h
  | coordinate _ hm =>
    cases hm with
    | mark _ ha =>
      simp only [State.setCoordinator, ackMarkedIn_mark]
      exact h.takeAck ha
    | stop _ ha =>
      have he := h.emitted
      rw [ha] at he
      exact ⟨he, h.heard⟩
    | _ => exact ⟨h.emitted, h.heard⟩
  | close _ _ hm =>
    cases hm with
    | begin | leaveGroup | publish => simpa [State.become, State.record] using h
    | _ => exact ⟨h.emitted, h.heard⟩
  | start _ hm =>
    cases hm with
    | begin => simpa [State.become, State.record] using h
    | serveNothing | serve | serveFreely | sessionFails | sessionBreaksOff =>
      simpa [State.nextSession, State.record] using h
    | _ => exact h
  | _ => exact h

theorem State.Reachable.delivers (h : s.Reachable c writer plans) :
    s.sink.Delivers (ackMarkedIn s.log) :=
  State.Reachable.induct (P := fun s => s.sink.Delivers (ackMarkedIn s.log)) h
    ⟨rfl, fun _ hx => (nomatch hx)⟩ fun _ _ hr ih hm => Delivers.move ih hr hm

/-! ## Nothing is left -/

/-- The sink stopped, and nothing is left in its channels. -/
def State.Quiet (s : State ω) : Prop :=
  s.sink.phase = .stopped ∧ s.sink.ack = none ∧ s.sink.error = none

theorem State.Quiet.move (h : s.Quiet) (hr : s.Reachable c writer plans) (hm : Move c s t) :
    t.Quiet := by
  obtain ⟨h1, -, hack, herror⟩ := hm.sink_of_stopped hr h.1
  refine ⟨h1, ?_, ?_⟩
  · rcases hack with hack | hack
    · exact hack.trans h.2.1
    · exact hack
  · rcases herror with herror | herror
    · exact herror.trans h.2.2
    · exact herror

/-- A coordinator that stopped has emptied the channels. -/
theorem State.Reachable.quiet_of_coordinator (h : s.Reachable c writer plans) :
    ∀ k, s.coordinator = some k → k.poll = .stopped → s.Quiet := by
  refine State.Reachable.induct
    (P := fun s => ∀ k, s.coordinator = some k → k.poll = .stopped → s.Quiet) h
    (fun _ hk => (nomatch hk)) ?_
  intro s t hr ih hm k hk hp
  have hsame (he : t.coordinator = s.coordinator) : t.Quiet :=
    (ih k (he ▸ hk) hp).move hr hm
  cases hm with
  | claim _ hm => cases hm <;> exact hsame rfl
  | coordinate hk' hm =>
    cases hm with
    | mark hp' =>
      obtain rfl := Option.some.inj hk
      rcases hp' with hp' | hp' <;> simp [hp] at hp'
    | fail | countBrokerError =>
      obtain rfl := Option.some.inj hk
      cases hp
    | look _ _ hne =>
      obtain rfl := Option.some.inj hk
      exact absurd hp hne
    | stop hp' => exact ⟨hr.sinkFirst.coordinator _ hk' (.inl hp'), rfl, rfl⟩
  | close _ _ hm => cases hm <;> exact hsame rfl
  | start _ hm =>
    cases hm with
    | spawn =>
      obtain rfl := Option.some.inj hk
      cases hp
    | _ => exact hsame rfl
  | _ => exact hsame rfl

/-- Whether a call of `close` has only to leave the group and say so. -/
def Closing.alone : Closing → Bool
  | .leavingGroup | .publishing _ => true
  | _ => false

theorem State.Reachable.quiet_of_closers (h : s.Reachable c writer plans) :
    ∀ stage ∈ s.closers, stage.alone → s.Quiet := by
  refine State.Reachable.induct (P := fun s => ∀ stage ∈ s.closers, stage.alone → s.Quiet) h
    (fun _ hx => (nomatch hx)) ?_
  intro s t hr ih hm
  have hmove := fun hq : s.Quiet => hq.move hr hm
  intro x hx hd
  rcases hm.mem_closers x hx with hx | ⟨i, task, stage, u, htask, hi, hclose, rfl⟩
  · exact hmove (ih x hx hd)
  · cases hclose with
    | noHandle hk =>
      -- the handle was never kept, so the sink took no message
      have hmem := htask.mem_closers hi rfl
      have habsent : s.handle = .absent := by
        cases hh : s.handle with
        | absent => rfl
        | kept => exact absurd hh hk
        | taken => exact absurd ((hr.calls.taken hh).2 _ hmem) (by decide)
      have hnone := (hr.handleFirst.idle habsent).2.2
      refine hmove ⟨hr.sinkFirst.closers _ hmem rfl, ?_, hr.sink.error_eq_none hnone⟩
      have hnil := hr.sink.emittedIn_eq_nil hnone
      rw [hr.delivers.emitted] at hnil
      simpa using (List.append_eq_nil_iff.1 hnil).2
    | coordinatorStopped hk =>
      have hkept := hr.handleFirst.closers (htask.mem_closers hi rfl)
      obtain ⟨k, hs⟩ := Option.isSome_iff_exists.1 (hr.handleFirst.coordinator hkept)
      refine hmove (hr.quiet_of_coordinator k hs ?_)
      simpa [State.coordinatorStopped, hs] using hk
    | leaveGroup => exact hmove (ih _ (htask.mem_closers hi rfl) rfl)
    | begin | join | joined | stopSink | sinkStopped | cancel | claimsFinished | takeHandle
    | publish => cases hd

/-! ## Closed -/

/-- Whether something is the marking of an acknowledgment or of an offset. -/
def Happening.isMark : Happening → Bool
  | .marked _ | .ackMarked _ => true
  | _ => false

/-- A consumer gets closed by a call of `close` that has nothing else left to do. -/
theorem Move.closed (hm : Move c s t) (h : t.lifecycle = .closed) :
    s.lifecycle = .closed ∨ ∃ stage ∈ s.closers, stage.alone := by
  cases hm with
  | claim _ hm => cases hm <;> exact .inl h
  | coordinate _ hm => cases hm <;> exact .inl h
  | close htask hi hm =>
    cases hm with
    | begin => cases h
    | publish => exact .inr ⟨_, htask.mem_closers hi rfl, rfl⟩
    | _ => exact .inl h
  | start _ hm =>
    cases hm with
    | begin => cases h
    | _ => exact .inl h
  | _ => exact .inl h

theorem State.Reachable.quiet_of_closed (h : s.Reachable c writer plans) :
    s.lifecycle = .closed → s.Quiet := by
  refine State.Reachable.induct (P := fun s => s.lifecycle = .closed → s.Quiet) h
    (fun hl => (nomatch hl)) ?_
  intro s t hr ih hm ht
  rcases hm.closed ht with hs | ⟨stage, hmem, halone⟩
  · exact (ih hs).move hr hm
  · exact (hr.quiet_of_closers stage hmem halone).move hr hm

/-- What is added to the log: the marks of an acknowledgment in the channel of the sink and no
others, and that the consumer is closed only if it is. -/
structure State.Adds (c : Setup ω) (s t : State ω) (more : List Happening) : Prop where
  log : t.log = s.log ++ more
  marks : (∃ x ∈ more, x.isMark) → ∃ a, s.sink.ack = some a ∧
    more = .ackMarked a :: (a.mark c.refuses).map .marked
  closes : .became .closed ∈ more → more = [.became .closed] ∧ t.lifecycle = .closed
  closed : s.lifecycle = .closed → t.lifecycle = .closed

theorem Move.adds (hm : Move c s t) : ∃ more, s.Adds c t more := by
  have hnothing (hlog : t.log = s.log) (hl : s.lifecycle = .closed → t.lifecycle = .closed) :
      ∃ more, s.Adds c t more := ⟨[], by simpa using hlog, by simp, by simp, hl⟩
  have hother {x : Happening} (hlog : t.log = s.log ++ [x]) (hx : x.isMark = false)
      (hne : .became .closed ≠ x) (hl : s.lifecycle = .closed → t.lifecycle = .closed) :
      ∃ more, s.Adds c t more := ⟨[x], hlog, by simp [hx], by simp [hne], hl⟩
  cases hm with
  | claim _ hm =>
    cases hm with
    | @skip d => exact ⟨[.consumed d, .undecodable d], List.append_assoc _ _ _,
        by simp [Happening.isMark], by simp, id⟩
    | decode | abandon => exact hother rfl rfl (by simp) id
    | _ => exact hnothing rfl id
  | coordinate _ hm =>
    cases hm with
    | @mark a _ ha =>
      exact ⟨.ackMarked a :: (a.mark c.refuses).map .marked, rfl, fun _ => ⟨a, ha, rfl⟩, by simp,
        id⟩
    | _ => exact hnothing rfl id
  | close _ _ hm =>
    cases hm with
    | begin hl =>
      refine hother rfl rfl (by simp) fun hs => ?_
      rcases hl with hl | hl <;> simp [hl] at hs
    | leaveGroup => exact hother rfl rfl (by simp) id
    | publish => exact ⟨[.became .closed], rfl, by simp [Happening.isMark], fun _ => ⟨rfl, rfl⟩,
        fun _ => rfl⟩
    | _ => exact hnothing rfl id
  | start _ hm =>
    cases hm with
    | begin hl => exact hother rfl rfl (by simp) fun hs => by simp [hl] at hs
    | serveNothing | serve | serveFreely | sessionFails | sessionBreaksOff =>
      exact hother rfl rfl (by simp) id
    | _ => exact hnothing rfl id
  | _ => exact hnothing rfl id

/-- Every offset reported is one of a marked acknowledgment, in the order of marking. -/
theorem State.Reachable.attempts_eq (h : s.Reachable c writer plans) :
    s.attempts = (ackMarkedIn s.log).flatMap (Ack.mark c.refuses) := by
  refine State.Reachable.induct
    (P := fun s => s.attempts = (ackMarkedIn s.log).flatMap (Ack.mark c.refuses)) h rfl ?_
  intro s t _ ih hm
  obtain ⟨more, hmore⟩ := hm.adds
  rw [State.attempts, hmore.log, List.filterMap_append, ackMarkedIn_append, List.flatMap_append]
  refine congr (congrArg _ ih) ?_
  by_cases hmark : ∃ x ∈ more, x.isMark
  · obtain ⟨a, -, rfl⟩ := hmore.marks hmark
    have hattempts (l : List Attempt) :
        State.attempts { s with log := l.map Happening.marked } = l := by
      induction l with
      | nil => rfl
      | cons x l ih => exact congrArg (x :: ·) ih
    rw [ackMarkedIn_one, List.flatMap_singleton]
    exact hattempts (a.mark c.refuses)
  · have hnone : ∀ x ∈ more, x.isMark = false := by
      intro x hx
      exact Bool.eq_false_iff.2 fun hm => hmark ⟨x, hx, hm⟩
    rw [List.filterMap_eq_nil_iff.2, ackMarkedIn, List.filterMap_eq_nil_iff.2]
    · rfl
    · intro x hx
      cases x <;> first | rfl | cases hnone _ hx
    · intro x hx
      cases x <;> first | rfl | cases hnone _ hx

/-- Once the consumer is closed it stays so, and nothing is marked any more. -/
theorem State.Reachable.no_mark_after_closed (h : s.Reachable c writer plans) :
    ∀ before after, s.log = before ++ .became .closed :: after →
      s.lifecycle = .closed ∧ ∀ x ∈ after, x.isMark = false := by
  refine State.Reachable.induct (P := fun s => ∀ before after,
    s.log = before ++ .became .closed :: after →
      s.lifecycle = .closed ∧ ∀ x ∈ after, x.isMark = false) h (by simp [State.initial]) ?_
  intro s t hr ih hm before after hlog
  obtain ⟨more, hmore⟩ := hm.adds
  rw [hmore.log] at hlog
  have hfresh (hin : more = .became .closed :: after) :
      t.lifecycle = .closed ∧ ∀ x ∈ after, x.isMark = false := by
    obtain ⟨hone, hl⟩ := hmore.closes (by rw [hin]; exact List.mem_cons_self)
    rw [hone] at hin
    obtain rfl := (List.cons.inj hin).2
    exact ⟨hl, fun _ hx => (nomatch hx)⟩
  rcases List.append_eq_append_iff.1 hlog with ⟨as, -, has⟩ | ⟨bs, hbs, hafter⟩
  · -- among what was added, which is then nothing else
    obtain ⟨hone, -⟩ := hmore.closes (by rw [has]; simp)
    have hnil : as = [] := by
      have hlen := congrArg List.length (hone.symm.trans has)
      rw [List.length_append, List.length_singleton, List.length_cons] at hlen
      exact List.eq_nil_of_length_eq_zero (by omega)
    exact hfresh (by rw [has, hnil]; rfl)
  · cases bs with
    | nil => exact hfresh hafter.symm
    | cons b bs =>
      -- added before: the channel is empty, so that nothing more is marked
      obtain ⟨rfl, rfl⟩ := List.cons.inj hafter
      obtain ⟨hl, hold⟩ := ih before bs hbs
      refine ⟨hmore.closed hl, fun x hx => ?_⟩
      rcases List.mem_append.1 hx with hx | hx
      · exact hold x hx
      · by_cases hmark : x.isMark
        · obtain ⟨a, hack, -⟩ := hmore.marks ⟨x, hx, hmark⟩
          rw [(hr.quiet_of_closed hl).2.1] at hack
          cases hack
        · exact Bool.eq_false_iff.2 hmark

/-- Whatever the group, the writer and the callers do: the sink is always heard, all it sent on is
marked once and in order when the consumer gets closed, and nothing is marked from then on. -/
theorem State.Reachable.acks_marked_once (h : s.Reachable c writer plans) :
    (∀ a, .unheard a ∉ s.sink.log) ∧
      (s.lifecycle = .closed → ackMarkedIn s.log = emittedIn s.sink.log) ∧
      ∀ before after, s.log = before ++ .became .closed :: after →
        ∀ x ∈ after, x.isMark = false := by
  refine ⟨h.delivers.heard, fun hl => ?_, fun before after hlog => ?_⟩
  · have hemitted := h.delivers.emitted
    rw [(h.quiet_of_closed hl).2.1] at hemitted
    simpa using hemitted.symm
  · exact (h.no_mark_after_closed before after hlog).2

/-- A consumer whose sink holds back a single byte, and whose second flush fails. -/
def failsSecondFlush : Setup Writer.Calls where
  sink :=
    { marshal := fun _ _ => .ok [0]
      writer := Writer.scripted { failFlush := some 2 }
      options := .of 2 1 }
  decode _ := .ok .default
  refuses _ _ := false
  closeError := none

/-- Two messages of one partition. -/
def twoMessages : List Plan :=
  [.serve [(⟨"events", 0⟩, [⟨⟨"events", 0⟩, 1, some []⟩, ⟨⟨"events", 0⟩, 2, some []⟩])]]

/-- What comes of a call of `start` for two messages. -/
def afterStart : State Writer.Calls :=
  State.settle failsSecondFlush 60
    { State.initial {} twoMessages with tasks := [.start .entering] }

/-- What comes of a call of `close` after that. -/
def afterClose : State Writer.Calls :=
  State.settle failsSecondFlush 60
    { afterStart with tasks := afterStart.tasks ++ [.close .entering] }

theorem afterStart_reachable : afterStart.Reachable failsSecondFlush {} twoMessages :=
  .settle (.step (a := .callStart) .initial rfl) 60

theorem afterClose_reachable : afterClose.Reachable failsSecondFlush {} twoMessages :=
  .settle (.step (a := .callClose) afterStart_reachable rfl) 60

theorem acks_marked_once_afterClose : afterClose.lifecycle = .closed ∧
    .failed (.write "cannot sync") ∈ afterClose.sink.log ∧
    (emittedIn afterClose.sink.log).length = 1 ∧
    ackMarkedIn afterClose.log = emittedIn afterClose.sink.log := by
  have hclosed : afterClose.lifecycle = .closed := by decide
  exact ⟨hclosed, by decide, by decide, afterClose_reachable.acks_marked_once.2.1 hclosed⟩

end EventPipeline.Consumer
