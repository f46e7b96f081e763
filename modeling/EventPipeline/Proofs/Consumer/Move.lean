import EventPipeline.Consumer.System
import EventPipeline.Proofs.Sink.Channel
/-!
# Moves of a consumer

What a step of a consumer comes to, case by case, with what it requires: of the sink, of
a claim, of the coordinator, of the calls under way and of a free group. Every action is
one of these moves (`Move.of_step`), so what all moves preserve holds of every
consumer that comes about.
-/
namespace EventPipeline.Consumer

variable {ω : Type} {c : Setup ω} {s t : State ω}

/-! ## The parts of a consumer -/

/-- What the claim with number `i` does. -/
inductive ClaimMove (c : Setup ω) (s : State ω) (i : Nat) (claim : Claim) : State ω → Prop
  | skip {d : Delivery} {rest : List Delivery} {e : DecodeError} :
    claim.phase = .receiving → claim.waiting = d :: rest → c.event d = .error e →
    ClaimMove c s i claim
      (State.setClaim
        { s with
          intake :=
            { s.intake with
              messagesConsumed := s.intake.messagesConsumed + 1
              decodeErrors := s.intake.decodeErrors + 1 }
          log := s.log ++ [.consumed d] ++ [.undecodable d] } i { claim with waiting := rest })
  | decode {d : Delivery} {rest : List Delivery} {event : Event} :
    claim.phase = .receiving → claim.waiting = d :: rest → c.event d = .ok event →
    ClaimMove c s i claim
      (State.setClaim
        { s with
          intake := { s.intake with messagesConsumed := s.intake.messagesConsumed + 1 }
          log := s.log ++ [.consumed d] } i
        { claim with
          waiting := rest
          phase := .sending ⟨d.key.topic, event, .ofMessage claim.session d.key d.offset⟩ })
  | finish : claim.phase = .receiving → claim.waiting = [] → claim.fed = false →
    ClaimMove c s i claim (s.setClaim i { claim with phase := .finished })
  | send {m : Sink.Message} {sink : Sink.State ω} :
    claim.phase = .sending m → s.sink.offer c.sink m = some sink →
    ClaimMove c s i claim ({ s with sink := sink }.setClaim i { claim with phase := .receiving })
  | drop : claim.phase = .receiving → (s.shutdown ∨ s.free) →
    ClaimMove c s i claim (s.setClaim i { claim with phase := .finished })
  | abandon {m : Sink.Message} : claim.phase = .sending m →
    (s.shutdown ∨ s.free ∨ s.sink.inputOpen = false) →
    ClaimMove c s i claim ((s.record (.abandoned m)).setClaim i { claim with phase := .finished })

/-- What the coordinator knows of the sink as it looks on from `k` to `k'`. It goes past the error
only where there is none, and only takes a channel to be closed once the sink stopped. -/
structure Coordinator.LooksOn (s : State ω) (k k' : Coordinator) : Prop where
  past : k'.poll = .brokerErrors → k.sinkErrorOpen = false ∨ s.sink.error = none
  toShutdown : k'.poll = .shutdown → k.poll = .brokerErrors
  toDraining : k'.poll = .draining → k.poll = .shutdown
  drains : k.poll = .shutdown → s.shutdown → k'.poll = .draining
  closed : k'.sinkErrorOpen = false →
    k.sinkErrorOpen = false ∨ s.sink.error = none ∧ s.sink.phase = .stopped
  acksClosed : k'.acksOpen = false → k.acksOpen = false ∨ s.sink.phase = .stopped

/-- What the coordinator does. -/
inductive CoordinatorMove (c : Setup ω) (s : State ω) (k : Coordinator) : State ω → Prop
  | mark {a : Ack} : k.poll = .acks ∨ k.poll = .draining → s.sink.ack = some a →
    CoordinatorMove c s k
      ((State.mark c { s with sink := { s.sink with ack := none } } a).setCoordinator k)
  | fail {e : Sink.SinkError} : k.poll = .sinkError → s.sink.error = some e →
    CoordinatorMove c s k
      (State.setCoordinator
        { s with
          sink := { s.sink with error := none }
          failure := some e
          tasks := s.tasks ++ [.closeAfterFailure .entering] } { k with poll := .draining })
  | countBrokerError : k.poll = .brokerErrors →
    CoordinatorMove c s k
      (State.setCoordinator
        { s with
          brokerErrors := s.brokerErrors - 1
          brokerErrorCount := s.brokerErrorCount + 1 } { k with poll := .acks })
  | look {k' : Coordinator} : k.poll ≠ .draining → k.poll ≠ .stopped → k'.poll ≠ .stopped →
    (k'.poll = .draining → s.shutdown) → k.LooksOn s k' →
    CoordinatorMove c s k (s.setCoordinator k')
  | stop : k.poll = .draining → s.sink.ack = none →
    CoordinatorMove c s k
      (State.setCoordinator { s with sink := s.sink.muteAcks.muteErrors }
        { k with poll := .stopped })

/-- What a call of `close` does. -/
inductive CloseMove (c : Setup ω) (s : State ω) : Closing → Closing → State ω → Prop
  | begin : s.lifecycle = .created ∨ s.lifecycle = .running →
    CloseMove c s .entering .stoppingSink (s.become .closing)
  | join : s.lifecycle = .closing ∨ s.lifecycle = .closed → CloseMove c s .entering .waiting s
  | joined : s.lifecycle = .closed → CloseMove c s .waiting (.returned none) s
  | stopSink : CloseMove c s .stoppingSink .joiningSink { s with sink := s.sink.askStop }
  | sinkStopped : s.sink.stopped → CloseMove c s .joiningSink .cancelling s
  | cancel : CloseMove c s .cancelling .awaitingClaims { s with shutdown := true }
  | claimsFinished : s.finished (fun _ => true) → CloseMove c s .awaitingClaims .takingHandle s
  | takeHandle : s.handle = .kept →
    CloseMove c s .takingHandle .joiningCoordinator { s with handle := .taken }
  | noHandle : s.handle ≠ .kept → CloseMove c s .takingHandle .leavingGroup s
  | coordinatorStopped : s.coordinatorStopped →
    CloseMove c s .joiningCoordinator .leavingGroup s
  | leaveGroup : CloseMove c s .leavingGroup (.publishing c.closeError)
    ({ s with groupClosed := s.groupClosed + 1 }.record .groupClosed)
  | publish {result : Option GroupError} :
    CloseMove c s (.publishing result) (.returned result) (s.become .closed)

/-- The consumer in its next session, with the sessions planned behind it. -/
def State.nextSession (s : State ω) (plans : List Plan) : State ω :=
  { s with sessions := s.sessions + 1, plans := plans }.record (.sessionBegun (s.sessions + 1))

/-- What a call of `start` does, as long as it does not close the consumer. -/
inductive StartMove (s : State ω) : Starting → Starting → State ω → Prop
  | begin : s.lifecycle = .created → StartMove s .entering .takingReceivers (s.become .running)
  | refuse : s.lifecycle ≠ .created →
    StartMove s .entering (.returned (some .alreadyStarted)) s
  | takeReceivers : s.receiversHeld →
    StartMove s .takingReceivers (.spawning s.brokerErrorsHeld)
      { s with receiversHeld := false, brokerErrorsHeld := false }
  | missReceivers : s.receiversHeld = false →
    StartMove s .takingReceivers (.returned (some .alreadyStarted)) s
  | spawn {brokerErrors : Bool} :
    StartMove s (.spawning brokerErrors) .keepingHandle
      (s.setCoordinator ⟨.acks, true, true, brokerErrors⟩)
  | keepHandle : StartMove s .keepingHandle .checking { s with handle := .kept }
  | shutDown : s.shutdown → StartMove s .checking (.waiting none) s
  | goOn : s.shutdown = false → StartMove s .checking .consuming s
  | serveNothing : s.plans = [] →
    StartMove s .consuming (.dispatching (s.sessions + 1) [] false) (s.nextSession s.plans)
  | serve {claims : List (Key × List Delivery)} {rest : List Plan} :
    s.plans = .serve claims :: rest →
    StartMove s .consuming (.dispatching (s.sessions + 1) claims (!rest.isEmpty))
      (s.nextSession rest)
  | serveFreely {rest : List Plan} : s.plans = .free :: rest →
    StartMove s .consuming .inSession { s.nextSession rest with free := true }
  | sessionFails {e : GroupError} {rest : List Plan} : s.plans = .fail e :: rest →
    StartMove s .consuming (.closing e .entering) (s.nextSession rest)
  | sessionBreaksOff {rest : List Plan} : s.plans = .breakOff :: rest →
    StartMove s .consuming .brokenOff (s.nextSession rest)
  | dispatch {session : Nat} {key : Key} {waiting : List Delivery}
      {rest : List (Key × List Delivery)} {ends : Bool} :
    StartMove s (.dispatching session ((key, waiting) :: rest) ends)
      (.dispatching session rest ends)
      { s with claims := s.claims ++ [⟨session, key, waiting, true, .receiving⟩] }
  | dispatched {session : Nat} {ends : Bool} :
    StartMove s (.dispatching session [] ends)
      (if ends then .releasing session else .awaitingShutdown session) s
  | seeShutdown {session : Nat} : s.shutdown →
    StartMove s (.awaitingShutdown session) (.releasing session) s
  | release {session : Nat} :
    StartMove s (.releasing session) (.joiningClaims session) (s.release session)
  | claimsFinished {session : Nat} : s.finished (fun n => n = session) →
    StartMove s (.joiningClaims session) .checking s
  | closed {e : GroupError} : StartMove s (.closing e (.returned none)) (.waiting (some e)) s
  | closeFailed {e g : GroupError} :
    StartMove s (.closing e (.returned (some g))) (.returned (some (.group g))) s
  | waited {result : Option GroupError} : s.lifecycle = .closed →
    StartMove s (.waiting result) (.collecting result) s
  | collect {result : Option GroupError} :
    StartMove s (.collecting result) (.returned (State.outcome s.failure result))
      { s with failure := none }

/-- The tasks that close the consumer, whoever called for it. -/
inductive Task.Closes : (Closing → Task) → Prop
  | caller : Closes .close
  | coordinator : Closes .closeAfterFailure
  | start (e : GroupError) : Closes (fun stage => .start (.closing e stage))

/-! ## A step is a move -/

theorem ClaimMove.of_receive {i : Nat} {claim : Claim} (h : s.claimReceive c i claim = some t) :
    ClaimMove c s i claim t := by
  unfold State.claimReceive at h
  split at h
  next d rest hp hw =>
    dsimp only at h
    split at h
    next e he => cases h; exact .skip hp hw he
    next event he => cases h; exact .decode hp hw he
  next hp hw =>
    split at h
    next => cases h
    next hfed => cases h; exact .finish hp hw (Bool.eq_false_iff.2 hfed)
  next => cases h

theorem ClaimMove.of_drop {i : Nat} {claim : Claim} (h : s.claimDrop i claim = some t)
    (hmay : s.shutdown ∨ s.free) : ClaimMove c s i claim t := by
  unfold State.claimDrop at h
  split at h
  next hp => cases h; exact .drop hp hmay
  next m hp => cases h; exact .abandon hp (hmay.imp_right .inl)
  next => cases h

theorem ClaimMove.of_send {i : Nat} {claim : Claim} (h : s.claimSend c i claim = some t) :
    ClaimMove c s i claim t := by
  unfold State.claimSend at h
  split at h
  next m hp =>
    split at h
    next =>
      obtain ⟨sink, hs, rfl⟩ := Option.map_eq_some_iff.1 h
      exact .send hp hs
    next hopen => cases h; exact .abandon hp (.inr (.inr (Bool.eq_false_iff.2 hopen)))
  next => cases h

theorem ClaimMove.of_leave {i : Nat} {claim : Claim} (h : s.claimLeave i claim = some t) :
    ClaimMove c s i claim t := by
  unfold State.claimLeave at h
  split at h
  next hs => exact .of_drop h (.inl hs)
  next => cases h

theorem CoordinatorMove.of_coordinate (h : s.coordinate c = some t) :
    ∃ k, s.coordinator = some k ∧ CoordinatorMove c s k t := by
  unfold State.coordinate at h
  split at h
  next => cases h
  next k hk =>
    refine ⟨k, hk, ?_⟩
    -- what is to be shown of a look that is not the one for shutdown
    have hlook {k' : Coordinator}
        (hp : k.poll ≠ .draining ∧ k.poll ≠ .stopped ∧ k.poll ≠ .shutdown)
        (hp' : k'.poll ≠ .draining ∧ k'.poll ≠ .stopped)
        (hpast : k'.poll = .brokerErrors → k.sinkErrorOpen = false ∨ s.sink.error = none)
        (hshut : k'.poll = .shutdown → k.poll = .brokerErrors)
        (hclosed : k'.sinkErrorOpen = false →
          k.sinkErrorOpen = false ∨ s.sink.error = none ∧ s.sink.phase = .stopped)
        (hacks : k'.acksOpen = false → k.acksOpen = false ∨ s.sink.phase = .stopped) :
        CoordinatorMove c s k (s.setCoordinator k') :=
      .look hp.1 hp.2.1 hp'.2 (fun h => absurd h hp'.1)
        ⟨hpast, hshut, fun h => absurd h hp'.1, fun h => absurd h hp.2.2, hclosed, hacks⟩
    split at h
    next hp =>
      cases h
      unfold State.pollAcks
      split
      next => exact hlook (by simp [hp]) (by simp) (by simp) (by simp) .inl .inl
      next =>
        split
        next a sink ha =>
          obtain ⟨a, hs, he⟩ := Option.map_eq_some_iff.1 ha
          cases he
          rw [← hp]
          exact .mark (.inl hp) hs
        next =>
          split
          next hstop =>
            exact hlook (by simp [hp]) (by simp) (by simp) (by simp) .inl
              fun _ => .inr (of_decide_eq_true hstop)
          next => exact hlook (by simp [hp]) (by simp) (by simp) (by simp) .inl .inl
    next hp =>
      cases h
      unfold State.pollSinkError
      split
      next hopen =>
        have hclosed : k.sinkErrorOpen = false := by simpa using hopen
        exact hlook (by simp [hp]) (by simp) (fun _ => .inl hclosed) (by simp) .inl .inl
      next =>
        split
        next e sink he =>
          obtain ⟨e, hs, he⟩ := Option.map_eq_some_iff.1 he
          cases he
          exact .fail hp hs
        next hnone =>
          have hnone : s.sink.error = none := Option.map_eq_none_iff.1 hnone
          split
          next hstop =>
            exact hlook (by simp [hp]) (by simp) (by simp) (by simp)
              (fun _ => .inr ⟨hnone, of_decide_eq_true hstop⟩) .inl
          next =>
            exact hlook (by simp [hp]) (by simp) (fun _ => .inr hnone) (by simp) .inl .inl
    next hp =>
      cases h
      unfold State.pollBrokerErrors
      split
      next => exact .countBrokerError hp
      next => exact hlook (by simp [hp]) (by simp) (by simp) (fun _ => hp) .inl .inl
    next hp =>
      cases h
      refine .look (by simp [hp]) (by simp [hp]) ?_ ?_ ⟨?_, ?_, fun _ => hp, ?_, .inl, .inl⟩
      · dsimp only
        split <;> simp
      · dsimp only
        split
        next hs => exact fun _ => hs
        next => simp
      · dsimp only
        split <;> simp
      · dsimp only
        split <;> simp
      · exact fun _ hs => if_pos hs
    next hp =>
      split at h
      next => cases h; exact hlook (by simp [hp]) (by simp) (by simp) (by simp) .inl .inl
      next => cases h
    next hp =>
      cases h
      unfold State.drain
      split
      next a sink ha =>
        obtain ⟨a, hs, he⟩ := Option.map_eq_some_iff.1 ha
        cases he
        exact .mark (.inr hp) hs
      next ha => exact .stop hp (Option.map_eq_none_iff.1 ha)
    next => cases h

theorem CloseMove.of_close {stage stage' : Closing} (h : s.close c stage = some (stage', t)) :
    CloseMove c s stage stage' t := by
  unfold State.close at h
  split at h
  next =>
    split at h
    next hl => cases h; exact .begin (.inl hl)
    next hl => cases h; exact .begin (.inr hl)
    next hl => cases h; exact .join (.inl hl)
    next hl => cases h; exact .join (.inr hl)
  next =>
    split at h
    next hl => cases h; exact .joined hl
    next => cases h
  next => cases h; exact .stopSink
  next =>
    split at h
    next hs => cases h; exact .sinkStopped hs
    next => cases h
  next => cases h; exact .cancel
  next =>
    split at h
    next hf => cases h; exact .claimsFinished hf
    next => cases h
  next =>
    split at h
    next hk => cases h; exact .takeHandle hk
    next hk => cases h; exact .noHandle hk
  next =>
    split at h
    next hk => cases h; exact .coordinatorStopped hk
    next => cases h
  next => cases h; exact .leaveGroup
  next => cases h; exact .publish
  next => cases h

theorem StartMove.of_beginSession {stage : Starting} (h : s.beginSession = (stage, t)) :
    StartMove s .consuming stage t := by
  unfold State.beginSession at h
  dsimp only [State.record] at h
  split at h
  next hp => cases h; exact .serveNothing hp
  next hp => cases h; exact .sessionBreaksOff hp
  next hp => cases h; exact .sessionFails hp
  next hp => cases h; exact .serve hp
  next hp => cases h; exact .serveFreely hp

/-- A call of `start` makes a move of its own, or one of the close it is in. -/
theorem StartMove.of_start {stage stage' : Starting} (h : s.start c stage = some (stage', t)) :
    StartMove s stage stage' t ∨ ∃ e closing closing', stage = .closing e closing ∧
      stage' = .closing e closing' ∧ CloseMove c s closing closing' t := by
  unfold State.start at h
  split at h
  next =>
    split at h
    next hl => cases h; exact .inl (.begin hl)
    next hl => cases h; exact .inl (.refuse hl)
  next =>
    split at h
    next hr => cases h; exact .inl (.takeReceivers hr)
    next hr => cases h; exact .inl (.missReceivers (Bool.eq_false_iff.2 hr))
  next => cases h; exact .inl .spawn
  next => cases h; exact .inl .keepHandle
  next =>
    cases h
    split
    next hs => exact .inl (.shutDown hs)
    next hs => exact .inl (.goOn (Bool.eq_false_iff.2 hs))
  next => exact .inl (.of_beginSession (Option.some.inj h))
  next => cases h; exact .inl .dispatched
  next => cases h; exact .inl .dispatch
  next =>
    split at h
    next hs => cases h; exact .inl (.seeShutdown hs)
    next => cases h
  next => cases h; exact .inl .release
  next =>
    split at h
    next hf => cases h; exact .inl (.claimsFinished hf)
    next => cases h
  next => cases h; exact .inl .closed
  next => cases h; exact .inl .closeFailed
  next e closing _ _ =>
    obtain ⟨⟨closing', u⟩, hc, he⟩ := Option.map_eq_some_iff.1 h
    cases he
    exact .inr ⟨e, closing, closing', rfl, rfl, .of_close hc⟩
  next =>
    split at h
    next hl => cases h; exact .inl (.waited hl)
    next => cases h
  next => cases h; exact .inl .collect
  next => cases h
  next => cases h
  next => cases h

/-! ## Moves -/

/-- One move of a consumer or of those who use it. -/
inductive Move (c : Setup ω) (s : State ω) : State ω → Prop
  | sinkTake {sink : Sink.State ω} : s.sink.take c.sink = some sink →
    Move c s { s with sink := sink }
  | sinkWindUp {sink : Sink.State ω} : s.sink.windUp c.sink = some sink →
    Move c s { s with sink := sink }
  | sinkWork {sink : Sink.State ω} : s.sink.work c.sink = some sink →
    Move c s { s with sink := sink }
  | claim {i : Nat} {claim : Claim} {t : State ω} : s.claims[i]? = some claim →
    ClaimMove c s i claim t → Move c s t
  | coordinate {k : Coordinator} {t : State ω} : s.coordinator = some k →
    CoordinatorMove c s k t → Move c s t
  | close {i : Nat} {task : Closing → Task} {stage stage' : Closing} {u : State ω} :
    Task.Closes task → s.tasks[i]? = some (task stage) → CloseMove c s stage stage' u →
    Move c s { u with tasks := u.tasks.set i (task stage') }
  | start {i : Nat} {stage stage' : Starting} {u : State ω} :
    s.tasks[i]? = some (.start stage) → StartMove s stage stage' u →
    Move c s { u with tasks := u.tasks.set i (.start stage') }
  | claimFreely {session : Nat} {key : Key} : s.free →
    Move c s { s with claims := s.claims ++ [⟨session, key, [], true, .receiving⟩] }
  | feed {i : Nat} {claim : Claim} {d : Delivery} : s.free → s.claims[i]? = some claim →
    claim.fed → Move c s (s.setClaim i { claim with waiting := claim.waiting ++ [d] })
  | cutOff {i : Nat} {claim : Claim} : s.free → s.claims[i]? = some claim →
    Move c s (s.setClaim i { claim with fed := false })
  | leaveSession {i : Nat} {stage : Starting} : s.free →
    s.tasks[i]? = some (.start .inSession) →
    (stage = .checking ∨ stage = .brokenOff ∨ ∃ e, stage = .closing e .entering) →
    Move c s { s with tasks := s.tasks.set i (.start stage) }
  | callStart : Move c s { s with tasks := s.tasks ++ [.start .entering] }
  | callClose : Move c s { s with tasks := s.tasks ++ [.close .entering] }
  | reportBrokerError : Move c s { s with brokerErrors := s.brokerErrors + 1 }
  | takeBrokerErrors : Move c s { s with brokerErrorsHeld := false }

theorem Move.of_leaveSession {i : Nat} {stage : Starting} (hfree : s.free)
    (h : s.leaveSession i stage = some t)
    (hstage : stage = .checking ∨ stage = .brokenOff ∨ ∃ e, stage = .closing e .entering) :
    Move c s t := by
  unfold State.leaveSession at h
  split at h
  next hi => cases h; exact .leaveSession hfree hi hstage
  next => cases h

theorem Move.of_groupMove {m : GroupMove} (h : s.groupMove m = some t) : Move c s t := by
  unfold State.groupMove at h
  split at h
  next => cases h
  next hfree =>
    have hfree : s.free := by simpa using hfree
    split at h
    next => cases h; exact .claimFreely hfree
    next =>
      obtain ⟨claim, hi, h⟩ := Option.bind_eq_some_iff.1 h
      split at h
      next hfed => cases h; exact .feed hfree hi hfed
      next => cases h
    next =>
      obtain ⟨claim, hi, rfl⟩ := Option.map_eq_some_iff.1 h
      exact .cutOff hfree hi
    next =>
      obtain ⟨claim, hi, h⟩ := Option.bind_eq_some_iff.1 h
      exact .claim hi (.of_drop h (.inr hfree))
    next => exact .of_leaveSession hfree h (.inl rfl)
    next => exact .of_leaveSession hfree h (.inr (.inr ⟨_, rfl⟩))
    next => exact .of_leaveSession hfree h (.inr (.inl rfl))

theorem Move.of_advance {i : Nat} {task : Task} (hi : s.tasks[i]? = some task)
    (h : s.advance c i task = some t) : Move c s t := by
  unfold State.advance at h
  split at h
  next stage =>
    obtain ⟨⟨stage', u⟩, hu, rfl⟩ := Option.map_eq_some_iff.1 h
    rcases StartMove.of_start hu with hm | ⟨e, closing, closing', rfl, rfl, hm⟩
    · exact .start hi hm
    · exact .close (.start e) hi hm
  next stage =>
    obtain ⟨⟨stage', u⟩, hu, rfl⟩ := Option.map_eq_some_iff.1 h
    exact .close .caller hi (.of_close hu)
  next stage =>
    obtain ⟨⟨stage', u⟩, hu, rfl⟩ := Option.map_eq_some_iff.1 h
    exact .close .coordinator hi (.of_close hu)

theorem Move.of_step {a : Action} (h : s.step c a = some t) : Move c s t := by
  cases a with
  | sinkTake =>
    obtain ⟨sink, hs, rfl⟩ := Option.map_eq_some_iff.1 h
    exact .sinkTake hs
  | sinkWindUp =>
    obtain ⟨sink, hs, rfl⟩ := Option.map_eq_some_iff.1 h
    exact .sinkWindUp hs
  | sinkWork =>
    obtain ⟨sink, hs, rfl⟩ := Option.map_eq_some_iff.1 h
    exact .sinkWork hs
  | claimReceive i =>
    obtain ⟨claim, hi, h⟩ := Option.bind_eq_some_iff.1 h
    exact .claim hi (.of_receive h)
  | claimSend i =>
    obtain ⟨claim, hi, h⟩ := Option.bind_eq_some_iff.1 h
    exact .claim hi (.of_send h)
  | claimLeave i =>
    obtain ⟨claim, hi, h⟩ := Option.bind_eq_some_iff.1 h
    exact .claim hi (.of_leave h)
  | coordinate =>
    obtain ⟨k, hk, hm⟩ := CoordinatorMove.of_coordinate h
    exact .coordinate hk hm
  | advance i =>
    obtain ⟨task, hi, h⟩ := Option.bind_eq_some_iff.1 h
    exact .of_advance hi h
  | group m => exact .of_groupMove h
  | callStart => cases h; exact .callStart
  | callClose => cases h; exact .callClose
  | reportBrokerError => cases h; exact .reportBrokerError
  | takeBrokerErrors => cases h; exact .takeBrokerErrors

/-- What holds at first and is kept by every move, holds of every consumer that comes about. -/
theorem State.Reachable.induct {writer : ω} {plans : List Plan} {P : State ω → Prop}
    (h : s.Reachable c writer plans) (initial : P (.initial writer plans))
    (move : ∀ s t, s.Reachable c writer plans → P s → Move c s t → P t) : P s := by
  induction h with
  | initial => exact initial
  | step hs ht ih => exact move _ _ hs ih (.of_step ht)

/-- Where a run settles, it gets. -/
theorem State.Reachable.settle {writer : ω} {plans : List Plan} (h : s.Reachable c writer plans)
    (limit : Nat) : (s.settle c limit).Reachable c writer plans := by
  induction limit generalizing s with
  | zero => exact h
  | succ limit ih =>
    unfold State.settle
    split
    next t ht =>
      obtain ⟨a, -, hs⟩ := List.exists_of_findSome?_eq_some ht
      exact ih (h.step hs)
    next => exact h

/-! ## The sink of a consumer -/

theorem Move.sink (h : Move c s t) :
    t.sink = s.sink ∨ Sink.Move c.sink s.sink t.sink ∨ t.sink = s.sink.muteAcks.muteErrors := by
  cases h with
  | sinkTake h => exact .inr (.inl (.take h))
  | sinkWindUp h => exact .inr (.inl (.windUp h))
  | sinkWork h => exact .inr (.inl (.work h))
  | claim _ h =>
    cases h with
    | send _ h => exact .inr (.inl (.offer _ h))
    | _ => exact .inl rfl
  | coordinate _ h =>
    cases h with
    | mark _ ha => exact .inr (.inl (.takeAck (Option.map_eq_some_iff.2 ⟨_, ha, rfl⟩)))
    | fail _ he => exact .inr (.inl (.takeError (Option.map_eq_some_iff.2 ⟨_, he, rfl⟩)))
    | stop => exact .inr (.inr rfl)
    | _ => exact .inl rfl
  | close _ _ h =>
    cases h with
    | stopSink => exact .inr (.inl (.askStop _))
    | _ => exact .inl rfl
  | start _ h =>
    cases h with
    | _ => exact .inl rfl
  | _ => exact .inl rfl

/-- What the moves of a sink keep, the moves of its consumer keep. -/
theorem Move.sink_keeps {P : Sink.State ω → Prop} (h : Move c s t) (hs : P s.sink)
    (hP : ∀ u v, P u → Sink.Move c.sink u v → P v) : P t.sink := by
  rcases h.sink with he | hm | he
  · rwa [he]
  · exact hP _ _ hs hm
  · rw [he]
    exact hP _ _ (hP _ _ hs (.muteAcks _)) (.muteErrors _)

theorem State.Reachable.sink {writer : ω} {plans : List Plan} (h : s.Reachable c writer plans) :
    s.sink.Reachable c.sink writer :=
  h.induct .initial fun _ _ _ ih hm => hm.sink_keeps ih fun _ _ => .move

/-- What a sink that stopped still keeps. -/
theorem Move.sink_of_stopped {writer : ω} {plans : List Plan} (h : Move c s t)
    (hr : s.Reachable c writer plans) (hs : s.sink.phase = .stopped) :
    t.sink.phase = .stopped ∧ t.sink.log = s.sink.log ∧
      (t.sink.ack = s.sink.ack ∨ t.sink.ack = none) ∧
      (t.sink.error = s.sink.error ∨ t.sink.error = none) := by
  have hkeeps := h.sink_keeps
    (P := fun u => u.Reachable c.sink writer ∧ u.phase = .stopped ∧ u.log = s.sink.log ∧
      (u.ack = s.sink.ack ∨ u.ack = none) ∧ (u.error = s.sink.error ∨ u.error = none))
    ⟨hr.sink, hs, rfl, .inl rfl, .inl rfl⟩
    (by
      rintro u v ⟨hu, hstop, hlog, hack, herror⟩ hm
      obtain ⟨h1, h2, h3, h4⟩ := hm.of_stopped hu.windingUp hstop
      refine ⟨hu.move hm, h1, h2.trans hlog, ?_, ?_⟩
      · rcases h3 with h3 | h3
        · rwa [h3]
        · exact .inr h3
      · rcases h4 with h4 | h4
        · rwa [h4]
        · exact .inr h4)
  exact hkeeps.2

end EventPipeline.Consumer
