import EventPipeline.Proofs.Ack.Coverage
import EventPipeline.Proofs.Consumer.Durability
import EventPipeline.Proofs.Consumer.Noticing
import EventPipeline.Proofs.Consumer.Resting
/-!
# What becomes of an error of the sink

When the sink fails, the consumer gets closed, and the call of `start` that runs it returns.
If the coordinator noticed the error, it is kept for that call (`ErrorKept`), which returns
it, unless a session failed as well. So the error is lost in one case only, which is that
the coordinator overlooked it; then the call returns nothing, as if all had gone well. Runs
in which it looks for the error and for shutdown at one moment (`Steady`) never get there.
-/
namespace EventPipeline.Consumer

open Sink (acceptedIn errorsIn)

variable {ω : Type} {c : Setup ω} {writer : ω} {plans : List Plan} {s t : State ω} {i : Nat}

/-- Whether a session failed and its call of `start` has not yet closed the consumer over it. -/
def State.sessionFailed (s : State ω) : Bool :=
  s.passed.any (fun
    | .closing _ _ => true
    | _ => false)

/-- The steps of runs in which no session fails. -/
def Served (_ t : State ω) : Prop := t.sessionFailed = false

instance (s t : State ω) : Decidable (Served s t) :=
  inferInstanceAs (Decidable (t.sessionFailed = false))

/-- Whether the coordinator found no error of the sink and has not looked for shutdown since. -/
def State.looking (s : State ω) : Bool :=
  s.coordinator.any (fun k => k.poll = .brokerErrors || k.poll = .shutdown)

/-- The steps of runs in which no session fails, and in which the coordinator decides by what is
there at one moment: shutdown does not come between its look for an error and its look for
shutdown. -/
def Steady (s t : State ω) : Prop := Served s t ∧ (s.looking → t.shutdown → s.shutdown)

instance (s t : State ω) : Decidable (Steady s t) :=
  inferInstanceAs (Decidable (_ ∧ (_ → _ → _)))

theorem State.looking_iff {k : Coordinator} (hk : s.coordinator = some k) :
    s.looking ↔ k.poll = .brokerErrors ∨ k.poll = .shutdown := by
  simp [State.looking, hk]

/-! ## Where the error is kept -/

/-- What a call of `start` whose sessions all ended well may be at. -/
def Starting.Served : Starting → Prop
  | .closing _ _ => False
  | .waiting result => result = none
  | .collecting result => result = none
  | .returned result => result = none ∨ ∃ e, result = some (.sink e)
  | _ => True

/-- An error that the coordinator found is kept for the call of `start` that returns it. -/
structure ErrorKept (s : State ω) : Prop where
  kept : (∀ result, .returned result ∉ s.passed) →
    ∀ e, s.failure = some e ↔ s.noticed ∧ e ∈ errorsIn s.sink.log
  served : ∀ stage ∈ s.passed, stage.Served
  returned : ∀ result, .returned result ∈ s.passed →
    ∀ e, result = some (.sink e) ↔ s.noticed ∧ e ∈ errorsIn s.sink.log

theorem State.closing_notMem_passed (h : s.sessionFailed = false) (e : GroupError)
    (stage : Closing) : .closing e stage ∉ s.passed := by
  intro hmem
  have hfailed : s.sessionFailed := List.any_eq_true.2 ⟨_, hmem, rfl⟩
  rw [h] at hfailed
  cases hfailed

/-- A call of `start` that got past its check does not return before the consumer is closed. -/
theorem State.Reachable.closed_of_returned (h : s.Reachable c writer plans)
    {result : Option ConsumerError} (hmem : .returned result ∈ s.passed) :
    s.lifecycle = .closed := by
  obtain ⟨hp, htask⟩ := State.mem_passed_iff.1 hmem
  refine h.closed_of_ended _ htask ?_
  cases result with
  | none => rfl
  | some e => cases e <;> first | rfl | cases hp

theorem ErrorKept.of_same (h : ErrorKept s) (hp : t.passed = s.passed)
    (hf : t.failure = s.failure) (hn : t.noticed = s.noticed)
    (hlog : errorsIn t.sink.log = errorsIn s.sink.log) : ErrorKept t := by
  refine ⟨?_, ?_, ?_⟩
  · rw [hp, hf, hn, hlog]
    exact h.kept
  · rw [hp]
    exact h.served
  · rw [hp, hn, hlog]
    exact h.returned

/-- The coordinator finds an error only after the sink reported it. -/
theorem ErrorKept.of_turn (h : ErrorKept s) (hr : s.Reachable c writer plans)
    (ht : Noticing.Turn s t) (hk : t.coordinator = s.coordinator) (hp : t.passed = s.passed)
    (hf : t.failure = s.failure) : ErrorKept t := by
  cases ht with
  | same _ hn _ hlog => exact h.of_same hp hf hn hlog
  | reports _ hn hlive =>
    have hs : s.noticed = false := by
      apply Bool.eq_false_iff.2
      intro hn
      exact absurd (hr.stopped_of_leaves (hr.noticing.found hn).2) hlive
    refine ⟨?_, ?_, ?_⟩
    · intro hnone e
      rw [hp] at hnone
      rw [hf, hn, h.kept hnone, hs]
      simp
    · rw [hp]
      exact h.served
    · intro result hmem
      rw [hp] at hmem
      exact absurd (hr.quiet_of_closed (hr.closed_of_returned hmem)).1 hlive
  | spawns _ _ _ hn hsink => exact h.of_same hp hf hn (by rw [hsink])
  | looks _ _ _ _ _ _ _ hn hsink => exact h.of_same hp hf hn (by rw [hsink])
  | stops _ _ _ hn _ hlog => exact h.of_same hp hf hn (by rw [hlog])
  | finds hs hpoll _ ht =>
    -- the coordinator would go on
    have hsame := Option.some.inj (hs.symm.trans (hk.symm.trans ht))
    rw [hsame] at hpoll
    cases hpoll

theorem ErrorKept.coordinate {k : Coordinator} (h : ErrorKept s) (hr : s.Reachable c writer plans)
    (hm : CoordinatorMove c s k t) : ErrorKept t := by
  cases hm with
  | fail _ he =>
    have hp : (s.tasks ++ [Task.closeAfterFailure .entering]).flatMap Task.passed = s.passed := by
      simp [State.passed, Task.passed]
    have hn : (s.tasks ++ [Task.closeAfterFailure .entering]).any Task.notices := by
      simp [Task.notices]
    have hmem := hr.sink.failed_of_error _ he
    refine ⟨?_, fun stage hstage => h.served stage (hp ▸ hstage), ?_⟩
    · intro _ x
      constructor
      · intro hx
        obtain rfl := Option.some.inj hx
        exact ⟨hn, hmem⟩
      · rintro ⟨-, hx⟩
        exact congrArg some (hr.sink.eq_of_mem_errorsIn hmem hx)
    · -- there is no error any more when the consumer is closed
      intro result hresult
      have hclosed := hr.closed_of_returned (show .returned result ∈ s.passed from hp ▸ hresult)
      rw [(hr.quiet_of_closed hclosed).2.2] at he
      cases he
  | _ => exact h.of_same rfl rfl rfl rfl

/-- The call that got past its check goes on, and returns nothing yet. -/
theorem ErrorKept.goOn {stage stage' : Starting} (h : ErrorKept s) (hs : s.passed = [stage])
    (ht : t.passed = [stage']) (hsink : t.sink = s.sink) (hf : t.failure = s.failure)
    (hn : t.noticed = s.noticed) (hne : ∀ result, stage ≠ .returned result)
    (hne' : ∀ result, stage' ≠ .returned result) (hserved : stage'.Served) : ErrorKept t := by
  refine ⟨?_, ?_, ?_⟩
  · intro _
    rw [hsink, hf, hn]
    apply h.kept
    intro result hmem
    rw [hs] at hmem
    exact hne result (List.mem_singleton.1 hmem).symm
  · intro x hx
    rw [ht] at hx
    rw [List.mem_singleton.1 hx]
    exact hserved
  · intro result hmem
    rw [ht] at hmem
    exact absurd (List.mem_singleton.1 hmem).symm (hne' result)

/-- The call that got past its check collects the error and returns it. -/
theorem ErrorKept.collect (h : ErrorKept s) (hs : s.passed = [.collecting none])
    (ht : t.passed = [.returned (State.outcome s.failure none)]) (hsink : t.sink = s.sink)
    (hn : t.noticed = s.noticed) : ErrorKept t := by
  refine ⟨?_, ?_, ?_⟩
  · intro hnone
    exact absurd (by rw [ht]; exact List.mem_singleton_self _) (hnone _)
  · intro x hx
    rw [ht] at hx
    rw [List.mem_singleton.1 hx]
    cases hfailure : s.failure with
    | none => exact .inl rfl
    | some e => exact .inr ⟨e, rfl⟩
  · intro result hmem e
    rw [ht] at hmem
    obtain rfl := Starting.returned.inj (List.mem_singleton.1 hmem)
    rw [hsink, hn, ← h.kept (by simp [hs]) e]
    cases s.failure <;> simp [State.outcome]

theorem StartMove.sink {stage stage' : Starting} {u : State ω} (hm : StartMove s stage stage' u) :
    u.sink = s.sink := by
  cases hm <;> rfl

theorem ErrorKept.start {stage stage' : Starting} {u : State ω} (h : ErrorKept s)
    (hr : s.Reachable c writer plans) (hi : s.tasks[i]? = some (.start stage))
    (hm : StartMove s stage stage' u)
    (hfailed : State.sessionFailed { u with tasks := u.tasks.set i (.start stage') } = false) :
    ErrorKept { u with tasks := u.tasks.set i (.start stage') } := by
  have hclosing := State.closing_notMem_passed hfailed
  have hn : State.noticed { u with tasks := u.tasks.set i (.start stage') } = s.noticed := by
    show (u.tasks.set i _).any Task.notices = s.tasks.any Task.notices
    rw [hm.tasks]
    exact any_set_of_eq hi rfl
  cases hr.passing.turn hi hm with
  | enters hs hcreated hl _ hnone hp =>
    subst hs
    have hf : u.failure = s.failure := by cases hm <;> rfl
    refine ⟨?_, ?_, ?_⟩
    · intro _
      rw [hn]
      show ∀ e, u.failure = some e ↔ s.noticed ∧ e ∈ errorsIn u.sink.log
      rw [hm.sink, hf]
      exact h.kept (by simp [hnone])
    · intro x hx
      rw [hp] at hx
      rw [List.mem_singleton.1 hx]
      trivial
    · intro result hmem
      rw [hp] at hmem
      simp at hmem
  | refused hs _ _ hp =>
    subst hs
    cases hm <;> exact h.of_same hp rfl hn rfl
  | goesOn hne _ hs hp =>
    have hserved : stage.Served := h.served stage (by rw [hs]; exact List.mem_singleton_self _)
    have hpassed : stage'.passed := (State.mem_passed_iff.1 (hp ▸ List.mem_singleton_self _)).1
    rw [hp] at hclosing
    have hon := fun hf => h.goOn hs hp hm.sink hf hn
    cases hm with
    | begin => exact absurd rfl hne
    | refuse | missReceivers => cases hpassed
    | closed | closeFailed => cases hserved
    | sessionFails => exact absurd (List.mem_singleton_self _) (hclosing _ _)
    | waited => exact hon rfl (by simp) (by simp) hserved
    | collect =>
      obtain rfl : _ = none := hserved
      exact h.collect hs hp rfl hn
    | @dispatched session ends => cases ends <;> exact hon rfl (by simp) (by simp) trivial
    | shutDown => exact hon rfl (by simp) (by simp) rfl
    | _ => exact hon rfl (by simp) (by simp) trivial

theorem ErrorKept.move (h : ErrorKept s) (hr : s.Reachable c writer plans) (hm : Move c s t)
    (hfailed : t.sessionFailed = false) : ErrorKept t := by
  have hturn := hm.noticing hr
  cases hm with
  | claim _ hm => cases hm <;> exact h.of_turn hr hturn rfl rfl rfl
  | coordinate _ hm => exact h.coordinate hr hm
  | @close i task stage stage' u htask hi hm =>
    have hsame : (s.tasks.set i (task stage')).flatMap Task.passed = s.passed := by
      rcases htask.passed with hnil | ⟨e, he⟩
      · exact flatMap_set_of_eq hi (by rw [hnil, hnil])
      · -- a call of `start` only closes the consumer after a session failed
        have hmem : .closing e stage' ∈ (s.tasks.set i (task stage')).flatMap Task.passed :=
          List.mem_flatMap.2 ⟨_, List.mem_set (List.getElem?_eq_some_iff.1 hi).1 _, by simp [he]⟩
        exact absurd (by rw [State.passed, hm.tasks]; exact hmem)
          (State.closing_notMem_passed hfailed e stage')
    cases hm <;> exact h.of_turn hr hturn rfl hsame rfl
  | start hi hm => exact h.start hr hi hm hfailed
  | @leaveSession i stage _ hi hstage =>
    obtain ⟨hs, hset⟩ := hr.passing.only hi rfl
    have hclosing := State.closing_notMem_passed hfailed
    rw [State.passed, hset] at hclosing
    have hn : (s.tasks.set i (.start stage)).any Task.notices = s.noticed := any_set_of_eq hi rfl
    rcases hstage with rfl | rfl | ⟨e, rfl⟩
    · exact h.goOn hs (hset _) rfl rfl hn (by simp) (by simp) trivial
    · exact h.goOn hs (hset _) rfl rfl hn (by simp) (by simp) trivial
    · exact absurd (List.mem_singleton_self _) (hclosing e .entering)
  | callStart | callClose =>
    exact h.of_turn hr hturn rfl (by simp [State.passed, Task.passed, Starting.passed]) rfl
  | _ => exact h.of_turn hr hturn rfl rfl rfl

theorem State.Leads.errorKept (h : (State.initial writer plans).Leads c Served s) :
    ErrorKept s := by
  have hinitial : (State.initial writer plans).Reachable c writer plans := .initial
  refine h.induct hinitial ⟨fun _ e => ?_, fun _ hx => (by cases hx), fun _ hx => (by cases hx)⟩
    fun _ _ hr ih hm hserved => ih.move hr hm hserved
  simp [State.initial, State.noticed]

/-! ## When the coordinator decides by what is there at one moment -/

/-- In such runs no error waits where the coordinator looks next, once the consumer shuts down. -/
theorem State.Leads.error_eq_none (h : (State.initial writer plans).Leads c Steady s) :
    s.looking → s.shutdown → s.sink.error = none := by
  have hinitial : (State.initial writer plans).Reachable c writer plans := .initial
  refine h.induct hinitial (P := fun s => s.looking → s.shutdown → s.sink.error = none)
    (fun hl => by cases hl) ?_
  rintro s t hr ih hm ⟨-, hsteady⟩ hl hshut
  have hsame (hk : t.coordinator = s.coordinator) : s.looking := by rwa [State.looking, ← hk]
  cases hm.noticing hr with
  | same hk _ he _ =>
    rw [he]
    exact ih (hsame hk) (hsteady (hsame hk) hshut)
  | reports hk _ hlive => exact absurd (hr.sinkFirst.shutdown (hsteady (hsame hk) hshut)) hlive
  | spawns hk hp => simp [State.looking_iff hk, hp] at hl
  | finds _ _ _ hk | stops _ _ hk => simp [State.looking_iff hk] at hl
  | looks hk _ _ _ _ hlooks hk' _ hsink hshut' =>
    rw [hsink]
    rcases (State.looking_iff hk').1 hl with hp | hp
    · exact (hlooks.past hp).elim (fun hopen => (hr.noticing.closed _ hk hopen).2) id
    · exact ih ((State.looking_iff hk).2 (.inl (hlooks.toShutdown hp))) (hshut' ▸ hshut)

theorem State.Leads.not_overlooks (h : (State.initial writer plans).Leads c Steady s) :
    ¬s.Overlooks := by
  rintro ⟨hshut, herror, k, hk, hp⟩
  rw [h.error_eq_none ((State.looking_iff hk).2 (.inr hp)) hshut] at herror
  cases herror

theorem State.Leads.not_overlooked (h : (State.initial writer plans).Leads c Steady t) :
    ¬t.Overlooked c writer plans := by
  rintro ⟨s, hs, hover, hst⟩
  rcases hst.missed hs hover with hover | hmissed
  · exact h.not_overlooks hover
  · obtain ⟨u, hu, hover, -⟩ := h.exists_overlooks .initial State.not_missed_initial hmissed
    exact hu.not_overlooks hover

/-! ## A failure ends the consumer -/

/-- A consumer whose sink failed does not rest before somebody closes it. -/
theorem State.Rests.ending (h : s.Rests c) (hr : s.Reachable c writer plans)
    {e : Sink.SinkError} (he : e ∈ errorsIn s.sink.log) : s.Ending := by
  have hleaves : s.Leaves := by
    refine (hr.noticing.waits e he).elim (fun hchannel => ?_) id
    have hkept : s.handle ≠ .absent := by
      intro habsent
      rw [hr.errorsIn_eq_nil habsent] at he
      cases he
    obtain ⟨k, hk⟩ := Option.isSome_iff_exists.1 (hr.handleFirst.coordinator hkept)
    by_cases hp : k.poll = .stopped
    · exact ⟨k, hk, .inr hp⟩
    · have hopen : k.sinkErrorOpen := by
        refine Decidable.byContradiction fun hopen => ?_
        have hnone := (hr.noticing.closed k hk (Bool.eq_false_iff.2 hopen)).2
        rw [hchannel] at hnone
        cases hnone
      have hmoves : (s.coordinate c).isSome :=
        State.coordinate_isSome hk (.inr ⟨hp, by simp [State.stirs, hopen, hchannel]⟩)
      rw [h.coordinate] at hmoves
      cases hmoves
  rcases hr.noticing.left hleaves with hn | hs
  · obtain ⟨task, hmem, htask⟩ := List.any_eq_true.1 hn
    cases task with
    | start | close => cases htask
    | closeAfterFailure stage =>
      refine (hr.ending_of_noticed hmem).resolve_left fun hstage => ?_
      obtain ⟨i, hi⟩ := List.getElem?_of_mem hmem
      have hstuck := h.advance hi
      cases hl : s.lifecycle <;> simp [hstage, State.advance, State.close, hl] at hstuck
  · exact hr.ending_of_shutdown hs

/-! ## What is returned -/

/-- What becomes of the call of `start` with number `i`, which got past its check and whose sessions
did not fail before `t`. -/
structure SinkFailure (c : Setup ω) (writer : ω) (plans : List Plan) (i : Nat) (t : State ω) :
    Prop where
  /-- Unless the writer is interrupted forever, everybody comes to rest, however they move from then
  on. If the sink failed or the consumer ends, it is closed then, and the call has returned, unless
  it is in the hands of the group. -/
  settles : ∀ patience, c.sink.writer.Patient patience → t.Settles c (fun u =>
    (∃ e, .failed e ∈ u.sink.log) ∨ u.Ending → u.lifecycle = .closed ∧
      ∃ stage : Starting, u.tasks[i]? = some (.start stage) ∧
        (stage.withGroup ∨ ∃ result, stage = .returned result))
  /-- It does not return before the consumer is closed. -/
  closed : ∀ result, t.tasks[i]? = some (.start (.returned result)) → t.lifecycle = .closed
  /-- It returns what ended the sink, if something did, and else nothing, -/
  returned : ∀ result, t.tasks[i]? = some (.start (.returned result)) →
    ¬t.Overlooked c writer plans → (result = none ∨ ∃ e, result = some (.sink e)) ∧
      ∀ e, result = some (.sink e) ↔ .failed e ∈ t.sink.log
  /-- but when the coordinator overlooked that, the call returns nothing, though the sink failed. -/
  swallowed : ∀ result, t.tasks[i]? = some (.start (.returned result)) →
    t.Overlooked c writer plans → result = none ∧ ∃ e, .failed e ∈ t.sink.log
  /-- Else, where it returns nothing, whatever the sink accepted was written and flushed, and an
  acknowledgment that covers it was marked. -/
  durable : t.tasks[i]? = some (.start (.returned none)) → ¬t.Overlooked c writer plans →
    ∀ m ∈ acceptedIn t.sink.log, Durable c.sink t.sink m ∧
      ∃ a ∈ ackMarkedIn t.log, ∃ covered, a.coveredOffset? m.ack.key = some covered ∧
        m.ack.offset ≤ covered
  /-- Nothing is overlooked if the coordinator decides by what is there at one moment. -/
  steady : (State.initial writer plans).Leads c Steady t → ¬t.Overlooked c writer plans

/-- As long as no session fails, a call of `start` that got past its check returns what ended the
sink, whenever that was and whoever closes the consumer, if and only if the coordinator did not
overlook it. -/
theorem State.Leads.sink_failure (h : (State.initial writer plans).Leads c Served t)
    (hi : t.Past i) : SinkFailure c writer plans i t := by
  have hr : t.Reachable c writer plans := h.reachable .initial
  have hmem {result : Option ConsumerError}
      (hret : t.tasks[i]? = some (.start (.returned result))) : .returned result ∈ t.passed := by
    obtain ⟨stage, hget, hp⟩ := hi
    obtain rfl := Task.start.inj (Option.some.inj (hget.symm.trans hret))
    exact State.mem_passed hret hp
  have hreturned {result : Option ConsumerError}
      (hret : t.tasks[i]? = some (.start (.returned result)))
      (hnot : ¬t.Overlooked c writer plans) (e : Sink.SinkError) :
      result = some (.sink e) ↔ .failed e ∈ t.sink.log := by
    have hclosed := hr.closed_of_returned (hmem hret)
    rw [h.errorKept.returned result (hmem hret), ← Sink.mem_errorsIn, and_iff_right_iff_imp]
    intro he
    refine Decidable.byContradiction fun hn => hnot ((hr.overlooked_iff hclosed).2 ?_)
    refine ⟨Bool.eq_false_iff.2 hn, ?_, e, he⟩
    refine (hr.noticing.waits e he).resolve_left fun hchannel => ?_
    rw [(hr.quiet_of_closed hclosed).2.2] at hchannel
    cases hchannel
  refine ⟨fun patience hw => ?_, fun result hret => hr.closed_of_returned (hmem hret),
    fun result hret hnot => ⟨h.errorKept.served _ (hmem hret), hreturned hret hnot⟩,
    fun result hret hover => ?_, fun hret hnot m hm => ?_, fun hsteady => hsteady.not_overlooked⟩
  · refine State.settles hw t fun u htu hrest hends => ?_
    have hu := htu.reachable hr
    have hends : u.Ending := by
      rcases hends with ⟨e, he⟩ | hends
      · exact hrest.ending hu (Sink.mem_errorsIn.2 he)
      · exact hends
    have hclosed := hrest.closed hu hends
    obtain ⟨stage, hget, -⟩ := hr.past_kept htu hi
    exact ⟨hclosed, stage, hget, hrest.start_of_closed hu hclosed hget⟩
  · have hclosed := hr.closed_of_returned (hmem hret)
    obtain ⟨hn, -, e, he⟩ := (hr.overlooked_iff hclosed).1 hover
    refine ⟨(h.errorKept.served _ (hmem hret)).resolve_right ?_, e, Sink.mem_errorsIn.1 he⟩
    rintro ⟨e, rfl⟩
    have hfound := ((h.errorKept.returned _ (hmem hret) e).1 rfl).1
    rw [hn] at hfound
    cases hfound
  · have hok (e : Sink.SinkError) : .failed e ∉ t.sink.log := by
      intro hfailed
      exact absurd ((hreturned hret hnot e).2 hfailed) (by simp)
    obtain ⟨sent, hwhole⟩ := hr.whole (hr.closed_of_returned (hmem hret)) hok
    obtain ⟨a, ha, hcovers⟩ := hwhole.covered hm
    exact ⟨durable_of_mem hr.sink.intake hwhole.accounted (hwhole.accepted ▸ hm), a, ha,
      hcovers.coveredOffset?⟩

/-- A call of `start` that just got past its check. -/
def pastCheck : State Writer.Calls :=
  { (State.initial {} twoMessages).become .running with tasks := [.start .takingReceivers] }

/-- What comes of it before anybody closes the consumer. -/
def afterPastCheck : State Writer.Calls := pastCheck.settleWithin failsSecondFlush Steady 60

/-- What comes of a call of `close` after that, whose flush fails. -/
def failedAtClose : State Writer.Calls :=
  State.settleWithin failsSecondFlush Steady 60
    { afterPastCheck with tasks := afterPastCheck.tasks ++ [.close .entering] }

theorem afterPastCheck_leads :
    (State.initial {} twoMessages).Leads failsSecondFlush Steady afterPastCheck := by
  have hcheck : (State.initial {} twoMessages).Leads failsSecondFlush Steady pastCheck :=
    .step (a := .advance 0) (.step (a := .callStart) .refl rfl (by decide)) rfl (by decide)
  exact hcheck.settleWithin 60

theorem failedAtClose_leads :
    (State.initial {} twoMessages).Leads failsSecondFlush Steady failedAtClose :=
  (State.Leads.step (a := .callClose) afterPastCheck_leads rfl (by decide)).settleWithin 60

theorem sink_failure_failedAtClose :
    failedAtClose.tasks[0]? = some (.start (.returned (some (.sink (.write "cannot sync"))))) ∧
      .failed (.write "cannot sync") ∈ failedAtClose.sink.log ∧
      SinkFailure failsSecondFlush {} twoMessages 0 failedAtClose ∧
      SinkFailure failsSecondFlush {} twoMessages 0 afterPastCheck := by
  have hserved {s t : State Writer.Calls} (h : Steady s t) : Served s t := h.1
  have hret : failedAtClose.tasks[0]? =
      some (.start (.returned (some (.sink (.write "cannot sync"))))) := by decide
  have hfailure := State.Leads.sink_failure (failedAtClose_leads.mono fun _ _ => hserved)
    (i := 0) ⟨_, hret, rfl⟩
  have hreturned := hfailure.returned _ hret (hfailure.steady failedAtClose_leads)
  exact ⟨hret, (hreturned.2 _).1 rfl, hfailure,
    State.Leads.sink_failure (afterPastCheck_leads.mono fun _ _ => hserved) ⟨_, rfl, rfl⟩⟩

/-- Two messages are sent and the consumer is closed, while the coordinator pauses between its look
for an error and its look for shutdown. The last flush fails in the meantime. -/
def interruptedLook : List Action :=
  [.callStart, .advance 0, .advance 0, .advance 0, .advance 0, .coordinate, .coordinate,
    .advance 0, .advance 0, .advance 0, .advance 0, .claimReceive 0, .claimSend 0, .claimReceive 0,
    .claimSend 0, .sinkTake, .sinkTake, .sinkWork, .sinkWork, .sinkWork, .callClose, .advance 1,
    .advance 1, .sinkWindUp, .sinkWindUp, .sinkWork, .sinkWork, .sinkWork, .sinkWork, .advance 1,
    .advance 1, .coordinate, .coordinate, .coordinate, .coordinate, .claimLeave 0, .advance 1,
    .advance 1, .advance 1, .advance 1, .advance 1, .advance 0, .advance 0, .advance 0, .advance 0,
    .advance 0, .advance 0]

/-- The call of `start` returns nothing then, though the sink failed and the last message it
accepted is in no acknowledgment that was marked. -/
theorem interruptedLook_misses_failure : ∃ s : State Writer.Calls,
    (State.initial {} twoMessages).Leads failsSecondFlush Served s ∧
      s.tasks[0]? = some (.start (.returned none)) ∧
      .failed (.write "cannot sync") ∈ s.sink.log ∧
      ∃ m ∈ acceptedIn s.sink.log, ∀ a ∈ ackMarkedIn s.log,
        (a.coveredOffset? m.ack.key).all (fun covered => covered < m.ack.offset) := by
  have hrun : ((State.initial {} twoMessages).runWithin failsSecondFlush Served
      interruptedLook).map (fun s : State Writer.Calls => (s.tasks[0]?,
        decide (.failed (.write "cannot sync") ∈ s.sink.log),
        decide (∃ m ∈ acceptedIn s.sink.log, ∀ a ∈ ackMarkedIn s.log,
          (a.coveredOffset? m.ack.key).all (fun covered => covered < m.ack.offset)))) =
      some (some (.start (.returned none)), true, true) := by
    decide
  obtain ⟨s, hs, hends⟩ := Option.map_eq_some_iff.1 hrun
  simp only [Prod.mk.injEq, decide_eq_true_eq] at hends
  exact ⟨s, .of_run hs, hends⟩

end EventPipeline.Consumer
