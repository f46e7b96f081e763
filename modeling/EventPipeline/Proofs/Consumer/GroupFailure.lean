import EventPipeline.Proofs.Consumer.Resting
/-!
# What becomes of an error of the group

When a session fails, the call of `start` it belongs to closes the consumer, or waits until
somebody else has, and returns the error of the session at last, whatever becomes of the
sink meanwhile. There is one exception: a call that takes the consumer down itself learns
whether the group could be left, and returns at once if not. Then the error of the session
is lost.
-/
namespace EventPipeline.Consumer

variable {ω : Type} {c : Setup ω} {writer : ω} {plans : List Plan} {s t u : State ω} {i : Nat}
  {e : GroupError} {own : Bool}

/-- The session that the call of `start` with number `i` is in fails with `e`, be it planned or one
of a free group. -/
inductive State.SessionFails (c : Setup ω) (s : State ω) (i : Nat) (e : GroupError) (t : State ω) :
    Prop
  | planned {rest : List Plan} : s.tasks[i]? = some (.start .consuming) →
    s.plans = .fail e :: rest → s.step c (.advance i) = some t → SessionFails c s i e t
  | free : s.step c (.group (.endSession i (some e))) = some t → SessionFails c s i e t

/-- The call with number `i` takes the consumer down between `s` and `t`. -/
def State.TakesDown (c : Setup ω) (s : State ω) (i : Nat) (t : State ω) : Prop :=
  ∃ u, s.LeadsTo c u ∧ u.Acts i ∧ u.LeadsTo c t

/-! ## A call of `start` after its session failed -/

/-- What the `close` of a call has come to, which takes the consumer down itself or not (`own`). -/
def Closing.Answers (c : Setup ω) (own : Bool) : Closing → Prop
  | .entering | .waiting => own = false
  | .publishing result => own = true ∧ result = c.closeError
  | .returned result => result = if own then c.closeError else none
  | _ => own = true

/-- What a call of `start` is at whose session failed with `e`. -/
def Starting.Answers (c : Setup ω) (e : GroupError) (own : Bool) : Starting → Prop
  | .closing cause stage => cause = e ∧ stage.Answers c own
  | .waiting result | .collecting result => result = some e ∧ (own → c.closeError = none)
  | .returned result => result = some (.group (if own then c.closeError.getD e else e))
  | _ => False

/-- The session of the call with number `i` failed with `e`, and if the call is further than to
begin to close the consumer, that is under way. -/
def State.Answers (c : Setup ω) (s : State ω) (i : Nat) (e : GroupError) (own : Bool) : Prop :=
  ∃ stage : Starting, s.tasks[i]? = some (.start stage) ∧ stage.Answers c e own ∧
    (stage = .closing e .entering ∨ s.Ending)

theorem State.SessionFails.answers (h : s.SessionFails c i e t) : t.Answers c i e false := by
  refine ⟨.closing e .entering, ?_, ⟨rfl, rfl⟩, .inl rfl⟩
  cases h with
  | planned hi hplans ht =>
    have hlt := (List.getElem?_eq_some_iff.1 hi).1
    simp only [step, hi, Option.bind_some, advance, start, beginSession, hplans, Option.map_some,
      Option.some.injEq] at ht
    rw [← ht]
    exact List.getElem?_set_self hlt
  | free ht =>
    simp only [step, groupMove, leaveSession] at ht
    split at ht
    next => cases ht
    next =>
      split at ht
      next hi =>
        cases ht
        exact List.getElem?_set_self (List.getElem?_eq_some_iff.1 hi).1
      next => cases ht

theorem State.SessionFails.reachable (h : s.SessionFails c i e t)
    (hs : s.Reachable c writer plans) : t.Reachable c writer plans := by
  cases h with
  | planned _ _ ht => exact hs.step ht
  | free ht => exact hs.step ht

/-- A call that takes the consumer down goes on as one that does. -/
theorem State.Answers.own_of_acts (h : s.Answers c i e own) (hacts : s.Acts i) : own = true := by
  obtain ⟨stage, hi, hanswers, -⟩ := h
  obtain ⟨task, hi', hne⟩ := hacts
  obtain rfl := Option.some.inj (hi.symm.trans hi')
  cases stage with
  | closing cause stage =>
    obtain ⟨-, hanswers⟩ := hanswers
    cases stage with
    | entering | waiting | returned => exact absurd rfl hne
    | publishing => exact hanswers.1
    | _ => exact hanswers
  | _ => exact absurd rfl hne

theorem CloseMove.answers {stage stage' : Closing} (hm : CloseMove c s stage stage' t)
    (h : stage.Answers c own) : stage'.Answers c own ∨ stage'.acts ∧ stage'.Answers c true := by
  cases hm with
  | begin => exact .inr ⟨rfl, rfl⟩
  | joined =>
    obtain rfl : own = false := h
    exact .inl rfl
  | leaveGroup => exact .inl ⟨h, rfl⟩
  | publish =>
    obtain ⟨rfl, rfl⟩ := h
    exact .inl rfl
  | _ => exact .inl h

theorem StartMove.answers {stage stage' : Starting} (hm : StartMove s stage stage' t)
    (h : stage.Answers c e own) :
    stage'.Answers c e own ∧ stage ≠ .closing e .entering ∧ t.lifecycle = s.lifecycle := by
  cases hm with
  | closed =>
    obtain ⟨rfl, hresult⟩ := h
    exact ⟨⟨rfl, fun hown => by simpa [hown] using hresult.symm⟩, by simp, rfl⟩
  | @closeFailed _ g =>
    obtain ⟨rfl, hresult⟩ := h
    -- only the call that took the consumer down learns of an error
    cases own with
    | false => cases hresult
    | true =>
      have hg : c.closeError = some g := hresult.symm
      exact ⟨by simp [Starting.Answers, hg], by simp, rfl⟩
  | waited => exact ⟨h, by simp, rfl⟩
  | collect =>
    obtain ⟨rfl, hnone⟩ := h
    refine ⟨?_, by simp, rfl⟩
    cases own with
    | false => cases hf : s.failure <;> rfl
    | true => cases hf : s.failure <;> simp [Starting.Answers, State.outcome, hnone]
  | _ => cases h

/-- A move takes such a call further as what it was, or the call begins to take the consumer
down. -/
theorem Move.answers (hm : Move c s t) (h : s.Answers c i e own) :
    t.Answers c i e own ∨ t.Acts i ∧ t.Answers c i e true := by
  obtain ⟨stage, hi, hanswers, hends⟩ := h
  have hlt : i < s.tasks.length := (List.getElem?_eq_some_iff.1 hi).1
  have hsame (ht : t.tasks[i]? = s.tasks[i]?) :
      t.Answers c i e own ∨ t.Acts i ∧ t.Answers c i e true :=
    .inl ⟨stage, ht.trans hi, hanswers, hends.imp_right hm.ending⟩
  -- a task that is changed is this one or another
  have hset {j : Nat} {task : Task} (ht : t.tasks = s.tasks.set j task)
      (hj : i = j → t.tasks[i]? = some task →
        t.Answers c i e own ∨ t.Acts i ∧ t.Answers c i e true) :
      t.Answers c i e own ∨ t.Acts i ∧ t.Answers c i e true := by
    by_cases hij : i = j
    · exact hj hij (by rw [ht, ← hij, List.getElem?_set_self hlt])
    · exact hsame (by rw [ht, List.getElem?_set_ne (Ne.symm hij)])
  cases hm with
  | claim _ hm => cases hm <;> exact hsame rfl
  | coordinate _ hm =>
    cases hm with
    | fail => exact hsame (List.getElem?_append_left hlt)
    | _ => exact hsame rfl
  | @close _ _ closing closing' u htask hj hm =>
    refine hset (by rw [hm.tasks]) fun hij hget => ?_
    rw [← hij, hi] at hj
    cases htask with
    | caller | coordinator => cases hj
    | start cause =>
      obtain rfl := Task.start.inj (Option.some.inj hj)
      obtain ⟨rfl, hclosing⟩ := hanswers
      have hends : u.Ending := hm.ending (hends.imp_left fun h => (Starting.closing.inj h).2)
      rcases hm.answers hclosing with hanswers | ⟨hacts, hanswers⟩
      · exact .inl ⟨_, hget, ⟨rfl, hanswers⟩, .inr hends⟩
      · have hnow : (Task.start (.closing cause closing')).closers ≠ [] := by
          simp [Task.closers, hacts]
        exact .inr ⟨⟨_, hget, hnow⟩, _, hget, ⟨rfl, hanswers⟩, .inr hends⟩
  | @start _ _ stage' u hj hm =>
    refine hset (by rw [hm.tasks]) fun hij hget => ?_
    rw [← hij, hi] at hj
    obtain rfl := Task.start.inj (Option.some.inj hj)
    obtain ⟨hanswers, hne, hl⟩ := hm.answers hanswers
    have hends : u.Ending := by
      have hends := hends.resolve_left hne
      rwa [State.Ending, ← hl] at hends
    exact .inl ⟨stage', hget, hanswers, .inr hends⟩
  | leaveSession _ hj _ =>
    refine hset rfl fun hij _ => ?_
    rw [← hij, hi] at hj
    obtain rfl := Task.start.inj (Option.some.inj hj)
    cases hanswers
  | callStart | callClose => exact hsame (List.getElem?_append_left hlt)
  | _ => exact hsame rfl

/-- Wherever a run leads to, the call has taken the consumer down by then or not. -/
theorem State.Answers.leads (h : s.Answers c i e false) (ht : s.LeadsTo c t) :
    t.Answers c i e false ∨ s.TakesDown c i t ∧ t.Answers c i e true := by
  induction ht with
  | refl => exact .inl h
  | @step t u a hst hu _ ih =>
    have hsu : s.LeadsTo c u := hst.step hu trivial
    rcases ih with hanswers | ⟨⟨v, hsv, hacts, hvt⟩, hanswers⟩
    · rcases (Move.of_step hu).answers hanswers with hanswers | ⟨hacts, hanswers⟩
      · exact .inl hanswers
      · exact .inr ⟨⟨u, hsu, hacts, .refl⟩, hanswers⟩
    · refine .inr ⟨⟨v, hsv, hacts, hvt.step hu trivial⟩, ?_⟩
      rcases (Move.of_step hu).answers hanswers with hanswers | ⟨-, hanswers⟩ <;> exact hanswers

/-- A call that takes the consumer down is one that does, wherever the run leads to. -/
theorem State.Answers.of_takesDown (h : s.Answers c i e false) (ht : s.TakesDown c i t) :
    t.Answers c i e true := by
  obtain ⟨u, hsu, hacts, hut⟩ := ht
  have hu : u.Answers c i e true := by
    rcases h.leads hsu with hu | ⟨-, hu⟩
    · cases hu.own_of_acts hacts
    · exact hu
  clear hsu hacts
  induction hut with
  | refl => exact hu
  | step _ hu _ ih => rcases (Move.of_step hu).answers ih with h | ⟨-, h⟩ <;> exact h

/-! ## It returns -/

/-- When everybody rests, the call has returned. -/
theorem State.Answers.returned (h : s.Answers c i e own) (hr : s.Reachable c writer plans)
    (hrest : s.Rests c) :
    s.lifecycle = .closed ∧ ∃ result, s.tasks[i]? = some (.start (.returned result)) := by
  obtain ⟨stage, hi, hanswers, hends⟩ := h
  have hends : s.Ending := by
    rcases hends with rfl | hends
    · -- nothing keeps it from closing the consumer
      have hstuck := hrest.start hi
      cases hl : s.lifecycle <;> simp [start, close, hl] at hstuck
    · exact hends
  have hclosed := hrest.closed hr hends
  refine ⟨hclosed, ?_⟩
  rcases hrest.start_of_closed hr hclosed hi with hgroup | ⟨result, rfl⟩
  · cases stage with
    | inSession | brokenOff => cases hanswers
    | _ => cases hgroup
  · exact ⟨result, hi⟩

/-- What becomes of the call of `start` with number `i`, whose session failed with `e` right before
`s`, at a later moment `t`. -/
structure GroupFailure (c : Setup ω) (s : State ω) (i : Nat) (e : GroupError) (t : State ω) :
    Prop where
  /-- Unless the writer is interrupted forever, the consumer gets closed and the call returns,
  however everybody moves from then on. -/
  settles : ∀ patience, c.sink.writer.Patient patience → t.Settles c (fun u =>
    u.lifecycle = .closed ∧ ∃ result, u.tasks[i]? = some (.start (.returned result)))
  /-- It does not return before the consumer is closed. -/
  closed : ∀ result, t.tasks[i]? = some (.start (.returned result)) → t.lifecycle = .closed
  /-- If somebody else took the consumer down, it returns the error of the session, -/
  returned : ∀ result, t.tasks[i]? = some (.start (.returned result)) → ¬s.TakesDown c i t →
    result = some (.group e)
  /-- and also if it did so itself, unless the group could not be left. -/
  masked : ∀ result, t.tasks[i]? = some (.start (.returned result)) → s.TakesDown c i t →
    result = some (.group (c.closeError.getD e))

/-- Whatever becomes of the sink and whoever closes the consumer, a call of `start` whose session
failed returns the error of the session, but for that of leaving the group in its place. -/
theorem State.Reachable.group_failure (h : s.Reachable c writer plans)
    (hfails : s.SessionFails c i e t) (ht : t.LeadsTo c u) : GroupFailure c t i e u := by
  have hreach := hfails.reachable h
  have hbegun := hfails.answers
  have hresult {own : Bool} {result : Option ConsumerError}
      (hi : u.tasks[i]? = some (.start (.returned result))) (hu : u.Answers c i e own) :
      result = some (.group (if own then c.closeError.getD e else e)) := by
    obtain ⟨stage, hi', hanswers, -⟩ := hu
    obtain rfl := Task.start.inj (Option.some.inj (hi.symm.trans hi'))
    exact hanswers
  refine ⟨fun patience hw => ?_, fun result hi => ?_, fun result hi hnot => ?_,
    fun result hi htook => ?_⟩
  · refine State.settles hw u fun v huv hrest => ?_
    have htv := ht.trans huv
    rcases hbegun.leads htv with hanswers | ⟨-, hanswers⟩
    · exact hanswers.returned (htv.reachable hreach) hrest
    · exact hanswers.returned (htv.reachable hreach) hrest
  · refine (ht.reachable hreach).closed_of_ended _ (List.mem_of_getElem? hi) ?_
    rcases hbegun.leads ht with hanswers | ⟨-, hanswers⟩ <;> rw [hresult hi hanswers] <;> rfl
  · rcases hbegun.leads ht with hanswers | ⟨htook, -⟩
    · exact hresult hi hanswers
    · exact absurd htook hnot
  · exact hresult hi (hbegun.of_takesDown htook)

/-! ## A group that fails and cannot be left -/

/-- The group fails in its only session, because there is no broker. -/
def noBrokers : GroupError := .unavailable "no brokers"

/-- The group cannot be left either. -/
def brokenGroup : Setup Writer.Calls where
  sink :=
    { marshal := fun _ _ => .ok [0]
      writer := Writer.scripted { interruptWrite := some 1 }
      options := .of 2 1 }
  decode _ := .ok .default
  refuses _ _ := false
  closeError := some (.unavailable "still down")

/-- A call of `start` that is about to enter the session. -/
def beforeSession : State Writer.Calls :=
  { (State.initial {} [.fail noBrokers]).become .running with
    receiversHeld := false
    brokerErrorsHeld := false
    coordinator := some ⟨.acks, true, true, true⟩
    handle := .kept
    tasks := [.start .consuming] }

theorem beforeSession_reachable : beforeSession.Reachable brokenGroup {} [.fail noBrokers] := by
  have hrun : (State.initial {} [.fail noBrokers]).run brokenGroup
      [.callStart, .advance 0, .advance 0, .advance 0, .advance 0, .advance 0] =
        some beforeSession := rfl
  exact .run .initial hrun

/-- The session failed, and nobody closes the consumer yet. -/
def failedAlone : State Writer.Calls :=
  { beforeSession.nextSession [] with tasks := [.start (.closing noBrokers .entering)] }

/-- The call takes the consumer down itself then, cannot leave the group, and returns the error of
that. -/
theorem group_failure_masked : beforeSession.SessionFails brokenGroup 0 noBrokers failedAlone ∧
    ∃ t : State Writer.Calls, failedAlone.LeadsTo brokenGroup t ∧ t.lifecycle = .closed ∧
      t.tasks[0]? = some (.start (.returned (some (.group (.unavailable "still down"))))) :=
  ⟨.planned rfl rfl rfl, failedAlone.settleWithin brokenGroup (fun _ _ => True) 60,
    .settleWithin .refl 60, by decide, by decide⟩

/-- Another call begins to take the consumer down before the session fails. -/
def closedBefore : State Writer.Calls :=
  { beforeSession.become .closing with tasks := [.start .consuming, .close .stoppingSink] }

def failedMeanwhile : State Writer.Calls :=
  { closedBefore.nextSession [] with
    tasks := [.start (.closing noBrokers .entering), .close .stoppingSink] }

def returnedMeanwhile : State Writer.Calls :=
  failedMeanwhile.settleWithin brokenGroup (fun _ _ => True) 60

theorem group_failure_closedBefore :
    returnedMeanwhile.tasks = [.start (.returned (some (.group noBrokers))),
      .close (.returned (some (.unavailable "still down")))] ∧
    returnedMeanwhile.lifecycle = .closed ∧
    (failedMeanwhile.Settles brokenGroup fun t =>
      t.lifecycle = .closed ∧ ∃ result, t.tasks[0]? = some (.start (.returned result))) ∧
    GroupFailure brokenGroup failedMeanwhile 0 noBrokers returnedMeanwhile := by
  have hrun : beforeSession.run brokenGroup [.callClose, .advance 1] = some closedBefore := rfl
  have hreach := beforeSession_reachable.run hrun
  have hfails : closedBefore.SessionFails brokenGroup 0 noBrokers failedMeanwhile :=
    .planned rfl rfl rfl
  exact ⟨by decide, by decide,
    (hreach.group_failure hfails .refl).settles _ (Writer.scripted_patient _),
    hreach.group_failure hfails (.settleWithin .refl 60)⟩

end EventPipeline.Consumer
