import Mathlib.Algebra.Order.BigOperators.Group.List
import Mathlib.Algebra.Order.Ring.Nat
import EventPipeline.Proofs.Consumer.Calls
import EventPipeline.Proofs.Consumer.Runs
import EventPipeline.Proofs.Sink.Settling
/-!
# A consumer comes to rest

Left to themselves the sink, the claims, the coordinator and the calls under way have only
so much to do, in whatever order they move: a call goes from stage to stage and a session
is used up, a claim gets shorter, a sink comes to rest, and the coordinator only looks
around again where it is going to find something. Each step leaves less of the effort of
the consumer (`State.Own.less`), so they all come to rest (`State.settles`).
-/
namespace EventPipeline.Consumer

variable {ω : Type} {c : Setup ω} {patience : ω → Bytes → Nat} {s t : State ω} {i : Nat}

/-! ## What is left to do -/

/-- How far a call of `close` is from its end. -/
def Closing.effort : Closing → Nat
  | .returned _ => 0
  | .waiting => 1
  | .publishing _ => 2
  | .leavingGroup => 3
  | .joiningCoordinator => 4
  | .takingHandle => 5
  | .awaitingClaims => 6
  | .cancelling => 7
  | .joiningSink => 8
  | .stoppingSink => 9
  | .entering => 10

/-- What a planned session takes, besides looking for the next one. -/
def Plan.effort : Plan → Nat
  | .serve claims => claims.length + 5
  | _ => 0

/-- How far a call of `start` is from its end, or from where only the group can make it go on.
Unless shutdown is announced, the sessions still planned are before it. -/
def Starting.effort (shutdown : Bool) (planned : Nat) : Starting → Nat
  | .returned _ | .brokenOff | .inSession => 0
  | .collecting _ => 1
  | .waiting _ => 2
  | .closing _ stage => 3 + stage.effort
  | .checking => if shutdown then 3 else 15 + planned
  | .joiningClaims _ => if shutdown then 4 else 16 + planned
  | .releasing _ => if shutdown then 5 else 17 + planned
  | .awaitingShutdown _ => 6
  | .dispatching _ claims ends => claims.length + if ends then 18 + planned else 7
  | .consuming => 14 + planned
  | .keepingHandle => 16 + planned
  | .spawning _ => 29 + planned
  | .takingReceivers => 30 + planned
  | .entering => 31 + planned

def Task.effort (shutdown : Bool) (planned : Nat) : Task → Nat
  | .start stage => stage.effort shutdown planned
  | .close stage | .closeAfterFailure stage => stage.effort

/-- What the coordinator may still bring about: to close the consumer, and to stop. -/
def Coordinator.effort (k : Coordinator) : Nat :=
  match k.poll with
  | .stopped => 0
  | .draining => 1
  | _ => 12

def Claim.effort (claim : Claim) : Nat :=
  match claim.phase with
  | .receiving => 3 * claim.waiting.length + 1
  | .sending _ => 3 * claim.waiting.length + 2
  | .finished => 0

/-- How many looks are left before the coordinator rests. -/
def Poll.left : Poll → Nat
  | .acks => 4
  | .sinkError => 3
  | .brokerErrors => 2
  | .shutdown => 1
  | .resting | .draining | .stopped => 0

namespace State

/-- Whether the coordinator finds something before it rests, if it looks on from here. -/
def findsFrom (s : State ω) (k : Coordinator) : Poll → Bool
  | .acks => s.stirs k
  | .sinkError =>
    (k.sinkErrorOpen && (s.sink.error.isSome || s.sink.stopped)) ||
      (k.brokerErrorsOpen && s.brokerErrors ≠ 0) || s.shutdown
  | .brokerErrors => (k.brokerErrorsOpen && s.brokerErrors ≠ 0) || s.shutdown
  | .shutdown => s.shutdown
  | .resting | .draining | .stopped => false

/-- What the coordinator has to look for. It starts again after a rest if there is something to be
found, and then finds it. -/
def lookEffort (s : State ω) (k : Coordinator) : Nat :=
  16 * (s.brokerErrors + k.acksOpen.toNat + k.sinkErrorOpen.toNat) +
    if s.findsFrom k k.poll then k.poll.left + 1
    else if s.stirs k then k.poll.left + 6
    else k.poll.left

/-- What the planned sessions take. -/
def planned (s : State ω) : Nat := (s.plans.map Plan.effort).sum

/-- What the calls have to do, and the coordinator with them. -/
def callEffort (s : State ω) : Nat :=
  (s.tasks.map (Task.effort s.shutdown s.planned)).sum + s.coordinator.elim 0 Coordinator.effort

def claimEffort (s : State ω) : Nat := (s.claims.map Claim.effort).sum

/-- What everybody has to do: to have done a part of it may make more of the parts behind. -/
def effort (patience : ω → Bytes → Nat) (s : State ω) :
    Nat × Nat × (Nat × Nat × Nat) × Nat :=
  (s.callEffort, s.claimEffort, s.sink.effort patience, s.coordinator.elim 0 s.lookEffort)

end State

/-- Less is to be done. -/
def Less : Nat × Nat × (Nat × Nat × Nat) × Nat → Nat × Nat × (Nat × Nat × Nat) × Nat → Prop :=
  Prod.Lex (· < ·) (Prod.Lex (· < ·) (Prod.Lex Sink.Less (· < ·)))

theorem less_wf : WellFounded Less :=
  (inferInstance : WellFoundedRelation (Nat × Nat × (Nat × Nat × Nat) × Nat)).wf

namespace Less

theorem of_calls (h : t.callEffort < s.callEffort) : Less (t.effort patience) (s.effort patience) :=
  .left _ _ h

theorem of_claims (hcalls : t.callEffort = s.callEffort) (h : t.claimEffort < s.claimEffort) :
    Less (t.effort patience) (s.effort patience) := by
  unfold State.effort
  rw [hcalls]
  exact .right _ (.left _ _ h)

theorem of_sink (hcalls : t.callEffort = s.callEffort) (hclaims : t.claims = s.claims)
    (h : Sink.Less (t.sink.effort patience) (s.sink.effort patience)) :
    Less (t.effort patience) (s.effort patience) := by
  unfold State.effort State.claimEffort
  rw [hcalls, hclaims]
  exact .right _ (.right _ (.left _ _ h))

end Less

/-! ## The calls -/

section
variable {α : Type} {l : List α} {a b : α} {f g : α → Nat} {m n : Nat}

/-- What one entry loses is lost in the sum, if no other entry gains anything. -/
theorem sum_map_set_lt (hi : l[i]? = some a) (hle : ∀ x, g x ≤ f x) (hlt : g b + m < f a + n) :
    ((l.set i b).map g).sum + m < (l.map f).sum + n := by
  obtain ⟨before, after, rfl, hset⟩ := exists_split_of_getElem? hi
  rw [hset]
  simp only [List.map_append, List.map_cons, List.sum_append, List.sum_cons]
  have hbefore := List.sum_le_sum fun x (_ : x ∈ before) => hle x
  have hafter := List.sum_le_sum fun x (_ : x ∈ after) => hle x
  omega

end

theorem Starting.effort_le {shutdown shutdown' : Bool} {planned planned' : Nat}
    (hs : shutdown → shutdown') (hp : planned' ≤ planned) (stage : Starting) :
    stage.effort shutdown' planned' ≤ stage.effort shutdown planned := by
  have hif {m n : Nat} (hle : m ≤ n) :
      (if shutdown' then m else n + planned') ≤ if shutdown then m else n + planned := by
    by_cases h : shutdown
    · have h' : shutdown' := hs h
      simp [h, h']
    · rw [if_neg h]
      split <;> omega
  cases stage with
  | checking | joiningClaims | releasing => exact hif (by decide)
  | dispatching _ claims ends =>
    cases ends with
    | true => exact Nat.add_le_add_left (Nat.add_le_add_left hp 18) claims.length
    | false => exact Nat.le_refl _
  | consuming | keepingHandle | spawning | takingReceivers | entering =>
    exact Nat.add_le_add_left hp _
  | _ => exact Nat.le_refl _

theorem Task.effort_le {shutdown shutdown' : Bool} {planned planned' : Nat}
    (hs : shutdown → shutdown') (hp : planned' ≤ planned) (task : Task) :
    task.effort shutdown' planned' ≤ task.effort shutdown planned := by
  cases task with
  | start stage => exact stage.effort_le hs hp
  | close | closeAfterFailure => exact Nat.le_refl _

theorem CloseMove.effort {stage stage' : Closing} (h : CloseMove c s stage stage' t) :
    stage'.effort < stage.effort ∧ (s.shutdown → t.shutdown) ∧ t.plans = s.plans ∧
      t.coordinator = s.coordinator := by
  cases h with
  | cancel => exact ⟨by simp [Closing.effort], fun _ => rfl, rfl, rfl⟩
  | _ => exact ⟨by simp [Closing.effort], id, rfl, rfl⟩

/-- A call that closes the consumer is as far from its end as its `close`, and a bit more if it is a
call of `start`. -/
theorem Task.Closes.effort {task : Closing → Task} (h : Closes task) (shutdown : Bool)
    (planned : Nat) : ∃ n, ∀ stage, (task stage).effort shutdown planned = n + stage.effort := by
  cases h with
  | caller | coordinator => exact ⟨0, fun stage => (Nat.zero_add _).symm⟩
  | start e => exact ⟨3, fun stage => rfl⟩

/-- Where a call of `start` is, leaves it and the coordinator less to do than where it was. -/
def StartMove.Lessens (s t : State ω) (stage stage' : Starting) : Prop :=
  stage'.effort t.shutdown t.planned + t.coordinator.elim 0 Coordinator.effort <
      stage.effort s.shutdown s.planned + s.coordinator.elim 0 Coordinator.effort ∧
    t.shutdown = s.shutdown ∧ t.planned ≤ s.planned

theorem StartMove.Lessens.of_same {stage stage' : Starting} (hs : t.shutdown = s.shutdown)
    (hp : t.planned = s.planned) (hk : t.coordinator = s.coordinator)
    (hlt : stage'.effort s.shutdown s.planned < stage.effort s.shutdown s.planned) :
    Lessens s t stage stage' := by
  refine ⟨?_, hs, Nat.le_of_eq hp⟩
  rw [hs, hp, hk]
  exact Nat.add_lt_add_right hlt _

/-- A session begins: it is not planned any more. -/
theorem StartMove.Lessens.of_session {stage' : Starting} {plan : Plan} {rest : List Plan}
    (hplans : s.plans = plan :: rest) (ht : t.plans = rest) (hs : t.shutdown = s.shutdown)
    (hk : t.coordinator = s.coordinator)
    (hlt : stage'.effort s.shutdown t.planned < 14 + (plan.effort + t.planned)) :
    Lessens s t .consuming stage' := by
  have hplanned : s.planned = plan.effort + t.planned := by
    simp [State.planned, hplans, ht]
  refine ⟨?_, hs, hplanned ▸ Nat.le_add_left _ _⟩
  rw [hs, hk, hplanned]
  exact Nat.add_lt_add_right hlt _

theorem StartMove.lessens {stage stage' : Starting} (h : StartMove s stage stage' t) :
    Lessens s t stage stage' := by
  cases h with
  | spawn =>
    -- a coordinator that has all before it
    have hlt : 16 + s.planned + 12 <
        29 + s.planned + s.coordinator.elim 0 Coordinator.effort := by omega
    exact ⟨hlt, rfl, Nat.le_refl _⟩
  | @serve claims rest hplans =>
    refine .of_session hplans rfl rfl rfl ?_
    simp only [Starting.effort, Plan.effort]
    split <;> omega
  | serveFreely hplans | sessionFails hplans | sessionBreaksOff hplans =>
    refine .of_session hplans rfl rfl rfl ?_
    simp only [Starting.effort, Closing.effort]
    omega
  | @dispatched session ends =>
    refine .of_same rfl rfl rfl ?_
    cases ends <;> cases s.shutdown <;> simp [Starting.effort]
    omega
  | shutDown hs | goOn hs | seeShutdown hs =>
    exact .of_same rfl rfl rfl (by simp [Starting.effort, hs])
  | keepHandle | release | claimsFinished =>
    refine .of_same rfl rfl rfl ?_
    cases s.shutdown <;> simp [Starting.effort] <;> omega
  | refuse => exact .of_same rfl rfl rfl (Nat.lt_add_right s.planned (show 0 < 31 by decide))
  | missReceivers =>
    exact .of_same rfl rfl rfl (Nat.lt_add_right s.planned (show 0 < 30 by decide))
  | serveNothing =>
    exact .of_same rfl rfl rfl (Nat.lt_add_right s.planned (show 7 < 14 by decide))
  | _ => exact .of_same rfl rfl rfl (by simp [Starting.effort, Closing.effort])

theorem State.callEffort_set {task task' : Task} (hi : s.tasks[i]? = some task)
    (ht : t.tasks = s.tasks.set i task') (hs : s.shutdown → t.shutdown)
    (hp : t.planned ≤ s.planned)
    (hlt : task'.effort t.shutdown t.planned + t.coordinator.elim 0 Coordinator.effort <
      task.effort s.shutdown s.planned + s.coordinator.elim 0 Coordinator.effort) :
    t.callEffort < s.callEffort := by
  unfold State.callEffort
  rw [ht]
  exact sum_map_set_lt hi (Task.effort_le hs hp) hlt

theorem CloseMove.callEffort {task : Closing → Task} {stage stage' : Closing}
    (htask : Task.Closes task) (hi : s.tasks[i]? = some (task stage))
    (h : CloseMove c s stage stage' t) :
    State.callEffort { t with tasks := t.tasks.set i (task stage') } < s.callEffort := by
  obtain ⟨hlt, hs, hplans, hk⟩ := h.effort
  have hplanned : t.planned = s.planned := by rw [State.planned, hplans, State.planned]
  obtain ⟨n, hn⟩ := htask.effort s.shutdown s.planned
  refine State.callEffort_set hi (by rw [h.tasks]) hs (Nat.le_of_eq hplanned) ?_
  have hle := (task stage').effort_le hs (Nat.le_of_eq hplanned)
  show (task stage').effort t.shutdown t.planned + t.coordinator.elim 0 Coordinator.effort < _
  rw [hk]
  rw [hn] at hle ⊢
  omega

theorem State.less_advance {task : Task} (hi : s.tasks[i]? = some task)
    (h : s.advance c i task = some t) : Less (t.effort patience) (s.effort patience) := by
  refine .of_calls ?_
  unfold State.advance at h
  split at h
  next stage =>
    obtain ⟨⟨stage', u⟩, hu, rfl⟩ := Option.map_eq_some_iff.1 h
    rcases StartMove.of_start hu with hm | ⟨e, closing, closing', rfl, rfl, hm⟩
    · obtain ⟨hlt, hs, hp⟩ := hm.lessens
      have htasks : u.tasks.set i (.start stage') = s.tasks.set i (.start stage') := by
        rw [hm.tasks]
      exact State.callEffort_set hi htasks (fun h => hs.trans h) hp hlt
    · exact CloseMove.callEffort (.start e) hi hm
  next stage =>
    obtain ⟨⟨stage', u⟩, hu, rfl⟩ := Option.map_eq_some_iff.1 h
    exact CloseMove.callEffort .caller hi (.of_close hu)
  next stage =>
    obtain ⟨⟨stage', u⟩, hu, rfl⟩ := Option.map_eq_some_iff.1 h
    exact CloseMove.callEffort .coordinator hi (.of_close hu)

/-! ## The claims -/

theorem ClaimMove.less {claim : Claim} (hi : s.claims[i]? = some claim)
    (h : ClaimMove c s i claim t) : Less (t.effort patience) (s.effort patience) := by
  have hset {claim' : Claim} (hlt : claim'.effort < claim.effort) :
      ((s.claims.set i claim').map Claim.effort).sum < s.claimEffort :=
    sum_map_set_lt (m := 0) (n := 0) hi (fun _ => Nat.le_refl _) hlt
  cases h with
  | skip hp hw | decode hp hw =>
    refine .of_claims rfl (hset ?_)
    simp [Claim.effort, hp, hw, Nat.mul_add]
  | finish hp | send hp | drop hp | abandon hp =>
    exact .of_claims rfl (hset (by simp [Claim.effort, hp]))

/-! ## The coordinator -/

namespace State

variable {k k' : Coordinator}

/-- To look on, past where nothing is found, leaves fewer looks. -/
theorem lookEffort_lt {poll : Poll} (hleft : poll.left < k.poll.left)
    (hfinds : s.findsFrom k k.poll = s.findsFrom k poll) :
    s.lookEffort { k with poll := poll } < s.lookEffort k := by
  have hstirs : s.stirs { k with poll := poll } = s.stirs k := rfl
  have hfinds' : s.findsFrom { k with poll := poll } poll = s.findsFrom k k.poll := by
    rw [hfinds]
    cases poll <;> rfl
  unfold lookEffort
  rw [hstirs, hfinds']
  dsimp only
  split
  next => omega
  next => split <;> omega

theorem lookEffort_le (k : Coordinator) :
    s.lookEffort k ≤ 16 * (s.brokerErrors + k.acksOpen.toNat + k.sinkErrorOpen.toNat) + 10 := by
  have hleft : k.poll.left ≤ 4 := by cases k.poll <;> decide
  unfold lookEffort
  split
  next => omega
  next => split <;> omega

/-- What was found once, an error of the broker or a closed channel, is not found again. -/
theorem lookEffort_lt_of_found
    (hfound : t.brokerErrors + k'.acksOpen.toNat + k'.sinkErrorOpen.toNat <
      s.brokerErrors + k.acksOpen.toNat + k.sinkErrorOpen.toNat) :
    t.lookEffort k' < s.lookEffort k := by
  have hle := t.lookEffort_le k'
  have hge : 16 * (s.brokerErrors + k.acksOpen.toNat + k.sinkErrorOpen.toNat) ≤ s.lookEffort k :=
    Nat.le_add_right _ _
  omega

/-- The coordinator went on, and the calls are where they were. -/
structure CallsKept (s t : State ω) (k k' : Coordinator) : Prop where
  before : s.coordinator = some k
  after : t.coordinator = some k'
  effort : k'.effort = k.effort
  tasks : t.tasks = s.tasks
  shutdown : t.shutdown = s.shutdown
  plans : t.plans = s.plans
  claims : t.claims = s.claims

theorem CallsKept.callEffort (h : CallsKept s t k k') : t.callEffort = s.callEffort := by
  unfold State.callEffort planned
  rw [h.before, h.after, h.tasks, h.shutdown, h.plans]
  exact congrArg _ h.effort

theorem CallsKept.less_look (h : CallsKept s t k k') (hsink : t.sink = s.sink)
    (hlt : t.lookEffort k' < s.lookEffort k) : Less (t.effort patience) (s.effort patience) := by
  unfold State.effort claimEffort
  rw [h.callEffort, h.before, h.after, h.claims, hsink]
  exact .right _ (.right _ (.right _ hlt))

theorem CallsKept.less_mark {a : Ack} {sink : Sink.State ω} (h : CallsKept s t k k')
    (ha : s.sink.takeAck = some (a, sink)) (hsink : t.sink = sink) :
    Less (t.effort patience) (s.effort patience) :=
  .of_sink h.callEffort h.claims (hsink ▸ Sink.State.less_takeAck ha)

theorem less_setCoordinator (hk : s.coordinator = some k) (heffort : k'.effort = k.effort)
    (hlt : s.lookEffort k' < s.lookEffort k) :
    Less ((s.setCoordinator k').effort patience) (s.effort patience) :=
  CallsKept.less_look ⟨hk, rfl, heffort, rfl, rfl, rfl, rfl⟩ rfl hlt

theorem less_pollAcks (hk : s.coordinator = some k) (hp : k.poll = .acks) :
    Less ((s.pollAcks c k).effort patience) (s.effort patience) := by
  have heffort (poll : Poll) (hpoll : poll = .acks ∨ poll = .sinkError) :
      Coordinator.effort { k with poll := poll } = k.effort := by
    rcases hpoll with rfl | rfl <;> simp [Coordinator.effort, hp]
  have hon (hnone : (k.acksOpen && (s.sink.ack.isSome || s.sink.stopped)) = false) :
      Less ((s.setCoordinator { k with poll := .sinkError }).effort patience)
        (s.effort patience) :=
    less_setCoordinator hk (heffort _ (.inr rfl)) (lookEffort_lt (by simp [hp, Poll.left])
      (by simp only [hp, findsFrom, stirs, hnone, Bool.false_or]))
  unfold pollAcks
  split
  next hopen => exact hon (by simp_all)
  next hopen =>
    split
    next a sink ha =>
      exact CallsKept.less_mark ⟨hk, rfl, heffort _ (.inl rfl), rfl, rfl, rfl, rfl⟩ ha rfl
    next hnone =>
      split
      next =>
        exact less_setCoordinator hk (by simp [Coordinator.effort, hp])
          (lookEffort_lt_of_found (by simp_all))
      next hstop =>
        have hnone : s.sink.ack = none := Option.map_eq_none_iff.1 hnone
        exact hon (by simp [hnone, hstop])

theorem less_pollSinkError (hk : s.coordinator = some k) (hp : k.poll = .sinkError) :
    Less ((s.pollSinkError k).effort patience) (s.effort patience) := by
  have hon (hnone : (k.sinkErrorOpen && (s.sink.error.isSome || s.sink.stopped)) = false) :
      Less ((s.setCoordinator { k with poll := .brokerErrors }).effort patience)
        (s.effort patience) :=
    less_setCoordinator hk (by simp [Coordinator.effort, hp]) (lookEffort_lt
      (by simp [hp, Poll.left]) (by simp only [hp, findsFrom, hnone, Bool.false_or]))
  unfold pollSinkError
  split
  next hopen => exact hon (by simp_all)
  next hopen =>
    split
    next e sink he =>
      -- one more call has to close the consumer, which the coordinator has not to do any more
      refine .of_calls ?_
      simp [callEffort, setCoordinator, planned, hk, hp, Task.effort, Closing.effort,
        Coordinator.effort]
    next hnone =>
      split
      next =>
        exact less_setCoordinator hk (by simp [Coordinator.effort, hp])
          (lookEffort_lt_of_found (by simp_all))
      next hstop =>
        have hnone : s.sink.error = none := Option.map_eq_none_iff.1 hnone
        exact hon (by simp [hnone, hstop])

theorem less_pollBrokerErrors (hk : s.coordinator = some k) (hp : k.poll = .brokerErrors) :
    Less ((s.pollBrokerErrors k).effort patience) (s.effort patience) := by
  unfold pollBrokerErrors
  split
  next hmore =>
    refine CallsKept.less_look ⟨hk, rfl, by simp [Coordinator.effort, hp], rfl, rfl, rfl, rfl⟩ rfl
      (lookEffort_lt_of_found ?_)
    have hpos : s.brokerErrors ≠ 0 := of_decide_eq_true (Bool.and_eq_true_iff.1 hmore).2
    simp only [setCoordinator]
    omega
  next hnone =>
    exact less_setCoordinator hk (by simp [Coordinator.effort, hp]) (lookEffort_lt
      (by simp [hp, Poll.left])
      (by simp only [hp, findsFrom, Bool.eq_false_iff.2 hnone, Bool.false_or]))

theorem less_drain (hk : s.coordinator = some k) (hp : k.poll = .draining) :
    Less ((s.drain c k).effort patience) (s.effort patience) := by
  unfold drain
  split
  next a sink ha => exact CallsKept.less_mark ⟨hk, rfl, rfl, rfl, rfl, rfl, rfl⟩ ha rfl
  next =>
    refine .of_calls ?_
    simp [callEffort, setCoordinator, planned, hk, hp, Coordinator.effort]

theorem less_coordinate (h : s.coordinate c = some t) :
    Less (t.effort patience) (s.effort patience) := by
  unfold coordinate at h
  split at h
  next => cases h
  next k hk =>
    split at h
    next hp => cases h; exact less_pollAcks hk hp
    next hp => cases h; exact less_pollSinkError hk hp
    next hp => cases h; exact less_pollBrokerErrors hk hp
    next hp =>
      cases h
      split
      next =>
        refine .of_calls ?_
        simp [callEffort, setCoordinator, planned, hk, hp, Coordinator.effort]
      next hs =>
        exact less_setCoordinator hk (by simp [Coordinator.effort, hp]) (lookEffort_lt
          (by simp [hp, Poll.left]) (by simp only [hp, findsFrom, Bool.eq_false_iff.2 hs]))
    next hp =>
      split at h
      next hstirs =>
        cases h
        -- there are more looks again after a rest, but something is found at one of them
        have hlt : s.lookEffort { k with poll := .acks } < s.lookEffort k := by
          have hfinds : s.stirs { k with poll := .acks } := hstirs
          simp [lookEffort, hp, hstirs, hfinds, findsFrom, Poll.left]
        exact less_setCoordinator hk (by simp [Coordinator.effort, hp]) hlt
      next => cases h
    next hp => cases h; exact less_drain hk hp
    next => cases h

end State

/-! ## Every step -/

/-- Somebody moves who is there: the sink, a claim, the coordinator, or a call under way. -/
def State.Own (c : Setup ω) (s t : State ω) : Prop := ∃ a ∈ s.ownActions, s.step c a = some t

/-- Every step of somebody who is there leaves less to be done. -/
theorem State.Own.less (hw : c.sink.writer.Patient patience) (h : s.Own c t) :
    Less (t.effort patience) (s.effort patience) := by
  have hsink {sink : Sink.State ω}
      (hless : Sink.Less (sink.effort patience) (s.sink.effort patience)) :
      Less (State.effort patience { s with sink := sink }) (s.effort patience) :=
    .of_sink rfl rfl hless
  obtain ⟨a, ha, ht⟩ := h
  cases a with
  | sinkTake =>
    obtain ⟨sink, hs, rfl⟩ := Option.map_eq_some_iff.1 ht
    exact hsink (Sink.State.less_take hs)
  | sinkWindUp =>
    obtain ⟨sink, hs, rfl⟩ := Option.map_eq_some_iff.1 ht
    exact hsink (Sink.State.less_windUp hs)
  | sinkWork =>
    obtain ⟨sink, hs, rfl⟩ := Option.map_eq_some_iff.1 ht
    exact hsink (Sink.State.less_work hw hs)
  | claimReceive i =>
    obtain ⟨claim, hi, ht⟩ := Option.bind_eq_some_iff.1 ht
    exact (ClaimMove.of_receive ht).less hi
  | claimSend i =>
    obtain ⟨claim, hi, ht⟩ := Option.bind_eq_some_iff.1 ht
    exact (ClaimMove.of_send ht).less hi
  | claimLeave i =>
    obtain ⟨claim, hi, ht⟩ := Option.bind_eq_some_iff.1 ht
    exact (ClaimMove.of_leave (c := c) ht).less hi
  | coordinate => exact less_coordinate ht
  | advance i =>
    obtain ⟨task, hi, ht⟩ := Option.bind_eq_some_iff.1 ht
    exact less_advance hi ht
  | group | callStart | callClose | reportBrokerError | takeBrokerErrors =>
    simp [ownActions] at ha

/-- Nobody who is there can move. -/
def State.Rests (c : Setup ω) (s : State ω) : Prop := ∀ t, ¬s.Own c t

/-- However those who are there move on, they come to rest, and then `P` holds. -/
inductive State.Settles (c : Setup ω) (P : State ω → Prop) : State ω → Prop
  | intro {s : State ω} : ((∀ t, ¬s.Own c t) → P s) → (∀ t, s.Own c t → Settles c P t) →
      Settles c P s

/-- Everybody comes to rest, unless the writer is interrupted forever. -/
theorem State.settles {P : State ω → Prop} (hw : c.sink.writer.Patient patience) (s : State ω)
    (hrest : ∀ t, s.LeadsTo c t → t.Rests c → P t) : s.Settles c P := by
  induction h : s.effort patience using less_wf.induction generalizing s with
  | _ effort ih =>
    refine .intro (hrest s .refl) fun t ht => ?_
    refine ih (t.effort patience) (h ▸ ht.less hw) t (fun u hu => hrest u ?_) rfl
    obtain ⟨a, -, hs⟩ := ht
    exact (State.Leads.step .refl hs trivial).trans hu

end EventPipeline.Consumer
