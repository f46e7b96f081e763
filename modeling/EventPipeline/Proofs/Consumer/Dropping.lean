import EventPipeline.Proofs.Consumer.Attendance
/-!
# Messages that claims give up

Whatever is done with a message before it is in the queue of the sink, is done in a move of its
claim (`State.step_cases`). A claim may give up the message it is sending when shutdown is announced
or the sink takes no more, and that is its last move: it gives up one message at most, and does
nothing after that (`DropsLast`).
-/
namespace EventPipeline.Consumer

open Sink (acceptedIn)

variable {ω : Type} {c : Setup ω} {writer : ω} {plans : List Plan} {s t u : State ω} {a : Action}
  {actions : List Action} {i : Nat} {m : Sink.Message}

/-- The claim that an action is a move of. -/
def Action.claim? : Action → Option Nat
  | .claimReceive i | .claimSend i | .claimLeave i | .group (.drop i) => some i
  | _ => none

/-- The message that a claim is sending. -/
def Claim.sending (claim : Claim) : List Sink.Message :=
  match claim.phase with
  | .sending m => [m]
  | _ => []

/-- The messages that claims are sending. -/
def State.sending (s : State ω) : List Sink.Message := s.claims.flatMap Claim.sending

/-! ## What the log tells of the claims -/

/-- Whether something happened to a message of a claim. -/
def Happening.ofClaim : Happening → Bool
  | .consumed _ | .undecodable _ | .abandoned _ => true
  | _ => false

/-- The messages that claims took. -/
def consumedIn (log : List Happening) : List Delivery :=
  log.filterMap (fun
    | .consumed d => some d
    | _ => none)

/-- The messages that held no event. -/
def undecodableIn (log : List Happening) : List Delivery :=
  log.filterMap (fun
    | .undecodable d => some d
    | _ => none)

/-- The messages given up. -/
def droppedIn (log : List Happening) : List Sink.Message :=
  log.filterMap (fun
    | .abandoned m => some m
    | _ => none)

/-- The claims have no part in what was added to a log. -/
def Unclaimed (more : List Happening) : Prop := ∀ x ∈ more, x.ofClaim = false

section
variable {log more : List Happening}

theorem consumedIn_append : consumedIn (log ++ more) = consumedIn log ++ consumedIn more :=
  List.filterMap_append

theorem undecodableIn_append :
    undecodableIn (log ++ more) = undecodableIn log ++ undecodableIn more :=
  List.filterMap_append

theorem droppedIn_append : droppedIn (log ++ more) = droppedIn log ++ droppedIn more :=
  List.filterMap_append

theorem Unclaimed.nothing (h : Unclaimed more) :
    consumedIn more = [] ∧ undecodableIn more = [] ∧ droppedIn more = [] := by
  refine ⟨?_, ?_, ?_⟩
  all_goals
    refine List.filterMap_eq_nil_iff.2 fun x hx => ?_
    cases x <;> first | rfl | cases h _ hx

end

/-! ## Moves that are none of a claim -/

/-- A move leaves alone what claims do. -/
structure State.Aside (s t : State ω) : Prop where
  intake : t.intake = s.intake
  log : ∃ more, t.log = s.log ++ more ∧ Unclaimed more
  accepted : acceptedIn t.sink.log = acceptedIn s.sink.log
  sending : t.sending = s.sending

namespace State.Aside

theorem of_log (hi : t.intake = s.intake) (hlog : t.log = s.log)
    (ha : acceptedIn t.sink.log = acceptedIn s.sink.log) (hs : t.sending = s.sending) :
    s.Aside t :=
  ⟨hi, ⟨[], by rw [hlog, List.append_nil], fun _ hx => by cases hx⟩, ha, hs⟩

theorem of_record {x : Happening} (hx : x.ofClaim = false) (hi : t.intake = s.intake)
    (hlog : t.log = s.log ++ [x]) (hsink : t.sink = s.sink) (hclaims : t.claims = s.claims) :
    s.Aside t := by
  refine ⟨hi, ⟨[x], hlog, fun y hy => ?_⟩, by rw [hsink], ?_⟩
  · rw [List.mem_singleton.1 hy]
    exact hx
  · rw [State.sending, State.sending, hclaims]

theorem setTasks (h : s.Aside t) (tasks : List Task) : s.Aside { t with tasks := tasks } :=
  ⟨h.intake, h.log, h.accepted, h.sending⟩

theorem coordinate {k : Coordinator} (hm : CoordinatorMove c s k t) : s.Aside t := by
  cases hm with
  | @mark b =>
    refine ⟨rfl, ⟨.ackMarked b :: (b.mark c.refuses).map .marked, rfl, fun x hx => ?_⟩, rfl, rfl⟩
    rcases List.mem_cons.1 hx with rfl | hx
    · rfl
    · obtain ⟨attempt, -, rfl⟩ := List.mem_map.1 hx
      rfl
  | _ => exact .of_log rfl rfl rfl rfl

theorem close {stage stage' : Closing} (hm : CloseMove c s stage stage' t) : s.Aside t := by
  cases hm with
  | begin | leaveGroup | publish => exact .of_record rfl rfl rfl rfl rfl
  | _ => exact .of_log rfl rfl rfl rfl

theorem start {stage stage' : Starting} (hm : StartMove s stage stage' t) : s.Aside t := by
  cases hm with
  | begin | serveNothing | serve | serveFreely | sessionFails | sessionBreaksOff =>
    exact .of_record rfl rfl rfl rfl rfl
  | dispatch => exact .of_log rfl rfl rfl (by simp [State.sending, Claim.sending])
  | @release session =>
    refine .of_log rfl rfl rfl ?_
    show (s.claims.map _).flatMap Claim.sending = s.claims.flatMap Claim.sending
    rw [List.flatMap_map]
    refine congrArg (List.flatMap · s.claims) (funext fun claim => ?_)
    split <;> rfl
  | _ => exact .of_log rfl rfl rfl rfl

theorem advance {task : Task} (h : s.advance c i task = some t) : s.Aside t := by
  unfold State.advance at h
  split at h
  next stage =>
    obtain ⟨⟨stage', v⟩, hv, rfl⟩ := Option.map_eq_some_iff.1 h
    rcases StartMove.of_start hv with hm | ⟨e, stage, stage', -, -, hm⟩
    · exact (start hm).setTasks _
    · exact (close hm).setTasks _
  next stage =>
    obtain ⟨⟨stage', v⟩, hv, rfl⟩ := Option.map_eq_some_iff.1 h
    exact (close (.of_close hv)).setTasks _
  next stage =>
    obtain ⟨⟨stage', v⟩, hv, rfl⟩ := Option.map_eq_some_iff.1 h
    exact (close (.of_close hv)).setTasks _

theorem leaveSession {stage : Starting} (h : s.leaveSession i stage = some t) : s.Aside t := by
  unfold State.leaveSession at h
  split at h
  next => cases h; exact .of_log rfl rfl rfl rfl
  next => cases h

/-- A group may change what a claim is fed, and not what it is sending. -/
theorem setClaim {claim claim' : Claim} (hi : s.claims[i]? = some claim)
    (hp : claim'.phase = claim.phase) : s.Aside (s.setClaim i claim') := by
  refine .of_log rfl rfl rfl (flatMap_set_of_eq hi ?_)
  rw [Claim.sending, hp, Claim.sending]

end State.Aside

/-- A group drops a claim, or leaves it to the claims what is done with their messages. -/
theorem State.groupMove_cases {g : GroupMove} (h : s.groupMove g = some t) :
    (∃ i claim, g = .drop i ∧ s.claims[i]? = some claim ∧ ClaimMove c s i claim t) ∨
      (∀ i, g ≠ .drop i) ∧ s.Aside t := by
  unfold State.groupMove at h
  split at h
  next => cases h
  next hfree =>
    have hfree : s.free := by simpa using hfree
    split at h
    next =>
      cases h
      exact .inr ⟨by simp, .of_log rfl rfl rfl (by simp [State.sending, Claim.sending])⟩
    next =>
      obtain ⟨claim, hi, h⟩ := Option.bind_eq_some_iff.1 h
      split at h
      next => cases h; exact .inr ⟨by simp, .setClaim hi rfl⟩
      next => cases h
    next =>
      obtain ⟨claim, hi, rfl⟩ := Option.map_eq_some_iff.1 h
      exact .inr ⟨by simp, .setClaim hi rfl⟩
    next i =>
      obtain ⟨claim, hi, h⟩ := Option.bind_eq_some_iff.1 h
      exact .inl ⟨i, claim, rfl, hi, .of_drop h (.inr hfree)⟩
    next => exact .inr ⟨by simp, .leaveSession h⟩
    next => exact .inr ⟨by simp, .leaveSession h⟩
    next => exact .inr ⟨by simp, .leaveSession h⟩

/-- A step is a move of a claim, or it has nothing to do with what claims do. -/
theorem State.step_cases (h : s.step c a = some t) :
    (∃ i claim, a.claim? = some i ∧ s.claims[i]? = some claim ∧ ClaimMove c s i claim t) ∨
      a.claim? = none ∧ s.Aside t := by
  cases a with
  | sinkTake =>
    obtain ⟨sink, hs, rfl⟩ := Option.map_eq_some_iff.1 h
    exact .inr ⟨rfl, .of_log rfl rfl (Sink.State.Silent.take hs).accepted rfl⟩
  | sinkWindUp =>
    obtain ⟨sink, hs, rfl⟩ := Option.map_eq_some_iff.1 h
    exact .inr ⟨rfl, .of_log rfl rfl (Sink.State.Silent.windUp hs).accepted rfl⟩
  | sinkWork =>
    obtain ⟨sink, hs, rfl⟩ := Option.map_eq_some_iff.1 h
    exact .inr ⟨rfl, .of_log rfl rfl (Sink.State.acceptedIn_work hs) rfl⟩
  | claimReceive i =>
    obtain ⟨claim, hi, h⟩ := Option.bind_eq_some_iff.1 h
    exact .inl ⟨i, claim, rfl, hi, .of_receive h⟩
  | claimSend i =>
    obtain ⟨claim, hi, h⟩ := Option.bind_eq_some_iff.1 h
    exact .inl ⟨i, claim, rfl, hi, .of_send h⟩
  | claimLeave i =>
    obtain ⟨claim, hi, h⟩ := Option.bind_eq_some_iff.1 h
    exact .inl ⟨i, claim, rfl, hi, .of_leave h⟩
  | coordinate =>
    obtain ⟨k, -, hm⟩ := CoordinatorMove.of_coordinate h
    exact .inr ⟨rfl, .coordinate hm⟩
  | advance i =>
    obtain ⟨task, -, h⟩ := Option.bind_eq_some_iff.1 h
    exact .inr ⟨rfl, .advance h⟩
  | group g =>
    rcases State.groupMove_cases (c := c) h with ⟨i, claim, rfl, hi, hm⟩ | ⟨hnot, hm⟩
    · exact .inl ⟨i, claim, rfl, hi, hm⟩
    · refine .inr ⟨?_, hm⟩
      cases g with
      | drop i => exact absurd rfl (hnot i)
      | _ => rfl
  | callStart | callClose | reportBrokerError | takeBrokerErrors =>
    cases h
    exact .inr ⟨rfl, .of_log rfl rfl rfl rfl⟩

/-! ## Giving up -/

/-- What is given up in a step, with the number of the claim. -/
def State.givenUp (s t : State ω) (a : Action) : List (Nat × Sink.Message) :=
  a.claim?.toList.flatMap (fun i => (droppedIn (t.log.drop s.log.length)).map (fun m => (i, m)))

/-- What is given up in a run, with the numbers of the claims. -/
def State.drops (c : Setup ω) : State ω → List Action → List (Nat × Sink.Message)
  | _, [] => []
  | s, a :: actions =>
    match s.step c a with
    | some t => s.givenUp t a ++ drops c t actions
    | none => []

/-- A step in which nothing is given up, or one message by a claim that is finished then. -/
inductive GivesUp (s t : State ω) (a : Action) : Prop
  | nothing : s.givenUp t a = [] → droppedIn t.log = droppedIn s.log → GivesUp s t a
  | one {i : Nat} {m : Sink.Message} {claim : Claim} :
    s.givenUp t a = [(i, m)] → droppedIn t.log = droppedIn s.log ++ [m] → a.claim? = some i →
    (s.shutdown ∨ s.free ∨ s.sink.inputOpen = false) → t.claims[i]? = some claim →
    claim.phase = .finished → GivesUp s t a

theorem State.givenUp_of_log {l : List Happening} (ha : a.claim? = some i)
    (hlog : t.log = s.log ++ l) : s.givenUp t a = (droppedIn l).map (fun m => (i, m)) := by
  rw [givenUp, ha, hlog, List.drop_left]
  simp

theorem GivesUp.of_step (h : s.step c a = some t) : GivesUp s t a := by
  rcases State.step_cases h with ⟨i, claim, ha, hi, hm⟩ | ⟨ha, hm⟩
  · have hnothing {l : List Happening} (hlog : t.log = s.log ++ l) (hl : droppedIn l = []) :
        GivesUp s t a := by
      refine .nothing ?_ ?_
      · rw [State.givenUp_of_log ha hlog, hl, List.map_nil]
      · rw [hlog, droppedIn_append, hl, List.append_nil]
    cases hm with
    | @skip d =>
      exact hnothing (l := [.consumed d, .undecodable d]) (List.append_assoc _ _ _) rfl
    | @decode d => exact hnothing (l := [.consumed d]) rfl rfl
    | finish | send | drop => exact hnothing (l := []) (List.append_nil _).symm rfl
    | @abandon m hp hmay =>
      refine .one (i := i) (m := m) ?_ droppedIn_append ha hmay
        (List.getElem?_set_self (List.getElem?_eq_some_iff.1 hi).1) rfl
      rw [State.givenUp_of_log ha (l := [.abandoned m]) rfl]
      rfl
  · obtain ⟨more, hlog, hmore⟩ := hm.log
    refine .nothing ?_ ?_
    · rw [State.givenUp, ha]
      rfl
    · rw [hlog, droppedIn_append, hmore.nothing.2.2, List.append_nil]

/-! ## Runs -/

theorem ClaimMove.at_work {claim : Claim} (hm : ClaimMove c s i claim t) :
    claim.phase ≠ .finished := by
  cases hm with
  | skip hp | decode hp | finish hp | send hp | drop hp | abandon hp => simp [hp]

/-- A claim that is finished makes no move any more. -/
theorem State.claim?_ne_of_finished {claim : Claim} (h : s.run c actions = some t)
    (hi : s.claims[i]? = some claim) (hfinished : claim.phase = .finished) :
    ∀ a ∈ actions, a.claim? ≠ some i := by
  induction actions generalizing s claim with
  | nil => exact fun _ hx => by cases hx
  | cons a actions ih =>
    obtain ⟨v, hv, h⟩ := Option.bind_eq_some_iff.1 h
    obtain ⟨claim', hi', hkeeps⟩ := (Move.of_step hv).claim_at hi
    intro b hb
    rcases List.mem_cons.1 hb with rfl | hb
    · intro hclaim
      rcases State.step_cases hv with ⟨j, claim'', hj, hget, hm⟩ | ⟨hnone, -⟩
      · obtain rfl := Option.some.inj (hclaim.symm.trans hj)
        obtain rfl := Option.some.inj (hi.symm.trans hget)
        exact hm.at_work hfinished
      · rw [hnone] at hclaim
        cases hclaim
    · exact ih h hi' (hkeeps hfinished) b hb

theorem State.claim?_of_drops {p : Nat × Sink.Message} (hp : p ∈ s.drops c actions) :
    ∃ a ∈ actions, a.claim? = some p.1 := by
  induction actions generalizing s with
  | nil => cases hp
  | cons a actions ih =>
    rw [drops] at hp
    split at hp
    next v _ =>
      rcases List.mem_append.1 hp with hp | hp
      · obtain ⟨i, hi, hp⟩ := List.mem_flatMap.1 hp
        obtain ⟨m, -, rfl⟩ := List.mem_map.1 hp
        exact ⟨a, List.mem_cons_self, Option.mem_toList.1 hi⟩
      · obtain ⟨b, hb, hclaim⟩ := ih hp
        exact ⟨b, List.mem_cons_of_mem a hb, hclaim⟩
    next => cases hp

theorem State.drops_cons {v : State ω} (hv : s.step c a = some v) :
    s.drops c (a :: actions) = s.givenUp v a ++ v.drops c actions := by
  rw [drops, hv]

theorem State.map_snd_drops (h : s.run c actions = some t) :
    droppedIn t.log = droppedIn s.log ++ (s.drops c actions).map Prod.snd := by
  induction actions generalizing s with
  | nil =>
    obtain rfl := Option.some.inj h
    exact (List.append_nil _).symm
  | cons a actions ih =>
    obtain ⟨v, hv, h⟩ := Option.bind_eq_some_iff.1 h
    rw [ih h, State.drops_cons hv]
    cases GivesUp.of_step hv with
    | nothing hg hlog => rw [hg, hlog, List.nil_append]
    | one hg hlog => rw [hg, hlog, List.append_assoc]; rfl

theorem State.nodup_drops (h : s.run c actions = some t) :
    ((s.drops c actions).map Prod.fst).Nodup := by
  induction actions generalizing s with
  | nil => exact List.nodup_nil
  | cons a actions ih =>
    obtain ⟨v, hv, h⟩ := Option.bind_eq_some_iff.1 h
    rw [State.drops_cons hv]
    cases GivesUp.of_step hv with
    | nothing hg => rw [hg]; exact ih h
    | @one i m claim hg _ _ _ hi hfinished =>
      rw [hg]
      refine List.nodup_cons.2 ⟨fun hmem => ?_, ih h⟩
      obtain ⟨p, hp, rfl⟩ := List.mem_map.1 hmem
      obtain ⟨b, hb, hclaim⟩ := State.claim?_of_drops hp
      exact State.claim?_ne_of_finished h hi hfinished b hb hclaim

/-- In a run each claim gives up one message at most. It does so once shutdown is announced or the
sink takes no more, and makes no move after that. -/
structure DropsLast (c : Setup ω) (s : State ω) (actions : List Action) : Prop where
  once : ((s.drops c actions).map Prod.fst).Nodup
  last : ∀ before a after u v, actions = before ++ a :: after → s.run c before = some u →
    u.step c a = some v → ∀ i m, (i, m) ∈ u.givenUp v a →
      (u.shutdown ∨ u.sink.inputOpen = false) ∧ ∀ b ∈ after, b.claim? ≠ some i

theorem State.dropsLast (hn : .free ∉ plans)
    (h : (State.initial writer plans).run c actions = some t) :
    DropsLast c (.initial writer plans) actions := by
  refine ⟨State.nodup_drops h, fun before a after u v hactions hu hv i m hmem => ?_⟩
  have hreach : u.Reachable c writer plans := .run .initial hu
  rw [hactions] at h
  obtain ⟨w, hw, h⟩ := Option.bind_eq_some_iff.1 ((runFrom_append hu).symm.trans h)
  obtain rfl := Option.some.inj (hv.symm.trans hw)
  cases GivesUp.of_step hv with
  | nothing hg => rw [hg] at hmem; cases hmem
  | one hg _ _ hmay hi hfinished =>
    rw [hg, List.mem_singleton, Prod.mk.injEq] at hmem
    obtain ⟨rfl, rfl⟩ := hmem
    refine ⟨?_, State.claim?_ne_of_finished h hi hfinished⟩
    rcases hmay with hshut | hfree | hclosed
    · exact .inl hshut
    · rw [(hreach.planned hn).1] at hfree
      cases hfree
    · exact .inr hclosed

end EventPipeline.Consumer
