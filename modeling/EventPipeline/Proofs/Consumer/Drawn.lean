import EventPipeline.Proofs.Consumer.Delivery
import EventPipeline.Proofs.Drawn
/-!
# Messages drawn from the claims

Claims send their messages in any order among each other, but each of them sends its own
one after the other. So what the sink takes is drawn from the heads of the lists of
messages that are planned for the claims (`Drawn`), and a move of the consumer draws one
message at most (`Move.draws`). A message that a claim gives up is drawn as well, but
does not get to the sink.
-/
namespace EventPipeline.Consumer

open Sink (acceptedIn)

variable {ω : Type} {c : Setup ω} {s t u : State ω} {i : Nat}

/-- The messages that are going to be sent for a planned session, claim by claim. -/
def Plan.messages (c : Setup ω) (session : Nat) : Plan → List (List Sink.Message)
  | .serve claims => claims.map (fun e => e.2.filterMap (c.message? session))
  | _ => []

/-- The messages that are going to be sent in the sessions behind the first `n`, claim by claim. -/
def Setup.planned (c : Setup ω) : Nat → List Plan → List (List Sink.Message)
  | _, [] => []
  | n, p :: rest => p.messages c (n + 1) ++ c.planned (n + 1) rest

/-- The messages of the partitions that are about to be claimed. -/
def Starting.messages (c : Setup ω) : Starting → List (List Sink.Message)
  | .dispatching session claims _ => (Plan.serve claims).messages c session
  | _ => []

/-- The messages that are still to be sent, for every claim there is or is going to be. -/
def State.remaining (c : Setup ω) (s : State ω) : List (List Sink.Message) :=
  s.claims.map (Claim.left c) ++
    (s.starts.flatMap (Starting.messages c) ++ c.planned s.sessions s.plans)

/-- A planned message has the acknowledgment of a single message. -/
theorem exists_of_mem_planned {plans : List Plan} {n : Nat} {m : Sink.Message}
    (h : m ∈ (c.planned n plans).flatten) :
    ∃ session key offset, m.ack = .ofMessage session key offset := by
  induction plans generalizing n with
  | nil => cases h
  | cons p plans ih =>
    rw [Setup.planned, List.flatten_append] at h
    rcases List.mem_append.1 h with h | h
    · obtain ⟨l, hl, hm⟩ := List.mem_flatten.1 h
      cases p with
      | serve claims =>
        obtain ⟨e, -, rfl⟩ := List.mem_map.1 hl
        obtain ⟨d, -, hd⟩ := List.mem_filterMap.1 hm
        exact ⟨_, _, _, Setup.ack_of_message? hd⟩
      | breakOff | fail | free => cases hl
    · exact ih h

/-! ## What a move draws -/

/-- What a move has to do with the messages that are still to be sent. -/
inductive Draws (c : Setup ω) (s t : State ω) : Prop
  | nothing : t.remaining c = s.remaining c → acceptedIn t.sink.log = acceptedIn s.sink.log →
    Draws c s t
  | sends {i : Nat} {m : Sink.Message} {rest : List Sink.Message} :
    (s.remaining c)[i]? = some (m :: rest) → t.remaining c = (s.remaining c).set i rest →
    acceptedIn t.sink.log = acceptedIn s.sink.log ++ [m] → Draws c s t
  | abandons {i : Nat} {m : Sink.Message} {rest : List Sink.Message} :
    s.shutdown ∨ s.sink.inputOpen = false → (s.remaining c)[i]? = some (m :: rest) →
    t.remaining c = (s.remaining c).set i rest →
    acceptedIn t.sink.log = acceptedIn s.sink.log → Draws c s t

/-- Where nothing is left, nothing is drawn. -/
theorem Draws.of_drained (h : Draws c s t) (hs : ∀ l ∈ s.remaining c, l = []) :
    t.remaining c = s.remaining c ∧ acceptedIn t.sink.log = acceptedIn s.sink.log := by
  have hno {i : Nat} {m : Sink.Message} {rest : List Sink.Message} {p : Prop}
      (hi : (s.remaining c)[i]? = some (m :: rest)) : p := by
    cases hs _ (List.mem_of_getElem? hi)
  cases h with
  | nothing hr ha => exact ⟨hr, ha⟩
  | sends hi => exact hno hi
  | abandons _ hi => exact hno hi

/-- A claim that changes, changes its own messages. -/
theorem State.remaining_setClaim {claim claim' : Claim} (hi : s.claims[i]? = some claim)
    (hclaims : t.claims = s.claims.set i claim') (htasks : t.tasks = s.tasks)
    (hplans : t.plans = s.plans) (hsessions : t.sessions = s.sessions) :
    (s.remaining c)[i]? = some (claim.left c) ∧
      t.remaining c = (s.remaining c).set i (claim'.left c) := by
  have hlt : i < (s.claims.map (Claim.left c)).length := by
    rw [List.length_map]
    exact (List.getElem?_eq_some_iff.1 hi).1
  constructor
  · rw [State.remaining, List.getElem?_append_left hlt, List.getElem?_map, hi]
    rfl
  · rw [State.remaining, State.remaining, List.set_append_left _ _ hlt, hclaims, List.map_set,
      State.starts, State.starts, htasks, hplans, hsessions]

theorem Draws.claim {claim : Claim} (hi : s.claims[i]? = some claim)
    (hfree : s.free = false) (hm : ClaimMove c s i claim t) : Draws c s t := by
  -- whatever the claim becomes, only its own messages change
  have hset {claim' : Claim} (hclaims : t.claims = s.claims.set i claim')
      (htasks : t.tasks = s.tasks) (hplans : t.plans = s.plans)
      (hsessions : t.sessions = s.sessions) :=
    State.remaining_setClaim (c := c) hi hclaims htasks hplans hsessions
  have hsame {claim' : Claim} (hleft : claim'.left c = claim.left c)
      (hclaims : t.claims = s.claims.set i claim') (htasks : t.tasks = s.tasks)
      (hplans : t.plans = s.plans) (hsessions : t.sessions = s.sessions)
      (hsink : t.sink = s.sink) : Draws c s t := by
    obtain ⟨hget, hremaining⟩ := hset hclaims htasks hplans hsessions
    refine .nothing ?_ (by rw [hsink])
    obtain ⟨hlt, hget⟩ := List.getElem?_eq_some_iff.1 hget
    rw [hremaining, hleft, ← hget, List.set_getElem_self]
  cases hm with
  | skip hp hw he =>
    exact hsame (by simp [Claim.left, hw, Setup.message?, he]) rfl rfl rfl rfl rfl
  | decode hp hw he =>
    exact hsame (by simp [Claim.left, hp, hw, Setup.message?, he]) rfl rfl rfl rfl rfl
  | finish hp | drop hp => exact hsame (by simp [Claim.left, hp]) rfl rfl rfl rfl rfl
  | @send m sink hp hm =>
    obtain ⟨hget, hremaining⟩ := hset rfl rfl rfl rfl
    have hleft : claim.left c = m :: claim.waiting.filterMap (c.message? claim.session) := by
      simp [Claim.left, hp]
    exact .sends (hget.trans (congrArg some hleft)) hremaining (Sink.State.accepted_of_offer hm).2
  | @abandon m hp hmay =>
    obtain ⟨hget, hremaining⟩ := hset rfl rfl rfl rfl
    have hleft : claim.left c = m :: claim.waiting.filterMap (c.message? claim.session) := by
      simp [Claim.left, hp]
    refine .abandons ?_ (hget.trans (congrArg some hleft)) hremaining rfl
    rcases hmay with hs | hf | hc
    · exact .inl hs
    · simp [hfree] at hf
    · exact .inr hc

/-! ## The calls of `start` -/

section
variable {stage stage' : Starting}

/-- A task goes on with nothing more to claim than before. -/
theorem State.remaining_of_task {a b : Task} (hi : s.tasks[i]? = some a)
    (ht : t.tasks = s.tasks.set i b)
    (hb : b.starts.flatMap (Starting.messages c) = a.starts.flatMap (Starting.messages c))
    (hclaims : t.claims = s.claims) (hplans : t.plans = s.plans)
    (hsessions : t.sessions = s.sessions) : t.remaining c = s.remaining c := by
  have hsame : t.starts.flatMap (Starting.messages c) =
      s.starts.flatMap (Starting.messages c) := by
    rw [State.starts, State.starts, ht, List.flatMap_assoc, List.flatMap_assoc]
    exact flatMap_set_of_eq hi hb
  rw [State.remaining, State.remaining, hsame, hclaims, hplans, hsessions]

/-- Whoever runs the consumer goes on with what is to be claimed and what is planned. -/
theorem State.remaining_start (hs : s.starts = [stage]) (ht : t.starts = (Task.start stage').starts)
    (hp : t.claims.map (Claim.left c) ++
      ((Task.start stage').starts.flatMap (Starting.messages c) ++ c.planned t.sessions t.plans) =
        s.claims.map (Claim.left c) ++ (stage.messages c ++ c.planned s.sessions s.plans)) :
    t.remaining c = s.remaining c := by
  rw [State.remaining, State.remaining, hs, ht, hp, List.flatMap_singleton]

theorem StartMove.remaining (hcalls : Calls s) (hi : s.tasks[i]? = some (.start stage))
    (hm : StartMove s stage stage' u) :
    State.remaining c { u with tasks := u.tasks.set i (.start stage') } = s.remaining c := by
  have hs := fun hruns => (hcalls.only_start hi hruns).1
  have ht := fun hruns => (hcalls.only_start hi hruns).2.2
  cases hm with
  | begin | refuse => exact State.remaining_of_task hi rfl rfl rfl rfl rfl
  | takeReceivers | missReceivers | spawn | keepHandle | shutDown | goOn | seeShutdown
  | claimsFinished | closed | closeFailed | waited | collect =>
    exact State.remaining_start (hs rfl) (ht rfl _) rfl
  | @dispatched session ends =>
    exact State.remaining_start (hs rfl) (ht rfl _) (by cases ends <;> rfl)
  | serveNothing hp =>
    refine State.remaining_start (hs rfl) (ht rfl _) ?_
    show _ ++ ([] ++ c.planned (s.sessions + 1) s.plans) = _ ++ ([] ++ c.planned s.sessions s.plans)
    rw [hp]
    rfl
  | serve hp =>
    refine State.remaining_start (hs rfl) (ht rfl _) ?_
    rw [hp]
    simp [Task.starts, Starting.runs, Starting.messages, Setup.planned, State.nextSession,
      State.record]
  | serveFreely hp | sessionFails hp | sessionBreaksOff hp =>
    refine State.remaining_start (hs rfl) (ht rfl _) ?_
    rw [hp]
    rfl
  | dispatch =>
    refine State.remaining_start (hs rfl) (ht rfl _) ?_
    simp [Task.starts, Starting.runs, Starting.messages, Plan.messages, Claim.left]
  | @release session =>
    refine State.remaining_start (hs rfl) (ht rfl _) (congrArg (· ++ _) ?_)
    show (s.release session).claims.map (Claim.left c) = s.claims.map (Claim.left c)
    rw [State.release, List.map_map]
    refine List.map_congr_left fun claim _ => ?_
    dsimp only [Function.comp]
    split <;> rfl

end

/-! ## Every move -/

/-- Without a free group, what is still to be sent changes only by what a claim sends or gives
up. -/
theorem Move.draws (hm : Move c s t) (hcalls : Calls s) (hfree : s.free = false) :
    Draws c s t := by
  have hnotFree := Bool.eq_false_iff.1 hfree
  cases hm with
  | sinkTake hm => exact .nothing rfl (Sink.State.Silent.take hm).accepted
  | sinkWindUp hm => exact .nothing rfl (Sink.State.Silent.windUp hm).accepted
  | sinkWork hm => exact .nothing rfl (Sink.State.acceptedIn_work hm)
  | claim hi hm => exact .claim hi hfree hm
  | coordinate _ hm =>
    cases hm with
    | fail =>
      refine .nothing ?_ rfl
      simp [State.remaining, State.starts, State.setCoordinator, Task.starts]
    | _ => exact .nothing rfl rfl
  | @close i task stage stage' u htask hi hm =>
    have hmessages : (task stage').starts.flatMap (Starting.messages c) =
        (task stage).starts.flatMap (Starting.messages c) := by
      cases htask <;> rfl
    cases hm <;> exact .nothing (State.remaining_of_task hi rfl hmessages rfl rfl rfl) rfl
  | start hi hm =>
    refine .nothing (hm.remaining hcalls hi) ?_
    cases hm <;> rfl
  | claimFreely hf | feed hf | cutOff hf | leaveSession hf => exact absurd hf hnotFree
  | callStart | callClose =>
    refine .nothing ?_ rfl
    simp [State.remaining, State.starts, Task.starts, Starting.runs]
  | _ => exact .nothing rfl rfl

end EventPipeline.Consumer
