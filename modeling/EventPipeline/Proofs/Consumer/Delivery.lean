import EventPipeline.Proofs.Consumer.Turns
/-!
# Messages reach the sink in the order of delivery

As long as the sink takes messages, what it took of a partition, what the claims still
hold of it, what is about to be claimed and what is planned make up, in this order, all
that is ever delivered of it (`Fed`). So what the sink took of a partition is always
the first part of that.
-/
namespace EventPipeline.Consumer

open Sink (acceptedIn)

variable {ω : Type} {c : Setup ω} {writer : ω} {plans : List Plan} {s t : State ω}

/-- The message sent to the sink for a delivered one, if it holds an event. -/
def Setup.message? (c : Setup ω) (session : Nat) (d : Delivery) : Option Sink.Message :=
  match c.event d with
  | .ok event => some ⟨d.key.topic, event, .ofMessage session d.key d.offset⟩
  | .error _ => none

theorem Setup.ack_of_message? {session : Nat} {d : Delivery} {m : Sink.Message}
    (h : c.message? session d = some m) : m.ack = .ofMessage session d.key d.offset := by
  unfold Setup.message? at h
  split at h
  next => cases h; rfl
  next => cases h

/-- The messages of a partition that the sessions behind the first `n` are going to send. -/
def Setup.expected (c : Setup ω) (key : Key) : Nat → List Plan → List Sink.Message
  | _, [] => []
  | n, p :: rest => (p.deliveries key).filterMap (c.message? (n + 1)) ++ c.expected key (n + 1) rest

/-- The messages that a claim still has to send. -/
def Claim.left (c : Setup ω) (claim : Claim) : List Sink.Message :=
  (match claim.phase with
    | .sending m => [m]
    | _ => []) ++ claim.waiting.filterMap (c.message? claim.session)

/-- The messages of a partition that a claim still has to send. -/
def Claim.pending (c : Setup ω) (key : Key) (claim : Claim) : List Sink.Message :=
  if claim.key = key then claim.left c else []

/-- The messages of a partition that are about to be claimed. -/
def Starting.pending (c : Setup ω) (key : Key) : Starting → List Sink.Message
  | .dispatching session claims _ =>
    ((Plan.serve claims).deliveries key).filterMap (c.message? session)
  | _ => []

/-- The messages of a partition that the sink took into its queue. -/
def State.accepted (s : State ω) (key : Key) : List Sink.Message :=
  (acceptedIn s.sink.log).filter (fun m => m.ack.key = key)

/-- The messages of a partition that are still to be sent. -/
def State.coming (c : Setup ω) (s : State ω) (key : Key) : List Sink.Message :=
  s.claims.flatMap (Claim.pending c key) ++ s.starts.flatMap (Starting.pending c key) ++
    c.expected key s.sessions s.plans

/-- The sink takes the messages of a partition in the order of delivery. -/
structure Fed (c : Setup ω) (plans : List Plan) (s : State ω) : Prop where
  finished : s.sink.inputOpen → ∀ claim ∈ s.claims, claim.phase = .finished → claim.waiting = []
  coming : s.sink.inputOpen → ∀ key, s.accepted key ++ s.coming c key = c.expected key 0 plans
  accepted : ∀ key, s.accepted key <+: c.expected key 0 plans

/-- Nothing is taken, and nothing that is to be sent is left out. -/
theorem Fed.of_same (h : Fed c plans s) (hopen : t.sink.inputOpen → s.sink.inputOpen)
    (hlog : acceptedIn t.sink.log = acceptedIn s.sink.log)
    (hcoming : t.sink.inputOpen → ∀ key, t.coming c key = s.coming c key)
    (hfinished : t.sink.inputOpen → ∀ claim ∈ t.claims, claim.phase = .finished →
      claim ∉ s.claims → claim.waiting = []) : Fed c plans t where
  finished := by
    intro ho claim hmem hp
    by_cases hold : claim ∈ s.claims
    · exact h.finished (hopen ho) claim hold hp
    · exact hfinished ho claim hmem hp hold
  coming := by
    intro ho key
    rw [hcoming ho, ← h.coming (hopen ho) key, State.accepted, hlog, State.accepted]
  accepted := by
    intro key
    rw [State.accepted, hlog]
    exact h.accepted key

theorem Fed.of_closed (h : Fed c plans s) (hlog : acceptedIn t.sink.log = acceptedIn s.sink.log)
    (hclosed : t.sink.inputOpen = false) : Fed c plans t := by
  refine ⟨fun ho => ?_, fun ho => ?_, fun key => ?_⟩
  · simp [hclosed] at ho
  · simp [hclosed] at ho
  · rw [State.accepted, hlog]
    exact h.accepted key

/-! ## The claims -/

theorem Claim.pending_eq_nil {key : Key} {claim : Claim} (hp : claim.phase = .finished)
    (hw : claim.waiting = []) : claim.pending c key = [] := by
  simp [Claim.pending, Claim.left, hp, hw]

theorem Fed.setClaim {i : Nat} {claim claim' : Claim} (h : Fed c plans s)
    (hi : s.claims[i]? = some claim) (hclaims : t.claims = s.claims.set i claim')
    (hpending : ∀ key, claim'.pending c key = claim.pending c key)
    (hfinished : claim'.phase = .finished → claim'.waiting = []) (hsink : t.sink = s.sink)
    (htasks : t.tasks = s.tasks) (hplans : t.plans = s.plans)
    (hsessions : t.sessions = s.sessions) :
    Fed c plans t := by
  refine h.of_same (by rw [hsink]; exact id) (by rw [hsink]) (fun _ key => ?_) ?_
  · have hsame : t.claims.flatMap (Claim.pending c key) =
        s.claims.flatMap (Claim.pending c key) := by
      rw [hclaims]
      exact flatMap_set_of_eq hi (hpending key)
    rw [State.coming, State.coming, hsame, State.starts, State.starts, htasks, hplans, hsessions]
  · intro _ x hx hp hnew
    rw [hclaims] at hx
    rcases List.mem_or_eq_of_mem_set hx with hx | rfl
    · exact absurd hx hnew
    · exact hfinished hp

/-- The claim at work is the last of its partition: what it sends is next. -/
theorem Fed.send {i : Nat} {claim : Claim} {m : Sink.Message} (h : Fed c plans s)
    (hturns : Turns plans s) (hi : s.claims[i]? = some claim) (hp : claim.phase = .sending m)
    (hopen : s.sink.inputOpen) (hlog : acceptedIn t.sink.log = acceptedIn s.sink.log ++ [m])
    (hclaims : t.claims = s.claims.set i { claim with phase := .receiving })
    (htasks : t.tasks = s.tasks) (hplans : t.plans = s.plans)
    (hsessions : t.sessions = s.sessions) :
    Fed c plans t := by
  have hkey := hturns.sending claim (List.mem_of_getElem? hi) m hp
  have hcoming (key : Key) : t.accepted key ++ t.coming c key = c.expected key 0 plans := by
    rw [← h.coming hopen key, State.accepted, hlog, State.accepted, State.coming, State.coming,
      State.starts, State.starts, htasks, hplans, hsessions, List.filter_append]
    by_cases hk : claim.key = key
    · obtain ⟨before, after, hl, hset⟩ := exists_split_of_getElem? hi
      have hbefore : before.flatMap (Claim.pending c key) = [] := by
        apply List.flatMap_eq_nil_iff.2
        intro x hx
        by_cases hxk : x.key = key
        · have hmem : x ∈ s.claims := by rw [hl]; exact List.mem_append_left _ hx
          have hreplaced := hturns.replaced
          rw [hl, List.pairwise_append] at hreplaced
          have hdone := hreplaced.2.2 x hx claim List.mem_cons_self (hxk.trans hk.symm)
          exact Claim.pending_eq_nil hdone (h.finished hopen x hmem hdone)
        · simp [Claim.pending, hxk]
      rw [hclaims, hset, hl]
      simp [hbefore, Claim.pending, Claim.left, hk, hp, hkey]
    · have hsame : t.claims.flatMap (Claim.pending c key) =
          s.claims.flatMap (Claim.pending c key) := by
        rw [hclaims]
        exact flatMap_set_of_eq hi (by simp [Claim.pending, hk])
      rw [hsame]
      simp [hkey, hk]
  refine ⟨?_, fun _ => hcoming, fun key => ?_⟩
  · intro _ x hx hf
    rw [hclaims] at hx
    rcases List.mem_or_eq_of_mem_set hx with hx | rfl
    · exact h.finished hopen x hx hf
    · cases hf
  · rw [← hcoming key]
    exact List.prefix_append _ _

theorem Fed.claim {i : Nat} {claim : Claim} (h : Fed c plans s) (hr : s.Reachable c writer plans)
    (hturns : Turns plans s) (hi : s.claims[i]? = some claim) (hm : ClaimMove c s i claim t) :
    Fed c plans t := by
  have hshut (hs : s.shutdown) : s.sink.inputOpen = false :=
    (hr.sink.windingUp.stopped (hr.sinkFirst.shutdown hs)).1
  have hnotFree := Bool.eq_false_iff.1 hturns.notFree
  cases hm with
  | skip hp hw he =>
    refine h.setClaim hi rfl (fun key => ?_) (fun hf => by simp [hp] at hf) rfl rfl rfl rfl
    simp [Claim.pending, Claim.left, hw, Setup.message?, he]
  | decode hp hw he =>
    refine h.setClaim hi rfl (fun key => ?_) (fun hf => by cases hf) rfl rfl rfl rfl
    simp [Claim.pending, Claim.left, hp, hw, Setup.message?, he]
  | finish hp hw =>
    refine h.setClaim hi rfl (fun key => ?_) (fun _ => hw) rfl rfl rfl rfl
    simp [Claim.pending, Claim.left, hp, hw]
  | send hp hm =>
    obtain ⟨hopen, hlog⟩ := Sink.State.accepted_of_offer hm
    exact h.send hturns hi hp hopen hlog rfl rfl rfl rfl
  | drop _ hmay =>
    exact h.of_closed rfl (hmay.elim hshut (absurd · hnotFree))
  | abandon _ hmay =>
    refine h.of_closed rfl ?_
    rcases hmay with hs | hf | hc
    · exact hshut hs
    · exact absurd hf hnotFree
    · exact hc

/-! ## The calls of `start` -/

section
variable {i : Nat} {stage stage' : Starting} {u : State ω}

/-- A task goes on with nothing more to claim than before. -/
theorem Fed.of_task {a b : Task} (h : Fed c plans s) (hi : s.tasks[i]? = some a)
    (ht : t.tasks = s.tasks.set i b)
    (hb : ∀ key, b.starts.flatMap (Starting.pending c key) =
      a.starts.flatMap (Starting.pending c key))
    (hclaims : t.claims = s.claims) (hopen : t.sink.inputOpen = s.sink.inputOpen)
    (hlog : t.sink.log = s.sink.log) (hplans : t.plans = s.plans)
    (hsessions : t.sessions = s.sessions) : Fed c plans t := by
  refine h.of_same (by rw [hopen]; exact id) (by rw [hlog]) (fun _ key => ?_) ?_
  · have hsame : t.starts.flatMap (Starting.pending c key) =
        s.starts.flatMap (Starting.pending c key) := by
      rw [State.starts, State.starts, ht, List.flatMap_assoc, List.flatMap_assoc]
      exact flatMap_set_of_eq hi (hb key)
    rw [State.coming, State.coming, hsame, hclaims, hplans, hsessions]
  · intro _ x hx _ hnew
    exact absurd (hclaims ▸ hx) hnew

/-- Whoever runs the consumer goes on with what is to be claimed and what is planned. -/
theorem Fed.start_on (h : Fed c plans s) (hs : s.starts = [stage])
    (ht : t.starts = (Task.start stage').starts) (hclaims : t.claims = s.claims)
    (hsink : t.sink = s.sink)
    (hp : ∀ key, (Task.start stage').starts.flatMap (Starting.pending c key) ++
      c.expected key t.sessions t.plans =
        stage.pending c key ++ c.expected key s.sessions s.plans) : Fed c plans t := by
  refine h.of_same (by rw [hsink]; exact id) (by rw [hsink]) (fun _ key => ?_) ?_
  · rw [State.coming, State.coming, hs, ht, hclaims, List.append_assoc, hp key]
    simp
  · intro _ x hx _ hnew
    exact absurd (hclaims ▸ hx) hnew

theorem Fed.dispatch {session : Nat} {key : Key} {waiting : List Delivery}
    {rest : List (Key × List Delivery)} {ends : Bool} (h : Fed c plans s)
    (hs : s.starts = [.dispatching session ((key, waiting) :: rest) ends])
    (ht : t.starts = [.dispatching session rest ends])
    (hclaims : t.claims = s.claims ++ [⟨session, key, waiting, true, .receiving⟩])
    (hsink : t.sink = s.sink) (hplans : t.plans = s.plans) (hsessions : t.sessions = s.sessions) :
    Fed c plans t := by
  refine h.of_same (by rw [hsink]; exact id) (by rw [hsink]) (fun _ k => ?_) ?_
  · rw [State.coming, State.coming, hs, ht, hclaims, hplans, hsessions]
    by_cases hk : key = k <;>
      simp [Starting.pending, Plan.deliveries, Claim.pending, Claim.left, hk]
  · intro _ x hx hp hnew
    rw [hclaims] at hx
    rcases List.mem_append.1 hx with hx | hx
    · exact absurd hx hnew
    · rw [List.mem_singleton.1 hx] at hp
      cases hp

theorem Fed.release {session : Nat} (h : Fed c plans s) (hs : s.starts = [.releasing session])
    (ht : t.starts = [.joiningClaims session]) (hclaims : t.claims = (s.release session).claims)
    (hsink : t.sink = s.sink) (hplans : t.plans = s.plans) (hsessions : t.sessions = s.sessions) :
    Fed c plans t := by
  refine ⟨?_, ?_, ?_⟩
  · intro ho x hx hf
    rw [hclaims] at hx
    obtain ⟨y, hy, rfl⟩ := List.mem_map.1 hx
    have hdone := h.finished (hsink ▸ ho) y hy
    by_cases hsession : y.session = session
    · simp only [hsession, if_true] at hf ⊢
      exact hdone hf
    · simp only [hsession, if_false] at hf ⊢
      exact hdone hf
  · intro ho key
    rw [← h.coming (hsink ▸ ho) key, State.accepted, hsink, State.accepted, State.coming,
      State.coming, hs, ht, hplans, hsessions, hclaims]
    have hsame : (s.release session).claims.flatMap (Claim.pending c key) =
        s.claims.flatMap (Claim.pending c key) := by
      rw [State.release, List.flatMap_map]
      refine congrArg (s.claims.flatMap ·) (funext fun x => ?_)
      split <;> rfl
    rw [hsame]
    rfl
  · intro key
    rw [State.accepted, hsink]
    exact h.accepted key

theorem Fed.start (h : Fed c plans s) (ho : Orderly plans) (hr : s.Reachable c writer plans)
    (hi : s.tasks[i]? = some (.start stage)) (hm : StartMove s stage stage' u) :
    Fed c plans { u with tasks := u.tasks.set i (.start stage') } := by
  have hs := fun hruns => (hr.calls.only_start hi hruns).1
  have ht := fun hruns => (hr.calls.only_start hi hruns).2.2
  cases hm with
  | begin | refuse => exact h.of_task hi rfl (fun _ => rfl) rfl rfl rfl rfl rfl
  | takeReceivers | missReceivers | spawn | keepHandle | shutDown | goOn | seeShutdown
  | claimsFinished | closed | closeFailed | waited | collect =>
    exact h.start_on (hs rfl) (ht rfl _) rfl rfl (fun _ => rfl)
  | @dispatched session ends =>
    exact h.start_on (hs rfl) (ht rfl _) rfl rfl (fun _ => by cases ends <;> rfl)
  | serveNothing hp =>
    refine h.start_on (hs rfl) (ht rfl _) rfl rfl (fun key => ?_)
    show [] ++ c.expected key (s.sessions + 1) s.plans = [] ++ c.expected key s.sessions s.plans
    rw [hp]
    rfl
  | serve hp =>
    refine h.start_on (hs rfl) (ht rfl _) rfl rfl (fun key => ?_)
    rw [hp]
    simp [Task.starts, Starting.runs, Starting.pending, Setup.expected, State.nextSession,
      State.record]
  | serveFreely hp => exact absurd ((hr.turns ho).planned_next hp).1 ho.notFree
  | sessionFails hp | sessionBreaksOff hp =>
    refine h.start_on (hs rfl) (ht rfl _) rfl rfl (fun key => ?_)
    rw [hp]
    rfl
  | dispatch => exact h.dispatch (hs rfl) (ht rfl _) rfl rfl rfl rfl
  | release => exact h.release (hs rfl) (ht rfl _) rfl rfl rfl rfl

end

/-! ## Every move -/

theorem Fed.move (h : Fed c plans s) (ho : Orderly plans) (hr : s.Reachable c writer plans)
    (hm : Move c s t) : Fed c plans t := by
  have hturns := hr.turns ho
  have hnotFree := Bool.eq_false_iff.1 hturns.notFree
  cases hm with
  | sinkTake hm =>
    exact h.of_same (Sink.State.OwnStep.take hm).inputOpen (Sink.State.Silent.take hm).accepted
      (fun _ _ => rfl) (fun _ _ hx _ hnew => absurd hx hnew)
  | sinkWindUp hm =>
    exact h.of_same (Sink.State.OwnStep.windUp hm).inputOpen (Sink.State.Silent.windUp hm).accepted
      (fun _ _ => rfl) (fun _ _ hx _ hnew => absurd hx hnew)
  | sinkWork hm =>
    exact h.of_same (Sink.State.OwnStep.work hm).inputOpen (Sink.State.acceptedIn_work hm)
      (fun _ _ => rfl) (fun _ _ hx _ hnew => absurd hx hnew)
  | claim hi hm => exact h.claim hr hturns hi hm
  | coordinate _ hm =>
    cases hm with
    | fail =>
      refine h.of_same id rfl (fun _ key => ?_) (fun _ _ hx _ hnew => absurd hx hnew)
      simp [State.coming, State.starts, State.setCoordinator, Task.starts]
    | _ => exact h.of_same id rfl (fun _ _ => rfl) (fun _ _ hx _ hnew => absurd hx hnew)
  | @close i task stage stage' u htask hi hm =>
    have hpending (key : Key) : (task stage').starts.flatMap (Starting.pending c key) =
        (task stage).starts.flatMap (Starting.pending c key) := by
      cases htask <;> rfl
    cases hm <;> exact h.of_task hi rfl hpending rfl rfl rfl rfl rfl
  | start hi hm => exact h.start ho hr hi hm
  | claimFreely hf | feed hf | cutOff hf | leaveSession hf => exact absurd hf hnotFree
  | callStart | callClose =>
    refine h.of_same id rfl (fun _ key => ?_) (fun _ _ hx _ hnew => absurd hx hnew)
    simp [State.coming, State.starts, Task.starts, Starting.runs]
  | _ => exact h.of_same id rfl (fun _ _ => rfl) (fun _ _ hx _ hnew => absurd hx hnew)

theorem State.Reachable.fed (h : s.Reachable c writer plans) (ho : Orderly plans) :
    Fed c plans s :=
  h.induct ⟨fun _ _ hx => (by cases hx), fun _ _ => rfl, fun _ => List.nil_prefix⟩
    fun _ _ hr ih hm => ih.move ho hr hm

end EventPipeline.Consumer
