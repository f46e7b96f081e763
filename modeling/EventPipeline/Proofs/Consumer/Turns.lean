import EventPipeline.Proofs.Consumer.Marking
/-!
# Claims of a partition take turns

A group whose sessions are planned claims each partition once a session. A consumer
lets a session begin only after the claims of the one before are finished, so of all
claims of a partition only the last may still be at work (`Turns`).
-/
namespace EventPipeline.Consumer

variable {ω : Type} {c : Setup ω} {writer : ω} {plans : List Plan} {s t : State ω}

/-- The messages of a partition that a planned session delivers. -/
def Plan.deliveries (key : Key) : Plan → List Delivery
  | .serve claims => claims.flatMap (fun e => if e.1 = key then e.2 else [])
  | _ => []

/-- All sessions are planned, each claims a partition once at most, and the offsets of a partition
increase in the order of delivery, from one session to the next as well. -/
structure Orderly (plans : List Plan) : Prop where
  notFree : .free ∉ plans
  keyed : ∀ claims, .serve claims ∈ plans → ∀ e ∈ claims, ∀ d ∈ e.2, d.key = e.1
  once : ∀ claims, .serve claims ∈ plans → (claims.map Prod.fst).Nodup
  increasing : ∀ key,
    ((plans.flatMap (Plan.deliveries key)).map Delivery.offset).Pairwise (· < ·)

/-- What is known of the claims while a call of `start` is at some stage. -/
def Between (claims : List Claim) : Starting → Prop
  | .takingReceivers | .spawning _ | .keepingHandle | .checking | .consuming =>
    ∀ claim ∈ claims, claim.phase = .finished
  | .dispatching session rest _ =>
    (rest.map Prod.fst).Nodup ∧ (∀ e ∈ rest, ∀ d ∈ e.2, d.key = e.1) ∧
      ∀ claim ∈ claims, claim.phase = .finished ∨
        claim.session = session ∧ claim.key ∉ rest.map Prod.fst
  | .awaitingShutdown session | .releasing session | .joiningClaims session =>
    ∀ claim ∈ claims, claim.phase = .finished ∨ claim.session = session
  | _ => True

/-- Of all claims of a partition only the last may still be at work. -/
structure Turns (plans : List Plan) (s : State ω) : Prop where
  notFree : s.free = false
  planned : s.plans = plans.drop s.sessions
  keyed : ∀ claim ∈ s.claims, ∀ d ∈ claim.waiting, d.key = claim.key
  sending : ∀ claim ∈ s.claims, ∀ m, claim.phase = .sending m → m.ack.key = claim.key
  replaced : s.claims.Pairwise (fun a b => a.key = b.key → a.phase = .finished)
  between : ∀ stage ∈ s.starts, Between s.claims stage

/-! ## The claims -/

/-- What is known of the claims depends on where they are and whether they are finished. -/
theorem Between.of_claims {claims claims' : List Claim} {stage : Starting}
    (h : Between claims stage)
    (hc : ∀ x ∈ claims', ∃ y ∈ claims, x.session = y.session ∧ x.key = y.key ∧
      (y.phase = .finished → x.phase = .finished)) : Between claims' stage := by
  cases stage with
  | takingReceivers | spawning | keepingHandle | checking | consuming =>
    intro x hx
    obtain ⟨y, hy, -, -, hf⟩ := hc x hx
    exact hf (h y hy)
  | dispatching session rest ends =>
    obtain ⟨h1, h2, h3⟩ := h
    refine ⟨h1, h2, fun x hx => ?_⟩
    obtain ⟨y, hy, hs, hk, hf⟩ := hc x hx
    rw [hs, hk]
    exact (h3 y hy).imp_left hf
  | awaitingShutdown session | releasing session | joiningClaims session =>
    intro x hx
    obtain ⟨y, hy, hs, -, hf⟩ := hc x hx
    rw [hs]
    exact (h y hy).imp_left hf
  | _ => trivial

/-- A claim at work goes on with what it has. -/
theorem Turns.setClaim {i : Nat} {claim claim' : Claim} (h : Turns plans s)
    (hi : s.claims[i]? = some claim) (hclaims : t.claims = s.claims.set i claim')
    (hwork : claim.phase ≠ .finished) (hs : claim'.session = claim.session)
    (hk : claim'.key = claim.key)
    (hw : ∀ d ∈ claim'.waiting, d ∈ claim.waiting)
    (hsend : ∀ m, claim'.phase = .sending m → m.ack.key = claim.key)
    (htasks : t.tasks = s.tasks) (hplans : t.plans = s.plans)
    (hsessions : t.sessions = s.sessions) (hfree : t.free = s.free) : Turns plans t := by
  have hmem := List.mem_of_getElem? hi
  have hset {P : Claim → Prop} (hold : ∀ x ∈ s.claims, P x) (hnew : P claim') :
      ∀ x ∈ t.claims, P x := by
    intro x hx
    rw [hclaims] at hx
    rcases List.mem_or_eq_of_mem_set hx with hx | rfl
    · exact hold x hx
    · exact hnew
  refine ⟨hfree.trans h.notFree, by rw [hplans, hsessions]; exact h.planned, ?_, ?_, ?_, ?_⟩
  · refine hset h.keyed fun d hd => ?_
    rw [hk]
    exact h.keyed claim hmem d (hw d hd)
  · refine hset h.sending fun m hm => ?_
    rw [hk]
    exact hsend m hm
  · obtain ⟨before, after, hl, hsplit⟩ := exists_split_of_getElem? hi
    have hold := h.replaced
    rw [hl] at hold
    rw [hclaims, hsplit]
    simp only [List.pairwise_append, List.pairwise_cons, List.mem_cons] at hold ⊢
    obtain ⟨hbefore, ⟨hafter, hrest⟩, hcross⟩ := hold
    refine ⟨hbefore, ⟨fun b hb he => ?_, hrest⟩, fun a ha b hb he => ?_⟩
    · exact absurd (hafter b hb (hk ▸ he)) hwork
    · rcases hb with rfl | hb
      · exact hcross a ha claim (.inl rfl) (he.trans hk)
      · exact hcross a ha b (.inr hb) he
  · rw [State.starts, htasks]
    intro stage hstage
    refine (h.between stage hstage).of_claims ?_
    refine hset (fun x hx => ⟨x, hx, rfl, rfl, id⟩) ⟨claim, hmem, hs, hk, fun hf => ?_⟩
    exact absurd hf hwork

theorem Turns.claim {i : Nat} {claim : Claim} (h : Turns plans s)
    (hi : s.claims[i]? = some claim) (hm : ClaimMove c s i claim t) : Turns plans t := by
  have hkeyed := h.keyed claim (List.mem_of_getElem? hi)
  cases hm with
  | skip hp hw =>
    refine h.setClaim hi rfl (by simp [hp]) rfl rfl ?_ (by simp [hp]) rfl rfl rfl rfl
    intro d hd
    rw [hw]
    exact List.mem_cons_of_mem _ hd
  | decode hp hw =>
    refine h.setClaim hi rfl (by simp [hp]) rfl rfl ?_ ?_ rfl rfl rfl rfl
    · intro d hd
      rw [hw]
      exact List.mem_cons_of_mem _ hd
    · rintro m hm
      obtain rfl := ClaimPhase.sending.inj hm
      exact hkeyed _ (by rw [hw]; exact List.mem_cons_self)
  | finish hp | send hp | drop hp | abandon hp =>
    exact h.setClaim hi rfl (by simp [hp]) rfl rfl (fun _ hd => hd) (fun _ hm => by cases hm)
      rfl rfl rfl rfl

/-! ## The calls of `start` -/

section
variable {i : Nat} {stage stage' : Starting} {u : State ω}

/-- Whoever runs the consumer goes on, while the claims stay where they are. -/
theorem Turns.start_on (h : Turns plans s) (htasks : t.starts = (Task.start stage').starts)
    (hb : stage'.runs → Between t.claims stage') (hclaims : t.claims = s.claims)
    (hplanned : t.plans = plans.drop t.sessions) (hfree : t.free = s.free) : Turns plans t := by
  refine ⟨hfree.trans h.notFree, hplanned, ?_, ?_, ?_, ?_⟩
  · rw [hclaims]; exact h.keyed
  · rw [hclaims]; exact h.sending
  · rw [hclaims]; exact h.replaced
  · rw [htasks]
    intro x hx
    by_cases hr : stage'.runs
    · simp only [Task.starts, hr, if_true, List.mem_singleton] at hx
      rw [hx]
      exact hb hr
    · simp [Task.starts, hr] at hx

theorem Turns.planned_next (h : Turns plans s) {p : Plan} {rest : List Plan}
    (hp : s.plans = p :: rest) : p ∈ plans ∧ rest = plans.drop (s.sessions + 1) := by
  have hd := h.planned
  rw [hp] at hd
  refine ⟨List.mem_of_mem_drop (hd ▸ List.mem_cons_self), ?_⟩
  have htail := congrArg List.tail hd
  simpa using htail

theorem Turns.dispatch {session : Nat} {key : Key} {waiting : List Delivery}
    {rest : List (Key × List Delivery)} {ends : Bool} (h : Turns plans s)
    (hb : Between s.claims (.dispatching session ((key, waiting) :: rest) ends))
    (hclaims : t.claims = s.claims ++ [⟨session, key, waiting, true, .receiving⟩])
    (hstarts : t.starts = [.dispatching session rest ends])
    (hplanned : t.plans = plans.drop t.sessions) (hfree : t.free = s.free) : Turns plans t := by
  obtain ⟨hnodup, hkeyed, hold⟩ := hb
  rw [List.map_cons, List.nodup_cons] at hnodup
  have hall {P : Claim → Prop} (hP : ∀ x ∈ s.claims, P x)
      (hnew : P ⟨session, key, waiting, true, .receiving⟩) : ∀ x ∈ t.claims, P x := by
    rw [hclaims]
    intro x hx
    rcases List.mem_append.1 hx with hx | hx
    · exact hP x hx
    · rw [List.mem_singleton.1 hx]
      exact hnew
  refine ⟨hfree.trans h.notFree, hplanned, ?_, ?_, ?_, ?_⟩
  · exact hall h.keyed (hkeyed _ List.mem_cons_self)
  · exact hall h.sending (fun _ hm => by cases hm)
  · rw [hclaims, List.pairwise_append]
    refine ⟨h.replaced, List.pairwise_singleton _ _, fun x hx y hy he => ?_⟩
    obtain rfl := List.mem_singleton.1 hy
    -- a claim of this session has another key
    rcases hold x hx with hf | ⟨-, hne⟩
    · exact hf
    · exact absurd (by rw [he]; simp) hne
  · rw [hstarts]
    intro x hx
    obtain rfl := List.mem_singleton.1 hx
    refine ⟨hnodup.2, fun e he => hkeyed e (List.mem_cons_of_mem _ he),
      hall ?_ (.inr ⟨rfl, hnodup.1⟩)⟩
    exact fun x hx => (hold x hx).imp_right fun ⟨hs, hne⟩ =>
      ⟨hs, fun hmem => hne (List.mem_cons_of_mem _ hmem)⟩

theorem Turns.release {session : Nat} (h : Turns plans s)
    (hb : Between s.claims (.releasing session)) (ht : t.claims = (s.release session).claims)
    (hstarts : t.starts = [.joiningClaims session])
    (hplanned : t.plans = plans.drop t.sessions) (hfree : t.free = s.free) : Turns plans t := by
  -- only whether claims are fed changes
  have hsame (x : Claim) (hx : x ∈ t.claims) : ∃ y ∈ s.claims, x.session = y.session ∧
      x.key = y.key ∧ x.waiting = y.waiting ∧ x.phase = y.phase := by
    rw [ht] at hx
    obtain ⟨y, hy, rfl⟩ := List.mem_map.1 hx
    refine ⟨y, hy, ?_⟩
    split <;> exact ⟨rfl, rfl, rfl, rfl⟩
  refine ⟨hfree.trans h.notFree, hplanned, ?_, ?_, ?_, ?_⟩
  · intro x hx d hd
    obtain ⟨y, hy, -, hk, hw, -⟩ := hsame x hx
    rw [hk]
    exact h.keyed y hy d (hw ▸ hd)
  · intro x hx m hm
    obtain ⟨y, hy, -, hk, -, hp⟩ := hsame x hx
    rw [hk]
    exact h.sending y hy m (hp ▸ hm)
  · rw [ht]
    refine List.Pairwise.map _ ?_ h.replaced
    intro x y hxy
    split <;> split <;> exact hxy
  · rw [hstarts]
    intro x hx
    obtain rfl := List.mem_singleton.1 hx
    intro x hx
    obtain ⟨y, hy, hs, -, -, hp⟩ := hsame x hx
    rw [hs, hp]
    exact hb y hy

theorem Turns.start (h : Turns plans s) (ho : Orderly plans) (hcalls : Calls s)
    (hidle : s.handle = .absent → s.Idle) (hi : s.tasks[i]? = some (.start stage))
    (hm : StartMove s stage stage' u) :
    Turns plans { u with tasks := u.tasks.set i (.start stage') } := by
  have honly := fun hr => (hcalls.only_start hi hr).2.2
  have hbetween := fun hr => h.between stage (State.mem_starts hi hr)
  cases hm with
  | begin hl =>
    refine h.start_on (hcalls.first_start hl hi _) (fun _ => ?_) rfl h.planned rfl
    intro claim (hmem : claim ∈ s.claims)
    rw [(hidle (hcalls.created hl)).1] at hmem
    cases hmem
  | refuse hl =>
    refine ⟨h.notFree, h.planned, h.keyed, h.sending, h.replaced, ?_⟩
    intro x hx
    replace hx : x ∈ s.starts := by
      rwa [State.starts,
        ← flatMap_set_of_eq (b := .start (.returned (some .alreadyStarted))) hi rfl]
    exact h.between x hx
  | takeReceivers | spawn | keepHandle | goOn | seeShutdown =>
    exact h.start_on (honly rfl _) (fun _ => hbetween rfl) rfl h.planned rfl
  | missReceivers | closeFailed | collect =>
    exact h.start_on (honly rfl _) (fun hr => by cases hr) rfl h.planned rfl
  | shutDown | closed | waited =>
    exact h.start_on (honly rfl _) (fun _ => trivial) rfl h.planned rfl
  | serveNothing hp =>
    refine h.start_on (honly rfl _) (fun _ => ?_) rfl ?_ rfl
    · exact ⟨List.nodup_nil, fun _ he => (by cases he), fun x hx => .inl (hbetween rfl x hx)⟩
    · have hd := h.planned
      rw [hp] at hd
      have hend : plans.length ≤ s.sessions := List.drop_eq_nil_iff.1 hd.symm
      show s.plans = plans.drop (s.sessions + 1)
      rw [hp, List.drop_eq_nil_iff.2 (by omega)]
  | serve hp =>
    obtain ⟨hmem, hrest⟩ := h.planned_next hp
    refine h.start_on (honly rfl _) (fun _ => ?_) rfl hrest rfl
    exact ⟨ho.once _ hmem, ho.keyed _ hmem, fun x hx => .inl (hbetween rfl x hx)⟩
  | serveFreely hp => exact absurd (h.planned_next hp).1 ho.notFree
  | sessionFails hp =>
    exact h.start_on (honly rfl _) (fun _ => trivial) rfl (h.planned_next hp).2 rfl
  | sessionBreaksOff hp =>
    exact h.start_on (honly rfl _) (fun hr => by cases hr) rfl (h.planned_next hp).2 rfl
  | dispatch => exact h.dispatch (hbetween rfl) rfl (honly rfl _) h.planned rfl
  | @dispatched session ends =>
    obtain ⟨-, -, hold⟩ := hbetween rfl
    refine h.start_on (honly rfl _) (fun _ => ?_) rfl h.planned rfl
    cases ends <;> exact fun x hx => (hold x hx).imp_right And.left
  | release => exact h.release (hbetween rfl) rfl (honly rfl _) h.planned rfl
  | claimsFinished hf =>
    refine h.start_on (honly rfl _) (fun _ x hx => ?_) rfl h.planned rfl
    rcases hbetween rfl x hx with hx' | hx'
    · exact hx'
    · have hall := List.all_eq_true.1 hf x hx
      simpa [hx'] using hall

end

theorem Turns.move (h : Turns plans s) (ho : Orderly plans) (hr : s.Reachable c writer plans)
    (hm : Move c s t) : Turns plans t := by
  have hnotFree := Bool.eq_false_iff.1 h.notFree
  cases hm with
  | claim hi hm => exact h.claim hi hm
  | coordinate _ hm =>
    cases hm with
    | fail =>
      refine ⟨h.notFree, h.planned, h.keyed, h.sending, h.replaced, fun x hx => ?_⟩
      exact h.between x (by simpa [State.starts, State.setCoordinator, Task.starts] using hx)
    | _ => exact ⟨h.notFree, h.planned, h.keyed, h.sending, h.replaced, h.between⟩
  | @close i task stage stage' u htask hi hm =>
    have hbetween :
        ∀ x ∈ (s.tasks.set i (task stage')).flatMap Task.starts, Between s.claims x := by
      intro x hx
      rcases htask.mem_starts hi x hx with hx | ⟨e, stage, rfl⟩
      · exact h.between x hx
      · trivial
    cases hm <;> exact ⟨h.notFree, h.planned, h.keyed, h.sending, h.replaced, hbetween⟩
  | start hi hm => exact h.start ho hr.calls hr.handleFirst.idle hi hm
  | claimFreely hf | feed hf | cutOff hf | leaveSession hf => exact absurd hf hnotFree
  | callStart | callClose =>
    refine ⟨h.notFree, h.planned, h.keyed, h.sending, h.replaced, fun x hx => ?_⟩
    exact h.between x (by simpa [State.starts, Task.starts, Starting.runs] using hx)
  | _ => exact ⟨h.notFree, h.planned, h.keyed, h.sending, h.replaced, h.between⟩

theorem State.Reachable.turns (h : s.Reachable c writer plans) (ho : Orderly plans) :
    Turns plans s :=
  h.induct ⟨rfl, rfl, fun _ hx => (by cases hx), fun _ hx => (by cases hx), .nil,
    fun _ hx => (by cases hx)⟩ fun _ _ hr ih hm => ih.move ho hr hm

end EventPipeline.Consumer
