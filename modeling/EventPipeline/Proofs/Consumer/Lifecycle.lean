import EventPipeline.Proofs.Consumer.Marking
import EventPipeline.Proofs.Consumer.Passing
/-!
# The life of a consumer goes one way

A consumer is created, runs, closes and is closed, and never goes back. One call of
`start` at most ever runs it, and one call of `close` at most ever takes it down. That
call leaves the group once: when the sink has stopped, shutdown is announced, and
all that was claimed before is finished. Whoever waited for the end, returns after it.
-/
namespace EventPipeline.Consumer

variable {ω : Type} {c : Setup ω} {writer : ω} {plans : List Plan} {s t : State ω} {i j : Nat}

/-- How the life of a consumer goes on. -/
inductive Lifecycle.Next : Lifecycle → Lifecycle → Prop
  | run : Next .created .running
  | giveUp : Next .created .closing
  | close : Next .running .closing
  | finish : Next .closing .closed

theorem Lifecycle.not_closed_next {l : Lifecycle} : ¬Next .closed l := by
  intro h
  cases h

theorem Lifecycle.Next.eq_closed {l : Lifecycle} (h : Next .closing l) : l = .closed := by
  cases h
  rfl

theorem Move.lifecycle (hm : Move c s t) (hcalls : Calls s) :
    t.lifecycle = s.lifecycle ∨ s.lifecycle.Next t.lifecycle := by
  cases hm with
  | claim _ hm => cases hm <;> exact .inl rfl
  | coordinate _ hm => cases hm <;> exact .inl rfl
  | close htask hi hm =>
    cases hm with
    | begin hl =>
      rcases hl with hl | hl
      · exact .inr (hl ▸ .giveUp)
      · exact .inr (hl ▸ .close)
    | publish => exact .inr ((hcalls.only_closer htask hi rfl).1 ▸ .finish)
    | _ => exact .inl rfl
  | start _ hm =>
    cases hm with
    | begin hl => exact .inr (hl ▸ .run)
    | _ => exact .inl rfl
  | _ => exact .inl rfl

/-- The consumer is closing, or closed. -/
def State.Ending (s : State ω) : Prop := s.lifecycle = .closing ∨ s.lifecycle = .closed

theorem Move.ending (hm : Move c s t) (h : s.Ending) : t.Ending := by
  cases hm with
  | claim _ hm => cases hm <;> exact h
  | coordinate _ hm => cases hm <;> exact h
  | close _ _ hm =>
    cases hm with
    | begin => exact .inl rfl
    | publish => exact .inr rfl
    | _ => exact h
  | start _ hm =>
    cases hm with
    | begin hl => rcases h with h | h <;> simp [hl] at h
    | _ => exact h
  | _ => exact h

/-- A call of `close` that is under way ends the consumer. -/
theorem CloseMove.ending {stage stage' : Closing} (hm : CloseMove c s stage stage' t)
    (h : stage = .entering ∨ s.Ending) : t.Ending := by
  cases hm with
  | begin => exact .inl rfl
  | join hl => exact hl
  | publish => exact .inr rfl
  | _ => exact h.resolve_left (by simp)

/-- A consumer that ends did so before, or just begins to. -/
theorem Move.ending_of (hm : Move c s t) (hcalls : Calls s) (h : t.Ending) :
    s.Ending ∨ t.lifecycle = .closing := by
  rcases h with h | h
  · exact .inr h
  · rcases hm.closed h with hs | ⟨stage, hmem, -⟩
    · exact .inl (.inr hs)
    · exact .inl (.inl (hcalls.closing_of_mem hmem))

/-! ## One call runs the consumer -/

/-- The call with number `i` is one of `start` that got past its check. -/
def State.Past (s : State ω) (i : Nat) : Prop :=
  ∃ stage : Starting, s.tasks[i]? = some (.start stage) ∧ stage.passed

/-- A call that got past its check is not refused later. -/
theorem State.Reachable.past_kept (h : s.Reachable c writer plans) (ht : s.LeadsTo c t)
    (hi : s.Past i) : t.Past i :=
  ht.induct h (P := fun t => t.Past i) hi
    fun _ _ hr ⟨_, hi, hp⟩ hm _ => hm.passed hr.passing hi hp

/-- No two calls ever get past the check of `start`. -/
theorem State.Reachable.past_unique (h : s.Reachable c writer plans) (ht : s.LeadsTo c t)
    (hi : s.Past i) (hj : t.Past j) : i = j := by
  obtain ⟨stage, hget, hp⟩ := h.past_kept ht hi
  obtain ⟨stage', hget', hp'⟩ := hj
  have hne {stage : Starting} (hp : stage.passed) : (Task.start stage).passed ≠ [] := by
    rw [Task.passed, if_pos hp]
    exact List.cons_ne_nil _ _
  exact index_eq_of_flatMap hget hget' (ht.reachable h).passing.length_le (hne hp) (hne hp')

/-! ## One call takes the consumer down -/

/-- The call with number `i` takes the consumer down. -/
def State.Acts (s : State ω) (i : Nat) : Prop :=
  ∃ task, s.tasks[i]? = some task ∧ task.closers ≠ []

theorem State.Acts.closing (hi : s.Acts i) (hcalls : Calls s) : s.lifecycle = .closing := by
  obtain ⟨task, hget, hne⟩ := hi
  obtain ⟨stage, hstage⟩ := List.exists_mem_of_ne_nil _ hne
  exact hcalls.closing_of_mem (List.mem_flatMap.2 ⟨task, List.mem_of_getElem? hget, hstage⟩)

/-- Once a consumer ends, nobody begins to take it down. -/
theorem Move.acts (hm : Move c s t) (hends : s.Ending) (hj : t.Acts j) : s.Acts j := by
  obtain ⟨b, hb, hne⟩ := hj
  have happend {a : Task} (ht : t.tasks = s.tasks ++ [a]) (ha : a.closers = []) : s.Acts j := by
    rw [ht] at hb
    by_cases hlt : j < s.tasks.length
    · rw [List.getElem?_append_left hlt] at hb
      exact ⟨b, hb, hne⟩
    · rw [List.getElem?_append_right (Nat.le_of_not_lt hlt)] at hb
      obtain rfl := List.mem_singleton.1 (List.mem_of_getElem? hb)
      exact absurd ha hne
  have hset {i : Nat} {a a' : Task} (hi : s.tasks[i]? = some a) (ht : t.tasks = s.tasks.set i a')
      (ha : a'.closers ≠ [] → a.closers ≠ []) : s.Acts j := by
    by_cases hij : i = j
    · subst hij
      rw [ht, List.getElem?_set_self (List.getElem?_eq_some_iff.1 hi).1] at hb
      obtain rfl := Option.some.inj hb
      exact ⟨a, hi, ha hne⟩
    · rw [ht, List.getElem?_set_ne hij] at hb
      exact ⟨b, hb, hne⟩
  cases hm with
  | claim _ hm => cases hm <;> exact ⟨b, hb, hne⟩
  | coordinate _ hm =>
    cases hm with
    | fail => exact happend rfl rfl
    | _ => exact ⟨b, hb, hne⟩
  | @close i task stage stage' u htask hi hm =>
    refine hset hi (by rw [hm.tasks]) ?_
    rw [htask.closers, htask.closers]
    cases hm with
    | begin hl => rcases hends with he | he <;> rcases hl with hl | hl <;> simp [hl] at he
    | _ => simp [Closing.acts]
  | start hi hm => exact hset hi (by rw [hm.tasks]) (by rw [hm.closers]; exact id)
  | leaveSession _ hi hstage =>
    refine hset hi rfl ?_
    rcases hstage with rfl | rfl | ⟨e, rfl⟩ <;> exact id
  | callStart | callClose => exact happend rfl rfl
  | _ => exact ⟨b, hb, hne⟩

/-- No two calls ever take the consumer down. -/
theorem State.Reachable.acts_unique (h : s.Reachable c writer plans) (ht : s.LeadsTo c t)
    (hi : s.Acts i) (hj : t.Acts j) : i = j := by
  have hone {u : State ω} (hu : u.Reachable c writer plans) : u.closers.length ≤ 1 := by
    rw [hu.calls.closers]
    split <;> omega
  have hstart : s.Ending ∧ ∀ j, s.Acts j → j = i := by
    refine ⟨.inl (hi.closing h.calls), fun j ⟨b, hb, hne'⟩ => ?_⟩
    obtain ⟨a, ha, hne⟩ := hi
    exact index_eq_of_flatMap hb ha (hone h) hne' hne
  have hall := ht.induct h (P := fun t => t.Ending ∧ ∀ j, t.Acts j → j = i) hstart
    fun _ _ _ ⟨hends, hall⟩ hm _ => ⟨hm.ending hends, fun j hj => hall j (hm.acts hends hj)⟩
  exact (hall.2 j hj).symm

/-- Only the call that takes the consumer down asks the sink to stop, announces shutdown or leaves
the group. -/
theorem Move.takesDown (hm : Move c s t) :
    (t.sink.stopAsked = s.sink.stopAsked ∧ t.shutdown = s.shutdown ∧
      t.groupClosed = s.groupClosed) ∨
      ∃ i task, s.Acts i ∧ t.tasks = s.tasks.set i task := by
  cases hm with
  | sinkTake hm => exact .inl ⟨(Sink.State.OwnStep.take hm).stopAsked, rfl, rfl⟩
  | sinkWindUp hm => exact .inl ⟨(Sink.State.OwnStep.windUp hm).stopAsked, rfl, rfl⟩
  | sinkWork hm => exact .inl ⟨(Sink.State.OwnStep.work hm).stopAsked, rfl, rfl⟩
  | claim _ hm =>
    cases hm with
    | send _ hm => exact .inl ⟨(Sink.State.OwnStep.offer hm).stopAsked, rfl, rfl⟩
    | _ => exact .inl ⟨rfl, rfl, rfl⟩
  | coordinate _ hm => cases hm <;> exact .inl ⟨rfl, rfl, rfl⟩
  | @close i task stage stage' u htask hi hm =>
    have hacts (ha : stage.acts) (ht : u.tasks = s.tasks) :
        ∃ j b, s.Acts j ∧ u.tasks.set i (task stage') = s.tasks.set j b := by
      refine ⟨i, task stage', ⟨_, hi, ?_⟩, by rw [ht]⟩
      rw [htask.closers, if_pos ha]
      exact List.cons_ne_nil _ _
    cases hm with
    | stopSink | cancel | leaveGroup => exact .inr (hacts rfl rfl)
    | _ => exact .inl ⟨rfl, rfl, rfl⟩
  | start _ hm => cases hm <;> exact .inl ⟨rfl, rfl, rfl⟩
  | _ => exact .inl ⟨rfl, rfl, rfl⟩

/-- Only a call of `start` that got past its check begins a session. -/
theorem Move.sessions (hm : Move c s t) : t.sessions = s.sessions ∨
    ∃ i task, s.tasks[i]? = some (.start .consuming) ∧ t.tasks = s.tasks.set i task := by
  cases hm with
  | claim _ hm => cases hm <;> exact .inl rfl
  | coordinate _ hm => cases hm <;> exact .inl rfl
  | close _ _ hm => cases hm <;> exact .inl rfl
  | start hi hm =>
    cases hm with
    | serveNothing | serve | serveFreely | sessionFails | sessionBreaksOff =>
      exact .inr ⟨_, _, hi, rfl⟩
    | _ => exact .inl rfl
  | _ => exact .inl rfl

/-! ## Shutdown is announced before the claims are awaited -/

/-- Whether a call of `close` has announced shutdown. -/
def Closing.told : Closing → Bool
  | .awaitingClaims | .takingHandle | .joiningCoordinator | .leavingGroup | .publishing _ => true
  | _ => false

/-- Whether a call of `close` has seen that all claims were finished. -/
def Closing.swept : Closing → Bool
  | .takingHandle | .joiningCoordinator | .leavingGroup | .publishing _ => true
  | _ => false

/-- Whether a call of `close` has left the group. -/
def Closing.left : Closing → Bool
  | .publishing _ => true
  | _ => false

theorem Move.shutdown (hm : Move c s t) (h : s.shutdown) : t.shutdown := by
  cases hm with
  | claim _ hm => cases hm <;> exact h
  | coordinate _ hm => cases hm <;> exact h
  | close _ _ hm =>
    cases hm with
    | cancel => rfl
    | _ => exact h
  | start _ hm => cases hm <;> exact h
  | _ => exact h

/-- Only a consumer that ends announces shutdown. -/
theorem State.Reachable.ending_of_shutdown (h : s.Reachable c writer plans) :
    s.shutdown → s.Ending := by
  refine State.Reachable.induct (P := fun s => s.shutdown → s.Ending) h (fun hs => by cases hs) ?_
  intro s t hr ih hm hs
  refine hm.ending ?_
  rcases hm.takesDown with ⟨-, hshut, -⟩ | ⟨i, -, hacts, -⟩
  · exact ih (hshut ▸ hs)
  · exact .inl (hacts.closing hr.calls)

/-- Whoever awaits the claims, or has, has announced shutdown before. -/
theorem State.Reachable.told (h : s.Reachable c writer plans) :
    (∀ stage ∈ s.closers, stage.told → s.shutdown) ∧ (s.lifecycle = .closed → s.shutdown) := by
  refine State.Reachable.induct (P := fun s =>
    (∀ stage ∈ s.closers, stage.told → s.shutdown) ∧ (s.lifecycle = .closed → s.shutdown)) h
    ⟨fun _ hx => (by cases hx), fun hl => (by cases hl)⟩ ?_
  rintro s t hr ⟨htold, hclosed⟩ hm
  refine ⟨fun x hx hp => ?_, fun hl => ?_⟩
  · rcases hm.mem_closers x hx with hx | ⟨i, task, stage, u, htask, hi, hclose, rfl⟩
    · exact hm.shutdown (htold x hx hp)
    · have hbefore := fun ha hp => hm.shutdown (htold stage (htask.mem_closers hi ha) hp)
      cases hclose with
      | cancel => rfl
      | begin | join | joined | stopSink | sinkStopped | publish => cases hp
      | _ => exact hbefore rfl rfl
  · rcases hm.closed hl with hl | ⟨stage, hx, ha⟩
    · exact hm.shutdown (hclosed hl)
    · refine hm.shutdown (htold stage hx ?_)
      cases stage <;> first | rfl | cases ha

/-! ## The group is left once -/

/-- The group was not left yet, or it was left once and that is all that was left to do. -/
def State.LeftOnce (s : State ω) : Prop :=
  s.groupClosed = 0 ∨ s.groupClosed = 1 ∧
    (s.lifecycle = .closed ∨ s.lifecycle = .closing ∧ ∀ stage ∈ s.closers, stage.left)

theorem State.LeftOnce.of_same (h : s.LeftOnce) (hm : Move c s t) (hcalls : Calls s)
    (hg : t.groupClosed = s.groupClosed) : t.LeftOnce := by
  rcases h with hzero | ⟨hone, hl⟩
  · exact .inl (hg.trans hzero)
  refine .inr ⟨hg.trans hone, ?_⟩
  have hlife := hm.lifecycle hcalls
  rcases hl with hl | ⟨hl, hleft⟩
  · rw [hl] at hlife
    exact .inl (hlife.resolve_right Lifecycle.not_closed_next)
  rw [hl] at hlife
  rcases hlife with he | hnext
  · -- still closing: a call that has left the group can only finish
    refine .inr ⟨he, fun x hx => ?_⟩
    rcases hm.mem_closers x hx with hold | ⟨i, task, stage, u, htask, hi, hclose, -⟩
    · exact hleft x hold
    · obtain ⟨-, -, -, -, hacts⟩ := State.exists_of_mem_closers hx
      cases hclose with
      | begin hb => rcases hb with hb | hb <;> simp [hl] at hb
      | join | joined | publish => cases hacts
      | leaveGroup => rfl
      | _ => exact absurd (hleft _ (htask.mem_closers hi rfl)) (by decide)
  · exact .inl hnext.eq_closed

theorem State.Reachable.leftOnce (h : s.Reachable c writer plans) : s.LeftOnce := by
  refine State.Reachable.induct (P := State.LeftOnce) h (.inl rfl) ?_
  intro s t hr ih hm
  have hsame := fun hg => ih.of_same hm hr.calls hg
  cases hm with
  | claim _ hm => cases hm <;> exact hsame rfl
  | coordinate _ hm => cases hm <;> exact hsame rfl
  | @close i task _ _ _ htask hi hm =>
    cases hm with
    | leaveGroup =>
      obtain ⟨hl, hall, hset⟩ := hr.calls.only_closer htask hi rfl
      rcases ih with hzero | ⟨-, hclosed | ⟨-, hleft⟩⟩
      · refine .inr ⟨congrArg (· + 1) hzero, .inr ⟨hl, fun x hx => ?_⟩⟩
        have hx : x ∈ (s.tasks.set i (task (.publishing c.closeError))).flatMap Task.closers := hx
        rw [hset] at hx
        rw [htask.eq_of_mem hx]
        rfl
      · simp [hl] at hclosed
      · exact absurd (hleft _ (htask.mem_closers hi rfl)) (by decide)
    | _ => exact hsame rfl
  | start _ hm => cases hm <;> exact hsame rfl
  | _ => exact hsame rfl

/-! ## What was claimed is finished -/

theorem Move.claim_at (hm : Move c s t) {claim : Claim} (hi : s.claims[i]? = some claim) :
    ∃ claim', t.claims[i]? = some claim' ∧
      (claim.phase = .finished → claim'.phase = .finished) := by
  have hsame (ht : t.claims[i]? = s.claims[i]?) : ∃ claim', t.claims[i]? = some claim' ∧
      (claim.phase = .finished → claim'.phase = .finished) := ⟨claim, ht.trans hi, id⟩
  have hlt : i < s.claims.length := (List.getElem?_eq_some_iff.1 hi).1
  have hset {j : Nat} {old new : Claim} (hj : s.claims[j]? = some old)
      (ht : t.claims = s.claims.set j new) (hp : old.phase = .finished → new.phase = .finished) :
      ∃ claim', t.claims[i]? = some claim' ∧
        (claim.phase = .finished → claim'.phase = .finished) := by
    by_cases hij : j = i
    · subst hij
      obtain rfl := Option.some.inj (hj.symm.trans hi)
      exact ⟨new, by rw [ht, List.getElem?_set_self hlt], hp⟩
    · exact hsame (by rw [ht, List.getElem?_set_ne hij])
  cases hm with
  | claim hj hm =>
    cases hm with
    | skip hp => exact hset hj rfl (by simp)
    | decode hp | send hp => exact hset hj rfl (by simp [hp])
    | finish | drop | abandon => exact hset hj rfl fun _ => rfl
  | coordinate _ hm => cases hm <;> exact hsame rfl
  | close _ _ hm => cases hm <;> exact hsame rfl
  | start _ hm =>
    cases hm with
    | dispatch => exact hsame (List.getElem?_append_left hlt)
    | @release session =>
      refine ⟨_, (List.getElem?_map ..).trans (congrArg _ hi), fun hp => ?_⟩
      dsimp only
      split <;> exact hp
    | _ => exact hsame rfl
  | claimFreely => exact hsame (List.getElem?_append_left hlt)
  | feed _ hj | cutOff _ hj => exact hset hj rfl id
  | _ => exact hsame rfl

/-- All claims were finished when it was looked at them. -/
def State.Swept (s : State ω) : Prop :=
  s.lifecycle = .closed ∨ ∃ stage ∈ s.closers, stage.swept

theorem Move.swept (hm : Move c s t) (h : t.Swept) : s.Swept ∨ s.finished (fun _ => true) := by
  rcases h with hl | ⟨x, hx, hp⟩
  · rcases hm.closed hl with hl | ⟨stage, hmem, ha⟩
    · exact .inl (.inl hl)
    · refine .inl (.inr ⟨stage, hmem, ?_⟩)
      cases stage <;> first | rfl | cases ha
  · rcases hm.mem_closers x hx with hx | ⟨i, task, stage, u, htask, hi, hclose, -⟩
    · exact .inl (.inr ⟨x, hx, hp⟩)
    · cases hclose with
      | claimsFinished hf => exact .inr hf
      | begin | join | joined | stopSink | sinkStopped | cancel | publish => cases hp
      | _ => exact .inl (.inr ⟨_, htask.mem_closers hi rfl, rfl⟩)

/-- What was claimed before shutdown is finished once the claims were looked at. -/
theorem State.Reachable.finished_of_swept (h : s.Reachable c writer plans)
    (hs : s.shutdown = false) (ht : s.LeadsTo c t) {claim : Claim}
    (hi : s.claims[i]? = some claim) :
    ∃ claim', t.claims[i]? = some claim' ∧ (t.Swept → claim'.phase = .finished) := by
  refine ht.induct h (P := fun t => ∃ claim', t.claims[i]? = some claim' ∧
    (t.Swept → claim'.phase = .finished)) ⟨claim, hi, fun hswept => ?_⟩ ?_
  · -- nobody has looked at the claims yet
    have htold : s.shutdown := by
      rcases hswept with hl | ⟨stage, hx, hp⟩
      · exact h.told.2 hl
      · exact h.told.1 stage hx (by cases stage <;> first | rfl | cases hp)
    simp [hs] at htold
  · rintro t u - ⟨claim', hget, hfin⟩ hm -
    obtain ⟨claim'', hget', hkeep⟩ := hm.claim_at hget
    refine ⟨claim'', hget', fun hswept => hkeep ?_⟩
    rcases hm.swept hswept with hswept | hall
    · exact hfin hswept
    · simpa using List.all_eq_true.1 hall claim' (List.mem_of_getElem? hget)

/-- Whoever has left the group knows that the sink stopped, and has announced shutdown and looked at
the claims. -/
theorem State.Reachable.of_left (h : s.Reachable c writer plans) (hg : s.groupClosed ≠ 0) :
    s.sink.phase = .stopped ∧ s.shutdown ∧ s.Swept := by
  rcases h.leftOnce with hzero | ⟨-, hl | ⟨hl, hleft⟩⟩
  · exact absurd hzero hg
  · exact ⟨(h.quiet_of_closed hl).1, h.told.2 hl, .inl hl⟩
  · -- the call that leaves the group is still under way
    have hone := h.calls.closers
    rw [if_pos hl] at hone
    obtain ⟨stage, hstage⟩ := List.length_eq_one_iff.1 hone
    have hmem : stage ∈ s.closers := hstage ▸ List.mem_singleton_self stage
    have hl := hleft stage hmem
    cases stage with
    | publishing result =>
      exact ⟨h.sinkFirst.closers _ hmem rfl, h.told.1 _ hmem rfl, .inr ⟨_, hmem, rfl⟩⟩
    | _ => cases hl

/-! ## Nobody returns before the end -/

/-- Whether a call has got what it waited for: `close` has returned, or `start` is about to, or has.
A call of `start` that was refused does not count. -/
def Task.ended : Task → Bool
  | .close (.returned _) | .closeAfterFailure (.returned _) => true
  | .start (.closing _ (.returned _)) | .start (.collecting _) => true
  | .start (.returned (some .alreadyStarted)) => false
  | .start (.returned _) => true
  | _ => false

theorem State.Reachable.closed_of_ended (h : s.Reachable c writer plans) :
    ∀ task ∈ s.tasks, task.ended → s.lifecycle = .closed := by
  refine State.Reachable.induct
    (P := fun s => ∀ task ∈ s.tasks, task.ended → s.lifecycle = .closed) h
    (fun _ hmem => (by cases hmem)) ?_
  intro s t hr ih hm b hmem hended
  obtain ⟨more, hmore⟩ := hm.adds
  have hold (hs : b ∈ s.tasks) : t.lifecycle = .closed := hmore.closed (ih b hs hended)
  have hnew {a : Task} (ha : a.ended = false) (hs : b ∈ s.tasks ++ [a]) :
      t.lifecycle = .closed := by
    rcases List.mem_append.1 hs with hs | hs
    · exact hold hs
    · rw [List.mem_singleton.1 hs, ha] at hended
      cases hended
  cases hm with
  | claim _ hm => cases hm <;> exact hold hmem
  | coordinate _ hm =>
    cases hm with
    | fail => exact hnew rfl hmem
    | _ => exact hold hmem
  | close htask hi hm =>
    rcases List.mem_or_eq_of_mem_set hmem with hmem | rfl
    · exact hold (hm.tasks ▸ hmem)
    · cases hm with
      | joined hl => exact hl
      | publish => rfl
      | _ => cases htask <;> cases hended
  | start hi hm =>
    rcases List.mem_or_eq_of_mem_set hmem with hmem | rfl
    · exact hold (hm.tasks ▸ hmem)
    · have hbefore := ih _ (List.mem_of_getElem? hi)
      cases hm with
      | waited hl => exact hl
      | closeFailed | collect => exact hbefore rfl
      | @dispatched session ends => cases ends <;> cases hended
      | _ => cases hended
  | leaveSession _ _ hstage =>
    rcases List.mem_or_eq_of_mem_set hmem with hmem | rfl
    · exact hold hmem
    · rcases hstage with rfl | rfl | ⟨e, rfl⟩ <;> cases hended
  | callStart | callClose => exact hnew rfl hmem
  | _ => exact hold hmem

/-! ## One way -/

/-- The order of a consumer's life, from any moment on and whatever happens then. -/
structure OneWay (c : Setup ω) (s : State ω) : Prop where
  /-- A step leaves the consumer where it is in its life, or takes it one step further. -/
  lifecycle : ∀ a t, s.step c a = some t →
    t.lifecycle = s.lifecycle ∨ s.lifecycle.Next t.lifecycle
  /-- One call of `start` at most ever gets past its check, for good, -/
  past : ∀ t i j, s.LeadsTo c t → s.Past i → t.Past j → i = j
  kept : ∀ t i, s.LeadsTo c t → s.Past i → t.Past i
  created : ∀ i, s.Past i → s.lifecycle ≠ .created
  /-- and any other is refused, which changes nothing else. -/
  refused : ∀ i stage, s.tasks[i]? = some (.start stage) → ¬s.Past i →
    stage = .returned (some .alreadyStarted) ∨ stage = .entering ∧
      (s.lifecycle ≠ .created → s.step c (.advance i) =
        some { s with tasks := s.tasks.set i (.start (.returned (some .alreadyStarted))) })
  sessions : ∀ a t, s.step c a = some t →
    t.sessions = s.sessions ∨ ∃ i task, s.Past i ∧ t.tasks = s.tasks.set i task
  /-- One call of `close` at most ever takes the consumer down, -/
  acts : ∀ t i j, s.LeadsTo c t → s.Acts i → t.Acts j → i = j
  takesDown : ∀ a t, s.step c a = some t →
    (t.sink.stopAsked = s.sink.stopAsked ∧ t.shutdown = s.shutdown ∧
      t.groupClosed = s.groupClosed) ∨
      ∃ i task, s.Acts i ∧ t.tasks = s.tasks.set i task
  /-- and it leaves the group once, when the sink has stopped, shutdown is announced, and what was
  claimed before is finished. -/
  once : s.groupClosed ≤ 1
  left : ∀ t, s.LeadsTo c t → t.groupClosed ≠ 0 → t.sink.stopped ∧ t.shutdown ∧
    (s.shutdown = false → ∀ (i : Nat) (claim : Claim), s.claims[i]? = some claim →
      ∃ claim' : Claim, t.claims[i]? = some claim' ∧ claim'.phase = .finished)
  /-- Nobody who waits for the end returns before it. -/
  ended : ∀ task ∈ s.tasks, task.ended → s.lifecycle = .closed

theorem State.Past.not_created (hi : s.Past i) (h : Passing s) : s.lifecycle ≠ .created := by
  intro hl
  obtain ⟨stage, hget, hp⟩ := hi
  have hle := h.once
  rw [if_pos hl] at hle
  exact absurd (List.length_pos_of_mem (State.mem_passed hget hp)) (by omega)

/-- Whatever calls of `start` and `close` there are, and whatever goes wrong meanwhile, a consumer's
life goes one way. -/
theorem State.Reachable.one_way (h : s.Reachable c writer plans) : OneWay c s where
  lifecycle a t ht := (Move.of_step ht).lifecycle h.calls
  past t i j ht := h.past_unique ht
  kept t i ht := h.past_kept ht
  created i hi := hi.not_created h.passing
  refused := by
    intro i stage hi hnot
    have hp : ¬stage.passed := fun hp => hnot ⟨stage, hi, hp⟩
    unfold Starting.passed at hp
    split at hp
    next =>
      refine .inr ⟨rfl, fun hl => ?_⟩
      simp [State.step, hi, State.advance, State.start, hl]
    next => exact .inl rfl
    next => exact absurd rfl hp
  sessions := by
    intro a t ht
    rcases (Move.of_step ht).sessions with he | ⟨i, task, hi, ht⟩
    · exact .inl he
    · exact .inr ⟨i, task, ⟨_, hi, rfl⟩, ht⟩
  acts t i j ht := h.acts_unique ht
  takesDown a t ht := (Move.of_step ht).takesDown
  once := by
    rcases h.leftOnce with hg | ⟨hg, -⟩ <;> omega
  left := by
    intro t ht hg
    obtain ⟨hstop, hshut, hswept⟩ := (ht.reachable h).of_left hg
    refine ⟨decide_eq_true hstop, hshut, fun hs i claim hi => ?_⟩
    obtain ⟨claim', hget, hfin⟩ := h.finished_of_swept hs ht hi
    exact ⟨claim', hget, hfin hswept⟩
  ended := h.closed_of_ended

/-- What comes of two calls of `close` and another one of `start` when one is under way. -/
def closedTwice : State Writer.Calls :=
  State.settleWithin failsSecondFlush (fun _ _ => True) 60
    { afterStart with
      tasks := afterStart.tasks ++ [.close .entering] ++ [.close .entering] ++ [.start .entering] }

theorem closedTwice_leadsTo : afterStart.LeadsTo failsSecondFlush closedTwice :=
  .settleWithin (.step (a := .callStart) (.step (a := .callClose)
    (.step (a := .callClose) .refl rfl trivial) rfl trivial) rfl trivial) 60

theorem one_way_closedTwice :
    closedTwice.tasks =
      [.start (.returned (some (.sink (.write "cannot sync")))), .close (.returned none),
        .close (.returned none), .start (.returned (some .alreadyStarted)),
        .closeAfterFailure (.returned none)] ∧
      closedTwice.lifecycle = .closed ∧ closedTwice.groupClosed = 1 ∧
      ∃ claim : Claim, closedTwice.claims[0]? = some claim ∧ claim.phase = .finished := by
  have hway := afterStart_reachable.one_way
  obtain ⟨claim, hi⟩ : ∃ claim, afterStart.claims[0]? = some claim :=
    Option.isSome_iff_exists.1 (by decide)
  obtain ⟨-, -, hfinished⟩ := hway.left closedTwice closedTwice_leadsTo (by decide)
  exact ⟨by decide, by decide, by decide, hfinished (by decide) 0 claim hi⟩

end EventPipeline.Consumer
