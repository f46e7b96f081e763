import EventPipeline.Proofs.Consumer.Lifecycle
/-!
# Who notices that the sink failed

The error of a sink that failed waits in a channel, and only the coordinator takes it from
there, to close the consumer. It looks for the error before it looks for shutdown, but not
at the same moment: an error that comes between the two, with shutdown announced right
behind it, is overlooked, because the coordinator then goes by shutdown and only takes
acknowledgments any more (`State.Overlooks`). An error that is overlooked is missed for good
(`State.Leads.missed`), and no other is (`State.Leads.exists_overlooks`).
-/
namespace EventPipeline.Consumer

open Sink (errorsIn)

variable {ω : Type} {c : Setup ω} {allows : State ω → State ω → Prop} {writer : ω}
  {plans : List Plan} {s t : State ω}

/-- Whether a call closes the consumer because the coordinator found an error of the sink. -/
def Task.notices : Task → Bool
  | .closeAfterFailure _ => true
  | _ => false

/-- Whether the coordinator found an error of the sink. -/
def State.noticed (s : State ω) : Bool := s.tasks.any Task.notices

/-- The coordinator looks for nothing but acknowledgments any more. -/
def State.Leaves (s : State ω) : Prop :=
  ∃ k, s.coordinator = some k ∧ (k.poll = .draining ∨ k.poll = .stopped)

/-- The coordinator is about to look for shutdown, which is announced, while an error waits that
came after it had looked for one. -/
def State.Overlooks (s : State ω) : Prop :=
  s.shutdown ∧ s.sink.error.isSome ∧ ∃ k, s.coordinator = some k ∧ k.poll = .shutdown

/-- The coordinator left an error of the sink behind. -/
def State.Missed (s : State ω) : Prop :=
  s.noticed = false ∧ s.Leaves ∧ ∃ e, e ∈ errorsIn s.sink.log

/-! ## The error in a move -/

/-- While the sink goes on, both its channels are heard. -/
theorem State.Reachable.heard_alike (h : s.Reachable c writer plans) :
    s.sink.errorsHeard = s.sink.acksHeard := by
  refine State.Reachable.induct (P := fun s => s.sink.errorsHeard = s.sink.acksHeard) h rfl ?_
  intro s t hr ih hm
  have hheld := hr.sink.holdsWriter
  cases hm with
  | sinkTake hm =>
    rw [(Sink.State.errorStep_take (fun hp => hheld (.inl hp)) hm).errorsHeard,
      (Sink.State.Silent.take hm).acksHeard]
    exact ih
  | sinkWindUp hm =>
    rw [(Sink.State.keepsErrors_windUp (fun hp => hheld (.inl hp)) hm).errorsHeard,
      (Sink.State.Silent.windUp hm).acksHeard]
    exact ih
  | sinkWork hm =>
    rw [(Sink.State.errorStep_work hheld hm).errorsHeard, Sink.State.acksHeard_work hm]
    exact ih
  | claim _ hm =>
    cases hm with
    | send _ hm =>
      exact (Sink.State.keepsErrors_offer hm).errorsHeard.trans
        (ih.trans (Sink.State.acksHeard_offer hm).symm)
    | _ => exact ih
  | coordinate _ hm =>
    cases hm with
    | stop => rfl
    | _ => exact ih
  | close _ _ hm => cases hm <;> exact ih
  | start _ hm => cases hm <;> exact ih
  | _ => exact ih

theorem State.Reachable.errorsHeard (h : s.Reachable c writer plans)
    (hlive : s.sink.phase ≠ .stopped) : s.sink.errorsHeard := by
  rw [h.heard_alike]
  by_cases hacks : s.sink.acksHeard
  · exact hacks
  · exact absurd (h.sinkFirst.heard (Bool.eq_false_iff.2 hacks)) hlive

theorem State.Reachable.stopped_of_leaves (h : s.Reachable c writer plans) (hl : s.Leaves) :
    s.sink.phase = .stopped := by
  obtain ⟨k, hk, hp⟩ := hl
  exact h.sinkFirst.coordinator k hk hp

/-- Nothing is sent before the handle is kept, so nothing fails. -/
theorem State.Reachable.errorsIn_eq_nil (h : s.Reachable c writer plans)
    (habsent : s.handle = .absent) : errorsIn s.sink.log = [] :=
  Sink.State.errorsIn_eq_nil (h.sink.failures_eq_nil (h.handleFirst.idle habsent).2.2)

theorem State.leaves_iff {k : Coordinator} (hk : s.coordinator = some k) :
    s.Leaves ↔ k.poll = .draining ∨ k.poll = .stopped := by
  simp [State.Leaves, hk]

/-- What a move has to do with the error of the sink. -/
inductive Noticing.Turn (s t : State ω) : Prop
  | same : t.coordinator = s.coordinator → t.noticed = s.noticed →
    t.sink.error = s.sink.error → errorsIn t.sink.log = errorsIn s.sink.log → Turn s t
  | reports {e : Sink.SinkError} : t.coordinator = s.coordinator → t.noticed = s.noticed →
    s.sink.phase ≠ .stopped → t.sink.error = some e →
    errorsIn t.sink.log = errorsIn s.sink.log ++ [e] → Turn s t
  | spawns {k : Coordinator} : t.coordinator = some k → k.poll = .acks → k.sinkErrorOpen →
    t.noticed = s.noticed → t.sink = s.sink → errorsIn s.sink.log = [] → Turn s t
  | finds {k : Coordinator} {e : Sink.SinkError} : s.coordinator = some k →
    k.poll = .sinkError → s.sink.error = some e →
    t.coordinator = some { k with poll := .draining } → t.noticed →
    t.sink.log = s.sink.log → Turn s t
  | looks {k k' : Coordinator} : s.coordinator = some k → k.poll ≠ .draining →
    k.poll ≠ .stopped → k'.poll ≠ .stopped → (k'.poll = .draining → s.shutdown) →
    k.LooksOn s k' → t.coordinator = some k' → t.noticed = s.noticed → t.sink = s.sink →
    t.shutdown = s.shutdown → Turn s t
  | stops {k : Coordinator} : s.coordinator = some k → k.poll = .draining →
    t.coordinator = some { k with poll := .stopped } → t.noticed = s.noticed →
    t.sink.error = none → t.sink.log = s.sink.log → t.shutdown = s.shutdown → Turn s t

theorem Noticing.Turn.of_sink (hr : s.Reachable c writer plans)
    (hstep : s.sink.ErrorStep c.sink t.sink) (hk : t.coordinator = s.coordinator)
    (hn : t.noticed = s.noticed) : Turn s t := by
  cases hstep with
  | keeps hkeeps => exact .same hk hn hkeeps.error hkeeps.log
  | fails hfail hto => exact .same hk hn hto.error (hfail.errorsIn hto)
  | @reports e hp ht =>
    have hlive : s.sink.phase ≠ .stopped := by simp [hp]
    refine .reports (e := e) hk hn hlive ?_ ?_
    · rw [ht]
      exact if_pos (hr.errorsHeard hlive)
    · simp [ht, Sink.State.report, Sink.State.record]

theorem CoordinatorMove.noticing {k : Coordinator} (hm : CoordinatorMove c s k t)
    (hk : s.coordinator = some k) : Noticing.Turn s t := by
  cases hm with
  | mark => exact .same hk.symm rfl rfl rfl
  | fail hp he =>
    exact .finds hk hp he rfl (by simp [State.noticed, State.setCoordinator, Task.notices]) rfl
  | countBrokerError hp =>
    have hlooks : k.LooksOn s { k with poll := .acks } :=
      ⟨by simp, by simp, by simp, by simp [hp], .inl, .inl⟩
    exact .looks hk (by simp [hp]) (by simp [hp]) (by simp) (by simp) hlooks rfl rfl rfl rfl
  | look hne hne' hne'' hshut hlooks => exact .looks hk hne hne' hne'' hshut hlooks rfl rfl rfl rfl
  | stop hp => exact .stops hk hp rfl rfl rfl rfl rfl

theorem Move.noticing (hm : Move c s t) (hr : s.Reachable c writer plans) :
    Noticing.Turn s t := by
  have hheld := hr.sink.holdsWriter
  have hadds {task : Task} (ht : t.tasks = s.tasks ++ [task]) (hn : task.notices = false) :
      t.noticed = s.noticed := by
    simp [State.noticed, ht, hn]
  cases hm with
  | sinkTake hm =>
    exact .of_sink hr (Sink.State.errorStep_take (fun hp => hheld (.inl hp)) hm) rfl rfl
  | sinkWindUp hm =>
    exact .of_sink hr (.keeps (Sink.State.keepsErrors_windUp (fun hp => hheld (.inl hp)) hm))
      rfl rfl
  | sinkWork hm => exact .of_sink hr (Sink.State.errorStep_work hheld hm) rfl rfl
  | claim _ hm =>
    cases hm with
    | send _ hm => exact .of_sink hr (.keeps (Sink.State.keepsErrors_offer hm)) rfl rfl
    | _ => exact .same rfl rfl rfl rfl
  | coordinate hk hm => exact hm.noticing hk
  | @close i task stage stage' u htask hi hm =>
    have hn : (s.tasks.set i (task stage')).any Task.notices = s.noticed :=
      any_set_of_eq hi (by cases htask <;> rfl)
    cases hm <;> exact .same rfl hn rfl rfl
  | @start i stage stage' u hi hm =>
    have hn : (s.tasks.set i (.start stage')).any Task.notices = s.noticed := any_set_of_eq hi rfl
    cases hm with
    | spawn =>
      have habsent := (hr.calls.early _ (State.mem_starts hi rfl)).1 rfl
      exact .spawns rfl rfl rfl hn rfl (hr.errorsIn_eq_nil habsent)
    | _ => exact .same rfl hn rfl rfl
  | leaveSession _ hi _ => exact .same rfl (any_set_of_eq hi rfl) rfl rfl
  | callStart | callClose => exact .same rfl (hadds rfl rfl) rfl rfl
  | _ => exact .same rfl rfl rfl rfl

/-! ## Where the error is -/

/-- An error waits in its channel until the coordinator leaves, and it leaves because it found the
error or because of shutdown. -/
structure Noticing (s : State ω) : Prop where
  found : s.noticed → (∃ e, e ∈ errorsIn s.sink.log) ∧ s.Leaves
  left : s.Leaves → s.noticed ∨ s.shutdown
  closed : ∀ k, s.coordinator = some k → k.sinkErrorOpen = false →
    s.sink.phase = .stopped ∧ s.sink.error = none
  waits : ∀ e ∈ errorsIn s.sink.log, s.sink.error = some e ∨ s.Leaves

theorem Noticing.move (h : Noticing s) (hr : s.Reachable c writer plans) (hm : Move c s t) :
    Noticing t := by
  have hclosed {k k' : Coordinator} (hk : s.coordinator = some k)
      (hk' : t.coordinator = some k') (hopen : k'.sinkErrorOpen = k.sinkErrorOpen) :
      ∀ k', t.coordinator = some k' → k'.sinkErrorOpen = false →
        t.sink.phase = .stopped ∧ t.sink.error = none := by
    intro k'' hk'' hopen'
    obtain rfl := Option.some.inj (hk'.symm.trans hk'')
    obtain ⟨hs, he⟩ := h.closed k hk (hopen ▸ hopen')
    obtain ⟨ht, -, -, herror⟩ := hm.sink_of_stopped hr hs
    exact ⟨ht, herror.elim (·.trans he) id⟩
  have hkept (hk : t.coordinator = s.coordinator) : (t.Leaves ↔ s.Leaves) ∧
      ∀ k', t.coordinator = some k' → k'.sinkErrorOpen = false →
        t.sink.phase = .stopped ∧ t.sink.error = none :=
    ⟨by rw [State.Leaves, hk, State.Leaves], fun k hk' => hclosed (hk ▸ hk') hk' rfl k hk'⟩
  cases hm.noticing hr with
  | same hk hn he hlog =>
    obtain ⟨hleaves, hclosed⟩ := hkept hk
    refine ⟨?_, ?_, hclosed, ?_⟩
    · intro hn'
      rw [hlog, hleaves]
      exact h.found (hn ▸ hn')
    · intro hl
      rw [hn]
      exact (h.left (hleaves.1 hl)).imp_right hm.shutdown
    · intro e hmem
      rw [he, hleaves]
      exact h.waits e (hlog ▸ hmem)
  | @reports e hk hn hlive he hlog =>
    obtain ⟨hleaves, hclosed⟩ := hkept hk
    have hnot {p : Prop} (hl : s.Leaves) : p := absurd (hr.stopped_of_leaves hl) hlive
    refine ⟨fun hn' => hnot (h.found (hn ▸ hn')).2, fun hl => hnot (hleaves.1 hl), hclosed, ?_⟩
    intro e' hmem
    rw [hlog, List.mem_append, List.mem_singleton] at hmem
    rcases hmem with hmem | rfl
    · -- an error that was there before would have stopped the sink
      rcases h.waits e' hmem with hchannel | hl
      · exact absurd (hr.sink.stopped_of_error (by rw [hchannel]; rfl)) hlive
      · exact hnot hl
    · exact .inl he
  | spawns hk hp hopen hn hsink hnone =>
    refine ⟨?_, ?_, ?_, ?_⟩
    · intro hn'
      obtain ⟨⟨e, he⟩, -⟩ := h.found (hn ▸ hn')
      rw [hnone] at he
      cases he
    · intro hl
      simp [State.leaves_iff hk, hp] at hl
    · intro k' hk' hopen'
      obtain rfl := Option.some.inj (hk.symm.trans hk')
      rw [hopen] at hopen'
      cases hopen'
    · intro e he
      rw [hsink, hnone] at he
      cases he
  | finds hk hp he hk' hn hlog =>
    have hleaves : t.Leaves := (State.leaves_iff hk').2 (.inl rfl)
    have hmem := hr.sink.failed_of_error _ he
    exact ⟨fun _ => ⟨⟨_, hlog ▸ hmem⟩, hleaves⟩, fun _ => .inl hn, hclosed hk hk' rfl,
      fun _ _ => .inr hleaves⟩
  | looks hk hne hne' hne'' hshut hlooks hk' hn hsink hshut' =>
    have hnot {p : Prop} (hl : s.Leaves) : p := by
      have hp := (State.leaves_iff hk).1 hl
      simp [hne, hne'] at hp
    refine ⟨fun hn' => hnot (h.found (hn ▸ hn')).2, ?_, ?_, ?_⟩
    · intro hl
      have hp := ((State.leaves_iff hk').1 hl).resolve_right hne''
      exact .inr (hshut'.trans (hshut hp))
    · intro k'' hk'' hopen
      obtain rfl := Option.some.inj (hk'.symm.trans hk'')
      rw [hsink]
      exact (hlooks.closed hopen).elim (h.closed _ hk) fun he => ⟨he.2, he.1⟩
    · intro e he
      rw [hsink] at he ⊢
      exact (h.waits e he).imp_right hnot
  | stops hk hp hk' hn he hlog hshut =>
    have hs : s.Leaves := (State.leaves_iff hk).2 (.inl hp)
    have ht : t.Leaves := (State.leaves_iff hk').2 (.inr rfl)
    refine ⟨?_, ?_, hclosed hk hk' rfl, fun _ _ => .inr ht⟩
    · intro hn'
      rw [hlog]
      exact ⟨(h.found (hn ▸ hn')).1, ht⟩
    · intro _
      rw [hn, hshut]
      exact h.left hs

theorem State.Reachable.noticing (h : s.Reachable c writer plans) : Noticing s := by
  refine State.Reachable.induct (P := Noticing) h ?_ fun _ _ hr ih hm => ih.move hr hm
  refine ⟨?_, ?_, ?_, ?_⟩
  · intro hn
    cases hn
  · rintro ⟨k, hk, -⟩
    cases hk
  · intro k hk
    cases hk
  · intro e he
    cases he

/-- Whoever closes the consumer over an error has not begun yet, or the consumer ends. -/
theorem State.Reachable.ending_of_noticed (h : s.Reachable c writer plans) {stage : Closing} :
    .closeAfterFailure stage ∈ s.tasks → stage = .entering ∨ s.Ending := by
  suffices hall : ∀ stage, .closeAfterFailure stage ∈ s.tasks → stage = .entering ∨ s.Ending from
    hall stage
  refine State.Reachable.induct (P := fun s => ∀ stage, .closeAfterFailure stage ∈ s.tasks →
    stage = .entering ∨ s.Ending) h (fun _ hmem => (by cases hmem)) ?_
  intro s t _ ih hm stage hmem
  have hold (hmem : .closeAfterFailure stage ∈ s.tasks) : stage = .entering ∨ t.Ending :=
    (ih stage hmem).imp_right hm.ending
  have hadds {task : Task} (ht : .closeAfterFailure stage ∈ s.tasks ++ [task])
      (hne : task.notices = false) : stage = .entering ∨ t.Ending := by
    rcases List.mem_append.1 ht with ht | ht
    · exact hold ht
    · rw [← List.mem_singleton.1 ht] at hne
      cases hne
  cases hm with
  | claim _ hm => cases hm <;> exact hold hmem
  | coordinate _ hm =>
    cases hm with
    | fail =>
      rcases List.mem_append.1 hmem with hmem | hmem
      · exact hold hmem
      · exact .inl (Task.closeAfterFailure.inj (List.mem_singleton.1 hmem))
    | _ => exact hold hmem
  | close htask hi hm =>
    rcases List.mem_or_eq_of_mem_set hmem with hmem | he
    · exact hold (hm.tasks ▸ hmem)
    · cases htask with
      | caller | start => cases he
      | coordinator => exact .inr (hm.ending (ih _ (List.mem_of_getElem? hi)))
  | start hi hm =>
    rcases List.mem_or_eq_of_mem_set hmem with hmem | he
    · exact hold (hm.tasks ▸ hmem)
    · cases he
  | leaveSession =>
    rcases List.mem_or_eq_of_mem_set hmem with hmem | he
    · exact hold hmem
    · cases he
  | callStart | callClose => exact hadds hmem rfl
  | _ => exact hold hmem

/-! ## Errors that are missed -/

/-- A move that misses the error is one of a coordinator that overlooks it. -/
theorem Move.missed (hm : Move c s t) (hr : s.Reachable c writer plans) (ht : t.Missed) :
    s.Missed ∨ s.Overlooks := by
  obtain ⟨hn', hleaves, e, he⟩ := ht
  cases hm.noticing hr with
  | same hk hn _ hlog =>
    rw [State.Leaves, hk] at hleaves
    exact .inl ⟨hn ▸ hn', hleaves, e, hlog ▸ he⟩
  | reports hk _ hlive =>
    rw [State.Leaves, hk] at hleaves
    exact absurd (hr.stopped_of_leaves hleaves) hlive
  | spawns hk hp => simp [State.leaves_iff hk, hp] at hleaves
  | finds _ _ _ _ hn => simp [hn'] at hn
  | looks hk hne hne' hne'' hshut hlooks hk' _ hsink =>
    have hp := ((State.leaves_iff hk').1 hleaves).resolve_right hne''
    refine .inr ⟨hshut hp, ?_, _, hk, hlooks.toDraining hp⟩
    rcases hr.noticing.waits e (hsink ▸ he) with hchannel | hl
    · exact Option.isSome_of_eq_some hchannel
    · have hl := (State.leaves_iff hk).1 hl
      simp [hne, hne'] at hl
  | stops hk hp _ hn _ hlog =>
    exact .inl ⟨hn ▸ hn', (State.leaves_iff hk).2 (.inl hp), e, hlog ▸ he⟩

/-- What was missed stays so. -/
theorem State.Missed.move (h : s.Missed) (hr : s.Reachable c writer plans) (hm : Move c s t) :
    t.Missed := by
  obtain ⟨hn, hleaves, e, he⟩ := h
  have hpoll {k : Coordinator} (hk : s.coordinator = some k) := (State.leaves_iff hk).1 hleaves
  cases hm.noticing hr with
  | same hk hn' _ hlog => exact ⟨hn'.trans hn, by rwa [State.Leaves, hk], e, hlog ▸ he⟩
  | reports _ _ hlive => exact absurd (hr.stopped_of_leaves hleaves) hlive
  | spawns _ _ _ _ _ hnone =>
    rw [hnone] at he
    cases he
  | finds hk hp => simpa [hp] using hpoll hk
  | looks hk hne hne' => simpa [hne, hne'] using hpoll hk
  | stops _ _ hk' hn' _ hlog =>
    exact ⟨hn'.trans hn, (State.leaves_iff hk').2 (.inr rfl), e, hlog ▸ he⟩

/-- What the coordinator overlooks, it misses at its next move. -/
theorem State.Overlooks.move (h : s.Overlooks) (hr : s.Reachable c writer plans)
    (hm : Move c s t) : t.Overlooks ∨ t.Missed := by
  obtain ⟨hshut, herror, k, hk, hp⟩ := h
  obtain ⟨e, hchannel⟩ := Option.isSome_iff_exists.1 herror
  have hmem := hr.sink.failed_of_error e hchannel
  have hpoll {k' : Coordinator} (hk' : s.coordinator = some k') : k'.poll = .shutdown := by
    rwa [← Option.some.inj (hk.symm.trans hk')]
  cases hm.noticing hr with
  | same hk' _ he _ => exact .inl ⟨hm.shutdown hshut, he ▸ herror, k, hk' ▸ hk, hp⟩
  | reports _ _ hlive => exact absurd (hr.sinkFirst.shutdown hshut) hlive
  | spawns _ _ _ _ _ hnone =>
    rw [hnone] at hmem
    cases hmem
  | looks hk' _ _ _ _ hlooks hk'' hn hsink =>
    have hnone : s.noticed = false := by
      apply Bool.eq_false_iff.2
      intro hn
      have hl := (State.leaves_iff hk).1 (hr.noticing.found hn).2
      simp [hp] at hl
    have hleaves := (State.leaves_iff hk'').2 (.inl (hlooks.drains (hpoll hk') hshut))
    exact .inr ⟨hn.trans hnone, hleaves, e, hsink ▸ hmem⟩
  | finds hk' hp' | stops hk' hp' => simp [hpoll hk'] at hp'

/-- A run that misses the error passes where it is overlooked. -/
theorem State.Leads.exists_overlooks (h : s.Leads c allows t) (hs : s.Reachable c writer plans)
    (hnot : ¬s.Missed) (ht : t.Missed) :
    ∃ u, s.Leads c allows u ∧ u.Overlooks ∧ u.Leads c allows t := by
  induction h with
  | refl => exact absurd ht hnot
  | @step t u a hst hu hallowed ih =>
    rcases (Move.of_step hu).missed (hst.reachable hs) ht with hmissed | hover
    · obtain ⟨v, hsv, hover, hvt⟩ := ih hmissed
      exact ⟨v, hsv, hover, hvt.step hu hallowed⟩
    · exact ⟨t, hst, hover, .step .refl hu hallowed⟩

/-- An error that is overlooked is never found. -/
theorem State.Leads.missed (h : s.Leads c allows t) (hs : s.Reachable c writer plans)
    (hover : s.Overlooks) : t.Overlooks ∨ t.Missed :=
  h.induct hs (P := fun t => t.Overlooks ∨ t.Missed) (.inl hover)
    fun _ _ hr ih hm _ => ih.elim (·.move hr hm) fun hmissed => .inr (hmissed.move hr hm)

/-- Somewhere on a way to `t` the coordinator overlooked an error of the sink. -/
def State.Overlooked (c : Setup ω) (writer : ω) (plans : List Plan) (t : State ω) : Prop :=
  ∃ s : State ω, s.Reachable c writer plans ∧ s.Overlooks ∧ s.LeadsTo c t

theorem State.not_missed_initial : ¬(State.initial writer plans).Missed := by
  rintro ⟨-, ⟨k, hk, -⟩, -⟩
  cases hk

/-- A closed consumer missed the error if it overlooked it, whichever way it got there. -/
theorem State.Reachable.overlooked_iff (h : t.Reachable c writer plans)
    (hl : t.lifecycle = .closed) : t.Overlooked c writer plans ↔ t.Missed := by
  constructor
  · rintro ⟨s, hs, hover, hst⟩
    refine (hst.missed hs hover).resolve_left fun ⟨_, herror, _⟩ => ?_
    rw [(h.quiet_of_closed hl).2.2] at herror
    cases herror
  · intro hmissed
    obtain ⟨s, hs, hover, hst⟩ :=
      h.leadsTo.exists_overlooks .initial State.not_missed_initial hmissed
    exact ⟨s, hs.reachable .initial, hover, hst⟩

end EventPipeline.Consumer
