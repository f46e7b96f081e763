import EventPipeline.Proofs.Sink.Failure
import EventPipeline.Proofs.Sink.Segmentation
/-!
# A sink that failed

Once it failed a sink does nothing but close its input and report the failure
(`Aftermath`). What it acknowledged before is what the writer took and flushed, and
behind that the writer has at most a part of the buffer that it was given when the sink
failed (`Halted`).
-/
namespace EventPipeline.Sink

variable {ω : Type} {c : Setup ω} {writer : ω} {origin s t : State ω} {e : SinkError}
  {last : Happening} {late : List Message}

/-! ## After a failure -/

/-- After a failure of `origin` the sink only closes its input, reports its error and stops. What is
put into its queue before the input is closed stays there. -/
structure Aftermath (origin : State ω) (e : SinkError) (last : Happening) (s : State ω)
    (late : List Message) : Prop where
  phase : s.phase = .failing e ∨ s.phase = .reporting e ∨ s.phase = .stopped
  closed : s.phase ≠ .failing e → s.inputOpen = false
  log : s.log = origin.log ++ last :: late.map .accepted ++ if s.stopped then [.failed e] else []

theorem State.FailsTo.aftermath (h : origin.FailsTo s e last) : Aftermath origin e last s [] where
  phase := .inl h.phase
  closed := absurd h.phase
  log := by simp [h.log, State.stopped, h.phase]

theorem Aftermath.not_receiving (h : Aftermath origin e last s late) : s.phase ≠ .receiving := by
  rcases h.phase with hp | hp | hp <;> simp [hp]

theorem Aftermath.work (h : Aftermath origin e last s late) (ht : s.work c = some t) :
    Aftermath origin e last t late := by
  rcases h.phase with hp | hp | hp
  · have hlog := h.log
    simp only [State.work, hp] at ht
    cases ht
    exact ⟨.inr (.inl rfl), fun _ => rfl, by simpa [State.stopped, hp] using hlog⟩
  · have hlog := h.log
    simp only [State.work, hp] at ht
    cases ht
    refine ⟨.inr (.inr rfl), fun _ => h.closed (by simp [hp]), ?_⟩
    simp only [State.stopped, hp] at hlog
    simp [State.stopped, State.report, State.record, hlog]
  · simp [State.work, hp] at ht

theorem Aftermath.move (h : Aftermath origin e last s late) (ht : Move c s t) :
    ∃ late, Aftermath origin e last t late := by
  cases ht with
  | take ht =>
    unfold State.take at ht
    split at ht
    next hp _ => exact absurd hp h.not_receiving
    next => cases ht
  | windUp ht =>
    unfold State.windUp at ht
    split at ht
    next hp => exact absurd hp h.not_receiving
    next => cases ht
  | work ht => exact ⟨late, h.work ht⟩
  | offer m ht =>
    unfold State.offer at ht
    split at ht
    next hopen =>
      cases ht
      -- the input is still open, so the sink has not come to close it
      have hp : s.phase = .failing e :=
        Decidable.byContradiction fun hp => by simp [h.closed hp] at hopen
      refine ⟨late ++ [m], .inl hp, absurd hp, ?_⟩
      have hlog := h.log
      simp only [State.stopped, hp] at hlog
      simp [State.record, State.stopped, hp, hlog]
    next => cases ht
  | takeAck ht | takeError ht =>
    obtain ⟨a, -, he⟩ := Option.map_eq_some_iff.1 ht
    cases he
    exact ⟨late, h.phase, h.closed, h.log⟩
  | askStop | releaseInput | muteAcks | muteErrors => exact ⟨late, h.phase, h.closed, h.log⟩

theorem Aftermath.no_failure (h : Aftermath origin e last s late) {e' : SinkError}
    {x : Happening} : ¬Failure c s e' x := by
  intro hf
  cases hf with
  | marshal hp | write hp | tookNone hp | writePanic hp | overrun hp | flush hp | flushPanic hp =>
    rcases h.phase with h | h | h <;> simp [hp] at h

/-- Two `work` steps at most, for which nobody has to wait, report the error. -/
theorem Aftermath.stops {s : System ω} (h : Aftermath origin e last s.sink late) :
    ∃ n t, System.run c s (List.replicate n .work) = some t ∧ t.sink.stopped := by
  have hreport {s : System ω} (hp : s.sink.phase = .reporting e) :
      ∃ t, s.run c [.work] = some t ∧ t.sink.stopped := by
    have hstep : s.step c .work = some { s with sink := s.sink.report e } := by
      simp [System.step, State.work, hp]
    exact ⟨_, runFrom_cons hstep, rfl⟩
  rcases h.phase with hp | hp | hp
  · have hclose : s.step c .work =
        some { s with sink := { s.sink with phase := .reporting e, inputOpen := false } } := by
      simp [System.step, State.work, hp]
    obtain ⟨t, ht, hstop⟩ := hreport
      (s := { s with sink := { s.sink with phase := .reporting e, inputOpen := false } }) rfl
    refine ⟨2, t, ?_, hstop⟩
    exact (runFrom_cons hclose).trans ht
  · obtain ⟨t, ht, hstop⟩ := hreport hp
    exact ⟨1, t, ht, hstop⟩
  · exact ⟨0, s, rfl, decide_eq_true hp⟩

/-! ## Along a run -/

/-- The failure of a run: after the actions in `done` the sink was as in `origin`. -/
structure FailedAt (c : Setup ω) (writer : ω) (actions : List Action) (s : State ω)
    (origin : State ω) (e : SinkError) (last : Happening) (late : List Message) : Prop where
  within : ∃ done rest u, actions = done ++ rest ∧
    System.run c { sink := .initial writer } done = some u ∧ u.sink = origin
  before : origin.failures = []
  failure : Failure c origin e last
  failures : s.failures = [e]
  aftermath : Aftermath origin e last s late

theorem FailedAt.step {actions : List Action} {s t : System ω} {a : Action}
    (h : FailedAt c writer actions s.sink origin e last late) (hheld : s.sink.HoldsWriter)
    (ht : s.step c a = some t) :
    ∃ late, FailedAt c writer (actions ++ [a]) t.sink origin e last late := by
  obtain ⟨done, rest, u, rfl, hu, ho⟩ := h.within
  have hwithin : ∃ d r v, done ++ rest ++ [a] = d ++ r ∧
      System.run c { sink := .initial writer } d = some v ∧ v.sink = origin :=
    ⟨done, rest ++ [a], u, List.append_assoc .., hu, ho⟩
  rcases System.step_sink ht with hm | hsame
  · obtain ⟨late, ha⟩ := h.aftermath.move hm
    refine ⟨late, hwithin, h.before, h.failure, ?_, ha⟩
    rcases hm.failures hheld with hkeep | ⟨e', x, hf, -⟩
    · exact hkeep.trans h.failures
    · exact absurd hf h.aftermath.no_failure
  · rw [hsame]
    exact ⟨late, hwithin, h.before, h.failure, h.failures, h.aftermath⟩

/-- A run has no error, or it is after the one failure it had. -/
theorem System.failures_or_failedAt {s : System ω} {actions : List Action}
    (h : System.run c { sink := .initial writer } actions = some s) :
    s.sink.failures = [] ∨
      ∃ origin e last late, FailedAt c writer actions s.sink origin e last late := by
  refine runFrom_induct (P := fun actions s => s.sink.failures = [] ∨
    ∃ origin e last late, FailedAt c writer actions s.sink origin e last late) h (.inl rfl) ?_
  intro done a s t hs ih ht
  have hheld := (System.Reachable.run .initial hs).sink.holdsWriter
  rcases ih with hnone | ⟨origin, e, last, late, hf⟩
  · rcases System.step_sink ht with hm | hsame
    · rcases hm.failures hheld with hkeep | ⟨e, last, hf, hto⟩
      · exact .inl (hkeep.trans hnone)
      · exact .inr ⟨s.sink, e, last, [],
          ⟨done, [a], s, rfl, hs, rfl⟩, hnone, hf, hto.failures hf hnone, hto.aftermath⟩
    · exact .inl (by rw [hsame, hnone])
  · obtain ⟨late, hf⟩ := hf.step hheld ht
    exact .inr ⟨origin, e, last, late, hf⟩

/-! ## The error in its channel -/

/-- The errors `taken` out of the channel and the one in it were reported, and as long as they are
heard they are all that were. -/
structure State.Reports (s : State ω) (taken : List SinkError) : Prop where
  isPrefix : taken ++ s.error.toList <+: errorsIn s.log
  heard : s.errorsHeard → taken ++ s.error.toList = errorsIn s.log

theorem State.Reports.errorStep {taken : List SinkError} (h : s.Reports taken)
    (he : s.error.isSome → s.phase = .stopped) (ht : s.ErrorStep c t) : t.Reports taken := by
  cases ht with
  | keeps hk => exact ⟨by rw [hk.error, hk.log]; exact h.isPrefix,
      by rw [hk.error, hk.errorsHeard, hk.log]; exact h.heard⟩
  | fails hf hto =>
    have hlog := hf.errorsIn hto
    exact ⟨by rw [hto.error, hlog]; exact h.isPrefix,
      by rw [hto.error, hto.errorsHeard, hlog]; exact h.heard⟩
  | @reports e hp ht =>
    subst ht
    -- the channel is empty, for a sink leaves its error when it stops
    have hempty : s.error = none := by
      cases hs : s.error with
      | none => rfl
      | some x => simp [he (by simp [hs])] at hp
    have hpre := h.isPrefix
    have hall := h.heard
    rw [hempty, Option.toList_none, List.append_nil] at hpre hall
    by_cases hheard : s.errorsHeard
    · have hlog := hall hheard
      constructor <;> simp [State.report, State.record, hheard, hlog]
    · refine ⟨?_, fun h => absurd h hheard⟩
      simpa [State.report, State.record, hheard] using hpre.trans (List.prefix_append _ [e])

/-- The errors taken out of the channel in a run. -/
def System.errorsTaken (c : Setup ω) : System ω → List Action → List SinkError
  | _, [] => []
  | s, a :: actions =>
    (if a = .takeError then s.sink.error.toList else []) ++
      (s.step c a).elim [] (fun t => errorsTaken c t actions)

theorem System.errorsTaken_concat {s t : System ω} {actions : List Action} {a : Action}
    (h : s.run c actions = some t) : s.errorsTaken c (actions ++ [a]) =
      s.errorsTaken c actions ++ if a = .takeError then t.sink.error.toList else [] := by
  induction actions generalizing s with
  | nil =>
    obtain rfl := Option.some.inj h
    cases hs : s.step c a <;> simp [errorsTaken, hs]
  | cons b actions ih =>
    obtain ⟨u, hu, h⟩ := Option.bind_eq_some_iff.1 h
    simp only [List.cons_append, errorsTaken, hu, Option.elim, ih h, List.append_assoc]

theorem System.reports {s : System ω} {actions : List Action}
    (h : System.run c { sink := .initial writer } actions = some s) :
    s.sink.Reports (System.errorsTaken c { sink := .initial writer } actions) := by
  refine runFrom_induct (P := fun actions s =>
    s.sink.Reports (System.errorsTaken c { sink := .initial writer } actions)) h
    ⟨List.prefix_refl _, fun _ => rfl⟩ ?_
  intro done a s t hs ih ht
  have hreach := (System.Reachable.run .initial hs).sink
  have hheld := hreach.holdsWriter
  have hstopped := hreach.stopped_of_error
  rw [System.errorsTaken_concat hs]
  cases a with
  | take =>
    obtain ⟨u, hu, rfl⟩ := Option.map_eq_some_iff.1 ht
    simpa using ih.errorStep hstopped (State.errorStep_take (fun hp => hheld (.inl hp)) hu)
  | windUp =>
    obtain ⟨u, hu, rfl⟩ := Option.map_eq_some_iff.1 ht
    simpa using ih.errorStep (c := c) hstopped
      (.keeps (State.keepsErrors_windUp (fun hp => hheld (.inl hp)) hu))
  | work =>
    obtain ⟨u, hu, rfl⟩ := Option.map_eq_some_iff.1 ht
    simpa using ih.errorStep hstopped (State.errorStep_work hheld hu)
  | offer m =>
    obtain ⟨u, hu, rfl⟩ := Option.map_eq_some_iff.1 ht
    simpa using ih.errorStep (c := c) hstopped (.keeps (State.keepsErrors_offer hu))
  | returnClose i =>
    simp only [step] at ht
    split at ht
    · cases ht; simpa using ih
    · cases ht
  | close => cases ht; simpa using ⟨ih.isPrefix, ih.heard⟩
  | releaseInput => cases ht; simpa using ⟨ih.isPrefix, ih.heard⟩
  | muteAcks => cases ht; simpa using ⟨ih.isPrefix, ih.heard⟩
  | takeAck =>
    obtain ⟨r, hr, rfl⟩ := Option.map_eq_some_iff.1 ht
    obtain ⟨x, -, rfl⟩ := Option.map_eq_some_iff.1 hr
    simpa using ⟨ih.isPrefix, ih.heard⟩
  | takeError =>
    obtain ⟨r, hr, rfl⟩ := Option.map_eq_some_iff.1 ht
    obtain ⟨x, hx, rfl⟩ := Option.map_eq_some_iff.1 hr
    exact ⟨by simpa using ih.isPrefix, by simpa using ih.heard⟩
  | muteErrors =>
    cases ht
    refine ⟨?_, fun h => (by cases h)⟩
    simpa [State.muteErrors] using (List.prefix_append _ _).trans ih.isPrefix

/-! ## What was acknowledged, and what was written -/

theorem Accounted.append {log more : List Happening} {sent : List Segment} {rest : Segment}
    (ha : Accounted log sent rest)
    (hmore : ∀ h ∈ more, h.ack? = none ∧ ∀ m bytes, h ≠ .marshaled m bytes) :
    Accounted (log ++ more) sent rest := by
  induction more generalizing log with
  | nil => simpa using ha
  | cons h more ih =>
    have hh := hmore h List.mem_cons_self
    have hrec : recordsIn (log ++ [h]) = recordsIn log := by
      cases h <;> first | exact absurd rfl (hh.2 _ _) | simp
    rw [← List.singleton_append, ← List.append_assoc]
    exact ih (ha.concat hh.1 hrec) (fun k hk => hmore k (List.mem_cons_of_mem _ hk))

/-- What the writer has taken of the buffer when the sink fails. -/
theorem Failure.written {sent : List Segment} {held extra : Segment} (h : Failure c s e last)
    (hp : Progress s sent held extra) :
    s.buffer = held.bytes ∧ ∃ part, writtenIn s.log = Segment.bytes sent.flatten ++ part ∧
      part <+: held.bytes ∧ ((∃ topic cause, e = .marshal topic cause) → part = []) := by
  obtain ⟨ha, hstage⟩ := hp
  cases h with
  | marshal hp =>
    rw [State.Stage, hp] at hstage
    obtain ⟨-, -, hb, hw⟩ := hstage
    exact ⟨hb.1, [], by simp [hw], List.nil_prefix, fun _ => rfl⟩
  | write hp | tookNone hp | writePanic hp | overrun hp =>
    rw [State.Stage, hp] at hstage
    obtain ⟨-, -, hb, -, hw⟩ := hstage
    obtain ⟨part, hpart⟩ := ha.bytes_isPrefix
    rw [← hpart, List.append_assoc] at hw
    exact ⟨hb.1, part, hpart.symm, ⟨_, List.append_cancel_left hw⟩, by simp⟩
  | flush hp | flushPanic hp =>
    rw [State.Stage, hp] at hstage
    obtain ⟨-, -, hb, hw⟩ := hstage
    exact ⟨hb.1, held.bytes, hw, List.prefix_refl _, by simp⟩

/-- How a sink is left that failed with `e` when it was as in `origin`: it acknowledged `segments`,
and besides them the writer has `part` of the records `flushing` in its buffer. -/
structure Halted (c : Setup ω) (origin s : State ω) (e : SinkError) (segments : List Segment)
    (flushing : Segment) (part : Bytes) : Prop where
  failures : s.failures = [e]
  /-- Nothing happened since, except that messages entered the queue before the input was closed,
  and that the error was reported. -/
  log : ∃ (last : Happening) (late : List Message), Failure c origin e last ∧
    s.log = origin.log ++ last :: late.map .accepted ++ if s.stopped then [.failed e] else []
  refuses : s.phase ≠ .failing e → s.inputOpen = false ∧ ∀ m, s.offer c m = none
  segmented : Segmented c s segments
  records : segments.flatten ++ flushing <+: recordsIn s.log
  buffer : origin.buffer = flushing.bytes
  written : writtenIn s.log = Segment.bytes segments.flatten ++ part
  isPrefix : part <+: flushing.bytes
  unwritten : (∃ topic cause, e = .marshal topic cause) → part = []

/-- Since the failure there is neither a record nor an acknowledgment nor a byte written. -/
theorem Aftermath.quiet (h : Aftermath origin e last s late) (hf : Failure c origin e last) :
    ∃ more, s.log = origin.log ++ more ∧ writtenIn more = [] ∧
      ∀ x ∈ more, x.ack? = none ∧ ∀ m bytes, x ≠ .marshaled m bytes := by
  have hwrite : writtenIn [last] = [] := by cases hf <;> simp [writtenIn]
  have hlast : last.ack? = none ∧ ∀ m bytes, last ≠ .marshaled m bytes := by
    cases hf <;> simp [Happening.ack?]
  have hwritten (tail : List Happening) (ht : writtenIn tail = []) :
      writtenIn (last :: late.map .accepted ++ tail) = [] := by
    have hlate : writtenIn (late.map .accepted) = [] := by
      simp [writtenIn, List.flatMap_eq_nil_iff]
    simp only [writtenIn, List.flatMap_append, List.flatMap_cons] at hwrite hlate ht ⊢
    simpa [hlate, ht] using hwrite
  have hall (tail : List Happening)
      (ht : ∀ x ∈ tail, x.ack? = none ∧ ∀ m bytes, x ≠ .marshaled m bytes) :
      ∀ x ∈ last :: late.map .accepted ++ tail,
        x.ack? = none ∧ ∀ m bytes, x ≠ .marshaled m bytes := by
    intro x hx
    rcases List.mem_append.1 hx with hx | hx
    · rcases List.mem_cons.1 hx with rfl | hx
      · exact hlast
      · obtain ⟨m, -, rfl⟩ := List.mem_map.1 hx
        exact ⟨rfl, by simp⟩
    · exact ht x hx
  have hlog := h.log
  rw [List.append_assoc] at hlog
  refine ⟨_, hlog, hwritten _ ?_, hall _ ?_⟩
  · split <;> rfl
  · split <;> simp [Happening.ack?]

theorem FailedAt.halted {actions : List Action}
    (h : FailedAt c writer actions s origin e last late) (hs : s.Reachable c writer)
    (hr : c.WritesRecords) :
    ∃ segments flushing part, Halted c origin s e segments flushing part := by
  obtain ⟨done, rest, u, -, hu, rfl⟩ := h.within
  obtain ⟨sent, held, extra, hp⟩ := (System.Reachable.run .initial hu).sink.progress
  obtain ⟨hbuf, part, hpart, hpre, hmarshal⟩ := h.failure.written hp
  obtain ⟨more, hlog, hquiet, hmore⟩ := h.aftermath.quiet h.failure
  have ha : Accounted s.log sent (held ++ extra) := by
    rw [hlog]
    exact hp.accounted.append hmore
  have hfailed : s.stopped → .failed e ∈ s.log := by
    intro hstop
    rw [h.aftermath.log, if_pos hstop]
    simp
  refine ⟨sent, held, part, h.failures, ⟨last, late, h.failure, h.aftermath.log⟩, ?_,
    ha.segmented hs.intake hr fun hstop hnone => absurd (hfailed hstop) (hnone e), ?_, hbuf, ?_,
    hpre, hmarshal⟩
  · intro hp
    have hclosed := h.aftermath.closed hp
    exact ⟨hclosed, fun m => by simp [State.offer, hclosed]⟩
  · rw [ha.records, ← List.append_assoc]
    exact List.prefix_append _ _
  · rw [hlog, ← hpart, writtenIn, List.flatMap_append]
    exact (congrArg _ hquiet).trans (List.append_nil _)

/-- What a sink fails with was said by its writer, unless it is one of a few errors of its own,
and that there is no writer is none of them. -/
theorem Failure.ne_writerGone (h : Failure c s e last)
    (hw : ∀ w bytes, (c.writer.write w bytes).1 ≠ .failed writerGone)
    (hf : ∀ w, (c.writer.flush w).1 ≠ .failed writerGone) : e ≠ .write writerGone := by
  rintro rfl
  generalize hk : SinkError.write writerGone = k at h
  cases h with
  | write hp hwrite =>
    obtain rfl := SinkError.write.inj hk
    exact hw _ _ (congrArg Prod.fst hwrite)
  | flush hp hflush =>
    obtain rfl := SinkError.write.inj hk
    exact hf _ (congrArg Prod.fst hflush)
  | tookNone => exact absurd (SinkError.write.inj hk) (by decide)
  | marshal | writePanic | overrun | flushPanic => cases hk

/-- A failure is terminal and exact. Whatever the sink runs into becomes its error, and the error it
has is what it ran into at some earlier state of the run. It is reported without waiting for
anybody, it is all that ever is in the channel for errors, and that there is no writer to hand the
buffer to is never the reason. -/
theorem System.failure_terminal {s : System ω} {actions : List Action}
    (h : System.run c { sink := .initial writer } actions = some s) (hr : c.WritesRecords) :
    (∀ e last, Failure c s.sink e last →
      ∃ a t, (a = .take ∨ a = .work) ∧ s.step c a = some t ∧ t.sink.failures = [e]) ∧
    ∀ e ∈ s.sink.failures,
      (∃ done rest origin, actions = done ++ rest ∧
        System.run c { sink := .initial writer } done = some origin ∧
        ∃ segments flushing part, Halted c origin.sink s.sink e segments flushing part) ∧
      (∃ n t, s.run c (List.replicate n .work) = some t ∧ t.sink.stopped) ∧
      System.errorsTaken c { sink := .initial writer } actions ++ s.sink.error.toList <+: [e] ∧
      (s.sink.stopped → s.sink.errorsHeard →
        System.errorsTaken c { sink := .initial writer } actions ++ s.sink.error.toList = [e]) ∧
      ((∀ w bytes, (c.writer.write w bytes).1 ≠ .failed writerGone) →
        (∀ w, (c.writer.flush w).1 ≠ .failed writerGone) → e ≠ .write writerGone) := by
  have hreach := (System.Reachable.run .initial h).sink
  rcases System.failures_or_failedAt h with hnone | ⟨origin, e, last, late, hfailed⟩
  · refine ⟨fun e last hf => ?_, fun e he => ?_⟩
    · obtain ⟨a, t, ha, ht, hto⟩ := hf.systemStep
      exact ⟨a, t, ha, ht, hto.failures hf hnone⟩
    · rw [hnone] at he
      cases he
  · refine ⟨fun e last hf => absurd hf hfailed.aftermath.no_failure, fun e' he => ?_⟩
    rw [hfailed.failures] at he
    obtain rfl := List.mem_singleton.1 he
    obtain ⟨done, rest, u, hactions, hu, rfl⟩ := hfailed.within
    have hreports := System.reports h
    have hpre : errorsIn s.sink.log <+: [e'] := by
      rw [← hfailed.failures]
      exact List.prefix_append _ _
    refine ⟨⟨done, rest, u, hactions, hu, hfailed.halted hreach hr⟩, hfailed.aftermath.stops,
      hreports.isPrefix.trans hpre, fun hstop hheard => ?_, hfailed.failure.ne_writerGone⟩
    have hp : s.sink.phase = .stopped := of_decide_eq_true hstop
    have hall := hfailed.failures
    rw [State.failures, hp] at hall
    rw [hreports.heard hheard]
    simpa [Phase.error?] using hall

/-- A sink as `pairs`, whose writer fails at its fourth call. -/
def burning : Setup Writer.Calls :=
  { pairs with writer := Writer.scripted { maxWrite := some 3, failWrite := some 4 } }

/-- Five messages, two in each flush, and one more that is sent before the input is closed. -/
def secondFlush : List Action :=
  [.offer (numbered 1), .offer (numbered 2), .take, .take, .offer (numbered 3), .take,
    .work, .work, .work, .work, .offer (numbered 4), .take, .offer (numbered 5), .take,
    .work, .work, .offer (numbered 6), .work, .work]

/-- The second flush breaks off after three of its four bytes. -/
theorem failure_terminal_secondFlush :
    ∃ s origin segments flushing part,
      System.run burning { sink := .initial {} } secondFlush = some s ∧
      writtenIn s.sink.log = [0, 1, 0, 1, 0, 1, 0] ∧
      Halted burning origin s.sink (.write "disk on fire") segments flushing part := by
  have hrun : (System.run burning { sink := .initial {} } secondFlush).map
      (fun s => (s.sink.failures, writtenIn s.sink.log)) =
        some ([.write "disk on fire"], [0, 1, 0, 1, 0, 1, 0]) := by
    decide
  obtain ⟨s, hs, hends⟩ := Option.map_eq_some_iff.1 hrun
  obtain ⟨hfailures, hwritten⟩ := Prod.mk.injEq .. ▸ hends
  obtain ⟨⟨_, _, origin, -, -, segments, flushing, part, hhalted⟩, -⟩ :=
    (System.failure_terminal hs pairs_writesRecords).2 _ (hfailures ▸ List.mem_singleton_self _)
  exact ⟨s, origin.sink, segments, flushing, part, hs, hwritten, hhalted⟩

end EventPipeline.Sink
