import EventPipeline.Proofs.Sink.Channel
import EventPipeline.Proofs.Sink.Progress
/-!
# What a sink fails with

A sink fails at one of a few places (`Failure`): a message that cannot be marshaled, or
a call of the writer that errs, takes nothing or panics. The errors of a sink are those
it reported and the one it is about to report (`State.failures`). No move changes them
but a failure, and there is only ever one.
-/
namespace EventPipeline.Sink

variable {ω : Type} {c : Setup ω} {writer : ω} {s t : State ω} {e : SinkError} {last : Happening}

/-! ## The errors of a sink -/

/-- The errors reported. -/
def errorsIn (log : List Happening) : List SinkError :=
  log.filterMap (fun
    | .failed e => some e
    | _ => none)

@[simp] theorem errorsIn_concat (log : List Happening) (h : Happening) : errorsIn (log ++ [h]) =
    errorsIn log ++ match h with
      | .failed e => [e]
      | _ => [] := by
  cases h <;> simp [errorsIn]

theorem mem_errorsIn {log : List Happening} : e ∈ errorsIn log ↔ .failed e ∈ log := by
  constructor
  · intro h
    obtain ⟨x, hx, he⟩ := List.mem_filterMap.1 h
    cases x <;> first | cases he; exact hx | cases he
  · exact fun h => List.mem_filterMap.2 ⟨_, h, rfl⟩

/-- The error a sink is about to report. -/
def Phase.error? : Phase → Option SinkError
  | .failing e | .reporting e => some e
  | _ => none

/-- The errors reported, and the one about to be. -/
def State.failures (s : State ω) : List SinkError := errorsIn s.log ++ s.phase.error?.toList

theorem State.errorsIn_eq_nil (h : s.failures = []) : errorsIn s.log = [] :=
  (List.append_eq_nil_iff.1 h).1

/-- What a sink runs into with its next step, and what that leaves in its log. -/
inductive Failure (c : Setup ω) (s : State ω) : SinkError → Happening → Prop
  | marshal {m : Message} {rest : List Message} {cause : MarshalError} :
      s.phase = .receiving → s.queue = m :: rest →
      c.marshal (s.marshalCalls + 1) m = .error cause →
      Failure c s (.marshal m.topic cause) (.taken m)
  | write {rest : Bytes} {next : Next} {reason : String} {w : ω} :
      s.phase = .writing rest next → c.writer.write s.writer rest = (.failed reason, w) →
      Failure c s (.write reason) .tookNone
  | tookNone {rest : Bytes} {next : Next} {w : ω} :
      s.phase = .writing rest next → c.writer.write s.writer rest = (.accepted 0, w) →
      Failure c s (.write nothingTaken) .tookNone
  | writePanic {rest : Bytes} {next : Next} {message : String} {w : ω} :
      s.phase = .writing rest next → c.writer.write s.writer rest = (.panicked message, w) →
      Failure c s (.flushTask message) .tookNone
  | overrun {rest : Bytes} {next : Next} {count : Nat} {w : ω} :
      s.phase = .writing rest next → c.writer.write s.writer rest = (.accepted count, w) →
      rest.length < count → Failure c s (.flushTask (overrun count rest.length)) .tookNone
  | flush {next : Next} {reason : String} {w : ω} :
      s.phase = .syncing next → c.writer.flush s.writer = (.failed reason, w) →
      Failure c s (.write reason) (.flushed false)
  | flushPanic {next : Next} {message : String} {w : ω} :
      s.phase = .syncing next → c.writer.flush s.writer = (.panicked message, w) →
      Failure c s (.flushTask message) (.flushed false)

/-- A step that fails leaves its error to be reported, and one entry in the log. -/
structure State.FailsTo (s t : State ω) (e : SinkError) (last : Happening) : Prop where
  phase : t.phase = .failing e
  log : t.log = s.log ++ [last]
  error : t.error = s.error
  errorsHeard : t.errorsHeard = s.errorsHeard

/-! ## Where a failure leads to -/

theorem Failure.step (h : Failure c s e last) :
    ∃ t, (s.take c = some t ∨ s.work c = some t) ∧ s.FailsTo t e last := by
  cases h with
  | @marshal m rest cause hp hq hm =>
    refine ⟨(({ s with queue := rest }).record (.taken m)).handle c m, .inl ?_, ?_⟩
    · simp only [State.take, hp, hq]
    · rw [State.handle_error (by exact hm)]
      exact ⟨rfl, rfl, rfl, rfl⟩
  | @write rest next reason w hp hw =>
    refine ⟨s.write c rest next, .inr (by simp only [State.work, hp]), ?_⟩
    simp only [State.write, hw]
    exact ⟨rfl, rfl, rfl, rfl⟩
  | @tookNone rest next w hp hw =>
    refine ⟨s.write c rest next, .inr (by simp only [State.work, hp]), ?_⟩
    simp only [State.write, hw]
    exact ⟨rfl, rfl, rfl, rfl⟩
  | @writePanic rest next message w hp hw =>
    refine ⟨s.write c rest next, .inr (by simp only [State.work, hp]), ?_⟩
    simp only [State.write, hw]
    exact ⟨rfl, rfl, rfl, rfl⟩
  | @overrun rest next count w hp hw hlt =>
    refine ⟨s.write c rest next, .inr (by simp only [State.work, hp]), ?_⟩
    cases count with
    | zero => exact absurd hlt (Nat.not_lt_zero _)
    | succ n =>
      simp only [State.write, hw, if_pos hlt]
      exact ⟨rfl, rfl, rfl, rfl⟩
  | @flush next reason w hp hw =>
    refine ⟨s.sync c next, .inr (by simp only [State.work, hp]), ?_⟩
    simp only [State.sync, hw]
    exact ⟨rfl, rfl, rfl, rfl⟩
  | @flushPanic next message w hp hw =>
    refine ⟨s.sync c next, .inr (by simp only [State.work, hp]), ?_⟩
    simp only [State.sync, hw]
    exact ⟨rfl, rfl, rfl, rfl⟩

theorem Failure.systemStep {s : System ω} (h : Failure c s.sink e last) :
    ∃ a t, (a = .take ∨ a = .work) ∧ s.step c a = some t ∧ s.sink.FailsTo t.sink e last := by
  obtain ⟨t, ht | ht, hto⟩ := h.step
  · exact ⟨.take, { s with sink := t }, .inl rfl, by simp [System.step, ht], hto⟩
  · exact ⟨.work, { s with sink := t }, .inr rfl, by simp [System.step, ht], hto⟩

theorem Failure.last_ne_failed (h : Failure c s e last) : ∀ e', last ≠ .failed e' := by
  cases h <;> simp

/-! ## Moves and errors -/

theorem State.error?_store (hheld : s.writerHeld) (bytes : Bytes) (a : Ack) :
    (s.store c bytes a).phase.error? = none := by
  rw [State.store_eq s hheld]
  dsimp only
  split <;> rfl

theorem State.error?_proceed (hheld : s.writerHeld) (next : Next) :
    (s.proceed c next).phase.error? = none := by
  cases next with
  | append bytes a => exact State.error?_store hheld bytes a
  | _ => rfl

theorem State.error?_emit (hheld : s.writerHeld) (next : Next) :
    (s.emit c next).phase.error? = none := by
  unfold State.emit
  split
  next => exact State.error?_proceed hheld next
  next => rfl

/-- Neither an error nor the channel for it changes. -/
structure State.KeepsErrors (s t : State ω) : Prop where
  phase : t.phase.error? = s.phase.error?
  log : errorsIn t.log = errorsIn s.log
  error : t.error = s.error
  errorsHeard : t.errorsHeard = s.errorsHeard

theorem State.KeepsErrors.of_kept {u : State ω} (hk : u.Kept t) (hp : t.phase.error? = none)
    (hs : s.phase.error? = none) (hl : errorsIn u.log = errorsIn s.log) (he : u.error = s.error)
    (hh : u.errorsHeard = s.errorsHeard) : s.KeepsErrors t where
  phase := hp.trans hs.symm
  log := by rw [hk.log, hl]
  error := by rw [hk.error, he]
  errorsHeard := by rw [hk.errorsHeard, hh]

theorem State.KeepsErrors.failures (h : s.KeepsErrors t) : t.failures = s.failures := by
  rw [State.failures, State.failures, h.phase, h.log]

/-- What a step of the sink has to do with errors. -/
inductive State.ErrorStep (c : Setup ω) (s t : State ω) : Prop
  | keeps : s.KeepsErrors t → ErrorStep c s t
  | fails {e : SinkError} {last : Happening} :
      Failure c s e last → s.FailsTo t e last → ErrorStep c s t
  | reports {e : SinkError} : s.phase = .reporting e → t = s.report e → ErrorStep c s t

theorem State.ErrorStep.failures (h : s.ErrorStep c t) :
    t.failures = s.failures ∨ ∃ e last, Failure c s e last ∧ s.FailsTo t e last := by
  cases h with
  | keeps h => exact .inl h.failures
  | fails hf hto => exact .inr ⟨_, _, hf, hto⟩
  | reports hp ht =>
    subst ht
    exact .inl (by simp [State.failures, hp, Phase.error?, report, record])

theorem State.ErrorStep.errorsHeard (h : s.ErrorStep c t) : t.errorsHeard = s.errorsHeard := by
  cases h with
  | keeps h => exact h.errorsHeard
  | fails _ hto => exact hto.errorsHeard
  | reports _ ht => rw [ht]; rfl

theorem State.errorStep_take (hheld : s.phase = .receiving → s.writerHeld)
    (h : s.take c = some t) : s.ErrorStep c t := by
  unfold State.take at h
  split at h
  next m rest hp hq =>
    cases h
    have hs : s.phase.error? = none := by rw [hp]; rfl
    have hquiet (bytes : Bytes) :
        errorsIn (s.log ++ [.taken m] ++ [.marshaled m bytes]) = errorsIn s.log := by
      rw [errorsIn_concat, errorsIn_concat, List.append_nil, List.append_nil]
    cases hm : c.marshal (s.marshalCalls + 1) m with
    | error cause =>
      rw [State.handle_error (by exact hm)]
      exact .fails (.marshal hp hq hm) ⟨rfl, rfl, rfl, rfl⟩
    | ok bytes =>
      by_cases hfull : State.Full c ({ s with queue := rest }.record (.taken m)) bytes
      · rw [State.handle_full (by exact hm) hfull]
        refine .keeps (.of_kept (State.kept_handOut _) ?_ hs (hquiet bytes) rfl rfl)
        rw [State.handOut_of_held (by exact hheld hp)]
        rfl
      · rw [State.handle_fits (by exact hm) hfull]
        exact .keeps (.of_kept (State.kept_store bytes m.ack)
          (State.error?_store (by exact hheld hp) _ _) hs (hquiet bytes) rfl rfl)
  next => cases h

theorem State.keepsErrors_windUp (hheld : s.phase = .receiving → s.writerHeld)
    (h : s.windUp c = some t) : s.KeepsErrors t := by
  unfold State.windUp at h
  split at h
  next hp =>
    have hs : s.phase.error? = none := by rw [hp]; rfl
    split at h
    next =>
      split at h
      next => cases h
      next =>
        split at h
        next =>
          cases h
          refine .of_kept (State.kept_handOut .stop) ?_ hs rfl rfl rfl
          rw [State.handOut_of_held (hheld hp)]
          rfl
        next =>
          cases h
          exact .of_kept (State.kept_emit .stop) (State.error?_emit (hheld hp) _) hs rfl rfl rfl
    next =>
      split at h
      next => cases h; exact ⟨rfl, rfl, rfl, rfl⟩
      next => cases h
  next => cases h

theorem State.errorStep_write {rest : Bytes} {next : Next} (hp : s.phase = .writing rest next) :
    s.ErrorStep c (s.write c rest next) := by
  have hs : s.phase.error? = none := by rw [hp]; rfl
  unfold State.write
  split
  next w hw => exact .fails (.writePanic hp hw) ⟨rfl, rfl, rfl, rfl⟩
  next reason w hw => exact .fails (.write hp hw) ⟨rfl, rfl, rfl, rfl⟩
  next => exact .keeps ⟨rfl, by simp [record], rfl, rfl⟩
  next w hw => exact .fails (.tookNone hp hw) ⟨rfl, rfl, rfl, rfl⟩
  next count w _ hw =>
    split
    next hlt => exact .fails (.overrun hp hw hlt) ⟨rfl, rfl, rfl, rfl⟩
    next => split <;> exact .keeps ⟨hs.symm, by simp [record], rfl, rfl⟩

theorem State.errorStep_sync {next : Next} (hp : s.phase = .syncing next) :
    s.ErrorStep c (s.sync c next) := by
  unfold State.sync
  split
  next w hw => exact .fails (.flushPanic hp hw) ⟨rfl, rfl, rfl, rfl⟩
  next reason w hw => exact .fails (.flush hp hw) ⟨rfl, rfl, rfl, rfl⟩
  next =>
    refine .keeps (.of_kept (State.kept_emit next) (State.error?_emit rfl next) ?_ ?_ rfl rfl)
    · rw [hp]; rfl
    · simp [record]

theorem State.keepsErrors_send {a : Ack} {next : Next} (hheld : s.writerHeld)
    (hp : s.phase = .acking a next) (h : s.send c a next = some t) : s.KeepsErrors t := by
  have hs : s.phase.error? = none := by rw [hp]; rfl
  unfold State.send at h
  split at h
  next =>
    cases h
    exact .of_kept (State.kept_proceed next) (State.error?_proceed (by exact hheld) next) hs
      (by simp [record]) rfl rfl
  next =>
    split at h
    next => cases h
    next =>
      cases h
      exact .of_kept (State.kept_proceed next) (State.error?_proceed (by exact hheld) next) hs
        (by simp [record]) rfl rfl

/-- The writer is held whenever the sink may come to hand the buffer out. -/
def State.HoldsWriter (s : State ω) : Prop :=
  s.phase = .receiving ∨ (∃ a next, s.phase = .acking a next) → s.writerHeld

theorem State.Reachable.holdsWriter (h : s.Reachable c writer) : s.HoldsWriter := by
  obtain ⟨sent, held, extra, -, hstage⟩ := h.progress
  rintro (hp | ⟨a, next, hp⟩)
  · rw [State.Stage, hp] at hstage
    exact hstage.1
  · rw [State.Stage, hp] at hstage
    exact hstage.1

theorem State.errorStep_work (hheld : s.HoldsWriter) (h : s.work c = some t) :
    s.ErrorStep c t := by
  unfold State.work at h
  split at h
  next => cases h
  next => cases h
  next rest next hp => cases h; exact State.errorStep_write hp
  next next hp => cases h; exact State.errorStep_sync hp
  next a next hp => exact .keeps (State.keepsErrors_send (hheld (.inr ⟨a, next, hp⟩)) hp h)
  next e hp => cases h; exact .keeps ⟨by rw [hp]; rfl, rfl, rfl, rfl⟩
  next e hp => cases h; exact .reports hp rfl

theorem State.keepsErrors_offer {m : Message} (h : s.offer c m = some t) : s.KeepsErrors t := by
  unfold State.offer at h
  split at h
  next => cases h; exact ⟨rfl, by simp [record], rfl, rfl⟩
  next => cases h

/-- A move that is no step as to errors empties the channel for them, and does nothing else. -/
theorem Move.errorStep (hheld : s.HoldsWriter) (h : Move c s t) :
    s.ErrorStep c t ∨ t.error = none ∧ t.phase = s.phase ∧ t.log = s.log := by
  cases h with
  | take h => exact .inl (State.errorStep_take (fun hp => hheld (.inl hp)) h)
  | windUp h => exact .inl (.keeps (State.keepsErrors_windUp (fun hp => hheld (.inl hp)) h))
  | work h => exact .inl (State.errorStep_work hheld h)
  | offer m h => exact .inl (.keeps (State.keepsErrors_offer h))
  | takeAck h =>
    obtain ⟨a, -, he⟩ := Option.map_eq_some_iff.1 h
    cases he
    exact .inl (.keeps ⟨rfl, rfl, rfl, rfl⟩)
  | takeError h =>
    obtain ⟨e, -, he⟩ := Option.map_eq_some_iff.1 h
    cases he
    exact .inr ⟨rfl, rfl, rfl⟩
  | muteErrors => exact .inr ⟨rfl, rfl, rfl⟩
  | askStop | releaseInput | muteAcks => exact .inl (.keeps ⟨rfl, rfl, rfl, rfl⟩)

/-- The errors of a sink change by a failure only. -/
theorem Move.failures (hheld : s.HoldsWriter) (h : Move c s t) :
    t.failures = s.failures ∨ ∃ e last, Failure c s e last ∧ s.FailsTo t e last := by
  rcases h.errorStep hheld with hstep | ⟨-, hp, hl⟩
  · exact hstep.failures
  · exact .inl (by rw [State.failures, State.failures, hp, hl])

theorem Failure.errorsIn (h : Failure c s e last) (ht : s.FailsTo t e last) :
    errorsIn t.log = errorsIn s.log := by
  have hlast := h.last_ne_failed
  rw [ht.log, errorsIn_concat]
  split
  next e => exact absurd rfl (hlast e)
  next => exact List.append_nil _

/-- Whatever is in the channel for errors was reported. -/
theorem State.Reachable.failed_of_error (h : s.Reachable c writer) :
    ∀ e, s.error = some e → e ∈ errorsIn s.log := by
  induction h with
  | initial => exact fun e he => nomatch he
  | @move s t hs ht ih =>
    intro e he
    rcases ht.errorStep hs.holdsWriter with hstep | ⟨hnone, -, -⟩
    · cases hstep with
      | keeps hk =>
        rw [hk.log]
        exact ih e (hk.error ▸ he)
      | fails hf hto =>
        rw [hf.errorsIn hto]
        exact ih e (hto.error ▸ he)
      | @reports e' hp hreport =>
        subst hreport
        dsimp only [State.report] at he ⊢
        split at he
        next =>
          obtain rfl := Option.some.inj he
          simp [State.record]
        next => cases he
    · rw [hnone] at he
      cases he

theorem State.FailsTo.failures (h : s.FailsTo t e last) (hf : Failure c s e last)
    (hs : s.failures = []) : t.failures = [e] := by
  have hquiet := State.errorsIn_eq_nil hs
  have hlast := hf.last_ne_failed
  rw [State.failures, h.phase, h.log, errorsIn_concat, hquiet]
  cases last <;> simp_all [Phase.error?]

/-- A sink only fails over messages it took. -/
theorem Failure.acceptedIn_ne_nil (h : Failure c s e last) (hs : s.Reachable c writer) :
    acceptedIn s.log ≠ [] := by
  intro hnil
  obtain ⟨hqueue, hrecords⟩ := hs.intake.nothing hnil
  obtain ⟨sent, held, extra, ha, hstage⟩ := hs.progress
  have hheld (hne : held ≠ []) : False := by
    rw [ha.records] at hrecords
    exact hne (List.append_eq_nil_iff.1 (List.append_eq_nil_iff.1 hrecords).2).1
  cases h with
  | marshal hp hq => simp [hqueue] at hq
  | write hp | tookNone hp | writePanic hp | overrun hp | flush hp | flushPanic hp =>
    rw [State.Stage, hp] at hstage
    exact hheld hstage.2.1

theorem Failure.working (h : Failure c s e last) : s.phase.working := by
  cases h with
  | marshal hp | write hp | tookNone hp | writePanic hp | overrun hp | flush hp | flushPanic hp =>
    rw [hp]; rfl

/-- A sink that failed or stopped never works again. -/
theorem Move.working (h : Move c s t) (ht : t.phase.working) : s.phase.working := by
  cases h with
  | take h =>
    unfold State.take at h
    split at h
    next hp _ => rw [hp]; rfl
    next => cases h
  | windUp h =>
    unfold State.windUp at h
    split at h
    next hp => rw [hp]; rfl
    next => cases h
  | work h =>
    unfold State.work at h
    split at h
    next => cases h
    next => cases h
    next hp => rw [hp]; rfl
    next hp => rw [hp]; rfl
    next hp => rw [hp]; rfl
    next => cases h; cases ht
    next => cases h; cases ht
  | offer m h =>
    unfold State.offer at h
    split at h
    next => cases h; exact ht
    next => cases h
  | takeAck h | takeError h =>
    obtain ⟨a, -, he⟩ := Option.map_eq_some_iff.1 h
    cases he
    exact ht
  | askStop | releaseInput | muteAcks | muteErrors => exact ht

/-- A sink fails once at most, and not as long as it works. -/
theorem State.Reachable.failures_length (h : s.Reachable c writer) :
    s.failures.length ≤ 1 ∧ (s.phase.working → s.failures = []) := by
  induction h with
  | initial => exact ⟨Nat.zero_le _, fun _ => rfl⟩
  | @move s t hs ht ih =>
    rcases ht.failures hs.holdsWriter with hkeep | ⟨e, last, hf, hto⟩
    · rw [hkeep]
      exact ⟨ih.1, fun hw => ih.2 (ht.working hw)⟩
    · rw [hto.failures hf (ih.2 hf.working), hto.phase]
      exact ⟨Nat.le_refl 1, fun hw => by cases hw⟩

theorem State.Reachable.eq_of_mem_errorsIn (h : s.Reachable c writer) {e e' : SinkError}
    (he : e ∈ errorsIn s.log) (he' : e' ∈ errorsIn s.log) : e = e' := by
  have hlen := h.failures_length.1
  rw [State.failures, List.length_append] at hlen
  obtain ⟨x, hx⟩ : ∃ x, errorsIn s.log = [x] :=
    List.length_eq_one_iff.1 (Nat.le_antisymm (by omega) (List.length_pos_of_mem he))
  rw [hx, List.mem_singleton] at he he'
  rw [he, he']

/-- A sink that took no message does not fail. -/
theorem State.Reachable.failures_eq_nil (h : s.Reachable c writer)
    (ha : acceptedIn s.log = []) : s.failures = [] := by
  induction h with
  | initial => rfl
  | @move s t hs ht ih =>
    have hbefore : acceptedIn s.log = [] := List.prefix_nil.1 (ha ▸ ht.acceptedIn_isPrefix)
    rcases ht.failures hs.holdsWriter with hkeep | ⟨e, last, hf, -⟩
    · exact hkeep.trans (ih hbefore)
    · exact absurd hbefore (hf.acceptedIn_ne_nil hs)

/-- A sink that took no message has no error in its channel. -/
theorem State.Reachable.error_eq_none (h : s.Reachable c writer) (ha : acceptedIn s.log = []) :
    s.error = none := by
  cases he : s.error with
  | none => rfl
  | some e =>
    have hmem := h.failed_of_error e he
    rw [State.errorsIn_eq_nil (h.failures_eq_nil ha)] at hmem
    cases hmem

end EventPipeline.Sink
