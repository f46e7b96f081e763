import EventPipeline.Proofs.Sink.History
import EventPipeline.Proofs.Sink.Move
/-!
# What a sink takes in, and how it ends

Messages leave the queue in the order they entered it and are marshaled one by one
(`Intake`). Once a sink winds up or fails, its input is closed, and when it stops
without an error nothing is left in the queue (`WindingUp`).
-/
namespace EventPipeline.Sink

variable {ω : Type} {c : Setup ω} {s t : State ω}

/-- What is done after the buffer is dealt with. -/
def Phase.next? : Phase → Option Next
  | .writing _ next | .syncing next | .acking _ next => some next
  | _ => none

/-- Whether the sink has neither failed nor stopped. -/
def Phase.working : Phase → Bool
  | .failing _ | .reporting _ | .stopped => false
  | _ => true

/-- Whether the sink is about to stop, or has. -/
def Phase.ending : Phase → Bool
  | .writing _ .stop | .syncing .stop | .acking _ .stop | .reporting _ | .stopped => true
  | _ => false

/-- What a sink may be at that does `next` after the buffer is dealt with, or just did it. -/
def Phase.Toward (next : Next) (p : Phase) : Prop :=
  p.ending = false ∨ p.next? = some next ∨ next = .stop ∧ p = .stopped

/-- The messages taken are the first accepted, and all of them were marshaled, as long as the sink
works. -/
structure Intake (c : Setup ω) (s : State ω) : Prop where
  accepted : acceptedIn s.log = takenIn s.log ++ s.queue
  calls : s.marshalCalls = (takenIn s.log).length
  made : ∀ i m bytes, (recordsIn s.log)[i]? = some (m, bytes) → c.marshal (i + 1) m = .ok bytes
  marshaled : (recordsIn s.log).map Prod.fst <+: takenIn s.log
  complete : s.phase.working → (recordsIn s.log).map Prod.fst = takenIn s.log

/-- The input is closed before the sink ends, and it ends with an error or an empty queue. -/
structure WindingUp (s : State ω) : Prop where
  draining : s.draining → s.inputOpen = false
  stopping : s.phase.next? = some .stop → s.draining ∧ s.queue = []
  reporting : ∀ e, s.phase = .reporting e → s.inputOpen = false
  stopped : s.phase = .stopped → s.inputOpen = false ∧
    ((∃ e, .failed e ∈ s.log) ∨ (recordsIn s.log).map Prod.fst = takenIn s.log ∧ s.queue = [])

/-! ## The parts of a move -/

/-- The part of the state that only taking, offering and winding up change. -/
structure State.Kept (s t : State ω) : Prop where
  log : t.log = s.log
  queue : t.queue = s.queue
  inputOpen : t.inputOpen = s.inputOpen
  draining : t.draining = s.draining
  marshalCalls : t.marshalCalls = s.marshalCalls
  ack : t.ack = s.ack
  error : t.error = s.error
  acksHeard : t.acksHeard = s.acksHeard
  errorsHeard : t.errorsHeard = s.errorsHeard
  inputHeld : t.inputHeld = s.inputHeld
  stopAsked : t.stopAsked = s.stopAsked

theorem State.Kept.trans {u : State ω} (h : s.Kept t) (h' : t.Kept u) : s.Kept u where
  log := h'.log.trans h.log
  queue := h'.queue.trans h.queue
  inputOpen := h'.inputOpen.trans h.inputOpen
  draining := h'.draining.trans h.draining
  marshalCalls := h'.marshalCalls.trans h.marshalCalls
  ack := h'.ack.trans h.ack
  error := h'.error.trans h.error
  acksHeard := h'.acksHeard.trans h.acksHeard
  errorsHeard := h'.errorsHeard.trans h.errorsHeard
  inputHeld := h'.inputHeld.trans h.inputHeld
  stopAsked := h'.stopAsked.trans h.stopAsked

theorem State.kept_handOut (next : Next) : s.Kept (s.handOut next) := by
  unfold State.handOut
  split <;> constructor <;> rfl

theorem State.kept_store (bytes : Bytes) (a : Ack) : s.Kept (s.store c bytes a) := by
  unfold State.store
  dsimp only
  split
  next => exact .trans (by constructor <;> rfl) (State.kept_handOut .resume)
  next => constructor <;> rfl

theorem State.kept_proceed (next : Next) : s.Kept (s.proceed c next) := by
  cases next with
  | append bytes a => exact State.kept_store bytes a
  | _ => constructor <;> rfl

theorem State.kept_emit (next : Next) : s.Kept (s.emit c next) := by
  unfold State.emit
  split
  next => exact State.kept_proceed next
  next => constructor <;> rfl

theorem State.ending_handOut {next : Next} (h : next ≠ .stop) :
    (s.handOut next).phase.ending = false := by
  unfold State.handOut
  split
  next => cases next <;> first | rfl | exact absurd rfl h
  next => rfl

theorem State.ending_store (bytes : Bytes) (a : Ack) :
    (s.store c bytes a).phase.ending = false := by
  unfold State.store
  dsimp only
  split
  next => exact State.ending_handOut (by decide)
  next => rfl

theorem State.ending_handle (m : Message) : (s.handle c m).phase.ending = false := by
  cases hm : c.marshal (s.marshalCalls + 1) m with
  | error e => rw [State.handle_error hm]; rfl
  | ok bytes =>
    by_cases hfull : s.Full c bytes
    · rw [State.handle_full hm hfull]; exact State.ending_handOut (by simp)
    · rw [State.handle_fits hm hfull]; exact State.ending_store _ _

/-- Turning a message into a record counts it and may add to the log. -/
theorem State.kept_handle (m : Message) :
    State.Kept { s with marshalCalls := s.marshalCalls + 1, log := (s.handle c m).log }
      (s.handle c m) := by
  have hmarshaled {t : State ω} {bytes : Bytes}
      (hk : State.Kept { s with
        marshalCalls := s.marshalCalls + 1
        log := s.log ++ [.marshaled m bytes] } t) :
      State.Kept { s with marshalCalls := s.marshalCalls + 1, log := t.log } t :=
    { hk with log := rfl }
  cases hm : c.marshal (s.marshalCalls + 1) m with
  | error e =>
    rw [State.handle_error hm]
    constructor <;> rfl
  | ok bytes =>
    by_cases hfull : s.Full c bytes
    · rw [State.handle_full hm hfull]
      exact hmarshaled (State.kept_handOut (.append bytes m.ack))
    · rw [State.handle_fits hm hfull]
      exact hmarshaled (State.kept_store bytes m.ack)

theorem State.toward_handOut (next : Next) : (s.handOut next).phase.Toward next := by
  unfold State.handOut
  split
  next => exact .inr (.inl rfl)
  next => exact .inl rfl

theorem State.toward_proceed (next : Next) : (s.proceed c next).phase.Toward next := by
  cases next with
  | resume => exact .inl rfl
  | append bytes a => exact .inl (State.ending_store bytes a)
  | stop => exact .inr (.inr ⟨rfl, rfl⟩)

theorem State.toward_emit (next : Next) : (s.emit c next).phase.Toward next := by
  unfold State.emit
  split
  next => exact State.toward_proceed next
  next => exact .inr (.inl rfl)

theorem State.kept_write (rest : Bytes) (next : Next) :
    ∃ h : Happening, h.isCall ∧ (s.record h).Kept (s.write c rest next) := by
  unfold State.write
  split
  next => exact ⟨.tookNone, rfl, by constructor <;> rfl⟩
  next => exact ⟨.tookNone, rfl, by constructor <;> rfl⟩
  next => exact ⟨.tookNone, rfl, by constructor <;> rfl⟩
  next => exact ⟨.tookNone, rfl, by constructor <;> rfl⟩
  next count w _ _ =>
    split
    next => exact ⟨.tookNone, rfl, by constructor <;> rfl⟩
    next =>
      refine ⟨.wrote (rest.take count), rfl, ?_⟩
      split <;> constructor <;> rfl

theorem State.kept_sync (next : Next) :
    ∃ h : Happening, h.isCall ∧ (s.record h).Kept (s.sync c next) := by
  unfold State.sync
  split
  next => exact ⟨.flushed false, rfl, by constructor <;> rfl⟩
  next => exact ⟨.flushed false, rfl, by constructor <;> rfl⟩
  next =>
    exact ⟨.flushed true, rfl, .trans (by constructor <;> rfl) (State.kept_emit next)⟩

theorem State.toward_write (rest : Bytes) {next : Next} (hp : s.phase.next? = some next) :
    (s.write c rest next).phase.Toward next := by
  unfold State.write
  split
  next => exact .inl rfl
  next => exact .inl rfl
  next => exact .inr (.inl hp)
  next => exact .inl rfl
  next =>
    split
    next => exact .inl rfl
    next => split <;> exact .inr (.inl rfl)

theorem State.toward_sync (next : Next) : (s.sync c next).phase.Toward next := by
  unfold State.sync
  split
  next => exact .inl rfl
  next => exact .inl rfl
  next => exact State.toward_emit next

/-! ## Taking in -/

theorem recordsIn_concat_of_isCall {log : List Happening} {h : Happening} (hc : h.isCall) :
    recordsIn (log ++ [h]) = recordsIn log := by
  cases h <;> simp [Happening.isCall] at hc ⊢

theorem takenIn_concat_of_isCall {log : List Happening} {h : Happening} (hc : h.isCall) :
    takenIn (log ++ [h]) = takenIn log := by
  cases h <;> simp [Happening.isCall] at hc ⊢

theorem acceptedIn_concat_of_isCall {log : List Happening} {h : Happening} (hc : h.isCall) :
    acceptedIn (log ++ [h]) = acceptedIn log := by
  cases h <;> simp [Happening.isCall] at hc ⊢

theorem Intake.of_kept (h : Intake c s) (hk : s.Kept t)
    (hw : t.phase.working → s.phase.working) : Intake c t where
  accepted := by rw [hk.log, hk.queue, h.accepted]
  calls := by rw [hk.log, hk.marshalCalls, h.calls]
  made := by rw [hk.log]; exact h.made
  marshaled := by rw [hk.log]; exact h.marshaled
  complete := by rw [hk.log]; exact fun ht => h.complete (hw ht)

/-- Only what enters the queue, leaves it or becomes a record counts. -/
theorem Intake.concat (h : Intake c s) {x : Happening}
    (ha : acceptedIn (s.log ++ [x]) = acceptedIn s.log)
    (ht : takenIn (s.log ++ [x]) = takenIn s.log)
    (hr : recordsIn (s.log ++ [x]) = recordsIn s.log) : Intake c (s.record x) where
  accepted := ha.trans (by rw [h.accepted]; exact congrArg (· ++ s.queue) ht.symm)
  calls := h.calls.trans (congrArg List.length ht.symm)
  made := fun i m bytes hi => h.made i m bytes (hr ▸ hi)
  marshaled := by simpa only [State.record, ht, hr] using h.marshaled
  complete := by simpa only [State.record, ht, hr] using h.complete

/-- The next message of the queue is taken and becomes a record. -/
theorem Intake.marshal {m : Message} {rest : List Message} {bytes : Bytes} (h : Intake c s)
    (hcomplete : (recordsIn s.log).map Prod.fst = takenIn s.log) (hq : s.queue = m :: rest)
    (hm : c.marshal (s.marshalCalls + 1) m = .ok bytes) :
    Intake c
      { s with
        queue := rest
        marshalCalls := s.marshalCalls + 1
        log := s.log ++ [.taken m] ++ [.marshaled m bytes] } where
  accepted := by
    rw [acceptedIn_concat, acceptedIn_concat, takenIn_concat, takenIn_concat, h.accepted, hq]
    simp
  calls := by
    rw [takenIn_concat, takenIn_concat]
    simp [h.calls]
  made := by
    intro i m' bytes' hi
    have hlength : (recordsIn s.log).length = s.marshalCalls := by
      rw [h.calls, ← hcomplete, List.length_map]
    simp only [recordsIn_concat, List.append_nil] at hi
    rcases Nat.lt_trichotomy i (recordsIn s.log).length with hlt | rfl | hgt
    · rw [List.getElem?_append_left hlt] at hi
      exact h.made i m' bytes' hi
    · simp only [List.getElem?_concat_length, Option.some.injEq, Prod.mk.injEq] at hi
      rw [hlength, ← hi.1, ← hi.2]
      exact hm
    · rw [List.getElem?_eq_none (by simp; omega)] at hi
      cases hi
  marshaled := by
    rw [recordsIn_concat, recordsIn_concat, takenIn_concat, takenIn_concat]
    simp [hcomplete]
  complete := by
    rw [recordsIn_concat, recordsIn_concat, takenIn_concat, takenIn_concat]
    simp [hcomplete]

theorem Intake.take (h : Intake c s) (ht : s.take c = some t) : Intake c t := by
  unfold State.take at ht
  split at ht
  next m rest hp hq =>
    cases ht
    have hcomplete := h.complete (by rw [hp]; rfl)
    have haccepted : acceptedIn s.log = takenIn s.log ++ m :: rest := by rw [← hq, h.accepted]
    cases hm : c.marshal (s.marshalCalls + 1) m with
    | error e =>
      rw [State.handle_error (by exact hm)]
      exact
        { accepted := by simp [State.record, haccepted]
          calls := by simp [State.record, h.calls]
          made := by simpa [State.record] using h.made
          marshaled := by simp [State.record, hcomplete]
          complete := by simp [Phase.working] }
    | ok bytes =>
      -- whether the record fits or not, the log and the queue come to the same
      have hafter := h.marshal hcomplete hq hm
      by_cases hfull : State.Full c ({ s with queue := rest }.record (.taken m)) bytes
      · rw [State.handle_full (by exact hm) hfull]
        exact hafter.of_kept (State.kept_handOut _) (fun _ => by simp [hp, Phase.working])
      · rw [State.handle_fits (by exact hm) hfull]
        exact hafter.of_kept (State.kept_store bytes m.ack) (fun _ => by simp [hp, Phase.working])
  next => cases ht

theorem Intake.windUp (h : Intake c s) (ht : s.windUp c = some t) : Intake c t := by
  unfold State.windUp at ht
  split at ht
  next hp =>
    have hw : s.phase.working := by rw [hp]; rfl
    split at ht
    next =>
      split at ht
      next => cases ht
      next =>
        split at ht
        next => cases ht; exact h.of_kept (State.kept_handOut _) (fun _ => hw)
        next => cases ht; exact h.of_kept (State.kept_emit _) (fun _ => hw)
    next =>
      split at ht
      next =>
        cases ht
        exact ⟨h.accepted, h.calls, h.made, h.marshaled, h.complete⟩
      next => cases ht
  next => cases ht

theorem Intake.work (h : Intake c s) (ht : s.work c = some t) : Intake c t := by
  have hcall {x : Happening} {t : State ω} (hx : x.isCall) (hk : (s.record x).Kept t)
      (hw : s.phase.working) : Intake c t :=
    (h.concat (acceptedIn_concat_of_isCall hx) (takenIn_concat_of_isCall hx)
      (recordsIn_concat_of_isCall hx)).of_kept hk (fun _ => hw)
  unfold State.work at ht
  split at ht
  next => cases ht
  next => cases ht
  next rest next hp =>
    cases ht
    obtain ⟨x, hx, hk⟩ := State.kept_write (c := c) (s := s) rest next
    exact hcall hx hk (by rw [hp]; rfl)
  next next hp =>
    cases ht
    obtain ⟨x, hx, hk⟩ := State.kept_sync (c := c) (s := s) next
    exact hcall hx hk (by rw [hp]; rfl)
  next a next hp =>
    have hw : s.phase.working := by rw [hp]; rfl
    unfold State.send at ht
    split at ht
    next =>
      cases ht
      exact (h.concat (by simp) (by simp) (by simp)).of_kept (State.kept_proceed next) (fun _ => hw)
    next =>
      split at ht
      next => cases ht
      next =>
        cases ht
        have hsent := h.concat (x := .emitted a) (by simp) (by simp) (by simp)
        have hslot : Intake c ({ s with ack := some a }.record (.emitted a)) :=
          ⟨hsent.accepted, hsent.calls, hsent.made, hsent.marshaled, hsent.complete⟩
        exact hslot.of_kept (State.kept_proceed next) (fun _ => hw)
  next e hp =>
    cases ht
    exact ⟨h.accepted, h.calls, h.made, h.marshaled, by simp [Phase.working]⟩
  next e hp =>
    cases ht
    have hfailed := h.concat (x := .failed e) (by simp) (by simp) (by simp)
    exact ⟨hfailed.accepted, hfailed.calls, hfailed.made, hfailed.marshaled,
      by simp [State.report, Phase.working]⟩

theorem Intake.offer {m : Message} (h : Intake c s) (ht : s.offer c m = some t) : Intake c t := by
  unfold State.offer at ht
  split at ht
  next =>
    cases ht
    exact
      { accepted := by simp [State.record, h.accepted]
        calls := by simp [State.record, h.calls]
        made := by simpa [State.record] using h.made
        marshaled := by simpa [State.record] using h.marshaled
        complete := by simpa [State.record] using h.complete }
  next => cases ht

theorem Intake.move (h : Intake c s) (ht : Move c s t) : Intake c t := by
  cases ht with
  | take ht => exact h.take ht
  | windUp ht => exact h.windUp ht
  | work ht => exact h.work ht
  | offer m ht => exact h.offer ht
  | takeAck ht | takeError ht =>
    obtain ⟨a, -, he⟩ := Option.map_eq_some_iff.1 ht
    cases he
    exact ⟨h.accepted, h.calls, h.made, h.marshaled, h.complete⟩
  | askStop | releaseInput | muteAcks | muteErrors =>
    exact ⟨h.accepted, h.calls, h.made, h.marshaled, h.complete⟩

theorem State.Reachable.intake {writer : ω} (h : s.Reachable c writer) : Intake c s := by
  induction h with
  | initial => exact ⟨rfl, rfl, by simp [State.initial, recordsIn], List.prefix_refl _,
      fun _ => rfl⟩
  | move _ ht ih => exact ih.move ht

/-- Nothing comes of nothing. -/
theorem Intake.nothing (h : Intake c s) (ha : acceptedIn s.log = []) :
    s.queue = [] ∧ recordsIn s.log = [] := by
  rw [h.accepted] at ha
  obtain ⟨htaken, hqueue⟩ := List.append_eq_nil_iff.1 ha
  have hmarshaled := h.marshaled
  rw [htaken] at hmarshaled
  exact ⟨hqueue, List.map_eq_nil_iff.1 (List.prefix_nil.1 hmarshaled)⟩

/-! ## Winding up -/

theorem WindingUp.of_not_ending (hd : s.draining → s.inputOpen = false)
    (hp : s.phase.ending = false) : WindingUp s where
  draining := hd
  stopping := by
    intro hstop
    cases hs : s.phase <;> simp_all [Phase.next?, Phase.ending]
  reporting := by
    intro e he
    rw [he] at hp
    cases hp
  stopped := by
    intro he
    rw [he] at hp
    cases hp

/-- On the way to what comes next the input stays as it is; only with a closed input and an empty
queue may that be to stop. -/
theorem WindingUp.toward {next : Next} (h : WindingUp s)
    (hnext : next = .stop → s.draining ∧ s.queue = [])
    (hdone : (recordsIn t.log).map Prod.fst = takenIn t.log) (hd : t.draining = s.draining)
    (hi : t.inputOpen = s.inputOpen) (hq : t.queue = s.queue) (hp : t.phase.Toward next) :
    WindingUp t := by
  have hclosed : t.draining → t.inputOpen = false := by rw [hd, hi]; exact h.draining
  rcases hp with hp | hp | ⟨rfl, hp⟩
  · exact .of_not_ending hclosed hp
  · refine ⟨hclosed, ?_, ?_, ?_⟩
    · intro hstop
      rw [hp] at hstop
      rw [hd, hq]
      exact hnext (Option.some.inj hstop)
    · intro e he
      rw [he] at hp
      cases hp
    · intro he
      rw [he] at hp
      cases hp
  · obtain ⟨hdrain, hqueue⟩ := hnext rfl
    refine ⟨hclosed, ?_, ?_, fun _ => ?_⟩
    · intro hstop
      rw [hp] at hstop
      cases hstop
    · intro e he
      rw [hp] at he
      cases he
    · rw [hi, hq]
      exact ⟨h.draining hdrain, .inr ⟨hdone, hqueue⟩⟩

theorem WindingUp.take (h : WindingUp s) (ht : s.take c = some t) : WindingUp t := by
  unfold State.take at ht
  split at ht
  next m rest hp hq =>
    cases ht
    refine .of_not_ending ?_ (State.ending_handle m)
    have hk := State.kept_handle (c := c)
      (s := State.record { s with queue := rest } (.taken m)) m
    rw [hk.draining, hk.inputOpen]
    exact h.draining
  next => cases ht

theorem WindingUp.windUp (h : WindingUp s) (hin : Intake c s) (ht : s.windUp c = some t) :
    WindingUp t := by
  unfold State.windUp at ht
  split at ht
  next hp =>
    have hdone := hin.complete (by rw [hp]; rfl)
    split at ht
    next hdrain =>
      split at ht
      next => cases ht
      next hqueue =>
        have hnext : Next.stop = .stop → s.draining ∧ s.queue = [] :=
          fun _ => ⟨hdrain, Decidable.not_not.1 hqueue⟩
        split at ht
        next =>
          cases ht
          have hk := State.kept_handOut (s := s) .stop
          exact h.toward hnext (by rw [hk.log]; exact hdone) hk.draining hk.inputOpen hk.queue
            (State.toward_handOut .stop)
        next =>
          cases ht
          have hk := State.kept_emit (c := c) (s := s) .stop
          exact h.toward hnext (by rw [hk.log]; exact hdone) hk.draining hk.inputOpen hk.queue
            (State.toward_emit .stop)
    next =>
      split at ht
      next =>
        cases ht
        exact .of_not_ending (fun _ => rfl) (by rw [hp]; rfl)
      next => cases ht
  next => cases ht

theorem WindingUp.work (h : WindingUp s) (hin : Intake c s) (ht : s.work c = some t) :
    WindingUp t := by
  have hcall {x : Happening} {t : State ω} {next : Next} (hn : s.phase.next? = some next)
      (hr : recordsIn (s.log ++ [x]) = recordsIn s.log)
      (hx : takenIn (s.log ++ [x]) = takenIn s.log)
      (hk : (s.record x).Kept t) (hp : t.phase.Toward next) : WindingUp t := by
    refine h.toward ?_ ?_ hk.draining hk.inputOpen hk.queue hp
    · rintro rfl
      exact h.stopping hn
    · rw [hk.log]
      refine (congrArg _ hr).trans ((hin.complete ?_).trans hx.symm)
      cases hs : s.phase <;> simp_all [Phase.next?, Phase.working]
  unfold State.work at ht
  split at ht
  next => cases ht
  next => cases ht
  next rest next hp =>
    cases ht
    have hn : s.phase.next? = some next := by rw [hp]; rfl
    obtain ⟨x, hx, hk⟩ := State.kept_write (c := c) (s := s) rest next
    exact hcall hn (recordsIn_concat_of_isCall hx) (takenIn_concat_of_isCall hx) hk
      (State.toward_write rest hn)
  next next hp =>
    cases ht
    obtain ⟨x, hx, hk⟩ := State.kept_sync (c := c) (s := s) next
    exact hcall (by rw [hp]; rfl) (recordsIn_concat_of_isCall hx) (takenIn_concat_of_isCall hx) hk
      (State.toward_sync next)
  next a next hp =>
    have hn : s.phase.next? = some next := by rw [hp]; rfl
    unfold State.send at ht
    split at ht
    next =>
      cases ht
      exact hcall hn (by simp) (by simp) (State.kept_proceed next) (State.toward_proceed next)
    next =>
      split at ht
      next => cases ht
      next =>
        cases ht
        obtain ⟨h1, h2, h3, h4, -⟩ := State.kept_proceed (c := c)
          (s := { s with ack := some a }.record (.emitted a)) next
        refine h.toward ?_ ?_ h4 h3 h2 (State.toward_proceed next)
        · rintro rfl
          exact h.stopping hn
        · rw [h1]
          simpa [State.record] using hin.complete (by rw [hp]; rfl)
  next e hp =>
    cases ht
    exact ⟨fun _ => rfl, by simp [Phase.next?], fun _ _ => rfl, by simp⟩
  next e hp =>
    cases ht
    have hclosed := h.reporting e hp
    exact ⟨fun _ => hclosed, by simp [State.report, Phase.next?], by simp [State.report],
      fun _ => ⟨hclosed, .inl ⟨e, by simp [State.report, State.record]⟩⟩⟩

theorem WindingUp.offer {m : Message} (h : WindingUp s) (ht : s.offer c m = some t) :
    WindingUp t := by
  unfold State.offer at ht
  split at ht
  next hopen =>
    cases ht
    have hopen : s.inputOpen := (Bool.and_eq_true_iff.1 hopen).1
    -- a sink whose input is open is not about to stop
    have hno {p : Prop} (hc : s.inputOpen = false) : p := by simp [hc] at hopen
    exact ⟨h.draining, fun hs => hno (h.draining (h.stopping hs).1), h.reporting,
      fun hs => hno (h.stopped hs).1⟩
  next => cases ht

theorem WindingUp.move (h : WindingUp s) (hin : Intake c s) (ht : Move c s t) : WindingUp t := by
  cases ht with
  | take ht => exact h.take ht
  | windUp ht => exact h.windUp hin ht
  | work ht => exact h.work hin ht
  | offer m ht => exact h.offer ht
  | takeAck ht | takeError ht =>
    obtain ⟨a, -, he⟩ := Option.map_eq_some_iff.1 ht
    cases he
    exact ⟨h.draining, h.stopping, h.reporting, h.stopped⟩
  | askStop | releaseInput | muteAcks | muteErrors =>
    exact ⟨h.draining, h.stopping, h.reporting, h.stopped⟩

theorem State.Reachable.windingUp {writer : ω} (h : s.Reachable c writer) : WindingUp s := by
  induction h with
  | initial => exact .of_not_ending (fun h => nomatch h) rfl
  | move hs ht ih => exact ih.move hs.intake ht

end EventPipeline.Sink
