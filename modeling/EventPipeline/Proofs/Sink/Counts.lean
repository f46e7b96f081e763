import EventPipeline.Proofs.Sink.WholeWrites
/-!
# The counters of a sink

A sink counts a flush, its bytes and its duration when the writer is done with it, and an
acknowledgment when it is about to send it on. Where no record is empty, each flush is followed by
an acknowledgment, so the counters agree with each other and with the log (`State.Ledger`), but for
the one acknowledgment that may be on its way.
-/
namespace EventPipeline.Sink

variable {ω : Type} {c : Setup ω} {writer : ω} {s t : State ω} {log : List Happening}

/-! ## Bytes that are acknowledged -/

/-- Whether something is not the sending on of an acknowledgment. -/
def Happening.silent (h : Happening) : Bool := h.ack?.isNone

/-- The log up to the acknowledgment sent on last. -/
def untilAck (log : List Happening) : List Happening :=
  (log.reverse.dropWhile Happening.silent).reverse

/-- The bytes the writer had taken when the last acknowledgment was sent on. -/
def ackedIn (log : List Happening) : Bytes := writtenIn (untilAck log)

theorem ackedIn_concat_of_ack {h : Happening} (hack : h.ack?.isSome) :
    ackedIn (log ++ [h]) = writtenIn log := by
  have hnot : ¬h.silent := by simpa [Happening.silent, Option.isSome_iff_ne_none] using hack
  have huntil : untilAck (log ++ [h]) = log ++ [h] := by
    rw [untilAck, List.reverse_append, List.reverse_singleton, List.singleton_append,
      List.dropWhile_cons_of_neg hnot, List.reverse_cons, List.reverse_reverse]
  rw [ackedIn, huntil, writtenIn_concat]
  cases h with
  | emitted | unheard => exact List.append_nil _
  | _ => exact absurd hack (by simp [Happening.ack?])

theorem ackedIn_concat {h : Happening} (hack : h.ack? = none) :
    ackedIn (log ++ [h]) = ackedIn log := by
  have hsilent : h.silent := by simp [Happening.silent, hack]
  rw [ackedIn, ackedIn, untilAck, List.reverse_append, List.reverse_singleton,
    List.singleton_append, List.dropWhile_cons_of_pos hsilent]
  rfl

/-- If every acknowledgment was sent on when the records up to the end of its segment were written,
the bytes acknowledged are those of the segments. -/
theorem ackedIn_eq {segments : List Segment} (hlen : (acksIn log).length = segments.length)
    (hem : ∀ before h after, log = before ++ h :: after → h.ack?.isSome →
      writtenIn before = Segment.bytes (segments.take ((acksIn before).length + 1)).flatten) :
    ackedIn log = Segment.bytes segments.flatten := by
  -- from the end of the log back to the acknowledgment sent on last
  generalize hn : log.length = n
  induction n generalizing log with
  | zero =>
    obtain rfl := List.eq_nil_of_length_eq_zero hn
    obtain rfl := List.eq_nil_of_length_eq_zero hlen.symm
    rfl
  | succ n ih =>
    rcases List.eq_nil_or_concat log with rfl | ⟨init, h, rfl⟩
    · cases hn
    · rw [List.concat_eq_append] at hlen hem hn ⊢
      rw [acksIn_concat] at hlen
      by_cases hack : h.ack?.isSome
      · obtain ⟨a, ha⟩ := Option.isSome_iff_exists.1 hack
        rw [ha, Option.toList_some, List.length_append, List.length_singleton] at hlen
        rw [ackedIn_concat_of_ack hack, hem init h [] rfl hack, hlen, List.take_length]
      · have hnone : h.ack? = none := Option.not_isSome_iff_eq_none.1 hack
        rw [hnone, Option.toList_none, List.append_nil] at hlen
        rw [ackedIn_concat hnone]
        refine ih hlen (fun before k after hsplit => hem before k (after ++ [h]) ?_) ?_
        · rw [hsplit, List.append_assoc, List.cons_append]
        · simpa using hn

theorem Accounted.ackedIn {sent : List Segment} {rest : Segment} (ha : Accounted log sent rest) :
    ackedIn log = Segment.bytes sent.flatten :=
  ackedIn_eq ha.length_acks fun before h after hl hh => (ha.emissions before h after hl hh).1

theorem Segmented.ackedIn {segments : List Segment} (h : Segmented c s segments) :
    ackedIn s.log = Segment.bytes segments.flatten := by
  have hlen := congrArg List.length h.acks
  rw [List.length_map, List.length_map] at hlen
  exact ackedIn_eq hlen fun before x after hl hx => (h.emissions before x after hl hx).1

/-! ## What is counted -/

/-- Whether an acknowledgment is on its way. -/
def Phase.emitting : Phase → Bool
  | .acking _ _ => true
  | _ => false

/-- The counters agree with each other and with the log. An acknowledgment on its way is counted,
and so are the bytes it is for. -/
structure State.Ledger (s : State ω) : Prop where
  flushes : s.counts.flushes = s.log.count (.flushed true)
  timed : s.counts.flushesTimed = s.counts.flushes
  acks : s.counts.acksEmitted = s.counts.flushes
  sent : s.counts.acksEmitted = (acksIn s.log).length + if s.phase.emitting then 1 else 0
  bytes : s.counts.bytesWritten =
    (if s.phase.emitting then writtenIn s.log else ackedIn s.log).length

/-! ## The parts of a move -/

/-- The sink goes on without counting anything, and no acknowledgment is on its way. -/
structure State.Uncounted (s t : State ω) : Prop where
  counts : t.counts = s.counts
  log : t.log = s.log
  emitting : t.phase.emitting = false

theorem State.Uncounted.of_same {u : State ω} (h : u.Uncounted t) (hc : u.counts = s.counts)
    (hl : u.log = s.log) : s.Uncounted t :=
  ⟨h.counts.trans hc, h.log.trans hl, h.emitting⟩

theorem State.uncounted_handOut (next : Next) : s.Uncounted (s.handOut next) := by
  unfold State.handOut
  split <;> exact ⟨rfl, rfl, rfl⟩

theorem State.uncounted_store (bytes : Bytes) (a : Ack) : s.Uncounted (s.store c bytes a) := by
  unfold State.store
  dsimp only
  split
  next => exact .of_same (State.uncounted_handOut .resume) rfl rfl
  next => exact ⟨rfl, rfl, rfl⟩

theorem State.uncounted_proceed (next : Next) : s.Uncounted (s.proceed c next) := by
  cases next with
  | append bytes a => exact State.uncounted_store bytes a
  | _ => exact ⟨rfl, rfl, rfl⟩

/-- Nothing is pending when the buffer is empty and every record has bytes. -/
theorem State.Reachable.pending_none (hs : s.Reachable c writer) (hr : c.WritesRecords)
    (hp : s.phase = .receiving) (hbuf : s.buffer = []) : s.pending = none := by
  obtain ⟨sent, held, extra, hacc, hstage⟩ := hs.progress
  rw [State.Stage, hp] at hstage
  obtain ⟨-, rfl, ⟨hbuffer, hpend⟩, -⟩ := hstage
  have hheld : held = [] := by
    refine Decidable.not_not.1 fun hne => ?_
    refine Segment.bytes_ne_nil hne (fun e he => hs.record_ne_nil hr e ?_) (hbuffer.symm.trans hbuf)
    rw [hacc.records]
    simp [he]
  rw [hpend, hheld]
  rfl

namespace State.Ledger

/-- The ledger is about the counters, the log, and whether an acknowledgment is on its way. -/
theorem of_same (h : s.Ledger) (hc : t.counts = s.counts) (hl : t.log = s.log)
    (hp : t.phase.emitting = s.phase.emitting) : t.Ledger := by
  obtain ⟨h1, h2, h3, h4, h5⟩ := h
  constructor <;> simp only [hc, hl, hp] <;> assumption

theorem of_uncounted (h : s.Ledger) (hp : s.phase.emitting = false) (ht : s.Uncounted t) :
    t.Ledger :=
  h.of_same ht.counts ht.log (ht.emitting.trans hp.symm)

/-- What is neither a flush nor an acknowledgment is not counted. -/
theorem record {x : Happening} (h : s.Ledger) (hflush : x ≠ .flushed true) (hack : x.ack? = none)
    (hw : s.phase.emitting → writtenIn (s.log ++ [x]) = writtenIn s.log) :
    (s.record x).Ledger := by
  have hone : [x].count (.flushed true) = 0 :=
    List.count_eq_zero_of_not_mem fun hmem => hflush (List.mem_singleton.1 hmem).symm
  have hcount : (s.log ++ [x]).count (.flushed true) = s.log.count (.flushed true) := by
    rw [List.count_append, hone, Nat.add_zero]
  have hacks : acksIn (s.log ++ [x]) = acksIn s.log := by
    rw [acksIn_concat, hack, Option.toList_none, List.append_nil]
  refine ⟨h.flushes.trans hcount.symm, h.timed, h.acks, ?_, ?_⟩
  · exact h.sent.trans (congrArg (fun l => List.length l + _) hacks.symm)
  · refine h.bytes.trans (congrArg List.length ?_)
    show _ = if s.phase.emitting then writtenIn (s.log ++ [x]) else ackedIn (s.log ++ [x])
    by_cases hp : s.phase.emitting
    · rw [if_pos hp, if_pos hp, hw hp]
    · rw [if_neg hp, if_neg hp, ackedIn_concat hack]

/-- A sink that is not sending on an acknowledgment records something that is not counted. -/
theorem record_idle {x : Happening} (h : s.Ledger) (hp : s.phase.emitting = false)
    (hflush : x ≠ .flushed true) (hack : x.ack? = none) : (s.record x).Ledger :=
  h.record hflush hack fun hp' => absurd hp' (by simp [hp])

theorem handle (h : s.Ledger) (hp : s.phase.emitting = false) (m : Message) :
    (s.handle c m).Ledger := by
  cases hm : c.marshal (s.marshalCalls + 1) m with
  | error e =>
    rw [State.handle_error hm]
    exact h.of_same rfl rfl hp.symm
  | ok bytes =>
    have hrecord := h.record_idle (x := .marshaled m bytes) hp (by simp) rfl
    by_cases hfull : s.Full c bytes
    · rw [State.handle_full hm hfull]
      exact hrecord.of_uncounted hp (.of_same (State.uncounted_handOut _) rfl rfl)
    · rw [State.handle_fits hm hfull]
      exact hrecord.of_uncounted hp (.of_same (State.uncounted_store _ _) rfl rfl)

/-! ## Moves -/

theorem take (h : s.Ledger) (ht : s.take c = some t) : t.Ledger := by
  unfold State.take at ht
  split at ht
  next m rest hp hq =>
    cases ht
    have hidle : s.phase.emitting = false := by rw [hp]; rfl
    have hrest : Ledger { s with queue := rest } := h.of_same rfl rfl rfl
    exact (hrest.record_idle (x := .taken m) hidle (by simp) rfl).handle hidle m
  next => cases ht

theorem windUp (h : s.Ledger) (hs : s.Reachable c writer) (hr : c.WritesRecords)
    (ht : s.windUp c = some t) : t.Ledger := by
  unfold State.windUp at ht
  split at ht
  next hp =>
    have hidle : s.phase.emitting = false := by rw [hp]; rfl
    split at ht
    next =>
      split at ht
      next => cases ht
      next =>
        split at ht
        next =>
          cases ht
          exact h.of_uncounted hidle (State.uncounted_handOut .stop)
        next hbuf =>
          cases ht
          have hnone := hs.pending_none hr hp (Decidable.not_not.1 hbuf)
          simp only [State.emit, hnone]
          exact h.of_uncounted hidle (State.uncounted_proceed .stop)
    next =>
      split at ht
      next => cases ht; exact h.of_same rfl rfl rfl
      next => cases ht
  next => cases ht

theorem write (h : s.Ledger) {rest : Bytes} {next : Next} (hp : s.phase = .writing rest next) :
    (s.write c rest next).Ledger := by
  have hidle : s.phase.emitting = false := by rw [hp]; rfl
  have hnone := h.record_idle (x := .tookNone) hidle (by simp) rfl
  unfold State.write
  split
  next => exact hnone.of_same rfl rfl hidle.symm
  next => exact hnone.of_same rfl rfl hidle.symm
  next => exact hnone.of_same rfl rfl rfl
  next => exact hnone.of_same rfl rfl hidle.symm
  next count w _ _ =>
    split
    next => exact hnone.of_same rfl rfl hidle.symm
    next =>
      have hwrote := h.record_idle (x := .wrote (rest.take count)) hidle (by simp) rfl
      split <;> exact hwrote.of_same rfl rfl hidle.symm

/-- A flush that succeeds is counted together with the acknowledgment that follows it. -/
theorem sync (h : s.Ledger) (hs : s.Reachable c writer) {next : Next}
    (hp : s.phase = .syncing next) : (s.sync c next).Ledger := by
  have hidle : s.phase.emitting = false := by rw [hp]; rfl
  have hfailed := h.record_idle (x := .flushed false) hidle (by simp) rfl
  unfold State.sync
  split
  next => exact hfailed.of_same rfl rfl hidle.symm
  next => exact hfailed.of_same rfl rfl hidle.symm
  next =>
    obtain ⟨sent, held, extra, hacc, hstage⟩ := hs.progress
    rw [State.Stage, hp] at hstage
    obtain ⟨-, hne, ⟨hbuffer, hpend⟩, hw⟩ := hstage
    obtain ⟨a, ha⟩ := Option.ne_none_iff_exists'.1 fun hnone => hne (Segment.ack?_eq_none.1 hnone)
    have hsome : s.pending = some a := hpend.trans ha
    obtain ⟨h1, h2, h3, h4, h5⟩ := h
    rw [hidle] at h4 h5
    simp only [State.emit, State.record, hsome]
    refine ⟨?_, ?_, ?_, ?_, ?_⟩
    · simp [h1]
    · simp [h2]
    · simp [h3]
    · simp [Phase.emitting, h4, Happening.ack?]
    · simp [Phase.emitting, h5, hw, hacc.ackedIn, hbuffer]

/-- The acknowledgment that was on its way is in the log now, whether it was heard or not. -/
theorem sends {a : Ack} {x : Happening} (h : s.Ledger) (hp : s.phase.emitting)
    (hx : x.ack? = some a) (ht : (s.record x).Uncounted t) : t.Ledger := by
  have hone : [x].count (.flushed true) = 0 := by
    cases x with
    | emitted | unheard => rfl
    | _ => cases hx
  have hacks : acksIn (s.log ++ [x]) = acksIn s.log ++ [a] := by
    rw [acksIn_concat, hx, Option.toList_some]
  have hacked : ackedIn (s.log ++ [x]) = writtenIn s.log :=
    ackedIn_concat_of_ack (Option.isSome_iff_exists.2 ⟨a, hx⟩)
  have hlog : t.log = s.log ++ [x] := ht.log
  have hcounts : t.counts = s.counts := ht.counts
  have hnot : ¬t.phase.emitting := by simp [ht.emitting]
  have hsent := h.sent
  have hbytes := h.bytes
  rw [if_pos hp] at hsent hbytes
  refine ⟨?_, ?_, ?_, ?_, ?_⟩
  · rw [hcounts, hlog, List.count_append, hone, Nat.add_zero, h.flushes]
  · rw [hcounts, h.timed]
  · rw [hcounts, h.acks]
  · rw [hcounts, hlog, if_neg hnot, hacks, List.length_append, List.length_singleton, hsent]
  · rw [hcounts, hlog, if_neg hnot, hacked, hbytes]

theorem send (h : s.Ledger) {a : Ack} {next : Next} (hp : s.phase = .acking a next)
    (ht : s.send c a next = some t) : t.Ledger := by
  have hemitting : s.phase.emitting := by rw [hp]; rfl
  unfold State.send at ht
  split at ht
  next =>
    cases ht
    exact h.sends (x := .unheard a) hemitting rfl (State.uncounted_proceed next)
  next =>
    split at ht
    next => cases ht
    next =>
      cases ht
      exact h.sends (x := .emitted a) hemitting rfl
        (.of_same (State.uncounted_proceed next) rfl rfl)

theorem work (h : s.Ledger) (hs : s.Reachable c writer) (ht : s.work c = some t) : t.Ledger := by
  unfold State.work at ht
  split at ht
  next => cases ht
  next => cases ht
  next hp => cases ht; exact h.write hp
  next hp => cases ht; exact h.sync hs hp
  next hp => exact h.send hp ht
  next hp => cases ht; exact h.of_same rfl rfl (by rw [hp]; rfl)
  next e hp =>
    cases ht
    have hidle : s.phase.emitting = false := by rw [hp]; rfl
    exact (h.record_idle (x := .failed e) hidle (by simp) rfl).of_same rfl rfl hidle.symm

theorem offer {m : Message} (h : s.Ledger) (ht : s.offer c m = some t) : t.Ledger := by
  unfold State.offer at ht
  split at ht
  next =>
    cases ht
    have hqueue : Ledger { s with queue := s.queue ++ [m] } := h.of_same rfl rfl rfl
    exact hqueue.record (x := .accepted m) (by simp) rfl fun _ => by simp
  next => cases ht

theorem move (h : s.Ledger) (hs : s.Reachable c writer) (hr : c.WritesRecords) (ht : Move c s t) :
    t.Ledger := by
  cases ht with
  | take ht => exact h.take ht
  | windUp ht => exact h.windUp hs hr ht
  | work ht => exact h.work hs ht
  | offer _ ht => exact h.offer ht
  | takeAck ht | takeError ht =>
    obtain ⟨x, -, he⟩ := Option.map_eq_some_iff.1 ht
    cases he
    exact h.of_same rfl rfl rfl
  | askStop | releaseInput | muteAcks | muteErrors => exact h.of_same rfl rfl rfl

end State.Ledger

theorem State.Reachable.ledger (h : s.Reachable c writer) (hr : c.WritesRecords) : s.Ledger := by
  induction h with
  | initial => exact ⟨rfl, rfl, rfl, rfl, rfl⟩
  | move hs ht ih => exact ih.move hs hr ht

end EventPipeline.Sink
