import EventPipeline.Proofs.Sink.Failure
import EventPipeline.Proofs.Sink.Segmentation
/-!
# Writers that take whole buffers

A writer may take all it is offered whenever it takes anything (`Writer.TakesWhole`).
Then a sink is never left with the rest of a buffer (`State.Reachable.offersWhole`), and
as every buffer holds whole records, no record is cut in two by the calls of the writer:
each of them takes some of the records made, the next where the last one ended
(`State.Reachable.writes_whole`).
-/
namespace EventPipeline

/-- A writer that takes all it is offered, if it takes anything. -/
def Writer.TakesWhole {ω : Type} (w : Writer ω) : Prop :=
  ∀ s bytes count, (w.write s bytes).1 = .accepted count → count = bytes.length

namespace Sink

variable {ω : Type} {c : Setup ω} {writer : ω} {s t u : State ω} {filed : List Segment}
  {rest : Segment}

/-- Whatever the writer is offered next is the whole buffer. -/
def State.OffersWhole (s : State ω) : Prop :=
  ∀ rest next, s.phase = .writing rest next → rest = s.buffer

/-- Whether the next step of the sink is a call of the writer. -/
def Phase.calling : Phase → Bool
  | .writing _ _ | .syncing _ => true
  | _ => false

theorem State.OffersWhole.of_not_calling (h : s.phase.calling = false) : s.OffersWhole := by
  intro rest next hp
  rw [hp] at h
  cases h

/-! ## The parts of a move -/

theorem State.handOut_calm (next : Next) :
    (s.handOut next).writer = s.writer ∧ (s.handOut next).OffersWhole := by
  by_cases hheld : s.writerHeld
  · rw [State.handOut_of_held hheld]
    refine ⟨rfl, fun rest next' hp => ?_⟩
    cases hp
    rfl
  · rw [State.handOut, if_neg hheld]
    exact ⟨rfl, .of_not_calling rfl⟩

theorem State.store_calm (bytes : Bytes) (a : Ack) :
    (s.store c bytes a).writer = s.writer ∧ (s.store c bytes a).OffersWhole := by
  unfold State.store
  dsimp only
  split
  · exact State.handOut_calm .resume
  · exact ⟨rfl, .of_not_calling rfl⟩

theorem State.proceed_calm (next : Next) :
    (s.proceed c next).writer = s.writer ∧ (s.proceed c next).OffersWhole := by
  cases next with
  | append bytes a => exact State.store_calm bytes a
  | _ => exact ⟨rfl, .of_not_calling rfl⟩

theorem State.emit_calm (next : Next) :
    (s.emit c next).writer = s.writer ∧ (s.emit c next).OffersWhole := by
  unfold State.emit
  split
  · exact State.proceed_calm next
  · exact ⟨rfl, .of_not_calling rfl⟩

/-! ## Moves between two calls -/

theorem State.writes_record {x : Happening} (hx : ∀ bytes, x ≠ .wrote bytes) :
    (s.record x).writes = s.writes := by
  cases x with
  | wrote bytes => exact absurd rfl (hx bytes)
  | _ => simp [State.writes, State.record]

theorem State.writes_record_wrote (bytes : Bytes) :
    (s.record (.wrote bytes)).writes = s.writes ++ [bytes] := by
  simp [State.writes, State.record]

/-- Between two states the writer was not called. -/
structure State.Calm (s t : State ω) : Prop where
  writer : t.writer = s.writer
  writes : t.writes = s.writes
  records : recordsIn s.log <+: recordsIn t.log
  offersWhole : s.OffersWhole → t.OffersWhole
  calling : s.phase.calling → t.phase = s.phase

/-- The sink goes on from a state whose log has more entries, but no more writes. -/
theorem State.Calm.of_kept (hp : s.phase.calling = false) (hk : u.Kept t)
    (hcalm : t.writer = u.writer ∧ t.OffersWhole) (hw : u.writer = s.writer)
    (hwrites : u.writes = s.writes) (hrec : recordsIn s.log <+: recordsIn u.log) : s.Calm t where
  writer := hcalm.1.trans hw
  writes := by rw [State.writes, hk.log, ← hwrites, State.writes]
  records := by rw [hk.log]; exact hrec
  offersWhole := fun _ => hcalm.2
  calling := fun h => by rw [hp] at h; cases h

theorem State.Calm.take (h : s.take c = some t) : s.Calm t := by
  unfold State.take at h
  split at h
  next m more hp hq =>
    cases h
    have hidle : s.phase.calling = false := by rw [hp]; rfl
    cases hm : c.marshal (s.marshalCalls + 1) m with
    | error e =>
      rw [State.handle_error (by exact hm)]
      refine ⟨rfl, writes_record (x := .taken m) (by simp), by simp [record],
        fun _ => .of_not_calling rfl, fun hcalling => ?_⟩
      rw [hidle] at hcalling
      cases hcalling
    | ok bytes =>
      have hwrites : ((s.record (.taken m)).record (.marshaled m bytes)).writes = s.writes :=
        (writes_record (by simp)).trans (writes_record (by simp))
      have hrec : recordsIn s.log <+: recordsIn (s.log ++ [.taken m] ++ [.marshaled m bytes]) := by
        rw [recordsIn_concat, recordsIn_concat, List.append_nil]
        exact List.prefix_append _ _
      by_cases hfull : State.Full c ({ s with queue := more }.record (.taken m)) bytes
      · rw [State.handle_full (by exact hm) hfull]
        exact .of_kept hidle (State.kept_handOut _) (State.handOut_calm _) rfl hwrites hrec
      · rw [State.handle_fits (by exact hm) hfull]
        exact .of_kept hidle (State.kept_store _ _) (State.store_calm _ _) rfl hwrites hrec
  next => cases h

theorem State.Calm.windUp (h : s.windUp c = some t) : s.Calm t := by
  unfold State.windUp at h
  split at h
  next hp =>
    have hidle : s.phase.calling = false := by rw [hp]; rfl
    have hsame := List.prefix_refl (recordsIn s.log)
    split at h
    next =>
      split at h
      next => cases h
      next =>
        split at h
        next =>
          cases h
          exact .of_kept hidle (State.kept_handOut _) (State.handOut_calm _) rfl rfl hsame
        next =>
          cases h
          exact .of_kept hidle (State.kept_emit _) (State.emit_calm _) rfl rfl hsame
    next =>
      split at h
      next => cases h; exact ⟨rfl, rfl, hsame, id, fun _ => rfl⟩
      next => cases h
  next => cases h

theorem State.Calm.send {a : Ack} {next : Next} (hp : s.phase = .acking a next)
    (h : s.send c a next = some t) : s.Calm t := by
  have hidle : s.phase.calling = false := by rw [hp]; rfl
  unfold State.send at h
  split at h
  next =>
    cases h
    exact .of_kept hidle (State.kept_proceed _) (State.proceed_calm _) rfl
      (writes_record (x := .unheard a) (by simp)) (by simp [record])
  next =>
    split at h
    next => cases h
    next =>
      cases h
      exact .of_kept hidle (State.kept_proceed _) (State.proceed_calm _) rfl
        (writes_record (x := .emitted a) (by simp)) (by simp [record])

theorem State.Calm.offer {m : Message} (h : s.offer c m = some t) : s.Calm t := by
  unfold State.offer at h
  split at h
  next =>
    cases h
    exact ⟨rfl, writes_record (x := .accepted m) (by simp), by simp [record], id, fun _ => rfl⟩
  next => cases h

/-- A move is a call of the writer, or the writer is left alone. -/
theorem Move.calm_or_call (h : Move c s t) : s.Calm t ∨
    (∃ rest next, s.phase = .writing rest next ∧ t = s.write c rest next) ∨
    ∃ next, s.phase = .syncing next ∧ t = s.sync c next := by
  cases h with
  | take h => exact .inl (.take h)
  | windUp h => exact .inl (.windUp h)
  | work h =>
    unfold State.work at h
    split at h
    next => cases h
    next => cases h
    next rest next hp => cases h; exact .inr (.inl ⟨rest, next, hp, rfl⟩)
    next next hp => cases h; exact .inr (.inr ⟨next, hp, rfl⟩)
    next a next hp => exact .inl (.send hp h)
    next e hp =>
      cases h
      exact .inl ⟨rfl, rfl, List.prefix_refl _, fun _ => .of_not_calling rfl,
        fun hc => by rw [hp] at hc; cases hc⟩
    next e hp =>
      cases h
      exact .inl ⟨rfl, State.writes_record (x := .failed e) (by simp),
        by simp [State.report, State.record], fun _ => .of_not_calling rfl,
        fun hc => by rw [hp] at hc; cases hc⟩
  | offer m h => exact .inl (.offer h)
  | takeAck h | takeError h =>
    obtain ⟨x, -, he⟩ := Option.map_eq_some_iff.1 h
    cases he
    exact .inl ⟨rfl, rfl, List.prefix_refl _, id, fun _ => rfl⟩
  | askStop | releaseInput | muteAcks | muteErrors =>
    exact .inl ⟨rfl, rfl, List.prefix_refl _, id, fun _ => rfl⟩

/-! ## Calls of the writer -/

/-- A writer that takes whole buffers is done with what it is offered, or took nothing of it. -/
theorem State.write_whole (hw : c.writer.TakesWhole) {offered : Bytes} (hne : offered ≠ [])
    (next : Next) :
    (∃ w, c.writer.write s.writer offered = (.accepted offered.length, w) ∧
      s.write c offered next =
        { s with writer := w, phase := .syncing next }.record (.wrote offered)) ∨
    (∀ count, (c.writer.write s.writer offered).1 ≠ .accepted count) ∧
      (s.write c offered next).writer = (c.writer.write s.writer offered).2 ∧
      (s.write c offered next).writes = s.writes ∧
      recordsIn (s.write c offered next).log = recordsIn s.log ∧
      (s.OffersWhole → (s.write c offered next).OffersWhole) := by
  have hnone : (s.record .tookNone).writes = s.writes := State.writes_record (by simp)
  have hrec : recordsIn (s.log ++ [.tookNone]) = recordsIn s.log := by simp
  have hwhole := hw s.writer offered
  unfold State.write
  split
  next w he =>
    rw [he]
    exact .inr ⟨by simp, rfl, hnone, hrec, fun _ => .of_not_calling rfl⟩
  next reason w he =>
    rw [he]
    exact .inr ⟨by simp, rfl, hnone, hrec, fun _ => .of_not_calling rfl⟩
  next w he =>
    rw [he]
    exact .inr ⟨by simp, rfl, hnone, hrec, id⟩
  next w he =>
    rw [he] at hwhole
    exact absurd (List.length_eq_zero_iff.1 (hwhole 0 rfl).symm) hne
  next count w _ he =>
    rw [he] at hwhole
    obtain rfl := hwhole count rfl
    rw [if_neg (Nat.lt_irrefl _), List.drop_length, List.take_length]
    exact .inl ⟨w, he, rfl⟩

theorem State.sync_calm (next : Next) :
    (s.sync c next).writer = (c.writer.flush s.writer).2 ∧ (s.sync c next).writes = s.writes ∧
      recordsIn (s.sync c next).log = recordsIn s.log ∧ (s.sync c next).OffersWhole := by
  have hflushed (b : Bool) : (s.record (.flushed b)).writes = s.writes :=
    State.writes_record (by simp)
  have hrec (b : Bool) : recordsIn (s.log ++ [.flushed b]) = recordsIn s.log := by simp
  unfold State.sync
  split
  next w he =>
    rw [he]
    exact ⟨rfl, hflushed false, hrec false, .of_not_calling rfl⟩
  next reason w he =>
    rw [he]
    exact ⟨rfl, hflushed false, hrec false, .of_not_calling rfl⟩
  next w he =>
    rw [he]
    dsimp only
    generalize hu : State.record _ (.flushed true) = u
    obtain ⟨hwriter, hoffers⟩ := State.emit_calm (c := c) (s := u) next
    have hlog : (u.emit c next).log = s.log ++ [.flushed true] := by
      rw [(State.kept_emit next).log, ← hu]
      rfl
    refine ⟨?_, ?_, ?_, hoffers⟩
    · rw [hwriter, ← hu]
      rfl
    · rw [State.writes, hlog]
      exact hflushed true
    · rw [hlog, hrec]

theorem State.Reachable.offered_ne_nil (h : s.Reachable c writer) {offered : Bytes} {next : Next}
    (hp : s.phase = .writing offered next) : offered ≠ [] := by
  obtain ⟨sent, held, extra, -, hstage⟩ := h.progress
  rw [State.Stage, hp] at hstage
  exact hstage.2.2.2.1

/-- Over a writer that takes whole buffers there is never a rest to be offered again. -/
theorem State.Reachable.offersWhole (h : s.Reachable c writer) (hw : c.writer.TakesWhole) :
    s.OffersWhole := by
  induction h with
  | initial => exact .of_not_calling rfl
  | @move s t hs ht ih =>
    rcases ht.calm_or_call with hcalm | ⟨offered, next, hp, rfl⟩ | ⟨next, -, rfl⟩
    · exact hcalm.offersWhole ih
    · rcases State.write_whole hw (hs.offered_ne_nil hp) next with
        ⟨w, -, hwrote⟩ | ⟨-, -, -, -, hoffers⟩
      · rw [hwrote]
        intro rest next' hp'
        cases hp'
      · exact hoffers ih
    · exact (State.sync_calm next).2.2.2

/-! ## What was written -/

/-- The writes of a sink are its first records, one or more in each write; `rest` are those not
written yet. -/
structure State.Filed (s : State ω) (filed : List Segment) (rest : Segment) : Prop where
  records : recordsIn s.log = filed.flatten ++ rest
  writes : s.writes = filed.map Segment.bytes
  nonempty : ∀ g ∈ filed, g ≠ []

theorem writtenIn_eq (s : State ω) : writtenIn s.log = s.writes.flatten := by
  unfold State.writes
  generalize s.log = log
  induction log with
  | nil => rfl
  | cons x log ih => cases x <;> simp_all [writtenIn]

theorem Segment.bytes_flatten (segments : List Segment) :
    bytes segments.flatten = (segments.map bytes).flatten := by
  induction segments with
  | nil => rfl
  | cons g segments ih => rw [List.flatten_cons, bytes_append, ih, List.map_cons, List.flatten_cons]

theorem State.Filed.written (h : s.Filed filed rest) :
    writtenIn s.log = Segment.bytes filed.flatten := by
  rw [writtenIn_eq, h.writes, Segment.bytes_flatten]

/-- Where every record has bytes, what is written tells which records are. -/
theorem Segment.append_inj_of_bytes {g more k rest : Segment} (h : g ++ more = k ++ rest)
    (hbytes : g.bytes = k.bytes) (hne : ∀ e ∈ g ++ more, e.2 ≠ []) : g = k ∧ more = rest := by
  have hnil : ∀ x : Segment, x.bytes = [] → (∀ e ∈ x, e ∈ g ++ more) → x = [] :=
    fun x hx hmem => Decidable.not_not.1 fun hx' =>
      bytes_ne_nil hx' (fun e he => hne e (hmem e he)) hx
  rcases List.append_eq_append_iff.1 h with ⟨x, rfl, rfl⟩ | ⟨x, rfl, rfl⟩
  · rw [bytes_append, List.self_eq_append_right] at hbytes
    obtain rfl := hnil x hbytes fun e he => by simp [he]
    simp
  · rw [bytes_append, List.append_right_eq_self] at hbytes
    obtain rfl := hnil x hbytes fun e he => by simp [he]
    simp

theorem State.Reachable.record_ne_nil (h : s.Reachable c writer) (hr : c.WritesRecords) :
    ∀ e ∈ recordsIn s.log, e.2 ≠ [] := by
  intro e he
  obtain ⟨i, hi⟩ := List.getElem?_of_mem he
  exact hr _ _ _ (h.intake.made i e.1 e.2 hi)

/-- If as much is written as the records `first` have bytes, they are the ones that are. -/
theorem State.Filed.eq_of_written (h : s.Filed filed rest) (hs : s.Reachable c writer)
    (hr : c.WritesRecords) {first more : Segment} (hrec : recordsIn s.log = first ++ more)
    (hw : writtenIn s.log = first.bytes) : filed.flatten = first ∧ rest = more := by
  refine Segment.append_inj_of_bytes (h.records.symm.trans hrec) (h.written.symm.trans hw) ?_
  rw [← h.records]
  exact hs.record_ne_nil hr

/-- A sink over a writer that takes whole buffers writes whole records. -/
theorem State.Reachable.writes_whole (h : s.Reachable c writer) (hw : c.writer.TakesWhole)
    (hr : c.WritesRecords) : ∃ filed rest, s.Filed filed rest := by
  induction h with
  | initial => exact ⟨[], [], rfl, rfl, by simp⟩
  | @move s t hs ht ih =>
    obtain ⟨filed, rest, hf⟩ := ih
    rcases ht.calm_or_call with hcalm | ⟨offered, next, hp, rfl⟩ | ⟨next, -, rfl⟩
    · obtain ⟨extra, hextra⟩ := hcalm.records
      refine ⟨filed, rest ++ extra, ?_, hcalm.writes.trans hf.writes, hf.nonempty⟩
      rw [← hextra, hf.records, List.append_assoc]
    · rcases State.write_whole (s := s) hw (hs.offered_ne_nil hp) next with
        ⟨w, -, hwrote⟩ | ⟨-, -, hwrites, hrec, -⟩
      · -- what is written ends where the records acknowledged do, and the buffer holds the next
        obtain ⟨sent, held, extra, hacc, hstage⟩ := hs.progress
        rw [State.Stage, hp] at hstage
        obtain ⟨-, hne, ⟨hbuffer, -⟩, -, hbytes⟩ := hstage
        have hoffered : offered = held.bytes := (hs.offersWhole hw _ _ hp).trans hbuffer
        rw [hoffered] at hbytes
        obtain ⟨hsent, rfl⟩ := hf.eq_of_written hs hr hacc.records (List.append_cancel_right hbytes)
        rw [hwrote]
        refine ⟨filed ++ [held], extra, ?_, ?_, ?_⟩
        · simp [State.record, hf.records]
        · rw [State.writes_record_wrote, List.map_append, hoffered, List.map_singleton]
          exact congrArg (· ++ [held.bytes]) hf.writes
        · intro g hg
          rcases List.mem_append.1 hg with hg | hg
          · exact hf.nonempty g hg
          · rwa [List.mem_singleton.1 hg]
      · exact ⟨filed, rest, hrec.trans hf.records, hwrites.trans hf.writes, hf.nonempty⟩
    · obtain ⟨-, hwrites, hrec, -⟩ := State.sync_calm (c := c) (s := s) next
      exact ⟨filed, rest, hrec.trans hf.records, hwrites.trans hf.writes, hf.nonempty⟩

/-- What is not written yet is in the buffer while the sink waits for messages. -/
theorem State.Filed.buffered (h : s.Filed filed rest) (hs : s.Reachable c writer)
    (hr : c.WritesRecords) (hp : s.phase = .receiving) : s.buffer = rest.bytes := by
  obtain ⟨sent, held, extra, hacc, hstage⟩ := hs.progress
  rw [State.Stage, hp] at hstage
  obtain ⟨-, rfl, ⟨hbuffer, -⟩, hw⟩ := hstage
  obtain ⟨-, rfl⟩ := h.eq_of_written hs hr hacc.records hw
  rw [hbuffer, List.append_nil]

/-- A sink that stops without an error has written the records of all messages it accepted. -/
theorem State.Filed.whole (h : s.Filed filed rest) (hs : s.Reachable c writer)
    (hr : c.WritesRecords) (hstop : s.stopped) (hok : ∀ e, .failed e ∉ s.log) :
    rest = [] ∧ filed.flatten.map Prod.fst = acceptedIn s.log := by
  obtain ⟨sent, held, extra, hp⟩ := hs.progress
  obtain ⟨hrec, hall, hqueue, hw⟩ := hp.whole hs.windingUp (of_decide_eq_true hstop) hok
  have hrecords : recordsIn s.log = sent.flatten ++ [] := by rw [hrec, List.append_nil]
  obtain ⟨hfiled, hrest⟩ := h.eq_of_written hs hr hrecords hw
  refine ⟨hrest, ?_⟩
  rw [hfiled, hall, hs.intake.accepted, hqueue, List.append_nil]

end Sink

end EventPipeline
