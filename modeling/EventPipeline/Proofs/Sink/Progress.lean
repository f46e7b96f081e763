import EventPipeline.Proofs.Sink.Move
import EventPipeline.Proofs.Sink.Segment
/-!
# How far a sink has come

Between the records acknowledged and those still to be made stand the ones a sink
holds: in its buffer (`held`), or marshaled but waiting for the buffer to be written
first (`extra`). `Progress` says, for each phase, how buffer, pending acknowledgment
and the bytes written agree with them. Every move keeps it (`State.Reachable.progress`).
-/
namespace EventPipeline.Sink

variable {ω : Type} {c : Setup ω} {s t : State ω} {sent : List Segment} {held extra : Segment}

/-- What waits for the buffer to be written first. -/
def Next.Holds : Next → Segment → Prop
  | .resume, extra | .stop, extra => extra = []
  | .append bytes ack, extra => ∃ m : Message, m.ack = ack ∧ extra = [(m, bytes)]

/-- The buffer holds the records of `held`, and their acknowledgment is pending. -/
def State.Buffers (s : State ω) (held : Segment) : Prop :=
  s.buffer = held.bytes ∧ s.pending = held.ack?

/-- How buffer, pending acknowledgment and writer agree with what was marshaled. The writer is held
whenever the sink may come to hand the buffer out. -/
def State.Stage (s : State ω) (sent : List Segment) (held extra : Segment) : Prop :=
  let before := Segment.bytes sent.flatten
  match s.phase with
  | .receiving => s.writerHeld ∧ extra = [] ∧ s.Buffers held ∧ writtenIn s.log = before
  | .writing rest next =>
    next.Holds extra ∧ held ≠ [] ∧ s.Buffers held ∧ rest ≠ [] ∧
      writtenIn s.log ++ rest = before ++ held.bytes
  | .syncing next =>
    next.Holds extra ∧ held ≠ [] ∧ s.Buffers held ∧ writtenIn s.log = before ++ held.bytes
  | .acking a next =>
    s.writerHeld ∧ next.Holds extra ∧ held.ack? = some a ∧ s.buffer = [] ∧ s.pending = none ∧
      writtenIn s.log = before ++ held.bytes ∧ Settled s.log (before ++ held.bytes) ∧
      (held.bytes ≠ [] → lastCall? s.log = some (.flushed true))
  | .failing _ | .reporting _ =>
    before <+: writtenIn s.log ∧ writtenIn s.log <+: before ++ held.bytes
  | .stopped =>
    ((∃ e, .failed e ∈ s.log) ∨ held = [] ∧ extra = []) ∧
      before <+: writtenIn s.log ∧ writtenIn s.log <+: before ++ held.bytes

/-- The records in the log are those of `sent`, which are acknowledged, then those in the buffer,
then those waiting for it. -/
structure Progress (s : State ω) (sent : List Segment) (held extra : Segment) : Prop where
  accounted : Accounted s.log sent (held ++ extra)
  stage : s.Stage sent held extra

/-! ## The parts of a move -/

theorem Progress.handOut {next : Next} (hheld : s.writerHeld)
    (ha : Accounted s.log sent (held ++ extra)) (hn : next.Holds extra) (hb : s.Buffers held)
    (hbuf : s.buffer ≠ []) (hw : writtenIn s.log = Segment.bytes sent.flatten) :
    Progress (s.handOut next) sent held extra := by
  rw [State.handOut_of_held hheld]
  refine ⟨ha, hn, ?_, hb, hbuf, ?_⟩
  · rintro rfl
    exact hbuf hb.1
  · rw [hw, hb.1]

theorem State.store_eq (s : State ω) (hheld : s.writerHeld) (bytes : Bytes) (ack : Ack) :
    s.store c bytes ack =
      { s with
        writerHeld := !decide (c.options.buffer < (s.buffer ++ bytes).length)
        buffer := s.buffer ++ bytes
        pending := some (s.pending.elim ack (fun a => a.chain ack))
        phase := if c.options.buffer < (s.buffer ++ bytes).length
          then .writing (s.buffer ++ bytes) .resume else .receiving } := by
  rw [State.store]
  by_cases hlarge : c.options.buffer < (s.buffer ++ bytes).length
  · cases s.pending <;>
      simp only [hlarge, State.handOut, hheld, if_true, Option.elim, decide_true, Bool.not_true]
  · cases s.pending <;>
      simp only [hlarge, if_false, Option.elim, decide_false, Bool.not_false, ← hheld]

theorem Progress.store {m : Message} {bytes : Bytes} (hheld : s.writerHeld)
    (ha : Accounted s.log sent (held ++ [(m, bytes)])) (hb : s.Buffers held)
    (hw : writtenIn s.log = Segment.bytes sent.flatten) :
    Progress (s.store c bytes m.ack) sent (held ++ [(m, bytes)]) [] := by
  obtain ⟨hbuf, hpend⟩ := hb
  have hB : s.buffer ++ bytes = Segment.bytes (held ++ [(m, bytes)]) := by simp [hbuf]
  have hP : some (s.pending.elim m.ack (fun a => a.chain m.ack)) =
      Segment.ack? (held ++ [(m, bytes)]) := by
    cases hk : held.ack? <;> simp [Segment.ack?_concat, hpend, hk]
  rw [State.store_eq s hheld]
  by_cases hlarge : c.options.buffer < (s.buffer ++ bytes).length
  · rw [if_pos hlarge]
    refine ⟨by simpa using ha, rfl, by simp, ⟨hB, hP⟩, ?_, ?_⟩
    · intro he
      simp [he] at hlarge
    · rw [hw, hB]
  · rw [if_neg hlarge]
    exact ⟨by simpa using ha, by simpa using hlarge, rfl, ⟨hB, hP⟩, hw⟩

theorem Progress.proceed {next : Next} (hheld : s.writerHeld) (ha : Accounted s.log sent extra)
    (hb : s.Buffers []) (hw : writtenIn s.log = Segment.bytes sent.flatten)
    (hn : next.Holds extra) : ∃ held, Progress (s.proceed c next) sent held [] := by
  cases next with
  | resume =>
    cases hn
    exact ⟨[], ha, hheld, rfl, hb, hw⟩
  | append bytes ack =>
    obtain ⟨m, rfl, rfl⟩ := hn
    exact ⟨_, Progress.store hheld ha hb hw⟩
  | stop =>
    cases hn
    exact ⟨[], ha, .inr ⟨rfl, rfl⟩, by simp [State.proceed, hw], by simp [State.proceed, hw]⟩

theorem Progress.emit {next : Next} (hheld : s.writerHeld)
    (ha : Accounted s.log sent (held ++ extra)) (hbuf : s.buffer = [])
    (hpend : s.pending = held.ack?)
    (hw : writtenIn s.log = Segment.bytes sent.flatten ++ held.bytes)
    (hs : Settled s.log (Segment.bytes sent.flatten ++ held.bytes))
    (hl : held.bytes ≠ [] → lastCall? s.log = some (.flushed true)) (hn : next.Holds extra) :
    ∃ held extra, Progress (s.emit c next) sent held extra := by
  unfold State.emit
  split
  next hnone =>
    rw [hnone] at hpend
    obtain rfl := Segment.ack?_eq_none.1 hpend.symm
    obtain ⟨held, h⟩ :=
      Progress.proceed (c := c) hheld ha ⟨hbuf, hnone⟩ (by simpa using hw) hn
    exact ⟨held, [], h⟩
  next a hsome =>
    exact ⟨held, extra, ha, hheld, hn, by rw [← hpend, hsome], hbuf, rfl, hw, hs, hl⟩

/-! ## Moves of the sink -/

theorem Progress.handle {m : Message} (hheld : s.writerHeld) (ha : Accounted s.log sent held)
    (hb : s.Buffers held) (hw : writtenIn s.log = Segment.bytes sent.flatten) :
    ∃ held extra, Progress (s.handle c m) sent held extra := by
  cases hm : c.marshal (s.marshalCalls + 1) m with
  | error e =>
    -- no record: what was held stays held for good
    rw [State.handle_error hm]
    refine ⟨held, [], by simpa using ha, ?_, ?_⟩ <;> simp [hw]
  | ok bytes =>
    have ha := ha.marshal m bytes
    by_cases hfull : s.Full c bytes
    · rw [State.handle_full hm hfull]
      exact ⟨held, [(m, bytes)],
        Progress.handOut hheld ha ⟨m, rfl, rfl⟩ hb hfull.2 (by simp [hw])⟩
    · rw [State.handle_fits hm hfull]
      exact ⟨_, _, Progress.store hheld ha hb (by simp [hw])⟩

theorem Progress.take (h : Progress s sent held extra) (ht : s.take c = some t) :
    ∃ held extra, Progress t sent held extra := by
  obtain ⟨ha, hstage⟩ := h
  unfold State.take at ht
  split at ht
  next m rest hp hq =>
    cases ht
    rw [State.Stage, hp] at hstage
    obtain ⟨hheld, rfl, hb, hw⟩ := hstage
    rw [List.append_nil] at ha
    exact Progress.handle hheld (ha.concat rfl (by simp)) hb (by simpa [State.record] using hw)
  next => cases ht

theorem Progress.windUp (h : Progress s sent held extra) (ht : s.windUp c = some t) :
    ∃ held extra, Progress t sent held extra := by
  obtain ⟨ha, hstage⟩ := h
  unfold State.windUp at ht
  split at ht
  next hp =>
    rw [State.Stage, hp] at hstage
    obtain ⟨hheld, rfl, hb, hw⟩ := hstage
    split at ht
    next =>
      split at ht
      next => cases ht
      next =>
        split at ht
        next hbuf =>
          cases ht
          exact ⟨held, [], Progress.handOut hheld ha rfl hb hbuf hw⟩
        next hbuf =>
          -- nothing to write; records without bytes may still be pending
          cases ht
          have hempty : s.buffer = [] := Decidable.not_not.1 hbuf
          have hnil : held.bytes = [] := hb.1.symm.trans hempty
          refine Progress.emit hheld ha hempty hb.2 (by simp [hw, hnil]) ?_ (absurd hnil) rfl
          simpa [hnil] using ha.settled
    next =>
      split at ht
      next =>
        cases ht
        refine ⟨held, [], by simpa using ha, ?_⟩
        simp only [State.Stage, hp]
        exact ⟨hheld, trivial, hb, hw⟩
      next => cases ht
  next => cases ht

theorem Progress.write {rest : Bytes} {next : Next} (h : Progress s sent held extra)
    (hp : s.phase = .writing rest next) : Progress (s.write c rest next) sent held extra := by
  obtain ⟨ha, hstage⟩ := h
  rw [State.Stage, hp] at hstage
  obtain ⟨hn, hne, hb, hrest, hw⟩ := hstage
  have hle : Segment.bytes sent.flatten <+: writtenIn s.log ∧
      writtenIn s.log <+: Segment.bytes sent.flatten ++ held.bytes :=
    ⟨ha.bytes_isPrefix, rest, hw⟩
  have hnone : Accounted (s.log ++ [.tookNone]) sent (held ++ extra) := ha.concat rfl (by simp)
  unfold State.write
  split
  next => exact ⟨hnone, by simpa [State.Stage, State.record] using hle⟩
  next => exact ⟨hnone, by simpa [State.Stage, State.record] using hle⟩
  next =>
    refine ⟨hnone, ?_⟩
    simp only [State.Stage, State.record, hp]
    exact ⟨hn, hne, hb, hrest, by simpa using hw⟩
  next => exact ⟨hnone, by simpa [State.Stage, State.record] using hle⟩
  next count w _ _ =>
    split
    next => exact ⟨hnone, by simpa [State.Stage, State.record] using hle⟩
    next =>
      have hwrote : Accounted (s.log ++ [.wrote (rest.take count)]) sent (held ++ extra) :=
        ha.concat rfl (by simp)
      have hall : writtenIn s.log ++ rest.take count ++ rest.drop count =
          Segment.bytes sent.flatten ++ held.bytes := by simpa using hw
      split
      next hdrop =>
        refine ⟨hwrote, hn, hne, hb, ?_⟩
        simpa [State.record, hdrop] using hall
      next rest' hdrop =>
        exact ⟨hwrote, hn, hne, hb, hdrop, by simpa [State.record] using hall⟩

theorem Progress.sync {next : Next} (h : Progress s sent held extra)
    (hp : s.phase = .syncing next) : ∃ held extra, Progress (s.sync c next) sent held extra := by
  obtain ⟨ha, hstage⟩ := h
  rw [State.Stage, hp] at hstage
  obtain ⟨hn, hne, hb, hw⟩ := hstage
  have hflushed (b : Bool) : Accounted (s.log ++ [.flushed b]) sent (held ++ extra) :=
    ha.concat rfl (by simp)
  unfold State.sync
  split
  next =>
    exact ⟨held, extra, hflushed false, by simp [State.record, hw], by simp [State.record, hw]⟩
  next =>
    exact ⟨held, extra, hflushed false, by simp [State.record, hw], by simp [State.record, hw]⟩
  next =>
    refine Progress.emit rfl (hflushed true) rfl hb.2 ?_ ?_ ?_ hn
    · simp [State.record, hw]
    · exact .flush ⟨[], by rw [List.append_nil, hw]⟩
    · exact fun _ => lastCall?_concat_of_isCall _ _ rfl

theorem Progress.send {a : Ack} {next : Next} (h : Progress s sent held extra)
    (hp : s.phase = .acking a next) (ht : s.send c a next = some t) :
    ∃ sent held extra, Progress t sent held extra := by
  obtain ⟨ha, hstage⟩ := h
  rw [State.Stage, hp] at hstage
  obtain ⟨hheld, hn, hack, hbuf, hpend, hw, hs, hl⟩ := hstage
  -- whether heard or not, the acknowledgment closes the segment held
  have hsent {x : Happening} (hx : x.ack? = some a)
      (hrec : recordsIn (s.log ++ [x]) = recordsIn s.log)
      (hwr : writtenIn (s.log ++ [x]) = writtenIn s.log) :
      Accounted (s.log ++ [x]) (sent ++ [held]) extra ∧
        writtenIn (s.log ++ [x]) = Segment.bytes (sent ++ [held]).flatten :=
    ⟨ha.ack hx hack hw hs hl hrec, by simp [hwr, hw]⟩
  unfold State.send at ht
  split at ht
  next =>
    cases ht
    obtain ⟨h1, h2⟩ := hsent (x := .unheard a) rfl (by simp) (by simp)
    obtain ⟨held', h⟩ := Progress.proceed (c := c) (s := s.record (.unheard a)) hheld h1
      ⟨hbuf, hpend⟩ h2 hn
    exact ⟨_, held', [], h⟩
  next =>
    split at ht
    next => cases ht
    next =>
      cases ht
      obtain ⟨h1, h2⟩ := hsent (x := .emitted a) rfl (by simp) (by simp)
      obtain ⟨held', h⟩ := Progress.proceed (c := c)
        (s := { s with ack := some a }.record (.emitted a)) hheld h1 ⟨hbuf, hpend⟩ h2 hn
      exact ⟨_, held', [], h⟩

theorem Progress.work (h : Progress s sent held extra) (ht : s.work c = some t) :
    ∃ sent held extra, Progress t sent held extra := by
  unfold State.work at ht
  split at ht
  next => cases ht
  next => cases ht
  next hp => cases ht; exact ⟨_, _, _, h.write hp⟩
  next hp => cases ht; exact ⟨_, h.sync hp⟩
  next hp => exact h.send hp ht
  next e hp =>
    cases ht
    have hstage := h.stage
    rw [State.Stage, hp] at hstage
    exact ⟨sent, held, extra, h.accounted, hstage⟩
  next e hp =>
    cases ht
    have hstage := h.stage
    rw [State.Stage, hp] at hstage
    refine ⟨sent, held, extra, h.accounted.concat rfl (by simp), .inl ⟨e, ?_⟩, ?_⟩
    · simp [State.report, State.record]
    · simpa [State.report, State.record] using hstage

/-! ## What others do -/

theorem Progress.offer {m : Message} (h : Progress s sent held extra)
    (ht : s.offer c m = some t) : Progress t sent held extra := by
  unfold State.offer at ht
  split at ht
  next =>
    cases ht
    obtain ⟨ha, hstage⟩ := h
    refine ⟨ha.concat rfl (by simp), ?_⟩
    have hlast := lastCall?_concat s.log (.accepted m) rfl
    unfold State.Stage at hstage ⊢
    dsimp only [State.record] at hstage ⊢
    cases hp : s.phase with
    | acking a next =>
      rw [hp] at hstage
      obtain ⟨hheld, hn, hack, hbuf, hpend, hw, hs, hl⟩ := hstage
      exact ⟨hheld, hn, hack, hbuf, hpend, by simpa using hw, hs.concat _, by rwa [hlast]⟩
    | stopped =>
      rw [hp] at hstage
      refine ⟨hstage.1.imp_left fun ⟨e, he⟩ => ⟨e, List.mem_append_left _ he⟩, ?_⟩
      simpa using hstage.2
    | _ =>
      rw [hp] at hstage
      simpa [State.Buffers] using hstage
  next => cases ht

theorem Progress.move (h : Progress s sent held extra) (ht : Move c s t) :
    ∃ sent held extra, Progress t sent held extra := by
  cases ht with
  | take ht => exact ⟨sent, h.take ht⟩
  | windUp ht => exact ⟨sent, h.windUp ht⟩
  | work ht => exact h.work ht
  | offer m ht => exact ⟨sent, held, extra, h.offer ht⟩
  | takeAck ht =>
    obtain ⟨a, -, he⟩ := Option.map_eq_some_iff.1 ht
    cases he
    exact ⟨sent, held, extra, h.accounted, h.stage⟩
  | takeError ht =>
    obtain ⟨e, -, he⟩ := Option.map_eq_some_iff.1 ht
    cases he
    exact ⟨sent, held, extra, h.accounted, h.stage⟩
  | askStop | releaseInput | muteAcks | muteErrors =>
    exact ⟨sent, held, extra, h.accounted, h.stage⟩

theorem State.Reachable.progress {writer : ω} (h : s.Reachable c writer) :
    ∃ sent held extra, Progress s sent held extra := by
  induction h with
  | initial => exact ⟨[], [], [], .nil, rfl, rfl, ⟨rfl, rfl⟩, rfl⟩
  | move _ ht ih =>
    obtain ⟨sent, held, extra, hp⟩ := ih
    exact hp.move ht

end EventPipeline.Sink
