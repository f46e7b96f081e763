import EventPipeline.Proofs.Sink.Failure
import EventPipeline.Proofs.Sink.Segmentation
/-!
# When a sink flushes

A sink flushes as late as it can. What it hands to its writer fits into the buffer,
unless it is one record that is larger than the whole buffer; and it is handed over only
because the next record would not fit behind it, or because no other is to come
(`Segment.Due`). This holds however the writer takes the bytes and whether or not a
later flush fails.
-/
namespace EventPipeline.Sink

variable {ω : Type} {c : Setup ω} {writer : ω} {s t : State ω} {log : List Happening}
  {capacity : Nat} {ended ended' : Prop} {flushed : List Segment} {g later held extra : Segment}

/-! ## Why a segment is flushed -/

/-- The bytes of a segment are those of one record, which is larger than the whole buffer. Only
records without bytes stand before it. -/
def Segment.Oversized (capacity : Nat) (g : Segment) : Prop :=
  ∃ before m bytes, g = before ++ [(m, bytes)] ∧ g.bytes = bytes ∧ capacity < bytes.length

/-- Why a segment is flushed: it is a single record larger than the buffer, or the record after it
would not fit behind it, or no record is to come any more (`ended`). -/
inductive Segment.Due (capacity : Nat) (ended : Prop) (g later : Segment) : Prop
  | oversized : g.Oversized capacity → Due capacity ended g later
  | full (m : Message) (bytes : Bytes) (rest : Segment) : later = (m, bytes) :: rest →
      g.bytes.length ≤ capacity → capacity < g.bytes.length + bytes.length →
      Due capacity ended g later
  | last : ended → later = [] → g.bytes.length ≤ capacity → Due capacity ended g later

namespace Segment.Due

theorem imp (h : g.Due capacity ended later) (hended : ended → ended') :
    g.Due capacity ended' later := by
  cases h with
  | oversized hlarge => exact .oversized hlarge
  | full m bytes rest hlater hfits hfull => exact .full m bytes rest hlater hfits hfull
  | last hlast hlater hfits => exact .last (hended hlast) hlater hfits

/-- Records that are made later are no reason to take a flush back. -/
theorem append (h : g.Due capacity False later) (more : Segment) :
    g.Due capacity False (later ++ more) := by
  cases h with
  | oversized hlarge => exact .oversized hlarge
  | full m bytes rest hlater hfits hfull =>
    exact .full m bytes (rest ++ more) (by rw [hlater, List.cons_append]) hfits hfull
  | last hlast => exact hlast.elim

theorem bounded (h : g.Due capacity ended later) :
    g.bytes.length ≤ capacity ∨ ∃ e ∈ g, g.bytes = e.2 ∧ capacity < e.2.length := by
  cases h with
  | oversized hlarge =>
    obtain ⟨before, m, bytes, rfl, hbytes, hlt⟩ := hlarge
    exact .inr ⟨(m, bytes), by simp, hbytes, hlt⟩
  | full _ _ _ _ hfits => exact .inl hfits
  | last _ _ hfits => exact .inl hfits

end Segment.Due

/-- The records in a log were flushed in some segments, each when it was due, and some records still
wait. -/
structure FlushedIn (capacity : Nat) (ended : Prop) (log : List Happening) (flushed : List Segment)
    (waiting : Segment) : Prop where
  records : recordsIn log = flushed.flatten ++ waiting
  flushes : flushesIn log = flushed.map Segment.bytes
  due : ∀ before g after, flushed = before ++ g :: after →
    g.Due capacity ended (after.flatten ++ waiting)

namespace FlushedIn

variable {waiting : Segment}

theorem imp (h : FlushedIn capacity ended log flushed waiting) (hended : ended → ended') :
    FlushedIn capacity ended' log flushed waiting where
  records := h.records
  flushes := h.flushes
  due before g after hsplit := (h.due before g after hsplit).imp hended

theorem concat {x : Happening} (h : FlushedIn capacity ended log flushed waiting)
    (hrecords : recordsIn (log ++ [x]) = recordsIn log)
    (hflushes : flushesIn (log ++ [x]) = flushesIn log) :
    FlushedIn capacity ended (log ++ [x]) flushed waiting where
  records := hrecords.trans h.records
  flushes := hflushes.trans h.flushes
  due := h.due

theorem marshal (h : FlushedIn capacity False log flushed waiting) (m : Message) (bytes : Bytes) :
    FlushedIn capacity False (log ++ [.marshaled m bytes]) flushed (waiting ++ [(m, bytes)]) where
  records := by simp [h.records]
  flushes := by simp [h.flushes]
  due before g after hsplit := by
    rw [← List.append_assoc]
    exact (h.due before g after hsplit).append [(m, bytes)]

/-- A flush takes what is held away from what waits. -/
theorem flush (h : FlushedIn capacity ended log flushed (held ++ extra))
    (hsince : sinceFlush log = held.bytes) (hdue : held.Due capacity ended extra) :
    FlushedIn capacity ended (log ++ [.flushed true]) (flushed ++ [held]) extra where
  records := by simp [h.records]
  flushes := by simp [h.flushes, hsince]
  due before g after hsplit := by
    rcases concat_eq_append_cons hsplit with ⟨-, rfl, rfl⟩ | ⟨more, hflushed⟩
    · exact hdue
    · obtain rfl : after = more ++ [held] := by
        rw [hflushed, List.append_assoc, List.cons_append] at hsplit
        exact (List.cons.inj (List.append_cancel_left hsplit)).2.symm
      simpa using h.due before g more hflushed

end FlushedIn

/-! ## What the buffer holds -/

/-- No message is to come any more. -/
def State.Exhausted (s : State ω) : Prop := s.draining ∧ s.queue = []

/-- How what is held agrees with the buffer and the writer. -/
def State.Fills (c : Setup ω) (s : State ω) (held extra : Segment) : Prop :=
  match s.phase with
  | .receiving =>
    extra = [] ∧ s.buffer = held.bytes ∧ s.buffer.length ≤ c.options.buffer ∧ sinceFlush s.log = []
  | .writing rest next =>
    next.Holds extra ∧ sinceFlush s.log ++ rest = held.bytes ∧
      held.Due c.options.buffer s.Exhausted extra
  | .syncing next =>
    next.Holds extra ∧ sinceFlush s.log = held.bytes ∧
      held.Due c.options.buffer s.Exhausted extra
  | .acking _ next =>
    next.Holds extra ∧ s.buffer = held.bytes ∧ s.buffer = [] ∧ sinceFlush s.log = []
  | .failing _ | .reporting _ | .stopped => True

/-- The records made are those flushed, then those in the buffer (`held`), then the one that waits
for the buffer to be written first (`extra`). -/
structure Filling (c : Setup ω) (s : State ω) (flushed : List Segment) (held extra : Segment) :
    Prop where
  flushed : FlushedIn c.options.buffer s.Exhausted s.log flushed (held ++ extra)
  stage : s.Fills c held extra

/-! ## The parts of a move -/

theorem Filling.handOut {next : Next} (hheld : s.writerHeld)
    (hf : FlushedIn c.options.buffer s.Exhausted s.log flushed (held ++ extra))
    (hn : next.Holds extra) (hbuf : s.buffer = held.bytes) (hsince : sinceFlush s.log = [])
    (hdue : held.Due c.options.buffer s.Exhausted extra) :
    Filling c (s.handOut next) flushed held extra := by
  rw [State.handOut_of_held hheld]
  exact ⟨hf, hn, by rw [hsince, List.nil_append, hbuf], hdue⟩

/-- A record that comes into an empty buffer, or fits behind what is in it. -/
theorem Filling.store {m : Message} {bytes : Bytes} (hheld : s.writerHeld)
    (hf : FlushedIn c.options.buffer s.Exhausted s.log flushed (held ++ [(m, bytes)]))
    (hbuf : s.buffer = held.bytes) (hsince : sinceFlush s.log = [])
    (hfits : s.buffer = [] ∨ s.buffer.length + bytes.length ≤ c.options.buffer) :
    Filling c (s.store c bytes m.ack) flushed (held ++ [(m, bytes)]) [] := by
  have hbytes : s.buffer ++ bytes = Segment.bytes (held ++ [(m, bytes)]) := by simp [hbuf]
  rw [← List.append_nil (held ++ [(m, bytes)])] at hf
  rw [State.store_eq s hheld]
  by_cases hlarge : c.options.buffer < (s.buffer ++ bytes).length
  · rw [if_pos hlarge]
    have hempty : s.buffer = [] := hfits.resolve_right fun hfits => by
      rw [List.length_append] at hlarge
      omega
    have hall : sinceFlush s.log ++ (s.buffer ++ bytes) = Segment.bytes (held ++ [(m, bytes)]) := by
      rw [hsince, List.nil_append, hbytes]
    rw [hempty, List.nil_append] at hbytes hlarge
    exact ⟨hf, rfl, hall, .oversized ⟨held, m, bytes, rfl, hbytes.symm, hlarge⟩⟩
  · rw [if_neg hlarge]
    exact ⟨hf, rfl, hbytes, Nat.le_of_not_lt hlarge, hsince⟩

theorem Filling.proceed {next : Next} (hheld : s.writerHeld)
    (hf : FlushedIn c.options.buffer s.Exhausted s.log flushed (held ++ extra))
    (hn : next.Holds extra) (hbuf : s.buffer = held.bytes) (hempty : s.buffer = [])
    (hsince : sinceFlush s.log = []) :
    ∃ held extra, Filling c (s.proceed c next) flushed held extra := by
  cases next with
  | resume =>
    cases hn
    exact ⟨held, [], hf, rfl, hbuf, by simp [State.proceed, hempty], hsince⟩
  | append bytes ack =>
    obtain ⟨m, rfl, rfl⟩ := hn
    exact ⟨_, _, Filling.store hheld hf hbuf hsince (.inl hempty)⟩
  | stop => exact ⟨held, extra, hf, trivial⟩

theorem Filling.emit {next : Next} (hheld : s.writerHeld)
    (hf : FlushedIn c.options.buffer s.Exhausted s.log flushed (held ++ extra))
    (hn : next.Holds extra) (hbuf : s.buffer = held.bytes) (hempty : s.buffer = [])
    (hsince : sinceFlush s.log = []) :
    ∃ held extra, Filling c (s.emit c next) flushed held extra := by
  unfold State.emit
  split
  next => exact Filling.proceed hheld hf hn hbuf hempty hsince
  next a _ => exact ⟨held, extra, hf, hn, hbuf, hempty, hsince⟩

/-! ## Moves of the sink -/

/-- The buffer is handed out before a record if and only if that would not fit behind what is in it:
as it never holds more than it has room for, the room left is not cut off at none. -/
theorem Filling.handle {m : Message} (hheld : s.writerHeld)
    (hf : FlushedIn c.options.buffer False s.log flushed held) (hbuf : s.buffer = held.bytes)
    (hroom : s.buffer.length ≤ c.options.buffer) (hsince : sinceFlush s.log = []) :
    ∃ held extra, Filling c (s.handle c m) flushed held extra := by
  cases hm : c.marshal (s.marshalCalls + 1) m with
  | error e =>
    rw [State.handle_error hm]
    exact ⟨held, [], by simpa using hf.imp False.elim, trivial⟩
  | ok bytes =>
    have hmade : FlushedIn c.options.buffer s.Exhausted (s.log ++ [.marshaled m bytes]) flushed
        (held ++ [(m, bytes)]) := (hf.marshal m bytes).imp False.elim
    have hsince : sinceFlush (s.log ++ [.marshaled m bytes]) = [] := by simpa using hsince
    by_cases hfull : s.Full c bytes
    · rw [State.handle_full hm hfull]
      have hlt : c.options.buffer < s.buffer.length + bytes.length := by
        have := hfull.1
        omega
      rw [hbuf] at hroom hlt
      exact ⟨held, [(m, bytes)], Filling.handOut hheld hmade ⟨m, rfl, rfl⟩ hbuf hsince
        (.full m bytes [] rfl hroom hlt)⟩
    · rw [State.handle_fits hm hfull]
      refine ⟨_, _, Filling.store hheld hmade hbuf hsince ?_⟩
      by_cases hempty : s.buffer = []
      · exact .inl hempty
      · have hle : bytes.length ≤ c.options.buffer - s.buffer.length :=
          Nat.le_of_not_lt fun hlt => hfull ⟨hlt, hempty⟩
        dsimp only
        omega

theorem Filling.take (hs : s.HoldsWriter) (h : Filling c s flushed held extra)
    (ht : s.take c = some t) : ∃ held extra, Filling c t flushed held extra := by
  obtain ⟨hf, hstage⟩ := h
  unfold State.take at ht
  split at ht
  next m rest hp hq =>
    cases ht
    rw [State.Fills, hp] at hstage
    obtain ⟨rfl, hbuf, hroom, hsince⟩ := hstage
    rw [List.append_nil] at hf
    -- a message was there, so nothing was flushed for want of one
    have hmore : s.Exhausted → False := by
      rintro ⟨-, hempty⟩
      simp [hq] at hempty
    exact Filling.handle (hs (.inl hp)) ((hf.imp hmore).concat (by simp) (by simp)) hbuf hroom
      (by simpa [State.record] using hsince)
  next => cases ht

theorem Filling.windUp (hs : s.HoldsWriter) (h : Filling c s flushed held extra)
    (ht : s.windUp c = some t) : ∃ held extra, Filling c t flushed held extra := by
  obtain ⟨hf, hstage⟩ := h
  unfold State.windUp at ht
  split at ht
  next hp =>
    have hheld := hs (.inl hp)
    rw [State.Fills, hp] at hstage
    obtain ⟨rfl, hbuf, hroom, hsince⟩ := hstage
    split at ht
    next hdrain =>
      split at ht
      next => cases ht
      next hqueue =>
        have hended : s.Exhausted := ⟨hdrain, Decidable.not_not.1 hqueue⟩
        split at ht
        next =>
          cases ht
          exact ⟨held, [], Filling.handOut hheld hf rfl hbuf hsince
            (.last hended rfl (by rwa [← hbuf]))⟩
        next hempty =>
          cases ht
          exact Filling.emit hheld hf rfl hbuf (Decidable.not_not.1 hempty) hsince
    next =>
      split at ht
      next =>
        cases ht
        refine ⟨held, [], hf.imp fun hended => ⟨rfl, hended.2⟩, ?_⟩
        rw [State.Fills]
        simp only [hp]
        exact ⟨trivial, hbuf, hroom, hsince⟩
      next => cases ht
  next => cases ht

theorem Filling.write {rest : Bytes} {next : Next} (h : Filling c s flushed held extra)
    (hp : s.phase = .writing rest next) : Filling c (s.write c rest next) flushed held extra := by
  obtain ⟨hf, hstage⟩ := h
  rw [State.Fills, hp] at hstage
  obtain ⟨hn, hsince, hdue⟩ := hstage
  have hnone : FlushedIn c.options.buffer s.Exhausted (s.log ++ [.tookNone]) flushed
      (held ++ extra) := hf.concat (by simp) (by simp)
  unfold State.write
  split
  next => exact ⟨hnone, trivial⟩
  next => exact ⟨hnone, trivial⟩
  next =>
    refine ⟨hnone, ?_⟩
    simp only [State.Fills, State.record, hp]
    exact ⟨hn, by simpa using hsince, hdue⟩
  next => exact ⟨hnone, trivial⟩
  next count w _ _ =>
    split
    next => exact ⟨hnone, trivial⟩
    next =>
      have hwrote : FlushedIn c.options.buffer s.Exhausted (s.log ++ [.wrote (rest.take count)])
          flushed (held ++ extra) := hf.concat (by simp) (by simp)
      have hall : sinceFlush (s.log ++ [.wrote (rest.take count)]) ++ rest.drop count =
          held.bytes := by simpa using hsince
      split
      next hdrop =>
        rw [hdrop, List.append_nil] at hall
        exact ⟨hwrote, hn, hall, hdue⟩
      next rest' hdrop => exact ⟨hwrote, hn, hall, hdue⟩

theorem Filling.sync {next : Next} (h : Filling c s flushed held extra)
    (hp : s.phase = .syncing next) :
    ∃ flushed held extra, Filling c (s.sync c next) flushed held extra := by
  obtain ⟨hf, hstage⟩ := h
  rw [State.Fills, hp] at hstage
  obtain ⟨hn, hsince, hdue⟩ := hstage
  have hfailed : FlushedIn c.options.buffer s.Exhausted (s.log ++ [.flushed false]) flushed
      (held ++ extra) := hf.concat (by simp) (by simp)
  unfold State.sync
  split
  next => exact ⟨flushed, held, extra, hfailed, trivial⟩
  next => exact ⟨flushed, held, extra, hfailed, trivial⟩
  next =>
    have hflushed : FlushedIn c.options.buffer s.Exhausted (s.log ++ [.flushed true])
        (flushed ++ [held]) ([] ++ extra) := hf.flush hsince hdue
    exact ⟨_, Filling.emit rfl hflushed hn rfl rfl (by simp [State.record])⟩

theorem Filling.send {a : Ack} {next : Next} (hs : s.HoldsWriter)
    (h : Filling c s flushed held extra) (hp : s.phase = .acking a next)
    (ht : s.send c a next = some t) : ∃ held extra, Filling c t flushed held extra := by
  obtain ⟨hf, hstage⟩ := h
  have hheld := hs (.inr ⟨a, next, hp⟩)
  rw [State.Fills, hp] at hstage
  obtain ⟨hn, hbuf, hempty, hsince⟩ := hstage
  unfold State.send at ht
  split at ht
  next =>
    cases ht
    exact Filling.proceed (s := s.record (.unheard a)) hheld (hf.concat (by simp) (by simp)) hn hbuf
      hempty (by simpa [State.record] using hsince)
  next =>
    split at ht
    next => cases ht
    next =>
      cases ht
      exact Filling.proceed (s := { s with ack := some a }.record (.emitted a)) hheld
        (hf.concat (by simp) (by simp)) hn hbuf hempty (by simpa [State.record] using hsince)

theorem Filling.work (hs : s.HoldsWriter) (h : Filling c s flushed held extra)
    (ht : s.work c = some t) : ∃ flushed held extra, Filling c t flushed held extra := by
  unfold State.work at ht
  split at ht
  next => cases ht
  next => cases ht
  next hp => cases ht; exact ⟨_, _, _, h.write hp⟩
  next hp => cases ht; exact h.sync hp
  next hp => exact ⟨_, h.send hs hp ht⟩
  next => cases ht; exact ⟨flushed, held, extra, h.flushed, trivial⟩
  next => cases ht; exact ⟨flushed, held, extra, h.flushed.concat (by simp) (by simp), trivial⟩

/-! ## What others do -/

theorem Filling.offer {m : Message} (hw : WindingUp s) (h : Filling c s flushed held extra)
    (ht : s.offer c m = some t) : Filling c t flushed held extra := by
  unfold State.offer at ht
  split at ht
  next hopen =>
    cases ht
    obtain ⟨hf, hstage⟩ := h
    -- with its input open, a sink does not wind up
    have hmore {p : Prop} (hended : s.Exhausted) : p := by simp [hw.draining hended.1] at hopen
    refine ⟨(hf.imp hmore).concat (by simp) (by simp), ?_⟩
    unfold State.Fills at hstage ⊢
    dsimp only [State.record] at hstage ⊢
    rw [sinceFlush_concat]
    split at hstage
    next => exact hstage
    next => exact ⟨hstage.1, hstage.2.1, hstage.2.2.imp hmore⟩
    next => exact ⟨hstage.1, hstage.2.1, hstage.2.2.imp hmore⟩
    next => exact hstage
    next => trivial
    next => trivial
    next => trivial
  next => cases ht

theorem Filling.move (hs : s.HoldsWriter) (hw : WindingUp s) (h : Filling c s flushed held extra)
    (ht : Move c s t) : ∃ flushed held extra, Filling c t flushed held extra := by
  cases ht with
  | take ht => exact ⟨flushed, h.take hs ht⟩
  | windUp ht => exact ⟨flushed, h.windUp hs ht⟩
  | work ht => exact h.work hs ht
  | offer m ht => exact ⟨flushed, held, extra, h.offer hw ht⟩
  | takeAck ht | takeError ht =>
    obtain ⟨a, -, he⟩ := Option.map_eq_some_iff.1 ht
    cases he
    exact ⟨flushed, held, extra, h.flushed, h.stage⟩
  | askStop | releaseInput | muteAcks | muteErrors =>
    exact ⟨flushed, held, extra, h.flushed, h.stage⟩

theorem State.Reachable.filling (h : s.Reachable c writer) :
    ∃ flushed held extra, Filling c s flushed held extra := by
  induction h with
  | initial =>
    exact ⟨[], [], [], ⟨rfl, rfl, by simp⟩, rfl, rfl, Nat.zero_le _, rfl⟩
  | move hs ht ih =>
    obtain ⟨flushed, held, extra, h⟩ := ih
    exact h.move hs.holdsWriter hs.windingUp ht

/-! ## Bounded and as late as possible -/

/-- The bytes that are still to be handed to the writer in the flush under way, if there is one. -/
def Phase.handing? : Phase → Option Bytes
  | .writing rest _ => some rest
  | .syncing _ => some []
  | _ => none

/-- A sink flushed its records in these segments, each of them when it was due, and the rest of its
records waits. -/
structure FlushesWhenDue (c : Setup ω) (s : State ω) (flushed : List Segment) (waiting : Segment) :
    Prop where
  /-- When a message is taken, what waits is in the buffer, which has room for it. -/
  room : ∀ t, s.take c = some t →
    s.buffer = waiting.bytes ∧ s.buffer.length ≤ c.options.buffer
  records : recordsIn s.log = flushed.flatten ++ waiting
  flushes : flushesIn s.log = flushed.map Segment.bytes
  /-- A flush takes what the buffer has room for, or one record larger than that. -/
  bounded : ∀ g ∈ flushed, g.bytes.length ≤ c.options.buffer ∨
    ∃ e ∈ g, g.bytes = e.2 ∧ c.options.buffer < e.2.length
  /-- It is made for such a record, or because the next record would not fit, or to wind up: this
  holds from the moment it is made. -/
  due : ∀ before g after, flushed = before ++ g :: after →
    g.Due c.options.buffer (s.draining ∧ s.queue = []) (after.flatten ++ waiting)
  /-- So is a flush under way, whatever becomes of it. -/
  underWay : ∀ rest, s.phase.handing? = some rest → ∃ held extra, waiting = held ++ extra ∧
    sinceFlush s.log ++ rest = held.bytes ∧
    held.Due c.options.buffer (s.draining ∧ s.queue = []) extra

theorem Filling.whenDue (h : Filling c s flushed held extra) :
    FlushesWhenDue c s flushed (held ++ extra) where
  room t ht := by
    unfold State.take at ht
    split at ht
    next m rest hp hq =>
      have hstage := h.stage
      rw [State.Fills, hp] at hstage
      obtain ⟨rfl, hbuf, hroom, -⟩ := hstage
      exact ⟨by rw [hbuf, List.append_nil], hroom⟩
    next => cases ht
  records := h.flushed.records
  flushes := h.flushed.flushes
  bounded g hg := by
    obtain ⟨before, after, hsplit⟩ := List.append_of_mem hg
    exact (h.flushed.due before g after hsplit).bounded
  due := h.flushed.due
  underWay rest hrest := by
    have hstage := h.stage
    rw [State.Fills] at hstage
    cases hp : s.phase with
    | writing rest' next =>
      rw [hp] at hstage hrest
      obtain rfl := Option.some.inj hrest
      exact ⟨held, extra, rfl, hstage.2.1, hstage.2.2⟩
    | syncing next =>
      rw [hp] at hstage hrest
      obtain rfl := Option.some.inj hrest
      exact ⟨held, extra, rfl, by rw [List.append_nil, hstage.2.1], hstage.2.2⟩
    | _ =>
      rw [hp] at hrest
      cases hrest

/-- In every run the flushes of a sink are bounded, and none is made earlier than it must be. -/
theorem System.Reachable.flushes_whenDue {s : System ω} (h : s.Reachable c writer) :
    ∃ flushed waiting, FlushesWhenDue c s.sink flushed waiting := by
  obtain ⟨flushed, held, extra, hf⟩ := h.sink.filling
  exact ⟨flushed, held ++ extra, hf.whenDue⟩

/-- A sink that writes as many bytes as the offset of a message says and holds back up to five. -/
def sized : Setup Writer.Calls where
  marshal _ m := .ok (List.replicate m.ack.offset.toNat 0)
  writer := Writer.scripted {}
  options := .of 5 5

/-- Records that fill the buffer exactly, one that does not fit any more, one that never fits, and
one as large as the buffer. -/
def boundarySizes : List Action :=
  [.muteAcks, .offer (numbered 2), .offer (numbered 3), .offer (numbered 1), .offer (numbered 7),
    .offer (numbered 5), .take, .take, .take, .work, .work, .work, .take, .work, .work, .work,
    .work, .work, .work, .take, .close, .windUp, .windUp, .work, .work, .work]

theorem flushes_whenDue_boundarySizes :
    ∃ s : System Writer.Calls, s.sink.stopped = true ∧
      (flushesIn s.sink.log).map List.length = [5, 1, 7, 5] ∧
      ∃ flushed waiting, FlushesWhenDue sized s.sink flushed waiting := by
  have hrun : (System.run sized { sink := .initial {} } boundarySizes).map
      (fun s => (s.sink.stopped, (flushesIn s.sink.log).map List.length)) =
        some (true, [5, 1, 7, 5]) := by
    decide
  obtain ⟨s, hs, hends⟩ := Option.map_eq_some_iff.1 hrun
  obtain ⟨hstop, hflushes⟩ := Prod.mk.injEq .. ▸ hends
  exact ⟨s, hstop, hflushes, (System.Reachable.run .initial hs).flushes_whenDue⟩

end EventPipeline.Sink
