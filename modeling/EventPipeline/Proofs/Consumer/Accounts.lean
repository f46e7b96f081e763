import Mathlib.Algebra.Order.Ring.Nat
import EventPipeline.Proofs.Ack.BestEffort
import EventPipeline.Proofs.Consumer.Dropping
import EventPipeline.Proofs.Sink.Counts
/-!
# The counters account for what happened

The counters of a consumer are kept in several places, before and after what may fail. At any time
they agree with the logs (`Tallied`, `Sink.State.Ledger`), but for what is on its way just then: a
message that a claim is sending, an acknowledgment that the sink is sending on or that waits in its
channel. When a run is over nothing is on its way, and the counters account for all that happened
(`Balanced`).
-/
namespace EventPipeline

theorem MarkCounts.countAll_append (counts : MarkCounts) (l more : List Attempt) :
    counts.countAll (l ++ more) = (counts.countAll l).countAll more :=
  List.foldl_append

/-- The partitions whose offsets are chained. -/
def Ack.chainedKeys (a : Ack) : List Key := a.chained.entries.map (fun e => e.1)

theorem Ack.mem_chainedKeys {a : Ack} {k : Key} :
    k ∈ a.chainedKeys ↔ (a.chainedOffset? k).isSome := by
  rw [chainedKeys, List.mem_map, Option.isSome_iff_exists]
  constructor
  · rintro ⟨⟨k, o⟩, he, rfl⟩
    exact ⟨o, Dict.mem_entries_iff.1 he⟩
  · rintro ⟨o, ho⟩
    exact ⟨(k, o), Dict.mem_entries_iff.2 ho, rfl⟩

theorem Ack.length_mark (refuses : Nat → Key → Bool) (a : Ack) :
    (a.mark refuses).length = 1 + a.chainedKeys.length := by
  rw [mark, List.length_map, positions, List.length_cons, chainedKeys, List.length_map,
    Nat.add_comm]

namespace Consumer

open Sink (acceptedIn emittedIn)

variable {ω : Type} {c : Setup ω} {writer : ω} {plans : List Plan} {s t : State ω}
  {actions : List Action} {i : Nat}

/-! ## Messages -/

/-- Every message that was taken held no event, went to the sink, was given up, or is being sent. -/
structure Tallied (s : State ω) : Prop where
  consumed : s.intake.messagesConsumed = (consumedIn s.log).length
  undecodable : s.intake.decodeErrors = (undecodableIn s.log).length
  messages : s.intake.messagesConsumed =
    s.intake.decodeErrors + (acceptedIn s.sink.log).length + (droppedIn s.log).length +
      s.sending.length

/-- A claim changes, and what is added to the log makes up for what it is sending then. -/
theorem Tallied.of_claim {claim claim' : Claim} {l : List Happening} (h : Tallied s)
    (hi : s.claims[i]? = some claim) (hclaims : t.claims = s.claims.set i claim')
    (hlog : t.log = s.log ++ l)
    (hconsumed : t.intake.messagesConsumed =
      s.intake.messagesConsumed + (consumedIn l).length)
    (hundecodable : t.intake.decodeErrors = s.intake.decodeErrors + (undecodableIn l).length)
    (hbalance : (consumedIn l).length + claim.sending.length +
        (acceptedIn s.sink.log).length =
      (undecodableIn l).length + (droppedIn l).length + claim'.sending.length +
        (acceptedIn t.sink.log).length) : Tallied t := by
  have hsending : t.sending.length + claim.sending.length =
      s.sending.length + claim'.sending.length := by
    rw [State.sending, hclaims]
    exact length_flatMap_set Claim.sending hi claim'
  have hmessages := h.messages
  refine ⟨?_, ?_, ?_⟩
  · rw [hconsumed, hlog, consumedIn_append, List.length_append, h.consumed]
  · rw [hundecodable, hlog, undecodableIn_append, List.length_append, h.undecodable]
  · rw [hconsumed, hundecodable, hlog, droppedIn_append, List.length_append]
    omega

theorem Tallied.claim {claim : Claim} (h : Tallied s) (hi : s.claims[i]? = some claim)
    (hm : ClaimMove c s i claim t) : Tallied t := by
  cases hm with
  | @skip d rest e hp =>
    refine h.of_claim (l := [.consumed d, .undecodable d]) hi rfl (List.append_assoc _ _ _) rfl
      rfl ?_
    simp [Claim.sending, hp, consumedIn, undecodableIn, droppedIn, State.setClaim]
  | @decode d rest event hp =>
    refine h.of_claim (l := [.consumed d]) hi rfl rfl rfl rfl ?_
    simp [Claim.sending, hp, consumedIn, undecodableIn, droppedIn, State.setClaim]
  | finish hp | drop hp =>
    refine h.of_claim (l := []) hi rfl (List.append_nil _).symm rfl rfl ?_
    simp [Claim.sending, hp, consumedIn, undecodableIn, droppedIn, State.setClaim]
  | send hp hm =>
    obtain ⟨-, haccepted⟩ := Sink.State.accepted_of_offer hm
    refine h.of_claim (l := []) hi rfl (List.append_nil _).symm rfl rfl ?_
    simp [Claim.sending, hp, consumedIn, undecodableIn, droppedIn, State.setClaim, haccepted,
      Nat.add_comm]
  | @abandon m hp =>
    refine h.of_claim (l := [.abandoned m]) hi rfl rfl rfl rfl ?_
    simp [Claim.sending, hp, consumedIn, undecodableIn, droppedIn, State.setClaim, State.record]

theorem Tallied.aside (h : Tallied s) (hm : s.Aside t) : Tallied t := by
  obtain ⟨more, hlog, hmore⟩ := hm.log
  obtain ⟨hconsumed, hundecodable, hdropped⟩ := hmore.nothing
  refine ⟨?_, ?_, ?_⟩
  · rw [hm.intake, hlog, consumedIn_append, hconsumed, List.append_nil]
    exact h.consumed
  · rw [hm.intake, hlog, undecodableIn_append, hundecodable, List.append_nil]
    exact h.undecodable
  · rw [hm.intake, hlog, droppedIn_append, hdropped, List.append_nil, hm.accepted, hm.sending]
    exact h.messages

theorem State.Reachable.tallied (h : s.Reachable c writer plans) : Tallied s := by
  induction h with
  | initial => exact ⟨rfl, rfl, rfl⟩
  | step _ ht ih =>
    rcases State.step_cases ht with ⟨i, claim, -, hi, hm⟩ | ⟨-, hm⟩
    · exact ih.claim hi hm
    · exact ih.aside hm

theorem State.Over.sending (h : s.Over) (ha : Attended s) : s.sending = [] := by
  refine List.flatMap_eq_nil_iff.2 fun claim hmem => ?_
  rw [Claim.sending, h.finished ha claim hmem]

/-! ## Marks -/

/-- A move marks an acknowledgment, or leaves what is marked. -/
theorem Move.marks (hm : Move c s t) :
    (t.marks = s.marks ∧ ackMarkedIn t.log = ackMarkedIn s.log) ∨
      ∃ a, t.marks = s.marks.countAll (a.mark c.refuses) ∧
        ackMarkedIn t.log = ackMarkedIn s.log ++ [a] := by
  cases hm with
  | claim _ hm =>
    cases hm with
    | skip | decode | abandon =>
      refine .inl ⟨rfl, ?_⟩
      simp only [State.setClaim, State.record, ackMarkedIn_concat, List.append_nil]
    | _ => exact .inl ⟨rfl, rfl⟩
  | coordinate _ hm =>
    cases hm with
    | mark => exact .inr ⟨_, rfl, ackMarkedIn_mark _⟩
    | _ => exact .inl ⟨rfl, rfl⟩
  | close _ _ hm =>
    cases hm with
    | begin | leaveGroup | publish =>
      refine .inl ⟨rfl, ?_⟩
      simp [State.become, State.record]
    | _ => exact .inl ⟨rfl, rfl⟩
  | start _ hm =>
    cases hm with
    | begin | serveNothing | serve | serveFreely | sessionFails | sessionBreaksOff =>
      refine .inl ⟨rfl, ?_⟩
      simp [State.become, State.nextSession, State.record]
    | _ => exact .inl ⟨rfl, rfl⟩
  | _ => exact .inl ⟨rfl, rfl⟩

/-- Every offset that was reported to a session is counted. -/
theorem State.Reachable.marks_eq (h : s.Reachable c writer plans) :
    s.marks = MarkCounts.countAll {} s.attempts := by
  rw [h.attempts_eq]
  refine State.Reachable.induct (P := fun s => s.marks =
    MarkCounts.countAll {} ((ackMarkedIn s.log).flatMap (Ack.mark c.refuses))) h rfl ?_
  intro s t _ ih hm
  rcases hm.marks with ⟨hmarks, hlog⟩ | ⟨a, hmarks, hlog⟩
  · rw [hmarks, hlog, ih]
  · rw [hmarks, hlog, ih, List.flatMap_append, List.flatMap_singleton, MarkCounts.countAll_append]

theorem State.Reachable.length_attempts (h : s.Reachable c writer plans) :
    s.attempts.length = ((ackMarkedIn s.log).map (fun a => 1 + a.chainedKeys.length)).sum := by
  rw [h.attempts_eq, List.length_flatMap]
  exact congrArg List.sum (List.map_congr_left fun a _ => a.length_mark c.refuses)

theorem State.Reachable.offsetsMarked_eq (h : s.Reachable c writer plans) :
    s.marks.offsetsMarked = s.attempts.countP (fun x => x.accepted) := by
  have hsum := (MarkCounts.countAll_sums s.attempts {}).1
  rwa [← h.marks_eq, Nat.zero_add] at hsum

theorem State.Reachable.markErrors_eq (h : s.Reachable c writer plans) :
    s.marks.markErrors = s.attempts.countP (fun x => !x.accepted) := by
  have hsum := (MarkCounts.countAll_sums s.attempts {}).2
  rwa [← h.marks_eq, Nat.zero_add] at hsum

/-! ## Nothing is on its way -/

section
variable (h : s.Reachable c writer plans) (hl : s.lifecycle = .closed)

include h hl

theorem State.Reachable.not_emitting_of_closed : ¬s.sink.phase.emitting := by
  rw [(h.quiet_of_closed hl).1]
  exact Bool.false_ne_true

/-- Once the consumer is closed, every acknowledgment that the sink counted is in its log, -/
theorem State.Reachable.acksEmitted_of_closed (hr : c.sink.WritesRecords) :
    s.sink.counts.acksEmitted = (emittedIn s.sink.log).length := by
  have hsent := (h.sink.ledger hr).sent
  rw [if_neg (h.not_emitting_of_closed hl), Sink.acksIn_eq_emittedIn h.acks_marked_once.1] at hsent
  exact hsent

/-- the bytes it counted are those of the records acknowledged, -/
theorem State.Reachable.bytesWritten_of_closed (hr : c.sink.WritesRecords) :
    ∃ segments, Sink.Segmented c.sink s.sink segments ∧
      s.sink.counts.bytesWritten = (segments.flatten.map (fun e => e.2.length)).sum := by
  obtain ⟨segments, hsegments⟩ := h.sink.segmented hr
  refine ⟨segments, hsegments, ?_⟩
  have hbytes := (h.sink.ledger hr).bytes
  rw [if_neg (h.not_emitting_of_closed hl), hsegments.ackedIn, Sink.Segment.bytes,
    List.length_flatMap] at hbytes
  exact hbytes

/-- and what is marked is what was acknowledged. -/
theorem State.Reachable.marks_of_closed : s.marks.offsetsMarked + s.marks.markErrors =
    ((emittedIn s.sink.log).map (fun a => 1 + a.chainedKeys.length)).sum := by
  rw [h.offsetsMarked_eq, h.markErrors_eq, Attempt.countP_accepted, h.length_attempts,
    h.acks_marked_once.2.1 hl]

end

/-! ## When a run is over -/

/-- The counters of a consumer account for all that happened in a run. -/
structure Balanced (c : Setup ω) (s : State ω) (actions : List Action) (t : State ω) : Prop where
  /-- Whatever was consumed held no event, went to the sink, or was given up, -/
  consumed : t.intake.messagesConsumed = (consumedIn t.log).length
  undecodable : t.intake.decodeErrors = (undecodableIn t.log).length
  messages : t.intake.messagesConsumed =
    t.intake.decodeErrors + (acceptedIn t.sink.log).length + (s.drops c actions).length
  /-- which a claim does once at most, in its last move. -/
  dropped : (s.drops c actions).map Prod.snd = droppedIn t.log
  drops : DropsLast c s actions
  /-- Every flush that succeeded was counted and timed, and an acknowledgment followed it. -/
  flushes : t.sink.counts.flushes = t.sink.log.count (.flushed true)
  timed : t.sink.counts.flushesTimed = t.sink.counts.flushes
  acks : t.sink.counts.acksEmitted = t.sink.counts.flushes
  emitted : t.sink.counts.acksEmitted = (emittedIn t.sink.log).length
  /-- The bytes counted are those of the records that were acknowledged. -/
  bytes : ∃ segments, Sink.Segmented c.sink t.sink segments ∧
    t.sink.counts.bytesWritten = (segments.flatten.map (fun e => e.2.length)).sum
  /-- For each acknowledgment an offset was reported for its anchor and one for every partition
  that is chained, and each of them was counted as what it came to. -/
  marked : t.marks.offsetsMarked = t.attempts.countP (fun x => x.accepted)
  refused : t.marks.markErrors = t.attempts.countP (fun x => !x.accepted)
  marks : t.marks.offsetsMarked + t.marks.markErrors =
    ((emittedIn t.sink.log).map (fun a => 1 + a.chainedKeys.length)).sum
  keys : ∀ a ∈ emittedIn t.sink.log, a.chainedKeys.Nodup ∧
    ∀ k, k ∈ a.chainedKeys ↔ (a.chainedOffset? k).isSome

/-- Whatever the group, the writer, the sessions and the callers do: when a run of a consumer over a
planned group has come to its end, the counters account for all that happened in it. -/
theorem State.Over.accounts_balance (h : s.Over) (hn : .free ∉ plans)
    (hrecords : c.sink.WritesRecords)
    (hrun : (State.initial writer plans).run c actions = some s) :
    Balanced c (.initial writer plans) actions s := by
  have hr : s.Reachable c writer plans := .run .initial hrun
  have htallied := hr.tallied
  have hledger := hr.sink.ledger hrecords
  have hdropped : ((State.initial writer plans).drops c actions).map Prod.snd = droppedIn s.log :=
    (State.map_snd_drops hrun).symm
  have hmessages := htallied.messages
  rw [h.sending (hr.attended hn), ← hdropped, List.length_map] at hmessages
  exact
    { consumed := htallied.consumed
      undecodable := htallied.undecodable
      messages := hmessages
      dropped := hdropped
      drops := State.dropsLast hn hrun
      flushes := hledger.flushes
      timed := hledger.timed
      acks := hledger.acks
      emitted := hr.acksEmitted_of_closed h.closed hrecords
      bytes := hr.bytesWritten_of_closed h.closed hrecords
      marked := hr.offsetsMarked_eq
      refused := hr.markErrors_eq
      marks := hr.marks_of_closed h.closed
      keys := fun a _ => ⟨a.chained.nodup_keys, fun k => Ack.mem_chainedKeys⟩ }

/-- A consumer that makes a record of one byte from a message and holds back two of them. Its third
flush fails, and its sessions take no mark of one of the partitions. -/
def refusesOther : Setup Writer.Calls where
  sink :=
    { marshal := fun _ m => .ok [UInt8.ofNat m.ack.offset.toNat]
      writer := Writer.scripted { failFlush := some 3 }
      options := .of 1 2 }
  decode _ := .ok .default
  refuses _ key := key.partition = 1
  closeError := none

theorem refusesOther_writesRecords : refusesOther.sink.WritesRecords := by
  intro n m bytes h
  obtain rfl := Except.ok.inj h
  exact List.cons_ne_nil _ _

/-- Messages of two partitions, one of which holds no event. -/
def twoPartitions : List Plan :=
  [.serve
    [(⟨"events", 0⟩,
      [⟨⟨"events", 0⟩, 1, some []⟩, ⟨⟨"events", 0⟩, 2, none⟩, ⟨⟨"events", 0⟩, 3, some []⟩,
        ⟨⟨"events", 0⟩, 4, some []⟩]),
    (⟨"events", 1⟩,
      [⟨⟨"events", 1⟩, 7, some []⟩, ⟨⟨"events", 1⟩, 8, some []⟩, ⟨⟨"events", 1⟩, 9, some []⟩,
        ⟨⟨"events", 1⟩, 10, some []⟩, ⟨⟨"events", 1⟩, 11, some []⟩])]]

/-- What comes of a call of `start` for them: the sink fails, and that ends the run. -/
def endedByFailure : State Writer.Calls :=
  State.settle refusesOther 120 { State.initial {} twoPartitions with tasks := [.start .entering] }

theorem endedByFailure_over : endedByFailure.Over := ⟨by decide, by decide⟩

theorem accounts_balance_endedByFailure : ∃ actions,
    (State.initial {} twoPartitions).run refusesOther actions = some endedByFailure ∧
      Balanced refusesOther (.initial {} twoPartitions) actions endedByFailure ∧
      endedByFailure.intake = ⟨9, 1⟩ ∧ (droppedIn endedByFailure.log).length = 1 ∧
      endedByFailure.sink.counts.flushes = 2 ∧ endedByFailure.sink.counts.bytesWritten = 4 ∧
      endedByFailure.marks.offsetsMarked = 3 ∧ endedByFailure.marks.markErrors = 1 := by
  obtain ⟨actions, hactions⟩ := State.exists_run_settle (c := refusesOther)
    { State.initial {} twoPartitions with tasks := [.start .entering] } 120
  have hrun : (State.initial {} twoPartitions).run refusesOther (.callStart :: actions) =
      some endedByFailure := hactions
  exact ⟨_, hrun, endedByFailure_over.accounts_balance (by decide) refusesOther_writesRecords hrun,
    by decide, by decide, by decide, by decide, by decide, by decide⟩

end Consumer

end EventPipeline
