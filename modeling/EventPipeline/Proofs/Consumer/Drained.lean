import EventPipeline.Proofs.Consumer.Drawn
import EventPipeline.Proofs.Consumer.Durability
import EventPipeline.Proofs.Consumer.Lifecycle
import EventPipeline.Proofs.Sink.Reliable
/-!
# A consumer that is closed once all was sent

A consumer whose sink never fails and whose marks are all taken, and that is closed only
after every message was sent or dropped for holding no event, loses none of them, whatever
the order in which its parts move. While it runs the sink takes what is sent
(`Undisturbed`); once it closes there is nothing left to send. So the order of the moves
only decides how the messages of the claims are mixed, not which records are written, nor
how far each partition is marked.
-/
namespace EventPipeline.Consumer

open Sink (Segment acceptedIn recordsIn writtenIn)

variable {ω ω' : Type} {c : Setup ω} {c' : Setup ω'} {writer : ω} {writer' : ω'}
  {plans : List Plan} {s t : State ω} {s' : State ω'}

/-- Nothing is still to be sent. -/
def State.Drained (c : Setup ω) (s : State ω) : Prop := ∀ l ∈ s.remaining c, l = []

instance : Decidable (s.Drained c) := inferInstanceAs (Decidable (∀ l ∈ s.remaining c, l = []))

/-- A step that begins to close the consumer only if nothing is still to be sent. -/
def ClosesDrained (c : Setup ω) (s t : State ω) : Prop :=
  t.lifecycle = .closing → s.lifecycle = .closing ∨ s.Drained c

instance : Decidable (ClosesDrained c s t) :=
  inferInstanceAs (Decidable (t.lifecycle = .closing → s.lifecycle = .closing ∨ s.Drained c))

/-- Every message can be marshaled, the writer never fails, and every mark is taken. -/
structure Setup.Reliable (c : Setup ω) : Prop where
  sink : c.sink.Reliable
  takesMarks : ∀ session key, c.refuses session key = false

/-- The offsets of a partition whose messages hold an event. -/
def Setup.offsets (c : Setup ω) (plans : List Plan) (key : Key) : List Int :=
  ((c.planned 0 plans).flatten.filter (fun m => m.ack.key = key)).map (·.ack.offset)

theorem Setup.mem_offsets {m : Sink.Message} (hm : m ∈ (c.planned 0 plans).flatten) :
    m.ack.offset ∈ c.offsets plans m.ack.key :=
  List.mem_map_of_mem (List.mem_filter.2 ⟨hm, by simp⟩)

/-- Calling `close` does not begin to close the consumer yet. -/
theorem State.Leads.callClose {u : State ω} (h : s.Leads c (ClosesDrained c) u) :
    s.Leads c (ClosesDrained c) { u with tasks := u.tasks ++ [.close .entering] } :=
  h.step (a := .callClose) rfl .inl

/-! ## While the consumer runs -/

/-- Only a call of `close` wants the sink to stop. -/
theorem Move.wanted (hm : Move c s t) (hcalls : Calls s) (hs : s.sink.Wanted)
    (hok : s.sink.failures = []) : t.sink.Wanted ∨ t.Ending := by
  cases hm with
  | sinkTake hm => exact .inl (hs.take hm)
  | sinkWindUp hm => exact .inl (hs.windUp hm)
  | sinkWork hm => exact .inl (hs.work hok hm)
  | claim _ hm =>
    cases hm with
    | send _ hm => exact .inl (hs.offer hm)
    | _ => exact .inl hs
  | coordinate _ hm => cases hm <;> exact .inl ⟨hs.notAsked, hs.held, hs.inputOpen⟩
  | close htask hi hm =>
    cases hm with
    | stopSink => exact .inr (.inl (hcalls.only_closer htask hi rfl).1)
    | _ => exact .inl hs
  | start _ hm => cases hm <;> exact .inl hs
  | _ => exact .inl hs

/-- No group is free, and none is going to be. -/
def State.Planned (s : State ω) : Prop := s.free = false ∧ .free ∉ s.plans

theorem State.Planned.move (h : s.Planned) (hm : Move c s t) : t.Planned := by
  have hrest {p : Plan} {rest : List Plan} (hp : s.plans = p :: rest) : .free ∉ rest :=
    fun hmem => h.2 (hp ▸ List.mem_cons_of_mem p hmem)
  cases hm with
  | claim _ hm => cases hm <;> exact h
  | coordinate _ hm => cases hm <;> exact h
  | close _ _ hm => cases hm <;> exact h
  | start _ hm =>
    cases hm with
    | serveFreely hp => exact absurd (hp ▸ List.mem_cons_self) h.2
    | serve hp | sessionFails hp | sessionBreaksOff hp => exact ⟨h.1, hrest hp⟩
    | _ => exact h
  | _ => exact h

/-- While the consumer runs the sink takes what is sent, and what it took was drawn from what is
planned. Nothing is still to be sent once the consumer ends. -/
structure Undisturbed (c : Setup ω) (plans : List Plan) (s : State ω) : Prop where
  planned : s.Planned
  wanted : s.sink.Wanted ∨ s.Ending
  drained : s.Ending → s.Drained c
  drawn : Drawn (c.planned 0 plans) (acceptedIn s.sink.log) (s.remaining c)

theorem Undisturbed.move (h : Undisturbed c plans s) (hc : c.Reliable)
    (hr : s.Reachable c writer plans) (hm : Move c s t) (hcloses : ClosesDrained c s t) :
    Undisturbed c plans t := by
  have hdraws := hm.draws hr.calls h.planned.1
  refine ⟨h.planned.move hm, ?_, fun ht => ?_, ?_⟩
  · rcases h.wanted with hs | hs
    · exact hm.wanted hr.calls hs (hr.sink.never_fails hc.sink)
    · exact .inr (hm.ending hs)
  · have hs : s.Drained c := by
      rcases hm.ending_of hr.calls ht with hs | hclosing
      · exact h.drained hs
      · exact (hcloses hclosing).elim (fun hs => h.drained (.inl hs)) id
    rw [State.Drained, (hdraws.of_drained hs).1]
    exact hs
  · cases hdraws with
    | nothing hremaining haccepted =>
      rw [hremaining, haccepted]
      exact h.drawn
    | sends hi hremaining haccepted =>
      rw [hremaining, haccepted]
      exact h.drawn.next hi
    | abandons hmay hi =>
      -- only a sink that nobody wants any more turns a message away, and then there is none left
      have hclosed : s.sink.inputOpen = false := by
        rcases hmay with hs | hs
        · exact (hr.sink.windingUp.stopped (hr.sinkFirst.shutdown hs)).1
        · exact hs
      rcases h.wanted with hs | hs
      · exact absurd hs.inputOpen (by simp [hclosed])
      · cases h.drained hs _ (List.mem_of_getElem? hi)

theorem State.Leads.undisturbed (h : (State.initial writer plans).Leads c (ClosesDrained c) s)
    (hc : c.Reliable) (hn : .free ∉ plans) : Undisturbed c plans s := by
  have hinitial : (State.initial writer plans).Reachable c writer plans := .initial
  refine h.induct hinitial ⟨⟨rfl, hn⟩, .inl ⟨rfl, rfl, rfl⟩, fun he => ?_, .nothing⟩
    fun _ _ hr ih hm hcloses => ih.move hc hr hm hcloses
  rcases he with he | he <;> cases he

/-! ## Once it is closed -/

/-- Whatever is marked is an offset whose message holds an event. -/
theorem Undisturbed.mem_offsets (h : Undisturbed c plans s) (hr : s.Reachable c writer plans)
    {a : Attempt} (ha : a ∈ s.attempts) : a.offset ∈ c.offsets plans a.key := by
  obtain ⟨x, hx, hmarked⟩ := List.mem_filterMap.1 ha
  obtain rfl : x = .marked a := by
    cases x <;> first | cases hmarked; rfl | cases hmarked
  obtain ⟨sent, held, extra, haccounted, -⟩ := hr.sink.progress
  obtain ⟨e, he, hpos⟩ := hr.acknowledged_of_marked hx haccounted.acks
  have hplanned : e.1 ∈ (c.planned 0 plans).flatten :=
    h.drawn.subset ((accepted_of_accounted hr.sink.intake haccounted).subset
      (List.mem_map_of_mem he))
  obtain ⟨session, key, offset, hack⟩ := exists_of_mem_planned hplanned
  have hoffset := Setup.mem_offsets hplanned
  rw [hack, Ack.positions_ofMessage, List.mem_singleton, Prod.mk.injEq] at hpos
  rw [hpos.1, hpos.2]
  rwa [hack] at hoffset

/-- All messages that hold an event became records, those of each claim in its order, and all
records were written one after the other. Each partition is marked up to the highest offset whose
message holds an event. -/
structure Complete (c : Setup ω) (plans : List Plan) (s : State ω) : Prop where
  messages : ∃ left, Drawn (c.planned 0 plans) ((recordsIn s.sink.log).map Prod.fst) left ∧
    ∀ l ∈ left, l = []
  made : ∀ i m record, (recordsIn s.sink.log)[i]? = some (m, record) →
    c.sink.marshal (i + 1) m = .ok record
  written : writtenIn s.sink.log = Segment.bytes (recordsIn s.sink.log)
  highest : ∀ key, (Attempt.highest s.attempts).find? key = (c.offsets plans key).max?

/-- What holds an event is marked, or something higher of its partition is. -/
theorem Undisturbed.highest_reaches (h : Undisturbed c plans s) (hc : c.Reliable)
    (hr : s.Reachable c writer plans) (hl : s.lifecycle = .closed) {key : Key} {offset : Int}
    (ho : offset ∈ c.offsets plans key) : (Attempt.highest s.attempts).Reaches (key, offset) := by
  obtain ⟨m, hm, rfl⟩ := List.mem_map.1 ho
  obtain ⟨hplanned, hkey⟩ := List.mem_filter.1 hm
  obtain rfl := of_decide_eq_true hkey
  have haccepted : m ∈ acceptedIn s.sink.log := by
    have hmem := h.drawn.perm.mem_iff.2 hplanned
    rwa [List.flatten_eq_nil_iff.2 (h.drained (.inr hl)), List.append_nil] at hmem
  obtain ⟨sent, hwhole⟩ := hr.whole hl (hr.sink.not_failed hc.sink)
  obtain ⟨a, ha, covered, hcovered, hle⟩ := hwhole.covered haccepted
  have hattempt : ⟨a.session, m.ack.key, covered, true⟩ ∈ s.attempts := by
    rw [hr.attempts_eq]
    refine List.mem_flatMap.2 ⟨a, ha, List.mem_map.2 ⟨_, hcovered, ?_⟩⟩
    simp [hc.takesMarks]
  obtain ⟨highest, hfind, hhigh⟩ := Attempt.highest_reaches hattempt rfl
  exact ⟨highest, hfind, Int.le_trans hle hhigh⟩

theorem Undisturbed.highest (h : Undisturbed c plans s) (hc : c.Reliable)
    (hr : s.Reachable c writer plans) (hl : s.lifecycle = .closed) (key : Key) :
    (Attempt.highest s.attempts).find? key = (c.offsets plans key).max? := by
  symm
  cases hfind : (Attempt.highest s.attempts).find? key with
  | none =>
    rw [List.max?_eq_none_iff, List.eq_nil_iff_forall_not_mem]
    intro offset ho
    obtain ⟨highest, hhighest, -⟩ := h.highest_reaches hc hr hl ho
    rw [hfind] at hhighest
    cases hhighest
  | some highest =>
    rw [List.max?_eq_some_iff]
    constructor
    · obtain ⟨a, ha, -, rfl, rfl⟩ := Attempt.mem_of_highest hfind
      exact h.mem_offsets hr ha
    · intro offset ho
      obtain ⟨highest', hhighest, hle⟩ := h.highest_reaches hc hr hl ho
      rw [hfind] at hhighest
      rwa [Option.some.inj hhighest]

theorem Undisturbed.complete (h : Undisturbed c plans s) (hc : c.Reliable)
    (hr : s.Reachable c writer plans) (hl : s.lifecycle = .closed) : Complete c plans s := by
  obtain ⟨sent, hwhole⟩ := hr.whole hl (hr.sink.not_failed hc.sink)
  have hrecords : recordsIn s.sink.log = sent.flatten := by
    rw [hwhole.accounted.records, List.append_nil]
  refine ⟨⟨s.remaining c, ?_, h.drained (.inr hl)⟩, hr.sink.intake.made, ?_, h.highest hc hr hl⟩
  · rw [hrecords, ← hwhole.accepted]
    exact h.drawn
  · rw [hrecords, hwhole.written]

/-! ## Two runs -/

/-- What is planned to be sent depends on how messages are decoded, and on nothing else. -/
theorem Setup.planned_eq (hdecode : c'.decode = c.decode) (n : Nat) (plans : List Plan) :
    c'.planned n plans = c.planned n plans := by
  have hmessage (session : Nat) : c'.message? session = c.message? session := by
    funext d
    simp only [Setup.message?, Setup.event, hdecode]
  induction plans generalizing n with
  | nil => rfl
  | cons p plans ih =>
    rw [Setup.planned, Setup.planned, ih]
    cases p <;> simp only [Plan.messages, hmessage]

/-- Which records a consumer makes is known from the plans, if the marshaler goes by the message. -/
theorem Complete.records_perm (h : Complete c plans s) {record : Sink.Message → Bytes}
    (hrecord : ∀ n m, c.sink.marshal n m = .ok (record m)) :
    (recordsIn s.sink.log).Perm ((c.planned 0 plans).flatten.map (fun m => (m, record m))) := by
  obtain ⟨left, hdrawn, hleft⟩ := h.messages
  have hmade : recordsIn s.sink.log =
      ((recordsIn s.sink.log).map Prod.fst).map (fun m => (m, record m)) := by
    rw [List.map_map]
    refine (List.map_id _).symm.trans (List.map_congr_left fun e he => ?_)
    obtain ⟨i, hi⟩ := List.getElem?_of_mem he
    have hmade := h.made i e.1 e.2 hi
    rw [hrecord] at hmade
    exact Prod.ext rfl (Except.ok.inj hmade).symm
  have hperm := hdrawn.perm
  rw [List.flatten_eq_nil_iff.2 hleft, List.append_nil] at hperm
  rw [hmade]
  exact hperm.map _

/-- A consumer that is closed only once all was sent: whatever is marked, at any time, is an offset
whose message holds an event; once it is closed, as it is when a call of `close` has returned,
nothing is missing; and another run with these plans and this decoder, whatever its capacities, its
writer and the order of its moves, marks each partition as far and makes the same records. -/
theorem State.Leads.drained_shutdown (hn : .free ∉ plans) (hc : c.Reliable) (hc' : c'.Reliable)
    (hdecode : c'.decode = c.decode)
    (hs : (State.initial writer plans).Leads c (ClosesDrained c) s)
    (hs' : (State.initial writer' plans).Leads c' (ClosesDrained c') s') :
    (∀ a ∈ s.attempts, a.offset ∈ c.offsets plans a.key) ∧
      (s.lifecycle = .closed → Complete c plans s) ∧
      (s.lifecycle = .closed → s'.lifecycle = .closed →
        Attempt.highest s.attempts = Attempt.highest s'.attempts ∧
        ∀ record : Sink.Message → Bytes, (∀ n m, c.sink.marshal n m = .ok (record m)) →
          (∀ n m, c'.sink.marshal n m = .ok (record m)) →
          (recordsIn s.sink.log).Perm (recordsIn s'.sink.log)) := by
  have hr := hs.reachable .initial
  have hr' := hs'.reachable .initial
  have hu := hs.undisturbed hc hn
  have hu' := hs'.undisturbed hc' hn
  refine ⟨fun a => hu.mem_offsets hr, hu.complete hc hr, fun hl hl' => ⟨?_, ?_⟩⟩
  · refine Dict.ext_find? fun key => ?_
    rw [hu.highest hc hr hl, hu'.highest hc' hr' hl', Setup.offsets, Setup.offsets,
      Setup.planned_eq hdecode]
  · intro record hrecord hrecord'
    have hperm' := (hu'.complete hc' hr' hl').records_perm hrecord'
    rw [Setup.planned_eq hdecode] at hperm'
    exact ((hu.complete hc hr hl).records_perm hrecord).trans hperm'.symm

/-- Messages of two sessions, the second of which serves another partition. One holds no event. -/
def rebalanced : List Plan :=
  [.serve [(⟨"events", 0⟩, [⟨⟨"events", 0⟩, 1, some [0]⟩, ⟨⟨"events", 0⟩, 2, none⟩])],
    .serve [(⟨"events", 1⟩, [⟨⟨"events", 1⟩, 7, some [0]⟩])]]

/-- A consumer that makes a record of one byte from a message. -/
def oneByteEach (options : Sink.Options) : Setup Writer.Calls where
  sink :=
    { marshal := fun _ m => .ok [UInt8.ofNat m.ack.offset.toNat]
      writer := Writer.scripted {}
      options := options }
  decode _ := .ok .default
  refuses _ _ := false
  closeError := none

example (options : Sink.Options) :
    (oneByteEach options).offsets rebalanced ⟨"events", 0⟩ = [1] := rfl

theorem oneByteEach_reliable (options : Sink.Options) : (oneByteEach options).Reliable where
  sink :=
    { marshal := fun _ _ => ⟨_, rfl⟩
      writer :=
        { write := fun _ bytes hne =>
            .inr ⟨bytes.length, List.length_pos_iff.2 hne, Nat.le_refl _,
              congrArg WriteAnswer.accepted (Nat.min_self _)⟩
          flush := fun _ => rfl } }
  takesMarks _ _ := rfl

/-- What comes of a call of `start` before anybody closes the consumer. -/
def drainedStart (options : Sink.Options) : State Writer.Calls :=
  State.settleWithin (oneByteEach options) (ClosesDrained (oneByteEach options)) 60
    { State.initial {} rebalanced with tasks := [.start .entering] }

/-- What comes of a call of `close` after that. -/
def drainedShutdown (options : Sink.Options) : State Writer.Calls :=
  State.settleWithin (oneByteEach options) (ClosesDrained (oneByteEach options)) 60
    { drainedStart options with tasks := (drainedStart options).tasks ++ [.close .entering] }

theorem drainedShutdown_leads (options : Sink.Options) :
    (State.initial {} rebalanced).Leads (oneByteEach options)
      (ClosesDrained (oneByteEach options)) (drainedShutdown options) := by
  have hstart : (State.initial {} rebalanced).Leads (oneByteEach options)
      (ClosesDrained (oneByteEach options)) (drainedStart options) :=
    .settleWithin (.step (a := .callStart) .refl rfl fun hl => (by cases hl)) 60
  exact hstart.callClose.settleWithin 60

theorem drained_shutdown_rebalanced :
    (drainedShutdown (.of 1 1)).lifecycle = .closed ∧
      (drainedShutdown (.of 8 64)).lifecycle = .closed ∧
      Complete (oneByteEach (.of 1 1)) rebalanced (drainedShutdown (.of 1 1)) ∧
      (recordsIn (drainedShutdown (.of 1 1)).sink.log).Perm
        (recordsIn (drainedShutdown (.of 8 64)).sink.log) := by
  have hclosed : (drainedShutdown (.of 1 1)).lifecycle = .closed := by decide
  have hclosed' : (drainedShutdown (.of 8 64)).lifecycle = .closed := by decide
  obtain ⟨-, hcomplete, hagree⟩ := State.Leads.drained_shutdown (by decide)
    (oneByteEach_reliable (.of 1 1)) (oneByteEach_reliable (.of 8 64)) rfl
    (drainedShutdown_leads (.of 1 1)) (drainedShutdown_leads (.of 8 64))
  exact ⟨hclosed, hclosed', hcomplete hclosed,
    (hagree hclosed hclosed').2 _ (fun _ _ => rfl) (fun _ _ => rfl)⟩

end EventPipeline.Consumer
