import EventPipeline.Proofs.Ack.Coverage
import EventPipeline.Proofs.Consumer.Delivery
import EventPipeline.Proofs.Sink.Segmentation
/-!
# Marks stay behind the output

An offset is marked once the sink acknowledged its message, and the sink takes the
messages of a partition in the order of delivery. So whatever was delivered of a
partition up to a marked offset was written and flushed before.
-/
namespace EventPipeline.Consumer

open Sink (Segment acceptedIn takenIn recordsIn writtenIn)

variable {ω : Type} {c : Setup ω} {writer : ω} {plans : List Plan} {s : State ω}

/-- The message became a record, and the writer took the output up to the end of that record, as
far as there is any, and then flushed. -/
def Durable (c : Sink.Setup ω) (s : Sink.State ω) (m : Sink.Message) : Prop :=
  ∃ earlier record later, recordsIn s.log = earlier ++ (m, record) :: later ∧
    c.marshal (earlier.length + 1) m = .ok record ∧
    (Segment.bytes earlier ++ record ≠ [] → ∃ before after,
      s.log = before ++ .flushed true :: after ∧
        Segment.bytes earlier ++ record <+: writtenIn before)

/-! ## What is expected of a partition -/

/-- An expected message has the acknowledgment of a single message. -/
theorem exists_of_mem_expected {key : Key} {k : Nat} {m : Sink.Message}
    (h : m ∈ c.expected key k plans) :
    ∃ session key offset, m.ack = .ofMessage session key offset := by
  induction plans generalizing k with
  | nil => cases h
  | cons p rest ih =>
    rcases List.mem_append.1 h with h | h
    · obtain ⟨d, -, hm⟩ := List.mem_filterMap.1 h
      exact ⟨_, _, _, Setup.ack_of_message? hm⟩
    · exact ih h

theorem offsets_sublist (session : Nat) (l : List Delivery) :
    ((l.filterMap (c.message? session)).map (·.ack.offset)).Sublist (l.map Delivery.offset) := by
  induction l with
  | nil => exact .slnil
  | cons d l ih =>
    cases hm : c.message? session d with
    | none =>
      rw [List.filterMap_cons_none hm]
      exact ih.cons _
    | some m =>
      rw [List.filterMap_cons_some hm]
      have hoffset : m.ack.offset = d.offset := by rw [Setup.ack_of_message? hm]; rfl
      rw [List.map_cons, List.map_cons, hoffset]
      exact ih.cons_cons _

/-- The offsets expected of a partition are some of those delivered, in order. -/
theorem Setup.expected_sublist (c : Setup ω) (key : Key) (k : Nat) (plans : List Plan) :
    ((c.expected key k plans).map (·.ack.offset)).Sublist
      ((plans.flatMap (Plan.deliveries key)).map Delivery.offset) := by
  induction plans generalizing k with
  | nil => exact .slnil
  | cons p rest ih =>
    rw [List.flatMap_cons, List.map_append, Setup.expected, List.map_append]
    exact (offsets_sublist (k + 1) _).append (ih (k + 1))

/-- Whatever is marked is a position of some message among those acknowledged. -/
theorem State.Reachable.acknowledged_of_marked (h : s.Reachable c writer plans) {t : Attempt}
    (ht : .marked t ∈ s.log) {sent : List Segment}
    (hacks : (Sink.acksIn s.sink.log).map some = sent.map Segment.ack?) :
    ∃ e ∈ sent.flatten, (t.key, t.offset) ∈ e.1.ack.positions := by
  have hattempt : t ∈ s.attempts := List.mem_filterMap.2 ⟨_, ht, rfl⟩
  rw [h.attempts_eq] at hattempt
  obtain ⟨a, ha, hmark⟩ := List.mem_flatMap.1 hattempt
  obtain ⟨p, hp, rfl⟩ := List.mem_map.1 hmark
  have hemitted : a ∈ Sink.emittedIn s.sink.log := by
    rw [h.delivers.emitted]
    exact List.mem_append_left _ ha
  have hsome : some a ∈ sent.map Segment.ack? := by
    rw [← hacks]
    exact List.mem_map_of_mem (Sink.mem_acksIn_of_mem_emittedIn hemitted)
  obtain ⟨g, hg, hga⟩ := List.mem_map.1 hsome
  obtain ⟨e, he, hpe⟩ := Segment.mem_positions_of_ack? hga hp
  exact ⟨e, List.mem_flatten.2 ⟨g, hg, he⟩, hpe⟩

/-- What is acknowledged is the first part of what was accepted. -/
theorem accepted_of_accounted {sink : Sink.State ω} {sent : List Segment} {rest : Segment}
    (hin : Sink.Intake c.sink sink) (ha : Sink.Accounted sink.log sent rest) :
    sent.flatten.map Prod.fst <+: acceptedIn sink.log := by
  have hrecords : sent.flatten <+: recordsIn sink.log := by
    rw [ha.records]
    exact List.prefix_append _ _
  have htaken : takenIn sink.log <+: acceptedIn sink.log := by
    rw [hin.accepted]
    exact List.prefix_append _ _
  exact ((hrecords.map _).trans hin.marshaled).trans htaken

/-- An acknowledged message is durable. -/
theorem durable_of_mem {sink : Sink.State ω} {sent : List Segment} {rest : Segment}
    {m : Sink.Message} (hin : Sink.Intake c.sink sink) (ha : Sink.Accounted sink.log sent rest)
    (hm : m ∈ sent.flatten.map Prod.fst) : Durable c.sink sink m := by
  obtain ⟨⟨m, record⟩, hmem, rfl⟩ := List.mem_map.1 hm
  obtain ⟨earlier, later, hsplit⟩ := List.append_of_mem hmem
  have hrecords : recordsIn sink.log = earlier ++ (m, record) :: (later ++ rest) := by
    rw [ha.records, hsplit, List.append_assoc]
    rfl
  refine ⟨earlier, record, later ++ rest, hrecords, hin.made _ _ _ ?_, fun hne => ?_⟩
  · rw [hrecords, List.getElem?_append_right (Nat.le_refl _)]
    simp
  · have hfirst : Segment.bytes earlier ++ record <+: Segment.bytes sent.flatten := by
      rw [hsplit, Segment.bytes_append]
      exact ⟨Segment.bytes later, by simp [Segment.bytes]⟩
    rcases ha.settled.of_isPrefix hfirst with hnil | hsettled
    · exact absurd hnil hne
    · exact hsettled

/-- Once the consumer is closed and its sink has not failed, all that the sink accepted is written,
flushed, acknowledged segment by segment, and marked. -/
structure Whole (s : State ω) (sent : List Segment) : Prop where
  accounted : Sink.Accounted s.sink.log sent []
  accepted : acceptedIn s.sink.log = sent.flatten.map Prod.fst
  written : writtenIn s.sink.log = Segment.bytes sent.flatten
  marked : (ackMarkedIn s.log).map some = sent.map Segment.ack?

theorem State.Reachable.whole (h : s.Reachable c writer plans) (hl : s.lifecycle = .closed)
    (hok : ∀ e, .failed e ∉ s.sink.log) : ∃ sent, Whole s sent := by
  obtain ⟨sent, held, extra, hp⟩ := h.sink.progress
  obtain ⟨hstop, hack, -⟩ := h.quiet_of_closed hl
  obtain ⟨hrecords, htaken, hqueue, hwritten⟩ := hp.whole h.sink.windingUp hstop hok
  have hnothing : held ++ extra = [] := by
    have hall := hp.accounted.records
    rw [hrecords] at hall
    exact List.append_cancel_left (hall.symm.trans (List.append_nil _).symm)
  have hmarked : ackMarkedIn s.log = Sink.acksIn s.sink.log := by
    have hemitted := h.delivers.emitted
    rw [hack, Option.toList_none, List.append_nil] at hemitted
    rw [← hemitted, Sink.acksIn_eq_emittedIn h.delivers.heard]
  refine ⟨sent, hnothing ▸ hp.accounted, ?_, hwritten, ?_⟩
  · rw [h.sink.intake.accepted, hqueue, List.append_nil, htaken]
  · rw [hmarked, hp.accounted.acks]

/-- An accepted message is covered by an acknowledgment that was marked. -/
theorem Whole.covered {sent : List Segment} (h : Whole s sent) {m : Sink.Message}
    (hm : m ∈ acceptedIn s.sink.log) :
    ∃ a ∈ ackMarkedIn s.log, a.Covers (m.ack.key, m.ack.offset) := by
  rw [h.accepted] at hm
  obtain ⟨e, he, rfl⟩ := List.mem_map.1 hm
  obtain ⟨g, hg, heg⟩ := List.mem_flatten.1 he
  have hsome : Segment.ack? g ∈ (ackMarkedIn s.log).map some := h.marked ▸ List.mem_map_of_mem hg
  obtain ⟨a, ha, hga⟩ := List.mem_map.1 hsome
  exact ⟨a, ha, Segment.covers_of_ack? hga.symm heg⟩

end EventPipeline.Consumer
