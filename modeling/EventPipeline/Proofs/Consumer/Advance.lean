import EventPipeline.Proofs.Ack.LastMark
import EventPipeline.Proofs.Consumer.Drained
/-!
# Marks move forward

Of a partition delivered in order, an acknowledgment holds the first offset of its
messages, if that is its anchor, and the last: chaining keeps the highest, and that is the
latest. So the offsets marked of a partition are some of those delivered, in the order of
delivery (`State.Reachable.marks_advance`), within one acknowledgment and from each to the
next.
-/
namespace EventPipeline

/-! ## Acknowledgments of messages in order -/

namespace Ack

variable {a m : Ack} {l : List Ack} {k : Key}

/-- Chaining a single message raises the offset of its partition. -/
theorem chainedOffset?_chain (hm : m.chained = .empty) : (a.chain m).chainedOffset? k =
    if m.key = k then some ((a.chainedOffset? k).elim m.offset (max · m.offset))
    else a.chainedOffset? k := by
  have hmerged : (a.chain m).chained = Offsets.raise a.chained m.key m.offset := by
    simp [chain, merged, hm, Dict.empty]
  rw [chainedOffset?, hmerged, Offsets.raise, Dict.find?_alter]
  by_cases hk : m.key = k
  · rw [if_pos hk, if_pos hk.symm, chainedOffset?, hk]
    cases a.chained.find? k <;> rfl
  · rw [if_neg hk, if_neg (Ne.symm hk), chainedOffset?]

/-- What is chained for a partition is the offset of the last message chained. -/
theorem chainedOffset?_foldl (hsingle : ∀ m ∈ l, m.chained = .empty)
    (hinc : ((a.chainedOffset? k).toList ++ offsetsOf k l).Pairwise (· < ·)) :
    (l.foldl chain a).chainedOffset? k = (offsetsOf k l).getLast?.or (a.chainedOffset? k) := by
  induction l generalizing a with
  | nil => rfl
  | cons m l ih =>
    obtain ⟨hm, hsingle⟩ := List.forall_mem_cons.1 hsingle
    rw [List.foldl_cons]
    by_cases hk : m.key = k
    · rw [offsetsOf_cons_of_eq hk] at hinc ⊢
      obtain ⟨-, hrest, hcross⟩ := List.pairwise_append.1 hinc
      have hlatest : (a.chain m).chainedOffset? k = some m.offset := by
        rw [chainedOffset?_chain hm, if_pos hk]
        cases hc : a.chainedOffset? k with
        | none => rfl
        | some o =>
          have hlt := hcross o (by simp [hc]) m.offset List.mem_cons_self
          rw [Option.elim, Int.max_eq_right (Int.le_of_lt hlt)]
      rw [ih hsingle (by rw [hlatest]; exact hrest), hlatest, List.getLast?_cons]
      cases (offsetsOf k l).getLast? <;> rfl
    · have hsame : (a.chain m).chainedOffset? k = a.chainedOffset? k := by
        rw [chainedOffset?_chain hm, if_neg hk]
      rw [offsetsOf_cons_of_ne hk] at hinc ⊢
      rw [ih hsingle (by rw [hsame]; exact hinc), hsame]

theorem toList_getLast?_sublist {α : Type} (l : List α) : l.getLast?.toList.Sublist l := by
  cases h : l.getLast? with
  | none => exact List.nil_sublist l
  | some x => exact List.singleton_sublist.2 (List.mem_of_getLast? h)

/-- Of messages in order, what is marked for a partition are some of their offsets, in order. -/
theorem markedOf_foldl_sublist (hm : m.chained = .empty) (hsingle : ∀ b ∈ l, b.chained = .empty)
    (hinc : (offsetsOf k (m :: l)).Pairwise (· < ·)) :
    ((l.foldl chain m).markedOf k).Sublist (offsetsOf k (m :: l)) := by
  have hnone : m.chainedOffset? k = none := by rw [chainedOffset?, hm]; rfl
  obtain ⟨-, hkey, hoffset⟩ : _ ∧ (l.foldl chain m).key = m.key ∧
      (l.foldl chain m).offset = m.offset := anchor_foldl_chain id l m
  have hchained : (l.foldl chain m).chainedOffset? k = (offsetsOf k l).getLast? := by
    have hrest : (offsetsOf k l).Pairwise (· < ·) := by
      by_cases hk : m.key = k
      · rw [offsetsOf_cons_of_eq hk] at hinc
        exact hinc.of_cons
      · rwa [offsetsOf_cons_of_ne hk] at hinc
    rw [chainedOffset?_foldl hsingle (by rw [hnone]; exact hrest), hnone, Option.or_none]
  rw [markedOf_eq, hkey, hoffset, hchained]
  by_cases hk : m.key = k
  · rw [if_pos hk, offsetsOf_cons_of_eq hk]
    exact (toList_getLast?_sublist _).cons_cons _
  · rw [if_neg hk, offsetsOf_cons_of_ne hk]
    exact toList_getLast?_sublist _

end Ack

/-! ## Segments -/

namespace Sink

/-- The acknowledgments of the messages of a segment. -/
def Segment.acks (g : Segment) : List Ack := g.map (fun e => e.1.ack)

/-- Over all segments acknowledged, what is marked for a partition are some of the offsets of their
messages, in order. -/
theorem Segment.marked_sublist {k : Key} {acks : List Ack} {sent : List Segment}
    (hacks : acks.map some = sent.map Segment.ack?)
    (hsingle : ∀ m ∈ Segment.acks sent.flatten, m.chained = .empty)
    (hinc : (Ack.offsetsOf k (Segment.acks sent.flatten)).Pairwise (· < ·)) :
    (acks.flatMap (Ack.markedOf k)).Sublist (Ack.offsetsOf k (Segment.acks sent.flatten)) := by
  induction sent generalizing acks with
  | nil =>
    obtain rfl := List.map_eq_nil_iff.1 hacks
    exact List.Sublist.slnil
  | cons g sent ih =>
    cases acks with
    | nil => cases hacks
    | cons a acks =>
      obtain ⟨hfirst, hrest⟩ := List.cons.inj hacks
      have happend : Ack.offsetsOf k (Segment.acks (g :: sent).flatten) =
          Ack.offsetsOf k (Segment.acks g) ++ Ack.offsetsOf k (Segment.acks sent.flatten) := by
        simp [Ack.offsetsOf, Segment.acks]
      rw [happend] at hinc ⊢
      obtain ⟨hg, hsent, -⟩ := List.pairwise_append.1 hinc
      have hmem : ∀ m ∈ Segment.acks g ++ Segment.acks sent.flatten, m.chained = .empty := by
        intro m hm
        exact hsingle m (by simpa [Segment.acks] using hm)
      refine List.Sublist.append ?_
        (ih hrest (fun m hm => hmem m (List.mem_append_right _ hm)) hsent)
      cases g with
      | nil => cases hfirst
      | cons e rest =>
        obtain rfl := Option.some.inj hfirst
        have hfold : rest.foldl (fun a e => a.chain e.1.ack) e.1.ack =
            (Segment.acks rest).foldl Ack.chain e.1.ack := by
          rw [Segment.acks, List.foldl_map]
        rw [hfold]
        exact Ack.markedOf_foldl_sublist (hmem _ (by simp [Segment.acks]))
          (fun m hm => hmem m (List.mem_append_left _ (List.mem_cons_of_mem _ hm))) hg

end Sink

/-! ## A whole run -/

namespace Consumer

open Sink (acceptedIn)

variable {ω : Type} {c : Setup ω} {writer : ω} {plans : List Plan} {s : State ω}

/-- The offsets reported for a partition are those marked with the acknowledgments. -/
theorem State.Reachable.reported_eq (h : s.Reachable c writer plans) (key : Key) :
    (s.attempts.filter (fun t => t.key = key)).map Attempt.offset =
      (ackMarkedIn s.log).flatMap (Ack.markedOf key) := by
  rw [h.attempts_eq, List.filter_flatMap, List.map_flatMap]
  refine congrArg (fun f => (ackMarkedIn s.log).flatMap f) (funext fun a => ?_)
  rw [Ack.mark, List.filter_map, List.map_map]
  rfl

/-- The acknowledgments marked are the first of those sent on. -/
theorem State.Reachable.ackMarkedIn_isPrefix (h : s.Reachable c writer plans) :
    ackMarkedIn s.log <+: Sink.acksIn s.sink.log := by
  rw [Sink.acksIn_eq_emittedIn h.delivers.heard, h.delivers.emitted]
  exact List.prefix_append _ _

/-- Every message that the sink took has the acknowledgment of a single message. -/
theorem Fed.single (h : Fed c plans s) {m : Sink.Message} (hm : m ∈ acceptedIn s.sink.log) :
    m.ack.chained = .empty := by
  have hexpected : m ∈ c.expected m.ack.key 0 plans :=
    (h.accepted m.ack.key).subset (List.mem_filter.2 ⟨hm, by simp⟩)
  obtain ⟨session, key, offset, hack⟩ := exists_of_mem_expected hexpected
  rw [hack]
  rfl

/-- If the offsets of each partition increase in the order of delivery, the offsets reported for a
partition, over all acknowledgments and sessions and whether they are refused or not, are some of
those delivered, in the order of delivery. So they increase as well. -/
theorem State.Reachable.marks_advance (h : s.Reachable c writer plans) (ho : Orderly plans)
    (key : Key) :
    ((s.attempts.filter (fun t => t.key = key)).map Attempt.offset).Sublist
        ((plans.flatMap (Plan.deliveries key)).map Delivery.offset) ∧
      ((s.attempts.filter (fun t => t.key = key)).map Attempt.offset).Pairwise (· < ·) := by
  obtain ⟨sent, held, extra, ha, -⟩ := h.sink.progress
  have hfed := h.fed ho
  have hfirst := accepted_of_accounted h.sink.intake ha
  have hsingle : ∀ m ∈ Sink.Segment.acks sent.flatten, m.chained = .empty := by
    intro m hm
    obtain ⟨e, he, rfl⟩ := List.mem_map.1 hm
    exact hfed.single (hfirst.subset (List.mem_map_of_mem he))
  -- what was acknowledged of the partition is the first part of what is expected of it
  have hexpected : Ack.offsetsOf key (Sink.Segment.acks sent.flatten) <+:
      (c.expected key 0 plans).map (·.ack.offset) := by
    have hmessages : (sent.flatten.map Prod.fst).filter (fun m => m.ack.key = key) <+:
        c.expected key 0 plans := (hfirst.filter _).trans (hfed.accepted key)
    simpa [Ack.offsetsOf, Sink.Segment.acks, List.filter_map, Function.comp_def]
      using hmessages.map (·.ack.offset)
  have hdelivered := hexpected.sublist.trans (c.expected_sublist key 0 plans)
  have hacknowledged := Sink.Segment.marked_sublist (k := key) ha.acks hsingle
    ((ho.increasing key).sublist hdelivered)
  have hmarked : ((ackMarkedIn s.log).flatMap (Ack.markedOf key)).Sublist
      ((Sink.acksIn s.sink.log).flatMap (Ack.markedOf key)) := by
    obtain ⟨later, hlater⟩ := h.ackMarkedIn_isPrefix
    rw [← hlater, List.flatMap_append]
    exact List.sublist_append_left _ _
  have hsublist := (hmarked.trans hacknowledged).trans hdelivered
  rw [h.reported_eq key]
  exact ⟨hsublist, (ho.increasing key).sublist hsublist⟩

/-- A partition that is claimed in two sessions. -/
def resumed : List Plan :=
  [.serve [(⟨"events", 0⟩, [⟨⟨"events", 0⟩, 1, some []⟩, ⟨⟨"events", 0⟩, 2, some []⟩,
      ⟨⟨"events", 0⟩, 3, some []⟩])],
    .serve [(⟨"events", 0⟩, [⟨⟨"events", 0⟩, 5, some []⟩])]]

theorem resumed_orderly : Orderly resumed where
  notFree := by decide
  keyed := by
    intro claims hmem e he d hd
    simp only [resumed, List.mem_cons, Plan.serve.injEq, List.not_mem_nil, or_false] at hmem
    rcases hmem with rfl | rfl <;> obtain rfl := List.mem_singleton.1 he <;>
      simp only [List.mem_cons, List.not_mem_nil, or_false] at hd
    · rcases hd with rfl | rfl | rfl <;> rfl
    · rw [hd]
  once := by
    intro claims hmem
    simp only [resumed, List.mem_cons, Plan.serve.injEq, List.not_mem_nil, or_false] at hmem
    rcases hmem with rfl | rfl <;> decide
  increasing := by
    intro key
    by_cases hk : (⟨"events", 0⟩ : Key) = key <;> simp [resumed, Plan.deliveries, hk]

/-- What comes of a call of `start` for both sessions. -/
def resumedStart : State Writer.Calls :=
  State.settle (oneByteEach (.of 8 3)) 70
    { State.initial {} resumed with tasks := [.start .entering] }

/-- What comes of a call of `close` after that. -/
def resumedShutdown : State Writer.Calls :=
  State.settle (oneByteEach (.of 8 3)) 70
    { resumedStart with tasks := resumedStart.tasks ++ [.close .entering] }

theorem resumedShutdown_reachable :
    resumedShutdown.Reachable (oneByteEach (.of 8 3)) {} resumed := by
  have hstart : resumedStart.Reachable (oneByteEach (.of 8 3)) {} resumed :=
    .settle (.step (a := .callStart) .initial rfl) 70
  exact .settle (.step (a := .callClose) hstart rfl) 70

/-- The first acknowledgment has three offsets, of which the first and the last are marked. -/
theorem marks_advance_resumed :
    (resumedShutdown.attempts.filter (fun t => t.key = ⟨"events", 0⟩)).map Attempt.offset =
        [1, 3, 5] ∧
      ((resumedShutdown.attempts.filter (fun t => t.key = ⟨"events", 0⟩)).map
        Attempt.offset).Sublist [1, 2, 3, 5] ∧
      ((resumedShutdown.attempts.filter (fun t => t.key = ⟨"events", 0⟩)).map
        Attempt.offset).Pairwise (· < ·) := by
  have hmarks : (resumedShutdown.attempts.filter (fun t => t.key = ⟨"events", 0⟩)).map
      Attempt.offset = [1, 3, 5] := by decide
  exact ⟨hmarks, resumedShutdown_reachable.marks_advance resumed_orderly ⟨"events", 0⟩⟩

end Consumer

end EventPipeline
