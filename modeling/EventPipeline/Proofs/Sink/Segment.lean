import EventPipeline.Proofs.Ack.Coverage
import EventPipeline.Proofs.Sink.History
/-!
# Segments

A sink cuts the records it makes into consecutive segments and sends on one
acknowledgment for each. `Accounted` says that the acknowledgments in a log do so: they
are those of the segments, in order, and each was sent on right after the records up to
the end of its segment were written and flushed.
-/
namespace EventPipeline.Sink

/-- Consecutive messages with their records. -/
abbrev Segment := List (Message × Bytes)

namespace Segment

/-- The records of a segment, one after the other. -/
def bytes (g : Segment) : Bytes := g.flatMap Prod.snd

/-- The acknowledgments of a segment, chained from left to right. -/
def ack? : Segment → Option Ack
  | [] => none
  | (m, _) :: rest => some (rest.foldl (fun a e => a.chain e.1.ack) m.ack)

@[simp] theorem bytes_nil : bytes [] = [] := rfl

@[simp] theorem bytes_append (g k : Segment) : bytes (g ++ k) = bytes g ++ bytes k :=
  List.flatMap_append

@[simp] theorem bytes_single (e : Message × Bytes) : bytes [e] = e.2 := by simp [bytes]

@[simp] theorem ack?_nil : ack? [] = none := rfl

theorem ack?_eq_none {g : Segment} : g.ack? = none ↔ g = [] := by
  cases g <;> simp [ack?]

theorem ack?_concat (g : Segment) (m : Message) (bytes : Bytes) :
    ack? (g ++ [(m, bytes)]) = some (match g.ack? with
      | some a => a.chain m.ack
      | none => m.ack) := by
  cases g with
  | nil => rfl
  | cons e rest => simp [ack?]

theorem mem_positions_of_ack? {g : Segment} {a : Ack} {p : Key × Int} (ha : g.ack? = some a)
    (hp : p ∈ a.positions) : ∃ e ∈ g, p ∈ e.1.ack.positions := by
  cases g with
  | nil => cases ha
  | cons e rest =>
    obtain rfl := Option.some.inj ha
    rcases Ack.mem_positions_foldl_chain hp with hp | ⟨x, hx, hp⟩
    · exact ⟨e, List.mem_cons_self, hp⟩
    · exact ⟨x, List.mem_cons_of_mem _ hx, hp⟩

theorem covers_of_ack? {g : Segment} {a : Ack} {e : Message × Bytes} (ha : g.ack? = some a)
    (he : e ∈ g) : a.Covers (e.1.ack.key, e.1.ack.offset) := by
  cases g with
  | nil => cases ha
  | cons first rest =>
    obtain rfl := Option.some.inj ha
    rcases List.mem_cons.1 he with rfl | he
    · exact (Ack.covers_anchor _).foldl_chain rest
    · exact Ack.covers_foldl_chain (f := fun e : Message × Bytes => e.1.ack) he
        (Ack.covers_anchor _) _

end Segment

/-- An acknowledgment sent on after `before` comes right after the flush of what its segment ends
with. Only a segment without any bytes needs no flush. -/
def FollowsFlush (before : List Happening) (sent : List Segment) : Prop :=
  writtenIn before = Segment.bytes (sent.take ((acksIn before).length + 1)).flatten ∧
    ∀ g, sent[(acksIn before).length]? = some g → g.bytes ≠ [] →
      lastCall? before = some (.flushed true)

/-- The acknowledgments in a log are those of the segments `sent`, and `rest` was not acknowledged
yet. -/
structure Accounted (log : List Happening) (sent : List Segment) (rest : Segment) : Prop where
  records : recordsIn log = sent.flatten ++ rest
  nonempty : ∀ g ∈ sent, g ≠ []
  acks : (acksIn log).map some = sent.map Segment.ack?
  emissions : ∀ before h after, log = before ++ h :: after → h.ack?.isSome →
    FollowsFlush before sent
  settled : Settled log (Segment.bytes sent.flatten)

namespace Accounted

variable {log : List Happening} {sent : List Segment} {rest held extra : Segment} {h : Happening}

theorem nil : Accounted [] [] [] where
  records := rfl
  nonempty := by simp
  acks := rfl
  emissions := by simp
  settled := .nil _

theorem length_acks (ha : Accounted log sent rest) : (acksIn log).length = sent.length := by
  simpa using congrArg List.length ha.acks

/-- What is acknowledged was written first. -/
theorem bytes_isPrefix (ha : Accounted log sent rest) :
    Segment.bytes sent.flatten <+: writtenIn log := by
  rcases ha.settled with h | ⟨before, after, hl, hpre⟩
  · rw [h]
    exact List.nil_prefix
  · refine hpre.trans ?_
    rw [hl, writtenIn, writtenIn, List.flatMap_append]
    exact List.prefix_append _ _

/-- An entry that is neither a record nor an acknowledgment changes nothing. -/
theorem concat (ha : Accounted log sent rest) (hack : h.ack? = none)
    (hrec : recordsIn (log ++ [h]) = recordsIn log) : Accounted (log ++ [h]) sent rest where
  records := hrec.trans ha.records
  nonempty := ha.nonempty
  acks := by simpa [hack] using ha.acks
  emissions := by
    intro before k after hl hk
    rcases concat_eq_append_cons hl with ⟨-, rfl, -⟩ | ⟨more, hl⟩
    · simp [hack] at hk
    · exact ha.emissions before k more hl hk
  settled := ha.settled.concat _

/-- A new record waits for its acknowledgment. -/
theorem marshal (ha : Accounted log sent rest) (m : Message) (bytes : Bytes) :
    Accounted (log ++ [.marshaled m bytes]) sent (rest ++ [(m, bytes)]) where
  records := by simp [ha.records]
  nonempty := ha.nonempty
  acks := by simpa [Happening.ack?] using ha.acks
  emissions := by
    intro before k after hl hk
    rcases concat_eq_append_cons hl with ⟨-, rfl, -⟩ | ⟨more, hl⟩
    · simp [Happening.ack?] at hk
    · exact ha.emissions before k more hl hk
  settled := ha.settled.concat _

/-- Sending on the acknowledgment of what was just flushed adds a segment. -/
theorem ack {a : Ack} (ha : Accounted log sent (held ++ extra)) (hh : h.ack? = some a)
    (hheld : held.ack? = some a)
    (hw : writtenIn log = Segment.bytes sent.flatten ++ held.bytes)
    (hs : Settled log (Segment.bytes sent.flatten ++ held.bytes))
    (hl : held.bytes ≠ [] → lastCall? log = some (.flushed true))
    (hrec : recordsIn (log ++ [h]) = recordsIn log) :
    Accounted (log ++ [h]) (sent ++ [held]) extra where
  records := by simp [hrec, ha.records]
  nonempty := by
    intro g hg
    rcases List.mem_append.1 hg with hg | hg
    · exact ha.nonempty g hg
    · rw [List.mem_singleton.1 hg]
      rintro rfl
      simp at hheld
  acks := by simp [hh, ha.acks, hheld]
  emissions := by
    intro before k after hsplit hk
    rcases concat_eq_append_cons hsplit with ⟨rfl, -, -⟩ | ⟨more, hlog⟩
    · -- the acknowledgment sent on just now
      refine ⟨?_, fun g hg hne => hl ?_⟩
      · rw [ha.length_acks, List.take_of_length_le (by simp), hw]
        simp
      · rw [ha.length_acks] at hg
        simp only [List.getElem?_concat_length, Option.some.injEq] at hg
        rwa [hg]
    · -- an earlier one, whose segment stays where it was
      have hlt : (acksIn before).length < sent.length := by
        rw [← ha.length_acks, hlog]
        obtain ⟨b, hb⟩ := Option.isSome_iff_exists.1 hk
        simp [acksIn, hb]
      obtain ⟨h1, h2⟩ := ha.emissions before k more hlog hk
      refine ⟨?_, fun g hg => h2 g ?_⟩
      · rw [h1, List.take_append_of_le_length (by omega)]
      · rwa [List.getElem?_append_left hlt] at hg
  settled := by
    have : Segment.bytes (sent ++ [held]).flatten =
        Segment.bytes sent.flatten ++ held.bytes := by simp
    rw [this]
    exact hs.concat _

end Accounted

end EventPipeline.Sink
