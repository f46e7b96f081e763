import EventPipeline.Proofs.Runs
import EventPipeline.Proofs.Sink.Intake
import EventPipeline.Proofs.Sink.Progress
import EventPipeline.Writer.Scripted
/-!
# A sink is a segmentation of its input

Whatever its writer does and whoever moves when: a sink cuts the messages it takes into
consecutive segments and sends on one acknowledgment for each, at a moment when the
writer has taken and flushed the records up to the end of the segment and nothing
else. If it stops without an error, the segments are made of all messages.
-/
namespace EventPipeline

/-! ## Records are not empty -/

theorem Csv.row_ne_nil (fields : List (List Char)) : Csv.row fields ≠ [] := by
  fun_cases Csv.row fields <;> simp

theorem Bytes.ofText_ne_nil {s : String} (hs : s ≠ "") : ofText s ≠ [] := by
  intro h
  have hread := toText?_ofText s
  rw [h] at hread
  exact hs (Option.some.inj (hread.symm.trans (toText?_ofText "")))

/-- A record ends with a line feed at least. -/
theorem Marshaler.record_ne_nil (k : Marshaler) (e : Event) : k.record e ≠ [] := by
  have hchars : k.chars e ≠ [] := by
    cases k with
    | json => simp [chars]
    | csv columns => exact Csv.row_ne_nil _
  apply Bytes.ofText_ne_nil
  intro h
  apply hchars
  simpa using congrArg String.toList h

namespace Sink

variable {ω : Type} {c : Setup ω} {writer : ω}

/-- No record is empty. -/
def Setup.WritesRecords (c : Setup ω) : Prop := ∀ n m bytes, c.marshal n m = .ok bytes → bytes ≠ []

theorem Segment.bytes_ne_nil {g : Segment} (hne : g ≠ []) (hrec : ∀ e ∈ g, e.2 ≠ []) :
    g.bytes ≠ [] := by
  cases g with
  | nil => exact absurd rfl hne
  | cons e rest =>
    intro h
    exact hrec e List.mem_cons_self (List.append_eq_nil_iff.1 h).1

theorem Segment.ack?_anchor {m : Message} {bytes : Bytes} {rest : Segment} {a : Ack}
    (ha : Segment.ack? ((m, bytes) :: rest) = some a) :
    a.session = m.ack.session ∧ a.key = m.ack.key ∧ a.offset = m.ack.offset := by
  obtain rfl := Option.some.inj ha
  exact Ack.anchor_foldl_chain (fun e => e.1.ack) rest m.ack

/-! ## The segmentation -/

/-- The messages a sink took, up to some, are cut into these segments, and the acknowledgments it
sent on are theirs. -/
structure Segmented (c : Setup ω) (s : State ω) (segments : List Segment) : Prop where
  /-- Messages are taken in the order they were accepted. -/
  taken : acceptedIn s.log = takenIn s.log ++ s.queue
  nonempty : ∀ g ∈ segments, g ≠ []
  isPrefix : segments.flatten.map Prod.fst <+: takenIn s.log
  records : ∀ i m bytes, segments.flatten[i]? = some (m, bytes) → c.marshal (i + 1) m = .ok bytes
  acks : (acksIn s.log).map some = segments.map Segment.ack?
  anchors : ∀ (j : Nat) (a : Ack) (m : Message) bytes rest, (acksIn s.log)[j]? = some a →
    segments[j]? = some ((m, bytes) :: rest) →
    a.session = m.ack.session ∧ a.key = m.ack.key ∧ a.offset = m.ack.offset
  /-- An acknowledgment is sent on right after the flush of its segment. -/
  emissions : ∀ before h after, s.log = before ++ h :: after → h.ack?.isSome →
    writtenIn before = Segment.bytes (segments.take ((acksIn before).length + 1)).flatten ∧
      lastCall? before = some (.flushed true)
  whole : s.stopped → (∀ e, .failed e ∉ s.log) →
    segments.flatten.map Prod.fst = takenIn s.log ∧ s.queue = []

/-- Segments that account for the log of a sink cut what it took. -/
theorem Accounted.segmented {s : State ω} {sent : List Segment} {rest : Segment}
    (ha : Accounted s.log sent rest) (hin : Intake c s) (hr : c.WritesRecords)
    (hwhole : s.stopped → (∀ e, .failed e ∉ s.log) →
      sent.flatten.map Prod.fst = takenIn s.log ∧ s.queue = []) : Segmented c s sent := by
  have hfirst : sent.flatten <+: recordsIn s.log := by
    rw [ha.records]
    exact List.prefix_append _ _
  have hmade (i : Nat) (m : Message) (bytes : Bytes)
      (hi : sent.flatten[i]? = some (m, bytes)) : c.marshal (i + 1) m = .ok bytes := by
    obtain ⟨hlt, -⟩ := List.getElem?_eq_some_iff.1 hi
    apply hin.made
    rwa [ha.records, List.getElem?_append_left hlt]
  refine ⟨hin.accepted, ha.nonempty, (hfirst.map _).trans hin.marshaled, hmade, ha.acks, ?_, ?_,
    hwhole⟩
  · intro j a m bytes rest hj hg
    apply Segment.ack?_anchor
    have hsame := congrArg (·[j]?) ha.acks
    simpa [hj, hg] using hsame.symm
  · intro before x after hl hx
    obtain ⟨hw, hlast⟩ := ha.emissions before x after hl hx
    refine ⟨hw, ?_⟩
    -- the acknowledgment is that of some segment, and a segment has bytes
    have hlt : (acksIn before).length < sent.length := by
      rw [← ha.length_acks, hl]
      obtain ⟨b, hb⟩ := Option.isSome_iff_exists.1 hx
      simp [acksIn, hb]
    have hg := List.getElem_mem hlt
    refine hlast _ (List.getElem?_eq_getElem hlt) (Segment.bytes_ne_nil (ha.nonempty _ hg) ?_)
    intro e he
    obtain ⟨i, hi⟩ := List.getElem?_of_mem (List.mem_flatten.2 ⟨_, hg, he⟩)
    exact hr _ _ _ (hmade i e.1 e.2 hi)

/-- A sink that stops without an error has acknowledged and written all it accepted. -/
theorem Progress.whole {s : State ω} {sent : List Segment} {held extra : Segment}
    (hp : Progress s sent held extra) (hw : WindingUp s) (hstop : s.phase = .stopped)
    (hok : ∀ e, .failed e ∉ s.log) : recordsIn s.log = sent.flatten ∧
      sent.flatten.map Prod.fst = takenIn s.log ∧ s.queue = [] ∧
      writtenIn s.log = Segment.bytes sent.flatten := by
  obtain ⟨ha, hstage⟩ := hp
  obtain ⟨-, ⟨e, he⟩ | ⟨hall, hqueue⟩⟩ := hw.stopped hstop
  · exact absurd he (hok e)
  rw [State.Stage, hstop] at hstage
  obtain ⟨⟨e, he⟩ | ⟨rfl, rfl⟩, hbefore, hafter⟩ := hstage
  · exact absurd he (hok e)
  have hrecords : recordsIn s.log = sent.flatten := by simpa using ha.records
  refine ⟨hrecords, by rw [← hrecords, hall], hqueue, ?_⟩
  rw [Segment.bytes_nil, List.append_nil] at hafter
  exact hafter.eq_of_length_le hbefore.length_le

theorem State.Reachable.segmented {s : State ω} (h : s.Reachable c writer)
    (hr : c.WritesRecords) : ∃ segments, Segmented c s segments := by
  obtain ⟨sent, held, extra, hp⟩ := h.progress
  refine ⟨sent, hp.accounted.segmented h.intake hr fun hstop hok => ?_⟩
  obtain ⟨-, hall, hqueue, -⟩ := hp.whole h.windingUp (of_decide_eq_true hstop) hok
  exact ⟨hall, hqueue⟩

/-- Every run of a sink that writes records segments its input, and so do the runs with a
registered marshaler, whose records are never empty. -/
theorem System.Reachable.refines_segmentation {s : System ω} (h : s.Reachable c writer)
    (hr : c.WritesRecords) :
    (∃ segments, Segmented c s.sink segments) ∧
      ∀ (k : Marshaler) (e : Event), k.record e ≠ [] :=
  ⟨h.sink.segmented hr, Marshaler.record_ne_nil⟩

/-! ## A run -/

/-- Actions one after the other. -/
def System.run (c : Setup ω) (s : System ω) (actions : List Action) : Option (System ω) :=
  runFrom (System.step c) s actions

theorem System.Reachable.run {s t : System ω} {actions : List Action} (h : s.Reachable c writer)
    (ht : s.run c actions = some t) : t.Reachable c writer :=
  runFrom_keeps ht h fun _ _ _ hu hv => hu.step hv

/-- A sink that writes each message as two bytes and holds back up to five. -/
def pairs : Setup Writer.Calls where
  marshal _ _ := .ok [0, 1]
  writer := Writer.scripted { maxWrite := some 3, interruptWrite := some 2 }
  options := .of 2 5

theorem pairs_writesRecords : pairs.WritesRecords := by
  rintro n m bytes h
  obtain rfl := Except.ok.inj h
  simp

/-- The message with the given offset. -/
def numbered (offset : Int) : Message := ⟨"events", .default, .ofMessage 1 ⟨"events", 0⟩ offset⟩

/-- Three messages, of which the last does not fit behind the others, and a `close`. -/
def threeMessages : List Action :=
  [.offer (numbered 1), .offer (numbered 2), .take, .take, .offer (numbered 3), .take,
    .work, .work, .work, .work, .work, .close, .takeAck, .windUp, .windUp, .work, .work, .work]

theorem refines_segmentation_threeMessages :
    ∃ s : System Writer.Calls, s.sink.stopped = true ∧
      (acksIn s.sink.log).map Ack.offset = [1, 3] ∧
      ∃ segments, Segmented pairs s.sink segments := by
  have hrun : (System.run pairs { sink := .initial {} } threeMessages).map
      (fun s => (s.sink.stopped, (acksIn s.sink.log).map Ack.offset)) = some (true, [1, 3]) := by
    decide
  obtain ⟨s, hs, hends⟩ := Option.map_eq_some_iff.1 hrun
  obtain ⟨hstop, hacks⟩ := Prod.mk.injEq .. ▸ hends
  exact ⟨s, hstop, hacks,
    (System.Reachable.refines_segmentation (.run .initial hs) pairs_writesRecords).1⟩

end Sink

end EventPipeline
