import EventPipeline.Proofs.Sink.Intake
import EventPipeline.Writer.Scripted
/-!
# A sink comes to rest

Left to itself a sink has only so much to do: each message it takes leaves one less in the
queue, and what it does with the message takes it from phase to phase, towards the next
message or the end. Only a writer that is interrupted over and over again could hold it
up. If a writer is not (`Writer.Patient`), every step of a sink leaves less of its effort.
-/
namespace EventPipeline

/-- How often a writer may still be interrupted that is offered the same bytes until it takes
some. -/
def Writer.Patient {ω : Type} (w : Writer ω) (patience : ω → Bytes → Nat) : Prop :=
  ∀ before offered after, w.write before offered = (.interrupted, after) →
    patience after offered < patience before offered

/-- A script interrupts one call at most. -/
theorem Writer.scripted_patient (script : Script) : (scripted script).Patient
    (fun calls _ => script.interruptWrite.elim 0 (fun n => n - calls.writes)) := by
  intro before offered after h
  obtain ⟨hanswer, rfl⟩ := Prod.mk.inj h
  have hnow : script.interruptWrite = some (before.writes + 1) := by
    unfold Script.writeAnswer at hanswer
    repeat' split at hanswer
    all_goals first | assumption | cases hanswer
  simp [hnow]

namespace Sink

variable {ω : Type} {c : Setup ω} {patience : ω → Bytes → Nat} {s t : State ω}

/-! ## What is left to do -/

/-- How far a sink is from the next message, or the end, once the buffer is dealt with. -/
def Next.effort : Next → Nat
  | .stop => 3
  | .resume => 8
  | .append _ _ => 11

/-- How far a sink is from the next message, or the end. -/
def Phase.effort (draining : Bool) : Phase → Nat
  | .stopped => 0
  | .reporting _ => 1
  | .failing _ => 2
  | .receiving => if draining then 6 else 7
  | .acking _ next => next.effort
  | .syncing next => next.effort + 1
  | .writing _ next => next.effort + 2

/-- What the writer is offered. -/
def Phase.offered : Phase → Bytes
  | .writing rest _ => rest
  | _ => []

/-- What a sink has to do: with its messages, with the bytes it is writing, and with its writer. To
take an acknowledgment out of its channel is something to be done as well. -/
def State.effort (patience : ω → Bytes → Nat) (s : State ω) : Nat × Nat × Nat :=
  (2 * (14 * s.queue.length + s.phase.effort s.draining) + s.ack.isSome.toNat,
    s.phase.offered.length, patience s.writer s.phase.offered)

/-- Less is to be done. -/
def Less : Nat × Nat × Nat → Nat × Nat × Nat → Prop :=
  Prod.Lex (· < ·) (Prod.Lex (· < ·) (· < ·))

theorem Less.of_lt {a a' : Nat} {b b' : Nat × Nat} (h : a' < a) : Less (a', b') (a, b) :=
  .left _ _ h

/-! ## The parts of a move -/

theorem Next.le_effort (next : Next) : 3 ≤ next.effort ∧ next.effort ≤ 11 := by
  cases next <;> simp [effort]

theorem Phase.effort_receiving (draining : Bool) :
    6 ≤ Phase.receiving.effort draining ∧ Phase.receiving.effort draining ≤ 7 := by
  cases draining <;> decide

theorem Phase.effort_le (draining : Bool) (p : Phase) : p.effort draining ≤ 13 := by
  cases p with
  | acking _ next | syncing next | writing _ next =>
    have := next.le_effort
    simp only [effort]
    omega
  | receiving => exact Nat.le_trans (effort_receiving draining).2 (by decide)
  | failing | reporting | stopped => simp [effort]

theorem State.effort_handOut (draining : Bool) (next : Next) :
    (s.handOut next).phase.effort draining ≤ next.effort + 2 := by
  unfold State.handOut
  split
  next => exact Nat.le_refl _
  next => exact Nat.le_add_left 2 next.effort

theorem State.effort_store (draining : Bool) (bytes : Bytes) (a : Ack) :
    (s.store c bytes a).phase.effort draining ≤ 10 := by
  unfold State.store
  dsimp only
  split
  next => exact State.effort_handOut draining .resume
  next => exact Nat.le_trans (Phase.effort_receiving draining).2 (by decide)

theorem State.effort_proceed (draining : Bool) (next : Next) :
    (s.proceed c next).phase.effort draining < next.effort := by
  cases next with
  | resume => exact Nat.lt_succ_of_le (Phase.effort_receiving draining).2
  | append bytes a => exact Nat.lt_succ_of_le (State.effort_store draining bytes a)
  | stop => exact Nat.zero_lt_succ 2

theorem State.effort_emit (draining : Bool) (next : Next) :
    (s.emit c next).phase.effort draining ≤ next.effort := by
  unfold State.emit
  split
  next => exact Nat.le_of_lt (State.effort_proceed draining next)
  next => exact Nat.le_refl _

/-- Less is to be done by a sink that is nearer to the next message, with as many messages in the
queue. -/
theorem State.Kept.less {u : State ω} (hk : u.Kept t) (hqueue : u.queue = s.queue)
    (hack : u.ack = s.ack) (hdraining : u.draining = s.draining)
    (hlt : t.phase.effort s.draining < s.phase.effort s.draining) :
    Less (t.effort patience) (s.effort patience) := by
  refine .of_lt ?_
  rw [hk.queue, hqueue, hk.ack, hack, hk.draining, hdraining]
  omega

/-! ## Every step of a sink -/

theorem State.less_take (ht : s.take c = some t) :
    Less (t.effort patience) (s.effort patience) := by
  unfold State.take at ht
  split at ht
  next m rest hp hq =>
    cases ht
    have hk := State.kept_handle (c := c)
      (s := State.record { s with queue := rest } (.taken m)) m
    have hreceiving := (Phase.effort_receiving s.draining).1
    rw [← hp] at hreceiving
    have hle := Phase.effort_le s.draining (State.handle c
      (State.record { s with queue := rest } (.taken m)) m).phase
    refine .of_lt ?_
    rw [hk.queue, hk.ack, hk.draining, hq, List.length_cons]
    dsimp only [State.record] at hle ⊢
    omega
  next => cases ht

theorem State.less_windUp (ht : s.windUp c = some t) :
    Less (t.effort patience) (s.effort patience) := by
  unfold State.windUp at ht
  split at ht
  next hp =>
    split at ht
    next hdrain =>
      have hreceiving : s.phase.effort s.draining = 6 := by
        rw [hp, hdrain]
        rfl
      split at ht
      next => cases ht
      next =>
        split at ht
        next =>
          cases ht
          have hle := State.effort_handOut (s := s) s.draining .stop
          refine (State.kept_handOut .stop).less rfl rfl rfl ?_
          rw [hreceiving]
          exact Nat.lt_succ_of_le hle
        next =>
          cases ht
          have hle := State.effort_emit (c := c) (s := s) s.draining .stop
          refine (State.kept_emit .stop).less rfl rfl rfl ?_
          rw [hreceiving]
          exact Nat.lt_of_le_of_lt hle (by decide)
    next hdrain =>
      split at ht
      next =>
        cases ht
        refine .of_lt ?_
        simp [hp, hdrain, Phase.effort]
      next => cases ht
  next => cases ht

section
variable {next : Next}

theorem State.effort_of_writing {rest : Bytes} (hp : s.phase = .writing rest next) :
    s.effort patience =
      (2 * (14 * s.queue.length + (next.effort + 2)) + s.ack.isSome.toNat, rest.length,
        patience s.writer rest) := by
  rw [effort, hp]
  rfl

theorem State.less_write {rest : Bytes} (hw : c.writer.Patient patience)
    (hp : s.phase = .writing rest next) :
    Less ((s.write c rest next).effort patience) (s.effort patience) := by
  have hfar : 3 < s.phase.effort s.draining := by
    have hnext := next.le_effort
    rw [hp, Phase.effort]
    omega
  have hfails (e : SinkError) (w : ω) :
      Less (State.effort patience ({ s with writer := w, phase := .failing e }.record .tookNone))
        (s.effort patience) :=
    State.Kept.less (u := s.record .tookNone) (by constructor <;> rfl) rfl rfl rfl
      (Nat.lt_of_succ_lt hfar)
  unfold State.write
  split
  next => exact hfails _ _
  next => exact hfails _ _
  next w hwrite =>
    -- nothing else changes than how often the writer may still be interrupted
    rw [effort_of_writing hp, effort_of_writing (by exact hp)]
    exact .right _ (.right _ (hw _ _ _ hwrite))
  next => exact hfails _ _
  next count w hcount _ =>
    split
    next => exact hfails _ _
    next =>
      split
      next =>
        refine State.Kept.less (u := s.record (.wrote (rest.take count)))
          (by constructor <;> rfl) rfl rfl rfl ?_
        rw [hp]
        exact Nat.lt_succ_self _
      next rest' hdrop =>
        have hlength : (rest.drop count).length < rest.length := by
          have hpos : 0 < rest.length - count := by
            rw [← List.length_drop]
            exact List.length_pos_iff.2 hdrop
          have hne : count ≠ 0 := hcount
          rw [List.length_drop]
          omega
        rw [effort_of_writing hp, effort_of_writing (by rfl)]
        exact .right _ (.left _ _ hlength)

theorem State.less_sync (hp : s.phase = .syncing next) :
    Less ((s.sync c next).effort patience) (s.effort patience) := by
  have hfar : s.phase.effort s.draining = next.effort + 1 := by
    rw [hp]
    rfl
  have hfails (e : SinkError) (w : ω) :
      Less (State.effort patience
        ({ s with writer := w, phase := .failing e }.record (.flushed false)))
        (s.effort patience) := by
    refine State.Kept.less (u := s.record (.flushed false)) (by constructor <;> rfl) rfl rfl rfl ?_
    have hnext := next.le_effort
    rw [hfar, record, Phase.effort]
    omega
  unfold State.sync
  split
  next => exact hfails _ _
  next => exact hfails _ _
  next =>
    have hk (w : ω) (counts : SinkCounts) : (s.record (.flushed true)).Kept
        ({ s with writer := w, writerHeld := true, buffer := [], counts := counts }.record
          (.flushed true)) := by constructor <;> rfl
    refine ((hk _ _).trans (State.kept_emit next)).less rfl rfl rfl ?_
    rw [hfar]
    exact Nat.lt_succ_of_le (State.effort_emit s.draining next)

theorem State.less_send {a : Ack} (hp : s.phase = .acking a next) (ht : s.send c a next = some t) :
    Less (t.effort patience) (s.effort patience) := by
  unfold State.send at ht
  split at ht
  next =>
    cases ht
    refine (State.kept_proceed next).less rfl rfl rfl ?_
    rw [hp]
    exact State.effort_proceed s.draining next
  next =>
    split at ht
    next => cases ht
    next hempty =>
      cases ht
      -- there is one more to take out of the channel, but that is less than was done
      have hk := State.kept_proceed (c := c)
        (s := { s with ack := some a }.record (.emitted a)) next
      have hlt := State.effort_proceed (c := c)
        (s := { s with ack := some a }.record (.emitted a)) s.draining next
      have hbefore : s.phase.effort s.draining = next.effort := by
        rw [hp]
        rfl
      refine .of_lt ?_
      rw [hk.queue, hk.ack, hk.draining]
      simp only [record, Option.isSome_some, Bool.toNat_true] at hlt ⊢
      omega

end

theorem State.less_work (hw : c.writer.Patient patience) (ht : s.work c = some t) :
    Less (t.effort patience) (s.effort patience) := by
  unfold State.work at ht
  split at ht
  next => cases ht
  next => cases ht
  next hp => cases ht; exact State.less_write hw hp
  next hp => cases ht; exact State.less_sync hp
  next hp => exact State.less_send hp ht
  next hp =>
    cases ht
    refine .of_lt ?_
    simp [hp, Phase.effort]
  next hp =>
    cases ht
    refine .of_lt ?_
    simp [hp, Phase.effort, report, record]

/-- To take an acknowledgment out of its channel leaves less to be done. -/
theorem State.less_takeAck {a : Ack} (ht : s.takeAck = some (a, t)) :
    Less (t.effort patience) (s.effort patience) := by
  obtain ⟨a, ha, he⟩ := Option.map_eq_some_iff.1 ht
  cases he
  refine .of_lt ?_
  simp [ha]

end Sink

end EventPipeline
