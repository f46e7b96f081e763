import EventPipeline.Proofs.Consumer.Settling
import EventPipeline.Proofs.Consumer.Unblocked
/-!
# A consumer at rest

A consumer rests when nobody who is there can move. One that is closing does not rest
before it is closed, and then a call of `start` has returned, unless it is in the hands of
the group.
-/
namespace EventPipeline.Consumer

variable {ω : Type} {c : Setup ω} {writer : ω} {plans : List Plan} {s t : State ω} {i : Nat}

/-- Whether a call of `start` is in the hands of the group: in a session that the group goes on
with, or in one that broke off. -/
def Starting.withGroup : Starting → Bool
  | .inSession | .brokenOff => true
  | _ => false

/-- Whoever advances the end of the consumer is there. -/
theorem State.Advances.exists_own {a : Action} (ha : s.Advances a) (h : (s.step c a).isSome) :
    ∃ t, s.Own c t := by
  obtain ⟨t, ht⟩ := Option.isSome_iff_exists.1 h
  refine ⟨t, a, ?_, ht⟩
  have hget {α β : Type} {l : List α} {j : Nat} {f : α → Option β} {b : β}
      (hb : l[j]?.bind f = some b) : j < l.length := by
    obtain ⟨x, hx, -⟩ := Option.bind_eq_some_iff.1 hb
    exact (List.getElem?_eq_some_iff.1 hx).1
  cases a with
  | sinkTake | sinkWindUp | sinkWork | coordinate => simp [ownActions]
  | claimReceive j | claimSend j | claimLeave j =>
    have hlt := hget ht
    simp [ownActions, hlt]
  | advance j =>
    have hlt := hget ht
    simp [ownActions, hlt]
  | _ => cases ha

namespace State.Rests

theorem advance {task : Task} (h : s.Rests c) (hi : s.tasks[i]? = some task) :
    s.advance c i task = none := by
  have hlt := (List.getElem?_eq_some_iff.1 hi).1
  refine Option.eq_none_iff_forall_ne_some.2 fun t ht => h t ⟨.advance i, ?_, ?_⟩
  · simp [ownActions, hlt]
  · rw [step, hi, Option.bind_some, ht]

theorem start {stage : Starting} (h : s.Rests c) (hi : s.tasks[i]? = some (.start stage)) :
    s.start c stage = none :=
  Option.map_eq_none_iff.1 (h.advance hi)

theorem coordinate (h : s.Rests c) : s.coordinate c = none :=
  Option.eq_none_iff_forall_ne_some.2 fun t ht => h t ⟨.coordinate, by simp [ownActions], ht⟩

/-- A consumer that ends rests only when it is closed. -/
theorem closed (h : s.Rests c) (hr : s.Reachable c writer plans) (hends : s.Ending) :
    s.lifecycle = .closed := by
  refine hends.resolve_left fun hl => ?_
  obtain ⟨a, ha, hstep⟩ := hr.advances hl
  obtain ⟨t, ht⟩ := ha.exists_own hstep
  exact h t ht

/-- Once shutdown is announced, the claims rest only when they are finished. -/
theorem finished (h : s.Rests c) (hs : s.shutdown) (sessions : Nat → Bool) :
    s.finished sessions := by
  refine List.all_eq_true.2 fun claim hmem => ?_
  obtain ⟨j, hj⟩ := List.getElem?_of_mem hmem
  by_cases hp : claim.phase = .finished
  · simp [hp]
  · obtain ⟨t, ht⟩ :=
      (show s.Advances (.claimLeave j) from trivial).exists_own (step_claimLeave (c := c) hs hj hp)
    exact absurd ht (h t)

/-- In a closed consumer a call of `start` only rests when it has returned, or where the group
keeps it. -/
theorem start_of_closed {stage : Starting} (h : s.Rests c) (hr : s.Reachable c writer plans)
    (hl : s.lifecycle = .closed) (hi : s.tasks[i]? = some (.start stage)) :
    stage.withGroup ∨ ∃ result, stage = .returned result := by
  have hshut := hr.told.2 hl
  have hstuck {p : Prop} (hstep : (s.start c stage).isSome) : p := by
    rw [h.start hi] at hstep
    cases hstep
  cases stage with
  | inSession | brokenOff => exact .inl rfl
  | returned result => exact .inr ⟨result, rfl⟩
  | entering => exact hstuck (by simp [State.start, hl])
  | takingReceivers => exact hstuck (by cases hheld : s.receiversHeld <;> simp [State.start, hheld])
  | waiting => exact hstuck (by simp [State.start, hl])
  | awaitingShutdown => exact hstuck (by simp [State.start, hshut])
  | joiningClaims session => exact hstuck (by simp [State.start, h.finished hshut])
  | dispatching session claims => cases claims <;> exact hstuck rfl
  | closing cause stage =>
    by_cases hacts : stage.acts
    · -- it would take a consumer down that is down already
      have hclosing := hr.calls.closing_of_mem ((Task.Closes.start cause).mem_closers hi hacts)
      simp [hl] at hclosing
    · cases stage with
      | entering | waiting => exact hstuck (by simp [State.start, close, hl])
      | returned result => cases result <;> exact hstuck rfl
      | _ => exact absurd rfl hacts
  | _ => exact hstuck rfl

end State.Rests

end EventPipeline.Consumer
