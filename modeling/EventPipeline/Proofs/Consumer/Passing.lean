import EventPipeline.Proofs.Consumer.Calls
import EventPipeline.Proofs.Consumer.Runs
/-!
# Calls of `start` that got past their check

A call of `start` first checks that the consumer was just created. One call at most gets
past that check, whatever becomes of it later (`Passing`), and then the receivers are
there for it, so that it never returns that the consumer was started already.
-/
namespace EventPipeline.Consumer

variable {ω : Type} {c : Setup ω} {writer : ω} {plans : List Plan} {s t : State ω} {i : Nat}

/-- Whether a call of `start` got past its check. -/
def Starting.passed : Starting → Bool
  | .entering | .returned (some .alreadyStarted) => false
  | _ => true

/-- The stage of a task that got past the check of `start`. -/
def Task.passed : Task → List Starting
  | .start stage => if stage.passed then [stage] else []
  | _ => []

/-- The stages of all tasks that got past the check of `start`. -/
def State.passed (s : State ω) : List Starting := s.tasks.flatMap Task.passed

theorem State.mem_passed_iff {stage : Starting} :
    stage ∈ s.passed ↔ stage.passed ∧ .start stage ∈ s.tasks := by
  constructor
  · intro h
    obtain ⟨task, hmem, hstage⟩ := List.mem_flatMap.1 h
    cases task with
    | start stage' =>
      by_cases hp : stage'.passed
      · simp only [Task.passed, hp, if_true, List.mem_singleton] at hstage
        rw [hstage]
        exact ⟨hp, hmem⟩
      · simp [Task.passed, hp] at hstage
    | close | closeAfterFailure => cases hstage
  · rintro ⟨hp, hmem⟩
    exact List.mem_flatMap.2 ⟨_, hmem, by simp [Task.passed, hp]⟩

theorem State.mem_passed {stage : Starting} (hi : s.tasks[i]? = some (.start stage))
    (hp : stage.passed) : stage ∈ s.passed :=
  State.mem_passed_iff.2 ⟨hp, List.mem_of_getElem? hi⟩

/-- One call got past its check at most, and it finds the receivers where they were. -/
structure Passing (s : State ω) : Prop where
  once : s.passed.length ≤ if s.lifecycle = .created then 0 else 1
  receivers : s.lifecycle = .created ∨ .takingReceivers ∈ s.passed → s.receiversHeld

theorem Passing.length_le (h : Passing s) : s.passed.length ≤ 1 :=
  Nat.le_trans h.once (by split <;> omega)

/-- A call that got past its check is the only one. -/
theorem Passing.only {stage : Starting} (h : Passing s)
    (hi : s.tasks[i]? = some (.start stage)) (hp : stage.passed) :
    s.passed = [stage] ∧ ∀ b : Task, (s.tasks.set i b).flatMap Task.passed = b.passed := by
  have hstage : (Task.start stage).passed = [stage] := if_pos hp
  have hne : (Task.start stage).passed ≠ [] := by rw [hstage]; exact List.cons_ne_nil _ _
  have hset (b : Task) := flatMap_set_of_unique (b := b) hi h.length_le hne
  exact ⟨(hset (.start stage)).1.trans hstage, fun b => (hset b).2⟩

/-! ## The calls of `start` -/

/-- What a move of a call of `start` does to those that got past their check. -/
inductive Passing.Turn (s t : State ω) (stage stage' : Starting) : Prop
  | enters : stage = .entering → s.lifecycle = .created → t.lifecycle = .running →
    t.receiversHeld = s.receiversHeld → s.passed = [] → t.passed = [.takingReceivers] →
    Turn s t stage stage'
  | refused : stage = .entering → t.lifecycle = s.lifecycle →
    t.receiversHeld = s.receiversHeld → t.passed = s.passed → Turn s t stage stage'
  | goesOn : stage' ≠ .takingReceivers → t.lifecycle = s.lifecycle → s.passed = [stage] →
    t.passed = [stage'] → Turn s t stage stage'

theorem StartMove.passed {stage stage' : Starting} {u : State ω} (hm : StartMove s stage stage' u)
    (hne : stage ≠ .entering) (hheld : stage = .takingReceivers → s.receiversHeld) :
    stage.passed ∧ stage'.passed ∧ stage' ≠ .takingReceivers ∧ u.lifecycle = s.lifecycle := by
  cases hm with
  | begin | refuse => exact absurd rfl hne
  | missReceivers hr => simp [hr] at hheld
  | @dispatched session ends => cases ends <;> exact ⟨rfl, rfl, by simp, rfl⟩
  | @collect result =>
    cases hf : s.failure <;> cases result <;> exact ⟨rfl, rfl, by simp, rfl⟩
  | _ => exact ⟨rfl, rfl, by simp, rfl⟩

theorem Passing.turn {stage stage' : Starting} {u : State ω} (h : Passing s)
    (hi : s.tasks[i]? = some (.start stage)) (hm : StartMove s stage stage' u) :
    Turn s { u with tasks := u.tasks.set i (.start stage') } stage stage' := by
  by_cases hentering : stage = .entering
  · subst hentering
    cases hm with
    | begin hl =>
      have hnone : s.passed = [] := by
        have hle := h.once
        rw [if_pos hl] at hle
        exact List.eq_nil_of_length_eq_zero (Nat.le_zero.1 hle)
      refine .enters rfl hl rfl rfl hnone ?_
      obtain ⟨before, after, hsplit, hset⟩ := exists_split_of_getElem? hi
      rw [State.passed, hsplit, List.flatMap_append, List.flatMap_cons, List.append_eq_nil_iff,
        List.append_eq_nil_iff] at hnone
      show (s.tasks.set i _).flatMap Task.passed = _
      rw [hset, List.flatMap_append, List.flatMap_cons, hnone.1, hnone.2.2]
      rfl
    | refuse => exact .refused rfl rfl rfl (flatMap_set_of_eq hi rfl)
  · obtain ⟨hp, hp', hne, hl⟩ := hm.passed hentering fun he =>
      h.receivers (.inr (he ▸ State.mem_passed hi (by rw [he]; rfl)))
    obtain ⟨hall, hset⟩ := h.only hi hp
    refine .goesOn hne hl hall ?_
    show (u.tasks.set i _).flatMap Task.passed = _
    rw [hm.tasks, hset]
    exact if_pos hp'

/-- A call that closes the consumer stays past its check, if it is a call of `start` that is. -/
theorem Task.Closes.passed {task : Closing → Task} (h : Closes task) :
    (∀ stage, (task stage).passed = []) ∨
      ∃ e, ∀ stage, (task stage).passed = [.closing e stage] := by
  cases h with
  | caller | coordinator => exact .inl fun _ => rfl
  | start e => exact .inr ⟨e, fun _ => rfl⟩

section
variable {task : Closing → Task} {stage stage' : Closing}

theorem Task.Closes.length_passed (h : Closes task) (hi : s.tasks[i]? = some (task stage)) :
    ((s.tasks.set i (task stage')).flatMap Task.passed).length = s.passed.length := by
  have hlen := length_flatMap_set Task.passed hi (task stage')
  rcases h.passed with hnil | ⟨e, he⟩
  · rw [hnil, hnil] at hlen
    exact hlen
  · rw [he, he] at hlen
    exact Nat.add_right_cancel hlen

theorem Task.Closes.mem_passed (h : Closes task) (hi : s.tasks[i]? = some (task stage)) :
    ∀ x ∈ (s.tasks.set i (task stage')).flatMap Task.passed,
      x ∈ s.passed ∨ ∃ e stage, x = .closing e stage := by
  refine forall_mem_flatMap_set hi (fun x hx => .inl hx) (fun x hx => hx) ?_
  intro _ x hx
  rcases h.passed with hnil | ⟨e, he⟩
  · simp [hnil] at hx
  · rw [he, List.mem_singleton] at hx
    exact .inr ⟨e, _, hx⟩

end

/-! ## Every move -/

theorem Passing.of_same (h : Passing s) (hp : t.passed = s.passed)
    (hl : t.lifecycle = s.lifecycle) (hr : t.receiversHeld = s.receiversHeld) : Passing t := by
  obtain ⟨h1, h2⟩ := h
  constructor <;> rw [hp, hl] <;> first | assumption | rwa [hr]

theorem Passing.close {task : Closing → Task} {stage stage' : Closing} {u : State ω}
    (h : Passing s) (htask : Task.Closes task) (hi : s.tasks[i]? = some (task stage))
    (hm : CloseMove c s stage stage' u) :
    Passing { u with tasks := u.tasks.set i (task stage') } := by
  have hon (hl : u.lifecycle = .created → s.lifecycle = .created)
      (hr : u.receiversHeld = s.receiversHeld) :
      Passing { u with tasks := u.tasks.set i (task stage') } := by
    refine ⟨?_, ?_⟩
    · show ((u.tasks.set i _).flatMap Task.passed).length ≤ _
      rw [hm.tasks, htask.length_passed hi]
      have hle := h.once
      split
      next hcreated =>
        rw [if_pos (hl hcreated)] at hle
        exact hle
      next => exact h.length_le
    · show u.lifecycle = .created ∨ _ ∈ (u.tasks.set i _).flatMap Task.passed → _
      rw [hm.tasks]
      rintro (hcreated | hmem)
      · exact hr.trans (h.receivers (.inl (hl hcreated)))
      · rcases htask.mem_passed hi _ hmem with hmem | ⟨e, stage, he⟩
        · exact hr.trans (h.receivers (.inr hmem))
        · cases he
  cases hm with
  | begin | publish => exact hon (fun hc => by cases hc) rfl
  | _ => exact hon id rfl

theorem Passing.start {stage stage' : Starting} (h : Passing s) (ht : Turn s t stage stage') :
    Passing t := by
  cases ht with
  | enters _ hcreated hl hr hnone hp =>
    refine ⟨?_, fun _ => hr.trans (h.receivers (.inl hcreated))⟩
    rw [hp, hl]
    exact Nat.le_refl 1
  | refused _ hl hr hp => exact h.of_same hp hl hr
  | goesOn hne hl hs hp =>
    have hcreated : s.lifecycle ≠ .created := by
      intro hc
      have hle := h.once
      rw [if_pos hc, hs] at hle
      cases hle
    refine ⟨?_, ?_⟩
    · rw [hp, hl, if_neg hcreated]
      exact Nat.le_refl 1
    · rw [hp, hl]
      rintro (hc | hmem)
      · exact absurd hc hcreated
      · exact absurd (List.mem_singleton.1 hmem).symm hne

theorem Passing.move (h : Passing s) (hm : Move c s t) : Passing t := by
  cases hm with
  | claim _ hm => cases hm <;> exact h.of_same rfl rfl rfl
  | coordinate _ hm =>
    cases hm with
    | fail => exact h.of_same (by simp [State.passed, State.setCoordinator, Task.passed]) rfl rfl
    | _ => exact h.of_same rfl rfl rfl
  | close htask hi hm => exact h.close htask hi hm
  | start hi hm => exact h.start (h.turn hi hm)
  | @leaveSession i stage _ hi hstage =>
    have hstage : stage.passed ∧ stage ≠ .takingReceivers := by
      rcases hstage with rfl | rfl | ⟨e, rfl⟩ <;> exact ⟨rfl, by simp⟩
    obtain ⟨hall, hset⟩ := h.only hi rfl
    exact h.start (.goesOn hstage.2 rfl hall ((hset _).trans (if_pos hstage.1)))
  | callStart | callClose =>
    exact h.of_same (by simp [State.passed, Task.passed, Starting.passed]) rfl rfl
  | _ => exact h.of_same rfl rfl rfl

theorem State.Reachable.passing (h : s.Reachable c writer plans) : Passing s :=
  h.induct ⟨Nat.le_refl _, fun _ => rfl⟩ fun _ _ _ ih hm => ih.move hm

/-- A call that got past its check stays past it. -/
theorem Move.passed (h : Passing s) (hm : Move c s t) {stage : Starting}
    (hi : s.tasks[i]? = some (.start stage)) (hp : stage.passed) :
    ∃ stage', t.tasks[i]? = some (.start stage') ∧ stage'.passed := by
  have hlt : i < s.tasks.length := (List.getElem?_eq_some_iff.1 hi).1
  have hsame (ht : t.tasks[i]? = s.tasks[i]?) :
      ∃ stage', t.tasks[i]? = some (.start stage') ∧ stage'.passed := ⟨stage, ht.trans hi, hp⟩
  -- a task that is changed is this one or another
  have hset {j : Nat} {task : Task} (ht : t.tasks = s.tasks.set j task)
      (hj : i = j → ∃ stage', task = .start stage' ∧ stage'.passed) :
      ∃ stage', t.tasks[i]? = some (.start stage') ∧ stage'.passed := by
    by_cases hij : i = j
    · obtain ⟨stage', rfl, hp'⟩ := hj hij
      exact ⟨stage', by rw [ht, ← hij, List.getElem?_set_self hlt], hp'⟩
    · exact hsame (by rw [ht, List.getElem?_set_ne (Ne.symm hij)])
  cases hm with
  | claim _ hm => cases hm <;> exact hsame rfl
  | coordinate _ hm =>
    cases hm with
    | fail => exact hsame (List.getElem?_append_left hlt)
    | _ => exact hsame rfl
  | close htask hj hm =>
    refine hset (by rw [hm.tasks]) fun hij => ?_
    rw [← hij, hi] at hj
    cases htask with
    | caller | coordinator => cases hj
    | start e => exact ⟨_, rfl, rfl⟩
  | start hj hm =>
    refine hset (by rw [hm.tasks]) fun hij => ?_
    rw [← hij, hi] at hj
    obtain rfl := Task.start.inj (Option.some.inj hj)
    obtain ⟨-, hp', -⟩ := hm.passed (by rintro rfl; cases hp)
      fun he => h.receivers (.inr (he ▸ State.mem_passed hi hp))
    exact ⟨_, rfl, hp'⟩
  | leaveSession _ hj hstage =>
    refine hset rfl fun _ => ⟨_, rfl, ?_⟩
    rcases hstage with rfl | rfl | ⟨e, rfl⟩ <;> rfl
  | callStart | callClose => exact hsame (List.getElem?_append_left hlt)
  | _ => exact hsame rfl

end EventPipeline.Consumer
