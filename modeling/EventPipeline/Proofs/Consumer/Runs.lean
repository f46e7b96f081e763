import EventPipeline.Proofs.Consumer.Move
import EventPipeline.Proofs.Runs
/-!
# Runs of a consumer

Some properties hold of runs of a certain kind only, such as those in which no session
fails. `Leads` is about runs of which each step is one that is allowed. They are runs
of the consumer like any others, so all that holds of those holds of them as well.
-/
namespace EventPipeline.Consumer

variable {ω : Type} {c : Setup ω} {allows : State ω → State ω → Prop} {s t u : State ω}
  {writer : ω} {plans : List Plan}

/-- Where runs lead to from `s`, if each step is allowed. -/
inductive State.Leads (c : Setup ω) (allows : State ω → State ω → Prop) (s : State ω) :
    State ω → Prop
  | refl : Leads c allows s s
  | step {t u : State ω} {a : Action} : Leads c allows s t → t.step c a = some u → allows t u →
      Leads c allows s u

/-- Where runs lead to from `s`, whatever their steps. -/
abbrev State.LeadsTo (c : Setup ω) (s t : State ω) : Prop := s.Leads c (fun _ _ => True) t

theorem State.Leads.reachable (h : s.Leads c allows t) (hs : s.Reachable c writer plans) :
    t.Reachable c writer plans := by
  induction h with
  | refl => exact hs
  | step _ hu _ ih => exact ih.step hu

theorem State.Leads.trans (h : s.Leads c allows t) (h' : t.Leads c allows u) :
    s.Leads c allows u := by
  induction h' with
  | refl => exact h
  | step _ hu hallowed ih => exact ih.step hu hallowed

/-- A run whose steps are allowed may do with less. -/
theorem State.Leads.mono {allows' : State ω → State ω → Prop} (h : s.Leads c allows t)
    (hallows : ∀ s t, allows s t → allows' s t) : s.Leads c allows' t := by
  induction h with
  | refl => exact .refl
  | step _ hu hallowed ih => exact ih.step hu (hallows _ _ hallowed)

theorem State.Reachable.leadsTo (h : s.Reachable c writer plans) :
    (State.initial writer plans).LeadsTo c s := by
  induction h with
  | initial => exact .refl
  | step _ ht ih => exact ih.step ht trivial

/-- What is kept by every move that is allowed holds where a run leads to. -/
theorem State.Leads.induct {P : State ω → Prop} (h : s.Leads c allows t)
    (hs : s.Reachable c writer plans) (start : P s)
    (move : ∀ t u, t.Reachable c writer plans → P t → Move c t u → allows t u → P u) : P t := by
  induction h with
  | refl => exact start
  | step hst hu hallowed ih => exact move _ _ (hst.reachable hs) ih (.of_step hu) hallowed

/-- Actions one after the other. -/
def State.run (c : Setup ω) (s : State ω) (actions : List Action) : Option (State ω) :=
  runFrom (State.step c) s actions

theorem State.Reachable.run {actions : List Action} (h : s.Reachable c writer plans)
    (ht : s.run c actions = some t) : t.Reachable c writer plans :=
  runFrom_keeps ht h fun _ _ _ hu hv => hu.step hv

/-- Actions one after the other, if each step is allowed. -/
def State.runWithin (c : Setup ω) (allows : State ω → State ω → Prop)
    [∀ s t, Decidable (allows s t)] (s : State ω) (actions : List Action) : Option (State ω) :=
  runFrom (fun s a => (s.step c a).filter (fun t => allows s t)) s actions

theorem State.Leads.of_run [∀ s t, Decidable (allows s t)] {actions : List Action}
    (ht : s.runWithin c allows actions = some t) : s.Leads c allows t := by
  refine runFrom_keeps ht .refl fun u a v hu hv => ?_
  obtain ⟨hv, hallowed⟩ := Option.filter_eq_some_iff.1 hv
  exact hu.step hv (of_decide_eq_true hallowed)

/-- Where everybody settles, they get by some actions. -/
theorem State.exists_run_settle (s : State ω) (limit : Nat) :
    ∃ actions, s.run c actions = some (s.settle c limit) := by
  induction limit generalizing s with
  | zero => exact ⟨[], rfl⟩
  | succ limit ih =>
    unfold State.settle
    split
    next t ht =>
      obtain ⟨a, -, hs⟩ := List.exists_of_findSome?_eq_some ht
      obtain ⟨actions, hactions⟩ := ih t
      exact ⟨a :: actions, Option.bind_eq_some_iff.2 ⟨t, hs, hactions⟩⟩
    next => exact ⟨[], rfl⟩

/-- Let everybody move, at most `limit` times, as long as somebody has a move that is allowed. -/
def State.settleWithin (c : Setup ω) (allows : State ω → State ω → Prop)
    [∀ s t, Decidable (allows s t)] : Nat → State ω → State ω
  | 0, s => s
  | limit + 1, s =>
    match s.ownActions.findSome? (fun a => (s.step c a).filter (fun t => allows s t)) with
    | some t => settleWithin c allows limit t
    | none => s

theorem State.Leads.settleWithin [∀ s t, Decidable (allows s t)] (h : s.Leads c allows t)
    (limit : Nat) : s.Leads c allows (t.settleWithin c allows limit) := by
  induction limit generalizing t with
  | zero => exact h
  | succ limit ih =>
    unfold State.settleWithin
    split
    next u hu =>
      obtain ⟨a, -, hs⟩ := List.exists_of_findSome?_eq_some hu
      obtain ⟨hs, hallowed⟩ := Option.filter_eq_some_iff.1 hs
      exact ih (h.step hs (of_decide_eq_true hallowed))
    next => exact h

end EventPipeline.Consumer
