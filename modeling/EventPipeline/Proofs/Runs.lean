import Mathlib.Data.List.Induction
/-!
# Runs

A system moves by actions, each of which is possible in a state or not. A run takes
actions one after the other, and does not come about if one of them is not possible.
What every action keeps, a run keeps (`runFrom_keeps`), and so it is for what is said
of the actions taken as well (`runFrom_induct`).
-/
namespace EventPipeline

variable {σ α : Type} {step : σ → α → Option σ} {s t u : σ} {actions more : List α} {a : α}

/-- Where actions lead to that are taken one after the other. -/
def runFrom (step : σ → α → Option σ) (s : σ) (actions : List α) : Option σ :=
  actions.foldlM step s

theorem runFrom_cons (h : step s a = some u) :
    runFrom step s (a :: actions) = runFrom step u actions := by
  rw [runFrom, List.foldlM_cons, h]
  rfl

theorem runFrom_append (h : runFrom step s actions = some t) :
    runFrom step s (actions ++ more) = runFrom step t more := by
  rw [runFrom, List.foldlM_append]
  exact (congrArg (· >>= fun u => runFrom step u more) h).trans rfl

theorem runFrom_concat_iff : runFrom step s (actions ++ [a]) = some t ↔
    ∃ u, runFrom step s actions = some u ∧ step u a = some t := by
  constructor
  · intro h
    rw [runFrom, List.foldlM_append] at h
    obtain ⟨u, hu, ht⟩ := Option.bind_eq_some_iff.1 h
    obtain ⟨v, hv, ht⟩ := Option.bind_eq_some_iff.1 ht
    obtain rfl := Option.some.inj ht
    exact ⟨u, hu, hv⟩
  · rintro ⟨u, hu, ht⟩
    rw [runFrom_append hu]
    exact Option.bind_eq_some_iff.2 ⟨t, ht, rfl⟩

/-- What holds of no actions, and of one action more if it held before that, holds of a run. -/
theorem runFrom_induct {P : List α → σ → Prop} (h : runFrom step s actions = some t)
    (start : P [] s)
    (next : ∀ done a u v, runFrom step s done = some u → P done u → step u a = some v →
      P (done ++ [a]) v) : P actions t := by
  induction actions using List.reverseRecOn generalizing t with
  | nil =>
    obtain rfl := Option.some.inj h
    exact start
  | append_singleton done a ih =>
    obtain ⟨u, hu, ht⟩ := runFrom_concat_iff.1 h
    exact next done a u t hu (ih hu) ht

theorem runFrom_keeps {P : σ → Prop} (h : runFrom step s actions = some t) (start : P s)
    (next : ∀ u a v, P u → step u a = some v → P v) : P t :=
  runFrom_induct (P := fun _ u => P u) h start fun _ a u v _ hu hv => next u a v hu hv

end EventPipeline
