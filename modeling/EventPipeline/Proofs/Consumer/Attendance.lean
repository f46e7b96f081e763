import EventPipeline.Proofs.Consumer.Drained
/-!
# Claims are waited for

A call of `start` does not leave a planned session before the claims of that session are finished.
So whatever is still at work belongs to a session that some call of `start` is in (`Attended`), and
when all calls have come to their ends, no claim is at work any more.
-/
namespace EventPipeline.Consumer

variable {ω : Type} {c : Setup ω} {writer : ω} {plans : List Plan} {s t : State ω} {i : Nat}

/-- The session whose claims a call of `start` is going to wait for. -/
def Starting.session? : Starting → Option Nat
  | .dispatching session _ _ | .awaitingShutdown session | .releasing session
  | .joiningClaims session => some session
  | _ => none

/-- The session whose claims a task is going to wait for. -/
def Task.session? : Task → Option Nat
  | .start stage => stage.session?
  | _ => none

/-- The sessions that calls of `start` are in. -/
def State.serving (s : State ω) : List Nat := s.tasks.filterMap Task.session?

/-- Every claim that is at work is waited for. -/
def Attended (s : State ω) : Prop :=
  ∀ claim ∈ s.claims, claim.phase = .finished ∨ claim.session ∈ s.serving

/-- What is found in an entry that changes is still found, if the new entry has it as well. -/
theorem mem_filterMap_set {α β : Type} {f : α → Option β} {l : List α} {a b : α} {x : β}
    (hi : l[i]? = some a) (hx : x ∈ l.filterMap f) (hb : f a = some x → f b = some x) :
    x ∈ (l.set i b).filterMap f := by
  obtain ⟨before, after, rfl, hset⟩ := exists_split_of_getElem? hi
  obtain ⟨y, hy, hfy⟩ := List.mem_filterMap.1 hx
  rw [hset]
  refine List.mem_filterMap.2 ?_
  rcases List.mem_append.1 hy with hy | hy
  · exact ⟨y, List.mem_append_left _ hy, hfy⟩
  · rcases List.mem_cons.1 hy with rfl | hy
    · exact ⟨b, by simp, hb hfy⟩
    · exact ⟨y, by simp [hy], hfy⟩

namespace Attended

/-- Claims keep their sessions, and what is finished stays so. -/
theorem of_claims (h : Attended s) (hserving : ∀ n ∈ s.serving, n ∈ t.serving)
    (hclaims : ∀ x ∈ t.claims, ∃ y ∈ s.claims, x.session = y.session ∧
      (y.phase = .finished → x.phase = .finished)) : Attended t := by
  intro x hx
  obtain ⟨y, hy, hsession, hfinished⟩ := hclaims x hx
  rw [hsession]
  exact (h y hy).imp hfinished (hserving _)

theorem of_same (h : Attended s) (hserving : ∀ n ∈ s.serving, n ∈ t.serving)
    (hclaims : t.claims = s.claims) : Attended t :=
  h.of_claims hserving fun x hx => ⟨x, hclaims ▸ hx, rfl, id⟩

theorem setClaim {claim claim' : Claim} (h : Attended s) (hi : s.claims[i]? = some claim)
    (hclaims : t.claims = s.claims.set i claim') (htasks : t.tasks = s.tasks)
    (hsession : claim'.session = claim.session)
    (hfinished : claim.phase = .finished → claim'.phase = .finished) : Attended t := by
  refine h.of_claims (fun n hn => by rwa [State.serving, htasks]) fun x hx => ?_
  rw [hclaims] at hx
  rcases List.mem_or_eq_of_mem_set hx with hx | rfl
  · exact ⟨x, hx, rfl, id⟩
  · exact ⟨claim, List.mem_of_getElem? hi, hsession, hfinished⟩

theorem claim {claim : Claim} (h : Attended s) (hi : s.claims[i]? = some claim)
    (hm : ClaimMove c s i claim t) : Attended t := by
  cases hm with
  | skip hp | decode hp | send hp => exact h.setClaim hi rfl rfl rfl (by simp [hp])
  | finish | drop | abandon => exact h.setClaim hi rfl rfl rfl fun _ => rfl

/-- A task goes on without leaving a session. -/
theorem of_task {a b : Task} (h : Attended s) (hi : s.tasks[i]? = some a)
    (ht : t.tasks = s.tasks.set i b) (hclaims : t.claims = s.claims)
    (hsession : ∀ n, a.session? = some n → b.session? = some n) : Attended t := by
  refine h.of_same (fun n hn => ?_) hclaims
  rw [State.serving, ht]
  exact mem_filterMap_set hi hn (hsession n)

theorem start {stage stage' : Starting} {u : State ω} (h : Attended s)
    (hi : s.tasks[i]? = some (.start stage)) (hm : StartMove s stage stage' u) :
    Attended { u with tasks := u.tasks.set i (.start stage') } := by
  have hserving {n : Nat} (hn : n ∈ s.serving)
      (hstays : stage.session? = some n → stage'.session? = some n) :
      n ∈ (s.tasks.set i (.start stage')).filterMap Task.session? :=
    mem_filterMap_set hi hn hstays
  cases hm with
  | @dispatch session key waiting rest ends =>
    intro claim hmem
    rcases List.mem_append.1 hmem with hmem | hmem
    · exact (h claim hmem).imp_right fun hn => hserving hn id
    · -- the new claim belongs to the session it is claimed in
      rw [List.mem_singleton.1 hmem]
      have hin : session ∈ s.serving :=
        List.mem_filterMap.2 ⟨_, List.mem_of_getElem? hi, rfl⟩
      exact .inr (hserving hin id)
  | @dispatched session ends =>
    exact h.of_task hi rfl rfl fun n hn => by cases ends <;> exact hn
  | @release session =>
    refine h.of_claims (fun n hn => hserving hn id) fun x hx => ?_
    obtain ⟨y, hy, rfl⟩ := List.mem_map.1 hx
    refine ⟨y, hy, ?_⟩
    split <;> exact ⟨rfl, id⟩
  | @claimsFinished session hf =>
    intro claim hmem
    have hall := List.all_eq_true.1 hf claim hmem
    by_cases hsession : claim.session = session
    · exact .inl (by simpa [hsession] using hall)
    · refine (h claim hmem).imp_right fun hn => hserving hn fun he => ?_
      exact absurd (Option.some.inj he).symm hsession
  | seeShutdown => exact h.of_task hi rfl rfl fun n hn => hn
  | _ => exact h.of_task hi rfl rfl fun n hn => by cases hn

theorem move (h : Attended s) (hfree : s.free = false) (hm : Move c s t) : Attended t := by
  have hnotFree := Bool.eq_false_iff.1 hfree
  have hcall {task : Task} (ht : t.tasks = s.tasks ++ [task]) (hclaims : t.claims = s.claims) :
      Attended t := by
    refine h.of_same (fun n hn => ?_) hclaims
    rw [State.serving, ht, List.filterMap_append]
    exact List.mem_append_left _ hn
  cases hm with
  | claim hi hm => exact h.claim hi hm
  | coordinate _ hm =>
    cases hm with
    | fail => exact hcall rfl rfl
    | _ => exact h.of_same (fun n hn => hn) rfl
  | close htask hi hm =>
    refine h.of_task hi (by rw [hm.tasks]) (by cases hm <;> rfl) fun n hn => ?_
    cases htask <;> cases hn
  | start hi hm => exact h.start hi hm
  | claimFreely hf | feed hf | cutOff hf | leaveSession hf => exact absurd hf hnotFree
  | callStart | callClose => exact hcall rfl rfl
  | _ => exact h.of_same (fun n hn => hn) rfl

end Attended

theorem State.Reachable.planned (h : s.Reachable c writer plans) (hn : .free ∉ plans) :
    s.Planned :=
  h.induct ⟨rfl, hn⟩ fun _ _ _ ih hm => ih.move hm

theorem State.Reachable.attended (h : s.Reachable c writer plans) (hn : .free ∉ plans) :
    Attended s :=
  State.Reachable.induct (P := Attended) h (fun _ hx => by cases hx)
    fun _ _ hr ih hm => ih.move (hr.planned hn).1 hm

/-! ## The end -/

/-- Whether a call has come to its end: it returned, or it was broken off. -/
def Task.over : Task → Bool
  | .start .brokenOff | .start (.returned _) => true
  | .close (.returned _) | .closeAfterFailure (.returned _) => true
  | _ => false

/-- The consumer is closed, and all calls have come to their ends. -/
structure State.Over (s : State ω) : Prop where
  closed : s.lifecycle = .closed
  tasks : ∀ task ∈ s.tasks, task.over

theorem Task.session?_of_over {task : Task} (h : task.over) : task.session? = none := by
  cases task with
  | start stage =>
    cases stage with
    | brokenOff | returned => rfl
    | _ => cases h
  | close | closeAfterFailure => rfl

/-- When all calls have come to their ends, all claims are finished. -/
theorem State.Over.finished (h : s.Over) (ha : Attended s) :
    ∀ claim ∈ s.claims, claim.phase = .finished := by
  intro claim hmem
  refine (ha claim hmem).resolve_right fun hin => ?_
  obtain ⟨task, htask, hsession⟩ := List.mem_filterMap.1 hin
  rw [Task.session?_of_over (h.tasks task htask)] at hsession
  cases hsession

end EventPipeline.Consumer
