import EventPipeline.Proofs.Consumer.Move
/-!
# The calls under way

However many calls of `start` and `close` are under way, one call of `start` at most has
begun to run the consumer, and one call of `close` takes it down, from the moment it is
closing until it is closed. `Calls` says so, and ties both to the handle of the
coordinator: it is there once the call of `start` kept it, until the call of `close` takes it.
-/
namespace EventPipeline.Consumer

variable {ω : Type} {c : Setup ω} {s t : State ω}

/-! ## One entry of a list changes -/

section
variable {α β : Type} {l : List α} {i : Nat} {a : α}

theorem exists_split_of_getElem? (hi : l[i]? = some a) :
    ∃ before after, l = before ++ a :: after ∧ ∀ b, l.set i b = before ++ b :: after := by
  obtain ⟨hlt, rfl⟩ := List.getElem?_eq_some_iff.1 hi
  refine ⟨l.take i, l.drop (i + 1), ?_, fun b => List.set_eq_take_append_cons_drop .. ▸ if_pos hlt⟩
  simp

theorem length_flatMap_set (f : α → List β) (hi : l[i]? = some a) (b : α) :
    ((l.set i b).flatMap f).length + (f a).length = (l.flatMap f).length + (f b).length := by
  obtain ⟨before, after, rfl, hset⟩ := exists_split_of_getElem? hi
  rw [hset]
  simp only [List.flatMap_append, List.flatMap_cons, List.length_append]
  omega

theorem forall_mem_flatMap_set {f : α → List β} {P Q : β → Prop} {b : α} (hi : l[i]? = some a)
    (hold : ∀ x ∈ l.flatMap f, P x) (hkeep : ∀ x, P x → Q x)
    (hnew : (∀ x ∈ f a, P x) → ∀ x ∈ f b, Q x) : ∀ x ∈ (l.set i b).flatMap f, Q x := by
  obtain ⟨before, after, rfl, hset⟩ := exists_split_of_getElem? hi
  intro x hx
  rw [hset] at hx
  simp only [List.flatMap_append, List.flatMap_cons, List.mem_append] at hx hold
  rcases hx with hx | hx | hx
  · exact hkeep x (hold x (.inl hx))
  · exact hnew (fun y hy => hold y (.inr (.inl hy))) x hx
  · exact hkeep x (hold x (.inr (.inr hx)))

theorem flatMap_set_of_eq {f : α → List β} {b : α} (hi : l[i]? = some a) (he : f b = f a) :
    (l.set i b).flatMap f = l.flatMap f := by
  obtain ⟨before, after, rfl, hset⟩ := exists_split_of_getElem? hi
  rw [hset]
  simp [he]

theorem any_set_of_eq {p : α → Bool} {b : α} (hi : l[i]? = some a) (he : p b = p a) :
    (l.set i b).any p = l.any p := by
  obtain ⟨before, after, rfl, hset⟩ := exists_split_of_getElem? hi
  rw [hset]
  simp [he]

/-- If there is one at most, it is gone where its entry was changed. -/
theorem flatMap_set_of_unique {f : α → List β} {b : α} (hi : l[i]? = some a)
    (hone : (l.flatMap f).length ≤ 1) (ha : f a ≠ []) :
    l.flatMap f = f a ∧ (l.set i b).flatMap f = f b := by
  obtain ⟨before, after, rfl, hset⟩ := exists_split_of_getElem? hi
  rw [hset]
  simp only [List.flatMap_append, List.flatMap_cons, List.length_append] at hone ⊢
  have hpos := List.length_pos_iff.2 ha
  have hbefore : before.flatMap f = [] := List.eq_nil_of_length_eq_zero (by omega)
  have hafter : after.flatMap f = [] := List.eq_nil_of_length_eq_zero (by omega)
  simp [hbefore, hafter]

/-- If there is one at most, it is in one place. -/
theorem index_eq_of_flatMap {f : α → List β} {j : Nat} {b : α} (hi : l[i]? = some a)
    (hj : l[j]? = some b) (hone : (l.flatMap f).length ≤ 1) (ha : f a ≠ []) (hb : f b ≠ []) :
    i = j := by
  have hpos {l : List α} {x : α} (hx : x ∈ l) (hne : f x ≠ []) : 0 < (l.flatMap f).length :=
    List.length_pos_iff.2 fun hnil => hne (List.flatMap_eq_nil_iff.1 hnil x hx)
  induction l generalizing i j with
  | nil => cases hi
  | cons x l ih =>
    rw [List.flatMap_cons, List.length_append] at hone
    cases i with
    | zero =>
      cases j with
      | zero => rfl
      | succ j =>
        obtain rfl := Option.some.inj hi
        have hfirst := List.length_pos_iff.2 ha
        have hrest := hpos (l := l) (List.mem_of_getElem? hj) hb
        omega
    | succ i =>
      cases j with
      | zero =>
        obtain rfl := Option.some.inj hj
        have hfirst := List.length_pos_iff.2 hb
        have hrest := hpos (l := l) (List.mem_of_getElem? hi) ha
        omega
      | succ j => rw [ih hi hj (by omega)]

end

/-! ## Calls -/

/-- Whether a call of `close` takes the consumer down itself. -/
def Closing.acts : Closing → Bool
  | .entering | .waiting | .returned _ => false
  | _ => true

/-- Whether the handle of the coordinator is dealt with. -/
def Closing.past : Closing → Bool
  | .joiningCoordinator | .leavingGroup | .publishing _ => true
  | _ => false

/-- Whether a call of `start` runs the consumer. -/
def Starting.runs : Starting → Bool
  | .entering | .brokenOff | .returned _ => false
  | _ => true

/-- Whether the handle of the coordinator is not kept yet. -/
def Starting.early : Starting → Bool
  | .takingReceivers | .spawning _ | .keepingHandle => true
  | _ => false

/-- The stage of a task that takes the consumer down. -/
def Task.closers : Task → List Closing
  | .start (.closing _ stage) | .close stage | .closeAfterFailure stage =>
    if stage.acts then [stage] else []
  | .start _ => []

/-- The stage of a task that runs the consumer. -/
def Task.starts : Task → List Starting
  | .start stage => if stage.runs then [stage] else []
  | _ => []

/-- The stages of all tasks that take the consumer down. -/
def State.closers (s : State ω) : List Closing := s.tasks.flatMap Task.closers

/-- The stages of all tasks that run the consumer. -/
def State.starts (s : State ω) : List Starting := s.tasks.flatMap Task.starts

/-- Who runs the consumer and who takes it down. -/
structure Calls (s : State ω) : Prop where
  closers : s.closers.length = if s.lifecycle = .closing then 1 else 0
  starts : s.starts.length ≤ if s.lifecycle = .created then 0 else 1
  created : s.lifecycle = .created → s.handle = .absent
  early : ∀ stage ∈ s.starts, stage.early ↔ s.handle = .absent
  taken : s.handle = .taken →
    (s.lifecycle = .closing ∨ s.lifecycle = .closed) ∧ ∀ stage ∈ s.closers, stage.past

/-! ## The parts of a move -/

theorem Calls.of_same (h : Calls s) (ht : t.tasks = s.tasks) (hl : t.lifecycle = s.lifecycle)
    (hh : t.handle = s.handle) : Calls t := by
  obtain ⟨h1, h2, h3, h4, h5⟩ := h
  unfold State.closers at h1 h5
  unfold State.starts at h2 h4
  constructor <;> simp only [State.closers, State.starts, ht, hl, hh] <;> assumption

/-- A new call neither runs the consumer nor takes it down. -/
theorem Calls.of_call {task : Task} (h : Calls s) (hc : task.closers = []) (hs : task.starts = [])
    (ht : t.tasks = s.tasks ++ [task]) (hl : t.lifecycle = s.lifecycle)
    (hh : t.handle = s.handle) : Calls t := by
  have hclosers : t.closers = s.closers := by simp [State.closers, ht, hc]
  have hstarts : t.starts = s.starts := by simp [State.starts, ht, hs]
  obtain ⟨h1, h2, h3, h4, h5⟩ := h
  constructor <;> simp only [hclosers, hstarts, hl, hh] <;> assumption

theorem Task.Closes.closers {task : Closing → Task} (h : Closes task) (stage : Closing) :
    (task stage).closers = if stage.acts then [stage] else [] := by
  cases h <;> rfl

theorem Task.Closes.eq_of_mem {task : Closing → Task} {stage x : Closing} (h : Closes task)
    (hx : x ∈ (task stage).closers) : x = stage := by
  rw [h.closers] at hx
  by_cases hact : stage.acts
  · simpa [hact] using hx
  · simp [hact] at hx

theorem Task.Closes.mem_closers {task : Closing → Task} {i : Nat} {stage : Closing}
    (h : Closes task) (hi : s.tasks[i]? = some (task stage)) (hact : stage.acts) :
    stage ∈ s.closers := by
  refine List.mem_flatMap.2 ⟨task stage, List.mem_of_getElem? hi, ?_⟩
  rw [h.closers, if_pos hact]
  exact List.mem_singleton_self _

/-- Whoever takes the consumer down is one of the calls under way. -/
theorem State.exists_of_mem_closers {stage : Closing} (h : stage ∈ s.closers) :
    ∃ (i : Nat) (task : Closing → Task), Task.Closes task ∧ s.tasks[i]? = some (task stage) ∧
      stage.acts := by
  obtain ⟨b, hb, hstage⟩ := List.mem_flatMap.1 h
  obtain ⟨i, hi⟩ := List.getElem?_of_mem hb
  have hthis {task : Closing → Task} {x : Closing} (htask : Task.Closes task) (he : b = task x) :
      ∃ (i : Nat) (task : Closing → Task), Task.Closes task ∧ s.tasks[i]? = some (task stage) ∧
        stage.acts := by
    subst he
    obtain rfl := htask.eq_of_mem hstage
    rw [htask.closers] at hstage
    split at hstage
    next ha => exact ⟨i, task, htask, hi, ha⟩
    next => cases hstage
  cases b with
  | close x => exact hthis .caller rfl
  | closeAfterFailure x => exact hthis .coordinator rfl
  | start x =>
    cases x with
    | closing e x => exact hthis (.start e) rfl
    | _ => cases hstage

theorem State.mem_starts {i : Nat} {stage : Starting} (hi : s.tasks[i]? = some (.start stage))
    (hr : stage.runs) : stage ∈ s.starts :=
  List.mem_flatMap.2 ⟨.start stage, List.mem_of_getElem? hi, by simp [Task.starts, hr]⟩

/-- A call of `start` that closes the consumer goes on to run it. -/
theorem Task.Closes.starts {task : Closing → Task} (h : Closes task) :
    (∀ stage, (task stage).starts = []) ∨
      ∃ e, ∀ stage, (task stage).starts = [.closing e stage] := by
  cases h with
  | caller | coordinator => exact .inl fun _ => rfl
  | start e => exact .inr ⟨e, fun _ => rfl⟩

theorem CloseMove.tasks {stage stage' : Closing} (h : CloseMove c s stage stage' t) :
    t.tasks = s.tasks := by
  cases h <;> rfl

theorem StartMove.tasks {stage stage' : Starting} (h : StartMove s stage stage' t) :
    t.tasks = s.tasks := by
  cases h <;> rfl

section
variable {i : Nat} {task : Closing → Task} {stage stage' : Closing} {u : State ω}

/-- Who runs the consumer is not changed by a call that closes it. -/
theorem Calls.starts_close (h : Calls s) (htask : Task.Closes task)
    (hi : s.tasks[i]? = some (task stage)) (stage' : Closing) :
    ((s.tasks.set i (task stage')).flatMap Task.starts).length = s.starts.length ∧
      ∀ x ∈ (s.tasks.set i (task stage')).flatMap Task.starts, x.early ↔ s.handle = .absent := by
  have hlen := length_flatMap_set Task.starts hi (task stage')
  rcases htask.starts with hnil | ⟨e, hone⟩
  · rw [hnil, hnil] at hlen
    refine ⟨hlen, forall_mem_flatMap_set hi h.early (fun _ hx => hx) ?_⟩
    simp [hnil]
  · rw [hone, hone] at hlen
    refine ⟨Nat.add_right_cancel hlen, forall_mem_flatMap_set hi h.early (fun _ hx => hx) ?_⟩
    intro hold x hx
    rw [hone, List.mem_singleton] at hx
    rw [hx]
    exact hold (.closing e stage) (by simp [hone])

/-- A call that closes the consumer goes on, neither beginning to take it down nor done with it. -/
theorem Calls.close_on (h : Calls s) (htask : Task.Closes task)
    (hi : s.tasks[i]? = some (task stage)) (ht : t.tasks = s.tasks.set i (task stage'))
    (hacts : stage'.acts = stage.acts) (hpast : stage.past → stage'.past)
    (hl : t.lifecycle = s.lifecycle) (hh : t.handle = s.handle) : Calls t := by
  obtain ⟨hlen, hearly⟩ := h.starts_close htask hi stage'
  have hcount := length_flatMap_set Task.closers hi (task stage')
  rw [htask.closers, htask.closers, hacts] at hcount
  refine ⟨?_, ?_, ?_, ?_, ?_⟩
  · have hsame : t.closers.length = s.closers.length := by
      simp only [State.closers, ht]
      split at hcount <;> simpa using hcount
    rw [hsame, hl]
    exact h.closers
  · rw [State.starts, ht, hlen, hl]
    exact h.starts
  · rw [hl, hh]
    exact h.created
  · rw [State.starts, ht, hh]
    exact hearly
  · rw [hl, hh, State.closers, ht]
    intro htaken
    obtain ⟨hdown, hold⟩ := h.taken htaken
    refine ⟨hdown, forall_mem_flatMap_set hi hold (fun _ hx => hx) ?_⟩
    rw [htask.closers, htask.closers, hacts]
    by_cases hact : stage.acts
    · simpa [hact] using hpast
    · simp [hact]

theorem Calls.starts_length_le (h : Calls s) : s.starts.length ≤ 1 :=
  Nat.le_trans h.starts (by split <;> omega)

/-- Whoever takes the consumer down, does so while it is closing. -/
theorem Calls.closing_of_mem (h : Calls s) {stage : Closing} (hmem : stage ∈ s.closers) :
    s.lifecycle = .closing := by
  have hcount := h.closers
  have hpos := List.length_pos_of_mem hmem
  split at hcount
  next hl => exact hl
  next => omega

/-- Who takes the consumer down is the only one, and the consumer is closing. -/
theorem Calls.only_closer (h : Calls s) (htask : Task.Closes task)
    (hi : s.tasks[i]? = some (task stage)) (hact : stage.acts) :
    s.lifecycle = .closing ∧ s.closers = [stage] ∧
      ∀ b : Task, (s.tasks.set i b).flatMap Task.closers = b.closers := by
  have hone : s.closers.length ≤ 1 := by
    rw [h.closers]
    split <;> omega
  have hstage : (task stage).closers = [stage] := by rw [htask.closers, if_pos hact]
  have hne : (task stage).closers ≠ [] := by rw [hstage]; exact List.cons_ne_nil _ _
  have hall : s.closers = [stage] :=
    hstage ▸ (flatMap_set_of_unique (b := task stage) hi hone hne).1
  exact ⟨h.closing_of_mem (htask.mem_closers hi hact), hall,
    fun b => (flatMap_set_of_unique hi hone hne).2⟩

theorem Calls.close (h : Calls s) (htask : Task.Closes task)
    (hi : s.tasks[i]? = some (task stage)) (hm : CloseMove c s stage stage' u) :
    Calls { u with tasks := u.tasks.set i (task stage') } := by
  obtain ⟨hlen, hearly⟩ := h.starts_close htask hi stage'
  have hstarts := h.starts_length_le
  cases hm with
  | begin hl =>
    -- nobody takes the consumer down yet
    have hnone : s.closers.length = 0 := by
      rw [h.closers]
      rcases hl with hl | hl <;> simp [hl]
    have hcount := length_flatMap_set Task.closers hi (task .stoppingSink)
    rw [htask.closers, htask.closers] at hcount
    refine ⟨?_, hlen ▸ hstarts, fun hc => (nomatch hc), hearly, ?_⟩
    · exact hcount.trans (congrArg (· + 1) hnone)
    · intro htaken
      obtain ⟨hdown, -⟩ := h.taken htaken
      rcases hl with hl | hl <;> simp [hl] at hdown
  | takeHandle hkept =>
    obtain ⟨hl, -, honly⟩ := h.only_closer htask hi rfl
    have hclosers := (honly (task .joiningCoordinator)).trans (htask.closers _)
    refine ⟨?_, ?_, ?_, ?_, ?_⟩
    · rw [hl, State.closers, hclosers]
      rfl
    · rw [hl]
      exact hlen ▸ hstarts
    · rw [hl]
      exact fun hc => nomatch hc
    · intro x hx
      simpa [hkept] using hearly x hx
    · intro _
      refine ⟨.inl hl, ?_⟩
      rw [State.closers, hclosers]
      simp [Closing.acts, Closing.past]
  | publish =>
    obtain ⟨hl, -, honly⟩ := h.only_closer htask hi rfl
    have hnone (result : Option GroupError) :
        (s.tasks.set i (task (.returned result))).flatMap Task.closers = [] :=
      (honly _).trans (htask.closers _)
    refine ⟨?_, hlen ▸ hstarts, fun hc => (nomatch hc), hearly, ?_⟩
    · exact congrArg List.length (hnone _)
    · intro _
      refine ⟨.inr rfl, ?_⟩
      rw [State.closers]
      simp [State.become, State.record, hnone]
  | join | joined | stopSink | sinkStopped | cancel | claimsFinished | noHandle
  | coordinatorStopped | leaveGroup =>
    exact h.close_on htask hi rfl rfl (by simp [Closing.past]) rfl rfl

end

/-- Before anybody runs the consumer, whoever begins to is the only one. -/
theorem Calls.first_start {i : Nat} (h : Calls s) (hl : s.lifecycle = .created)
    (hi : s.tasks[i]? = some (.start .entering)) (b : Task) :
    (s.tasks.set i b).flatMap Task.starts = b.starts := by
  have hnone : s.starts = [] := by
    have hle := h.starts
    rw [if_pos hl] at hle
    exact List.eq_nil_of_length_eq_zero (Nat.le_zero.1 hle)
  obtain ⟨before, after, htasks, hset⟩ := exists_split_of_getElem? hi
  rw [State.starts, htasks] at hnone
  rw [hset]
  simp only [List.flatMap_append, List.flatMap_cons, List.append_eq_nil_iff] at hnone ⊢
  rw [hnone.1, hnone.2.2]
  simp

theorem StartMove.closers {stage stage' : Starting} (h : StartMove s stage stage' t) :
    (Task.start stage').closers = (Task.start stage).closers := by
  cases h with
  | @dispatched session ends => cases ends <;> rfl
  | _ => rfl

section
variable {i : Nat} {stage stage' : Starting} {u : State ω}

/-- A call that runs the consumer goes on, or leaves it. -/
theorem Calls.start_on (h : Calls s) (hi : s.tasks[i]? = some (.start stage))
    (ht : t.tasks = s.tasks.set i (.start stage'))
    (hclosers : (Task.start stage').closers = (Task.start stage).closers)
    (hruns : stage'.runs → stage.runs ∧ stage'.early = stage.early)
    (hl : t.lifecycle = s.lifecycle) (hh : t.handle = s.handle) : Calls t := by
  have hsame : t.closers = s.closers := by
    rw [State.closers, ht]
    exact flatMap_set_of_eq hi hclosers
  refine ⟨?_, ?_, ?_, ?_, ?_⟩
  · rw [hsame, hl]
    exact h.closers
  · have hcount := length_flatMap_set Task.starts hi (.start stage')
    have hle : t.starts.length ≤ s.starts.length := by
      simp only [State.starts, ht]
      by_cases hr : stage'.runs
      · simp only [Task.starts, hr, (hruns hr).1, if_true] at hcount
        exact Nat.le_of_eq (Nat.add_right_cancel hcount)
      · simp only [Task.starts, hr] at hcount
        exact Nat.le_of_add_right_le (Nat.le_of_eq hcount)
    rw [hl]
    exact Nat.le_trans hle h.starts
  · rw [hl, hh]
    exact h.created
  · rw [State.starts, ht, hh]
    refine forall_mem_flatMap_set hi h.early (fun _ hx => hx) ?_
    intro hold x hx
    by_cases hr : stage'.runs
    · obtain ⟨hrun, hearly⟩ := hruns hr
      simp only [Task.starts, hr, if_true, List.mem_singleton] at hx
      rw [hx, hearly]
      exact hold stage (by simp [Task.starts, hrun])
    · simp [Task.starts, hr] at hx
  · rw [hl, hh, hsame]
    exact h.taken

/-- Who runs the consumer is the only one. -/
theorem Calls.only_start (h : Calls s) (hi : s.tasks[i]? = some (.start stage))
    (hr : stage.runs) : s.starts = [stage] ∧ s.lifecycle ≠ .created ∧
      ∀ b : Task, (s.tasks.set i b).flatMap Task.starts = b.starts := by
  have hstage : (Task.start stage).starts = [stage] := if_pos hr
  have hne : (Task.start stage).starts ≠ [] := by rw [hstage]; exact List.cons_ne_nil _ _
  have hone := h.starts_length_le
  have hall : s.starts = [stage] :=
    hstage ▸ (flatMap_set_of_unique (b := .start stage) hi hone hne).1
  refine ⟨hall, ?_, fun b => (flatMap_set_of_unique hi hone hne).2⟩
  intro hl
  have hle := h.starts
  rw [if_pos hl, hall] at hle
  cases hle

theorem Calls.start (h : Calls s) (hi : s.tasks[i]? = some (.start stage))
    (hm : StartMove s stage stage' u) :
    Calls { u with tasks := u.tasks.set i (.start stage') } := by
  have hclosers := hm.closers
  cases hm with
  | begin hl =>
    have hone : (s.tasks.set i (.start .takingReceivers)).flatMap Task.starts =
        [.takingReceivers] := h.first_start hl hi _
    have hsame : (s.tasks.set i (.start .takingReceivers)).flatMap Task.closers = s.closers :=
      flatMap_set_of_eq hi hclosers
    refine ⟨?_, ?_, fun hc => (nomatch hc), ?_, ?_⟩
    · refine (congrArg List.length hsame).trans (h.closers.trans ?_)
      rw [hl]
      rfl
    · exact Nat.le_of_eq (congrArg List.length hone)
    · intro x hx
      replace hx : x ∈ [Starting.takingReceivers] := by rwa [← hone]
      obtain rfl := List.mem_singleton.1 hx
      exact ⟨fun _ => h.created hl, fun _ => rfl⟩
    · intro htaken
      exact absurd ((h.created hl).symm.trans htaken) (by decide)
  | keepHandle =>
    obtain ⟨-, hcreated, honly⟩ := h.only_start hi rfl
    have hstarts := honly (.start .checking)
    have hsame : (s.tasks.set i (.start .checking)).flatMap Task.closers = s.closers :=
      flatMap_set_of_eq hi hclosers
    refine ⟨?_, ?_, fun hc => absurd hc hcreated, ?_, fun hc => (nomatch hc)⟩
    · exact (congrArg List.length hsame).trans h.closers
    · rw [if_neg hcreated]
      exact Nat.le_of_eq (congrArg List.length hstarts)
    · intro x hx
      replace hx : x ∈ (Task.start .checking).starts := by rwa [← hstarts]
      obtain rfl := List.mem_singleton.1 hx
      exact ⟨fun hc => (nomatch hc), fun hc => (nomatch hc)⟩
  | @dispatched session ends =>
    exact h.start_on hi rfl hclosers (by cases ends <;> simp [Starting.runs, Starting.early]) rfl
      rfl
  | _ => exact h.start_on hi rfl hclosers (by simp [Starting.runs, Starting.early]) rfl rfl

end

/-! ## Every move -/

/-- Only a call that closes the consumer changes how far it is taken down. -/
theorem Move.closers (hm : Move c s t) : t.closers = s.closers ∨
    ∃ i task stage stage' u, Task.Closes task ∧ s.tasks[i]? = some (task stage) ∧
      CloseMove c s stage stage' u ∧ t = { u with tasks := s.tasks.set i (task stage') } := by
  cases hm with
  | claim _ hm => cases hm <;> exact .inl rfl
  | coordinate _ hm =>
    cases hm with
    | fail => exact .inl (by simp [State.closers, State.setCoordinator, Task.closers, Closing.acts])
    | _ => exact .inl rfl
  | close htask hi hm => exact .inr ⟨_, _, _, _, _, htask, hi, hm, by rw [hm.tasks]⟩
  | start hi hm =>
    refine .inl ?_
    rw [State.closers, hm.tasks]
    exact flatMap_set_of_eq hi hm.closers
  | leaveSession _ hi hstage =>
    refine .inl (flatMap_set_of_eq hi ?_)
    rcases hstage with rfl | rfl | ⟨e, rfl⟩ <;> rfl
  | callStart | callClose =>
    exact .inl (by simp [State.closers, Task.closers, Closing.acts])
  | _ => exact .inl rfl

/-- Who takes the consumer down did so before, or got there by a move of its call. -/
theorem Move.mem_closers (hm : Move c s t) : ∀ x ∈ t.closers, x ∈ s.closers ∨
    ∃ i task stage u, Task.Closes task ∧ s.tasks[i]? = some (task stage) ∧
      CloseMove c s stage x u ∧ t = { u with tasks := s.tasks.set i (task x) } := by
  rcases hm.closers with he | ⟨i, task, stage, stage', u, htask, hi, hclose, rfl⟩
  · rw [he]
    exact fun x hx => .inl hx
  · refine forall_mem_flatMap_set hi (fun x hx => .inl hx) (fun x hx => hx) ?_
    intro _ x hx
    obtain rfl := htask.eq_of_mem hx
    exact .inr ⟨i, task, stage, u, htask, hi, hclose, rfl⟩

theorem Task.Closes.mem_starts {i : Nat} {task : Closing → Task} {stage stage' : Closing}
    (h : Closes task) (hi : s.tasks[i]? = some (task stage)) :
    ∀ x ∈ (s.tasks.set i (task stage')).flatMap Task.starts,
      x ∈ s.starts ∨ ∃ e stage, x = .closing e stage := by
  refine forall_mem_flatMap_set hi (fun x hx => .inl hx) (fun x hx => hx) ?_
  intro _ x hx
  rcases h.starts with hnil | ⟨e, hone⟩
  · simp [hnil] at hx
  · rw [hone, List.mem_singleton] at hx
    exact .inr ⟨e, _, hx⟩

/-- Who runs the consumer did so before, or just closes it, comes back from a session of a free
group, or made a move. -/
theorem Move.starts (hm : Move c s t) : ∀ x ∈ t.starts, x ∈ s.starts ∨
    (∃ e stage, x = .closing e stage) ∨ (s.free ∧ x = .checking) ∨
    ∃ i stage u, s.tasks[i]? = some (.start stage) ∧ StartMove s stage x u ∧
      t = { u with tasks := s.tasks.set i (.start x) } := by
  cases hm with
  | claim _ hm => cases hm <;> exact fun x hx => .inl hx
  | coordinate _ hm =>
    cases hm with
    | fail =>
      exact fun x hx => .inl (by simpa [State.starts, State.setCoordinator, Task.starts] using hx)
    | _ => exact fun x hx => .inl hx
  | close htask hi hm =>
    rw [State.starts, hm.tasks]
    intro x hx
    rcases htask.mem_starts hi x hx with hx | hx
    · exact .inl hx
    · exact .inr (.inl hx)
  | @start i stage stage' u hi hm =>
    have htasks := hm.tasks
    rw [State.starts, htasks]
    refine forall_mem_flatMap_set hi (fun x hx => .inl hx) (fun x hx => hx) ?_
    intro _ x hx
    have hx : x = stage' := by
      by_cases hr : stage'.runs
      · simpa [Task.starts, hr] using hx
      · simp [Task.starts, hr] at hx
    subst hx
    exact .inr (.inr (.inr ⟨i, stage, u, hi, hm, rfl⟩))
  | leaveSession hfree hi hstage =>
    refine forall_mem_flatMap_set hi (fun x hx => .inl hx) (fun x hx => hx) ?_
    intro _ x hx
    rcases hstage with rfl | rfl | ⟨e, rfl⟩
    · exact .inr (.inr (.inl ⟨hfree, List.mem_singleton.1 hx⟩))
    · cases hx
    · exact .inr (.inl ⟨e, _, List.mem_singleton.1 hx⟩)
  | callStart | callClose =>
    exact fun x hx => .inl (by simpa [State.starts, Task.starts, Starting.runs] using hx)
  | _ => exact fun x hx => .inl hx

theorem Calls.move (h : Calls s) (hm : Move c s t) : Calls t := by
  cases hm with
  | claim _ hm => cases hm <;> exact h.of_same rfl rfl rfl
  | coordinate _ hm =>
    cases hm with
    | fail => exact h.of_call rfl rfl rfl rfl rfl
    | _ => exact h.of_same rfl rfl rfl
  | close htask hi hm => exact h.close htask hi hm
  | start hi hm => exact h.start hi hm
  | leaveSession _ hi hstage =>
    rcases hstage with rfl | rfl | ⟨e, rfl⟩ <;>
      exact h.start_on hi rfl rfl (by simp [Starting.runs, Starting.early]) rfl rfl
  | callStart | callClose => exact h.of_call rfl rfl rfl rfl rfl
  | _ => exact h.of_same rfl rfl rfl

theorem State.Reachable.calls {writer : ω} {plans : List Plan}
    (h : s.Reachable c writer plans) : Calls s :=
  h.induct
    ⟨rfl, Nat.le_refl _, fun _ => rfl, fun _ hx => (nomatch hx), fun hc => (nomatch hc)⟩
    fun _ _ _ ih hm => ih.move hm

end EventPipeline.Consumer
