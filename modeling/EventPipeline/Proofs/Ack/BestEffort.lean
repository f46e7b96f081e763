import EventPipeline.Metrics.Basic
import EventPipeline.Proofs.Ack.LastMark
import EventPipeline.Proofs.Ack.Merging
/-!
# Marking goes on after a refusal

To mark an acknowledgment is to mark its anchor and then whatever is chained, in an order
that nobody promises, one offset after the other (`Marking.markOne`): each attempt is made
and counted whatever came of those before, and a refusal is kept as the result whatever
comes of those behind. So the order changes nothing but the order of the attempts.
-/
namespace EventPipeline

/-- What marking has come to so far: the attempts made, the counters, and what is returned. -/
structure Marking where
  attempts : List Attempt := []
  counts : MarkCounts
  result : Except String Unit := .ok ()

/-- Mark one more offset. -/
def Marking.markOne (refuses : Nat → Key → Bool) (session : Nat) (m : Marking) (p : Key × Int) :
    Marking :=
  let t : Attempt := ⟨session, p.1, p.2, !refuses session p.1⟩
  { attempts := m.attempts ++ [t]
    counts := m.counts.count t
    result := if t.accepted then m.result else .error Attempt.refusal }

/-- Mark the anchor of an acknowledgment, and then what is chained in the order of `chained`. -/
def Ack.markThrough (refuses : Nat → Key → Bool) (a : Ack) (chained : List (Key × Int))
    (counts : MarkCounts) : Marking :=
  ((a.key, a.offset) :: chained).foldl (Marking.markOne refuses a.session) { counts := counts }

variable {refuses : Nat → Key → Bool} {a : Ack} {k : Key} {chained : List (Key × Int)}
  {counts : MarkCounts}

/-! ## The loop -/

/-- The attempts to mark some positions, and whether each was accepted. -/
def Attempt.made (refuses : Nat → Key → Bool) (session : Nat) (l : List (Key × Int)) :
    List Attempt :=
  l.map (fun p => ⟨session, p.1, p.2, !refuses session p.1⟩)

theorem Marking.foldl_markOne (session : Nat) (l : List (Key × Int)) (m : Marking) :
    l.foldl (markOne refuses session) m =
      { attempts := m.attempts ++ Attempt.made refuses session l
        counts := m.counts.countAll (Attempt.made refuses session l)
        result := if Attempt.anyRefused (Attempt.made refuses session l)
          then .error Attempt.refusal else m.result } := by
  induction l generalizing m with
  | nil => simp [Attempt.made, MarkCounts.countAll, Attempt.anyRefused]
  | cons p l ih =>
    have hmade : Attempt.made refuses session (p :: l) =
        ⟨session, p.1, p.2, !refuses session p.1⟩ :: Attempt.made refuses session l := rfl
    rw [List.foldl_cons, ih, hmade]
    cases hp : refuses session p.1 with
    | false => simp [markOne, MarkCounts.countAll, Attempt.anyRefused, hp]
    | true =>
      -- the refusal is there already, and nothing behind it takes it back
      have hresult : (m.markOne refuses session p).result = .error Attempt.refusal := by
        simp [markOne, hp]
      rw [hresult, ite_self]
      simp [markOne, MarkCounts.countAll, Attempt.anyRefused, hp]

theorem Ack.markThrough_eq : a.markThrough refuses chained counts =
    { attempts := Attempt.made refuses a.session ((a.key, a.offset) :: chained)
      counts := counts.countAll (Attempt.made refuses a.session ((a.key, a.offset) :: chained))
      result :=
        if Attempt.anyRefused (Attempt.made refuses a.session ((a.key, a.offset) :: chained))
        then .error Attempt.refusal else .ok () } := by
  rw [markThrough, Marking.foldl_markOne, List.nil_append]

theorem MarkCounts.countAll_sums (attempts : List Attempt) (counts : MarkCounts) :
    (counts.countAll attempts).offsetsMarked =
        counts.offsetsMarked + attempts.countP (fun t => t.accepted) ∧
      (counts.countAll attempts).markErrors =
        counts.markErrors + attempts.countP (fun t => !t.accepted) := by
  induction attempts generalizing counts with
  | nil => exact ⟨rfl, rfl⟩
  | cons t attempts ih =>
    obtain ⟨hmarked, herrors⟩ := ih (counts.count t)
    rw [countAll, List.foldl_cons, ← countAll, hmarked, herrors]
    cases ht : t.accepted <;> simp [count, ht] <;> omega

/-! ## The highest offset taken -/

theorem Attempt.highest_eq_max? (attempts : List Attempt) (k : Key) :
    (Attempt.highest attempts).find? k =
      ((attempts.filter (fun t => t.accepted ∧ t.key = k)).map Attempt.offset).max? := by
  refine Offsets.find?_eq_max? (fun o ho => ?_) (fun o ho => ?_)
  · obtain ⟨t, ht, ha, hk, rfl⟩ := Attempt.mem_of_highest ho
    exact List.mem_map_of_mem (List.mem_filter.2 ⟨ht, decide_eq_true ⟨ha, hk⟩⟩)
  · obtain ⟨t, ht, rfl⟩ := List.mem_map.1 ho
    obtain ⟨hmem, hp⟩ := List.mem_filter.1 ht
    obtain ⟨ha, rfl⟩ := of_decide_eq_true hp
    exact Attempt.highest_reaches hmem ha

namespace Ack

/-- Of what is chained, in whatever order, one offset at most belongs to a partition. -/
theorem filter_chained (h : chained.Perm a.chained.entries) (k : Key) :
    (chained.filter (fun p => p.1 = k)).map Prod.snd = (a.chainedOffset? k).toList := by
  have hperm := (h.filter (fun p => decide (p.1 = k))).map Prod.snd
  rw [Dict.filter_entries, List.map_map] at hperm
  rw [chainedOffset?]
  cases hd : a.chained.find? k with
  | none =>
    rw [hd] at hperm
    exact hperm.eq_nil
  | some o =>
    rw [hd] at hperm
    exact List.perm_singleton.1 hperm

/-- The highest offset covered is the highest one marked, if nothing is refused. -/
theorem max?_marked (a : Ack) (k : Key) :
    ((if a.key = k then [a.offset] else []) ++ (a.chainedOffset? k).toList).max? =
      a.coveredOffset? k := by
  unfold coveredOffset?
  cases a.chainedOffset? k <;> by_cases hk : a.key = k <;> simp [hk]

theorem highest_made (h : chained.Perm a.chained.entries) (k : Key) :
    (Attempt.highest (Attempt.made refuses a.session ((a.key, a.offset) :: chained))).find? k =
      if refuses a.session k then none else a.coveredOffset? k := by
  have hoffsets : ((Attempt.made refuses a.session ((a.key, a.offset) :: chained)).filter
      (fun t => t.accepted ∧ t.key = k)).map Attempt.offset =
        if refuses a.session k then []
        else (if a.key = k then [a.offset] else []) ++ (a.chainedOffset? k).toList := by
    have hkey : (fun t : Attempt => decide (t.accepted ∧ t.key = k)) ∘
        (fun p : Key × Int => (⟨a.session, p.1, p.2, !refuses a.session p.1⟩ : Attempt)) =
          fun p => decide (p.1 = k) && !refuses a.session k := by
      funext p
      by_cases hp : p.1 = k <;> simp [hp]
    rw [← filter_chained h k, Attempt.made, List.filter_map, List.map_map, hkey]
    cases hr : refuses a.session k with
    | true => simp
    | false =>
      by_cases hk : a.key = k <;> simp [hk, Function.comp_def]
  rw [Attempt.highest_eq_max?, hoffsets]
  split
  · rfl
  · exact a.max?_marked k

end Ack

/-! ## The whole mark -/

/-- What comes of marking an acknowledgment, with what is chained in the order of `chained`, and
with `counts` counted before. -/
structure Ack.MarkedThrough (refuses : Nat → Key → Bool) (a : Ack) (chained : List (Key × Int))
    (counts : MarkCounts) (m : Marking) : Prop where
  /-- The anchor is attempted first and then what is chained, on the session of the anchor, -/
  attempts : m.attempts.map (fun t => (t.session, t.key, t.offset)) =
    (a.session, a.key, a.offset) :: chained.map (fun p => (a.session, p.1, p.2))
  /-- each offset that is chained once, and no other. -/
  once : chained.Nodup
  all : ∀ k o, (k, o) ∈ chained ↔ a.chainedOffset? k = some o
  /-- What is refused is not recorded. -/
  accepted : ∀ t ∈ m.attempts, t.accepted = !refuses a.session t.key
  /-- The highest offset recorded for a partition that is not refused is the one covered. -/
  highest : ∀ k, (Attempt.highest m.attempts).find? k =
    if refuses a.session k then none else a.coveredOffset? k
  /-- A refusal is returned if any partition attempted is refused. -/
  result : m.result = .error Attempt.refusal ∧ (∃ t ∈ m.attempts, refuses a.session t.key) ∨
    m.result = .ok () ∧ ∀ t ∈ m.attempts, refuses a.session t.key = false
  /-- Every attempt is counted as what it came to. -/
  marked : m.counts.offsetsMarked =
    counts.offsetsMarked + m.attempts.countP (fun t => t.accepted)
  errors : m.counts.markErrors = counts.markErrors + m.attempts.countP (fun t => !t.accepted)
  counted : m.counts.offsetsMarked + m.counts.markErrors =
    counts.offsetsMarked + counts.markErrors + (1 + chained.length)

theorem Attempt.countP_accepted (attempts : List Attempt) :
    attempts.countP (fun t => t.accepted) + attempts.countP (fun t => !t.accepted) =
      attempts.length := by
  have h := List.length_eq_countP_add_countP (fun t : Attempt => t.accepted) (l := attempts)
  simpa using h.symm

theorem Attempt.accepted_of_made {session : Nat} {l : List (Key × Int)} {t : Attempt}
    (h : t ∈ made refuses session l) : t.accepted = !refuses session t.key := by
  obtain ⟨p, -, rfl⟩ := List.mem_map.1 h
  rfl

theorem Ack.marked_through (hperm : chained.Perm a.chained.entries) :
    a.MarkedThrough refuses chained counts (a.markThrough refuses chained counts) := by
  obtain ⟨hmarked, herrors⟩ := MarkCounts.countAll_sums
    (Attempt.made refuses a.session ((a.key, a.offset) :: chained)) counts
  have haccepted (t : Attempt)
      (ht : t ∈ Attempt.made refuses a.session ((a.key, a.offset) :: chained)) :
      t.accepted = !refuses a.session t.key := Attempt.accepted_of_made ht
  rw [Ack.markThrough_eq]
  refine ⟨?_, hperm.nodup_iff.2 a.chained.nodup_entries, fun k o => ?_, haccepted,
    highest_made hperm, ?_, hmarked, herrors, ?_⟩
  · simp [Attempt.made, Function.comp_def]
  · exact hperm.mem_iff.trans Dict.mem_entries_iff
  · by_cases hany :
        Attempt.anyRefused (Attempt.made refuses a.session ((a.key, a.offset) :: chained))
    · obtain ⟨t, ht, hrefused⟩ := List.any_eq_true.1 hany
      rw [haccepted t ht, Bool.not_not] at hrefused
      exact .inl ⟨if_pos hany, t, ht, hrefused⟩
    · refine .inr ⟨if_neg hany, fun t ht => ?_⟩
      have hnone := List.any_eq_false.1 (Bool.eq_false_iff.2 hany) t ht
      simpa [haccepted t ht] using hnone
  · have hlength := Attempt.countP_accepted
      (Attempt.made refuses a.session ((a.key, a.offset) :: chained))
    simp only [Attempt.made, List.length_map, List.length_cons] at hmarked herrors hlength ⊢
    omega

/-- In whatever order what is chained is gone through and whatever is refused on the way: everything
is attempted on the session of the leftmost message, what is taken covers what can be covered, and a
refusal is returned. `Ack.mark` goes through it by key. -/
theorem Chaining.marks_through (t : Chaining) (refuses : Nat → Key → Bool) (counts : MarkCounts) :
    (t.ack.session = t.first.session ∧ t.ack.key = t.first.key ∧ t.ack.offset = t.first.offset) ∧
    (∀ chained : List (Key × Int), chained.Perm t.ack.chained.entries →
      t.ack.MarkedThrough refuses chained counts (t.ack.markThrough refuses chained counts)) ∧
    t.ack.markThrough refuses t.ack.chained.entries counts =
      { attempts := t.ack.mark refuses
        counts := counts.countAll (t.ack.mark refuses)
        result :=
          if Attempt.anyRefused (t.ack.mark refuses) then .error Attempt.refusal else .ok () } :=
  ⟨t.anchor_ack, fun _ => Ack.marked_through, Ack.markThrough_eq⟩

/-- A session that refuses one of the two partitions of `Chaining.pairwise`. -/
def refusesFirst (_ : Nat) (k : Key) : Bool :=
  k.partition = 0

/-- What is chained there, the partition that is taken first. -/
def secondFirst : List (Key × Int) :=
  [(⟨"events", 1⟩, 9), (⟨"events", 0⟩, 4)]

theorem marks_through_refused :
    ((Chaining.pairwise.ack.markThrough refusesFirst secondFirst {}).attempts.map
      (fun t => (t.offset, t.accepted)) = [(10, false), (9, true), (4, false)]) ∧
    Chaining.pairwise.ack.MarkedThrough refusesFirst secondFirst {}
      (Chaining.pairwise.ack.markThrough refusesFirst secondFirst {}) := by
  have hperm : secondFirst.Perm Chaining.pairwise.ack.chained.entries := by decide
  exact ⟨by decide, (Chaining.pairwise.marks_through refusesFirst {}).2.1 secondFirst hperm⟩

end EventPipeline
