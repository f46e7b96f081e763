import EventPipeline.Proofs.Ack.Chain
/-!
# The position marked last

An acknowledgment is marked anchor first, and then what is chained. Of a key that is
chained, the offset chained is the last one marked, be it above the anchor or below:
chaining raises the offsets chained before, and not the anchor. So the position marked
last for a key is the highest one covered, unless the key is the anchor's and comes
back with lower offsets only.
-/
namespace EventPipeline

/-- The offset that a session took last for a key. -/
def Attempt.last? (attempts : List Attempt) (k : Key) : Option Int :=
  ((attempts.filter (fun t => t.accepted ∧ t.key = k)).map Attempt.offset).getLast?

namespace Ack

variable {a : Ack} {k : Key} {refuses : Nat → Key → Bool}

/-- The offsets reported for a key when an acknowledgment is marked, in order. -/
def markedOf (k : Key) (a : Ack) : List Int :=
  (a.positions.filter (fun p => p.1 = k)).map Prod.snd

/-- The anchor is reported first, and then what is chained. -/
theorem markedOf_eq (k : Key) (a : Ack) :
    a.markedOf k = (if a.key = k then [a.offset] else []) ++ (a.chainedOffset? k).toList := by
  have hchained : (a.chained.entries.filter (fun e => e.1 = k)).map Prod.snd =
      (a.chainedOffset? k).toList := by
    rw [Dict.filter_entries, chainedOffset?]
    cases a.chained.find? k <;> rfl
  rw [markedOf, positions, ← hchained]
  by_cases hk : a.key = k <;> simp [hk]

/-- The offsets marked for a key, if none is refused: the anchor's, then the one chained. -/
theorem offsets_mark (hr : ∀ key, refuses a.session key = false) :
    ((a.mark refuses).filter (fun t => t.accepted ∧ t.key = k)).map Attempt.offset =
      (if a.key = k then [a.offset] else []) ++ (a.chainedOffset? k).toList := by
  rw [← markedOf_eq, mark, List.filter_map, List.map_map]
  simp [markedOf, Function.comp_def, hr]

theorem last?_mark (hr : ∀ key, refuses a.session key = false) :
    Attempt.last? (a.mark refuses) k =
      (a.chainedOffset? k).or (if a.key = k then some a.offset else none) := by
  rw [Attempt.last?, offsets_mark hr]
  cases a.chainedOffset? k <;> by_cases hk : a.key = k <;> simp [hk]

/-- What is marked last for a key is the offset chained for it, and without one the anchor. That is
the highest offset covered, unless the anchor is above what is chained for its own key. -/
theorem marks_covered_last_iff (hr : ∀ key, refuses a.session key = false) {o : Int}
    (ho : a.coveredOffset? k = some o) :
    Attempt.last? (a.mark refuses) k =
        (a.chainedOffset? k).or (if a.key = k then some a.offset else none) ∧
      (Attempt.last? (a.mark refuses) k = some o ↔
        ¬(a.key = k ∧ ∃ chained, a.chainedOffset? k = some chained ∧ chained < a.offset)) := by
  refine ⟨last?_mark hr, ?_⟩
  rw [last?_mark hr]
  unfold coveredOffset? at ho
  cases hc : a.chainedOffset? k with
  | none =>
    by_cases hk : a.key = k
    · simpa [hk, hc] using ho
    · simp [hk, hc] at ho
  | some chained =>
    by_cases hk : a.key = k
    · simp only [hk, hc, if_true, Option.some.injEq] at ho
      simp only [hk, Option.some_or, Option.some.injEq, true_and, exists_eq_left']
      omega
    · simpa [hk, hc] using ho

/-- An acknowledgment for a message and an earlier one of the same partition, delivered again. -/
def redelivered : Ack :=
  (ofMessage 1 ⟨"events", 0⟩ 10).chain (ofMessage 1 ⟨"events", 0⟩ 9)

/-- The earlier message is marked last. -/
theorem marks_lower_last_redelivered : redelivered.coveredOffset? ⟨"events", 0⟩ = some 10 ∧
    (redelivered.mark (fun _ _ => false)).map Attempt.offset = [10, 9] ∧
    Attempt.last? (redelivered.mark (fun _ _ => false)) ⟨"events", 0⟩ = some 9 := by
  decide

theorem marks_covered_last_delivered :
    (redelivered.chain (ofMessage 1 ⟨"events", 0⟩ 12)).coveredOffset? ⟨"events", 0⟩ = some 12 ∧
      Attempt.last? ((redelivered.chain (ofMessage 1 ⟨"events", 0⟩ 12)).mark (fun _ _ => false))
        ⟨"events", 0⟩ = some 12 := by
  have hcovered : (redelivered.chain (ofMessage 1 ⟨"events", 0⟩ 12)).coveredOffset?
      ⟨"events", 0⟩ = some 12 := by decide
  refine ⟨hcovered, (marks_covered_last_iff (fun _ => rfl) hcovered).2.2 ?_⟩
  rintro ⟨-, chained, hchained, hlt⟩
  obtain rfl : 12 = chained := Option.some.inj hchained
  exact absurd hlt (by decide)

end Ack

end EventPipeline
