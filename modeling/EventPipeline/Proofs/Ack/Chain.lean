import EventPipeline.Ack.Basic
/-!
# What chained acknowledgments hold

Every position that an acknowledgment holds after chaining was held before by one of
the two that were chained: raising an offset keeps the higher of two, and invents none.
-/
namespace EventPipeline

variable {p : Key × Int}

theorem Offsets.mem_raise {d : Offsets} {k : Key} {offset : Int}
    (h : p ∈ (d.raise k offset).entries) : p ∈ d.entries ∨ p = (k, offset) := by
  rw [Dict.mem_entries_iff, raise, Dict.find?_alter] at h
  by_cases hk : p.1 = k
  · rw [if_pos hk, Option.some.injEq] at h
    cases hd : d.find? k with
    | none =>
      rw [hd] at h
      exact .inr (Prod.ext hk h.symm)
    | some present =>
      rw [hd] at h
      dsimp only at h
      rcases Int.le_total present offset with hle | hle
      · rw [Int.max_eq_right hle] at h
        exact .inr (Prod.ext hk h.symm)
      · rw [Int.max_eq_left hle] at h
        rw [Dict.mem_entries_iff, hk, ← h]
        exact .inl hd
  · rw [if_neg hk] at h
    exact .inl (Dict.mem_entries_iff.2 h)

theorem Offsets.mem_foldl_raise {l : List (Key × Int)} {d : Offsets}
    (h : p ∈ (l.foldl (fun d e => d.raise e.1 e.2) d).entries) : p ∈ d.entries ∨ p ∈ l := by
  induction l generalizing d with
  | nil => exact .inl h
  | cons e l ih =>
    rcases ih h with hd | hl
    · rcases mem_raise hd with hd | rfl
      · exact .inl hd
      · exact .inr List.mem_cons_self
    · exact .inr (List.mem_cons_of_mem _ hl)

theorem Offsets.raise_comm (d : Offsets) (p q : Key × Int) :
    (d.raise p.1 p.2).raise q.1 q.2 = (d.raise q.1 q.2).raise p.1 p.2 := by
  refine Dict.ext_find? fun k => ?_
  simp only [raise, Dict.find?_alter]
  by_cases hpq : p.1 = q.1
  · by_cases hk : k = q.1
    · cases hd : d.find? q.1 <;> simp [hk, hpq, hd] <;> omega
    · simp [hk, hpq]
  · simp only [hpq, Ne.symm hpq, if_false]
    by_cases hk : k = q.1
    · simp [hk, Ne.symm hpq]
    · simp [hk]

/-- Raising one offset after the other comes to the same in any order. -/
theorem Offsets.foldl_raise_perm {l m : List (Key × Int)} (h : l.Perm m) (d : Offsets) :
    l.foldl (fun d e => d.raise e.1 e.2) d = m.foldl (fun d e => d.raise e.1 e.2) d :=
  h.foldl_eq' (fun p _ q _ d => raise_comm d p q) d

attribute [ext] Ack

namespace Ack

theorem mem_positions_chain {a b : Ack} (h : p ∈ (a.chain b).positions) :
    p ∈ a.positions ∨ p ∈ b.positions := by
  rcases List.mem_cons.1 h with rfl | h
  · exact .inl List.mem_cons_self
  · rcases Offsets.mem_foldl_raise h with h | h
    · rcases Offsets.mem_raise h with h | rfl
      · exact .inl (List.mem_cons_of_mem _ h)
      · exact .inr List.mem_cons_self
    · exact .inr (List.mem_cons_of_mem _ h)

theorem mem_positions_foldl_chain {α : Type} {f : α → Ack} {l : List α} {a : Ack}
    (h : p ∈ (l.foldl (fun a x => a.chain (f x)) a).positions) :
    p ∈ a.positions ∨ ∃ x ∈ l, p ∈ (f x).positions := by
  induction l generalizing a with
  | nil => exact .inl h
  | cons x l ih =>
    rcases ih h with hp | ⟨y, hy, hp⟩
    · rcases mem_positions_chain hp with hp | hp
      · exact .inl hp
      · exact .inr ⟨x, List.mem_cons_self, hp⟩
    · exact .inr ⟨y, List.mem_cons_of_mem _ hy, hp⟩

/-- Chaining changes nothing but what is chained. -/
theorem anchor_foldl_chain {α : Type} (f : α → Ack) (l : List α) (a : Ack) :
    (l.foldl (fun a x => a.chain (f x)) a).session = a.session ∧
      (l.foldl (fun a x => a.chain (f x)) a).key = a.key ∧
      (l.foldl (fun a x => a.chain (f x)) a).offset = a.offset := by
  induction l generalizing a with
  | nil => exact ⟨rfl, rfl, rfl⟩
  | cons x l ih => exact ih (a.chain (f x))

/-! ## Offsets of a partition -/

/-- The offsets of some messages that belong to a partition. -/
def offsetsOf (k : Key) (l : List Ack) : List Int :=
  (l.filter (fun a => a.key = k)).map offset

section
variable {a : Ack} {l : List Ack} {k : Key}

theorem offsetsOf_cons_of_eq (hk : a.key = k) :
    offsetsOf k (a :: l) = a.offset :: offsetsOf k l := by
  simp [offsetsOf, hk]

theorem offsetsOf_cons_of_ne (hk : a.key ≠ k) : offsetsOf k (a :: l) = offsetsOf k l := by
  simp [offsetsOf, hk]

theorem mem_offsetsOf {o : Int} : o ∈ offsetsOf k l ↔ ∃ m ∈ l, m.key = k ∧ m.offset = o := by
  simp [offsetsOf, and_assoc]

end

/-- The acknowledgment of a single message holds its position. -/
theorem positions_ofMessage (session : Nat) (key : Key) (offset : Int) :
    (ofMessage session key offset).positions = [(key, offset)] := rfl

end Ack

end EventPipeline
