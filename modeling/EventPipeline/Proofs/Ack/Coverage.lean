import EventPipeline.Proofs.Ack.Chain
/-!
# What acknowledgments cover

Raising an offset never lowers one, so positions reach whatever was raised (`Reaches`),
and chained acknowledgments cover whatever one of them did (`Covers`). Both ways
together: what is highest among the offsets marked is the highest offset there is.
-/
namespace EventPipeline

variable {p : Key × Int}

namespace Offsets

/-- The position known for a key is an offset at least. -/
def Reaches (d : Offsets) (p : Key × Int) : Prop :=
  ∃ offset, d.find? p.1 = some offset ∧ p.2 ≤ offset

theorem Reaches.raise {d : Offsets} (h : d.Reaches p) (k : Key) (offset : Int) :
    (d.raise k offset).Reaches p := by
  obtain ⟨present, hp, hle⟩ := h
  rw [Reaches, Offsets.raise, Dict.find?_alter]
  by_cases hk : p.1 = k
  · rw [if_pos hk, ← hk, hp]
    exact ⟨_, rfl, Int.le_trans hle (Int.le_max_left _ _)⟩
  · rw [if_neg hk]
    exact ⟨present, hp, hle⟩

theorem reaches_raise_self (d : Offsets) (p : Key × Int) : (d.raise p.1 p.2).Reaches p := by
  rw [Reaches, raise, Dict.find?_alter_self]
  refine ⟨_, rfl, ?_⟩
  cases d.find? p.1 with
  | none => exact Int.le_refl _
  | some present => exact Int.le_max_right _ _

theorem Reaches.foldl_raise {d : Offsets} (h : d.Reaches p) (l : List (Key × Int)) :
    (l.foldl (fun d e => d.raise e.1 e.2) d).Reaches p := by
  induction l generalizing d with
  | nil => exact h
  | cons e l ih => exact ih (h.raise e.1 e.2)

theorem reaches_foldl_raise {l : List (Key × Int)} (h : p ∈ l) (d : Offsets) :
    (l.foldl (fun d e => d.raise e.1 e.2) d).Reaches p := by
  induction l generalizing d with
  | nil => cases h
  | cons e l ih =>
    rcases List.mem_cons.1 h with rfl | h
    · exact (reaches_raise_self d p).foldl_raise l
    · exact ih h _

/-- A position that is one of some offsets and reaches all of them is the highest of them. -/
theorem find?_eq_max? {d : Offsets} {k : Key} {l : List Int}
    (hmem : ∀ o, d.find? k = some o → o ∈ l) (hreach : ∀ o ∈ l, d.Reaches (k, o)) :
    d.find? k = l.max? := by
  cases hd : d.find? k with
  | none =>
    have hnil : l = [] := by
      refine List.eq_nil_iff_forall_not_mem.2 fun o ho => ?_
      obtain ⟨present, hp, -⟩ := hreach o ho
      simp [hd] at hp
    rw [hnil]
    rfl
  | some o =>
    refine (List.max?_eq_some_iff.2 ⟨hmem o hd, fun b hb => ?_⟩).symm
    obtain ⟨present, hp, hle⟩ := hreach b hb
    obtain rfl := Option.some.inj (hd.symm.trans hp)
    exact hle

end Offsets

namespace Ack

/-- The acknowledgment holds a position of the key that is the offset at least. -/
def Covers (a : Ack) (p : Key × Int) : Prop := ∃ offset, (p.1, offset) ∈ a.positions ∧ p.2 ≤ offset

theorem covers_anchor (a : Ack) : a.Covers (a.key, a.offset) :=
  ⟨a.offset, List.mem_cons_self, Int.le_refl _⟩

theorem covers_iff {a : Ack} : a.Covers p ↔ p.1 = a.key ∧ p.2 ≤ a.offset ∨ a.chained.Reaches p := by
  constructor
  · rintro ⟨offset, hmem, hle⟩
    rcases List.mem_cons.1 hmem with he | hmem
    · obtain ⟨hk, ho⟩ := Prod.mk.injEq .. ▸ he
      exact .inl ⟨hk, ho ▸ hle⟩
    · exact .inr ⟨offset, Dict.mem_entries_iff.1 hmem, hle⟩
  · rintro (⟨hk, hle⟩ | ⟨offset, hfind, hle⟩)
    · exact ⟨a.offset, by rw [hk]; exact List.mem_cons_self, hle⟩
    · exact ⟨offset, List.mem_cons_of_mem _ (Dict.mem_entries_iff.2 hfind), hle⟩

/-- What is covered is not beyond the highest offset covered. -/
theorem Covers.coveredOffset? {a : Ack} (h : a.Covers p) :
    ∃ covered, a.coveredOffset? p.1 = some covered ∧ p.2 ≤ covered := by
  unfold Ack.coveredOffset? chainedOffset?
  rcases covers_iff.1 h with ⟨hk, hle⟩ | ⟨offset, hfind, hle⟩
  · rw [if_pos hk.symm]
    cases a.chained.find? p.1 with
    | none => exact ⟨a.offset, rfl, hle⟩
    | some chained => exact ⟨_, rfl, Int.le_trans hle (Int.le_max_left _ _)⟩
  · rw [hfind]
    by_cases hk : a.key = p.1
    · rw [if_pos hk]
      exact ⟨_, rfl, Int.le_trans hle (Int.le_max_right _ _)⟩
    · rw [if_neg hk]
      exact ⟨offset, rfl, hle⟩

theorem covers_of_coveredOffset? {a : Ack} {k : Key} {o : Int}
    (h : a.coveredOffset? k = some o) : a.Covers (k, o) := by
  rw [covers_iff, Offsets.Reaches]
  unfold Ack.coveredOffset? chainedOffset? at h
  cases hc : a.chained.find? k with
  | none =>
    rw [hc] at h
    by_cases hk : a.key = k
    · rw [if_pos hk] at h
      exact .inl ⟨hk.symm, Int.le_of_eq (Option.some.inj h).symm⟩
    · rw [if_neg hk] at h
      cases h
  | some chained =>
    rw [hc] at h
    by_cases hk : a.key = k
    · -- the higher one of both is covered
      rw [if_pos hk] at h
      obtain rfl := Option.some.inj h
      rcases Int.le_total chained a.offset with hle | hle
      · exact .inl ⟨hk.symm, Int.le_of_eq (Int.max_eq_left hle)⟩
      · exact .inr ⟨chained, rfl, Int.le_of_eq (Int.max_eq_right hle)⟩
    · rw [if_neg hk] at h
      obtain rfl := Option.some.inj h
      exact .inr ⟨chained, rfl, Int.le_refl _⟩

theorem Covers.chain_left {a : Ack} (h : a.Covers p) (b : Ack) : (a.chain b).Covers p := by
  refine covers_iff.2 ((covers_iff.1 h).imp_right fun hr => ?_)
  exact (hr.raise b.key b.offset).foldl_raise _

theorem Covers.chain_right {b : Ack} (h : b.Covers p) (a : Ack) : (a.chain b).Covers p := by
  refine covers_iff.2 (.inr ?_)
  obtain ⟨offset, hmem, hle⟩ := h
  have hreach : (merged a.chained b).Reaches (p.1, offset) := by
    rcases List.mem_cons.1 hmem with he | hmem
    · rw [he]
      exact (Offsets.reaches_raise_self _ _).foldl_raise _
    · exact Offsets.reaches_foldl_raise hmem _
  obtain ⟨present, hfind, hpresent⟩ := hreach
  exact ⟨present, hfind, Int.le_trans hle hpresent⟩

theorem Covers.foldl_chain {α : Type} {f : α → Ack} {a : Ack} (h : a.Covers p) (l : List α) :
    (l.foldl (fun a x => a.chain (f x)) a).Covers p := by
  induction l generalizing a with
  | nil => exact h
  | cons x l ih => exact ih (h.chain_left (f x))

theorem covers_foldl_chain {α : Type} {f : α → Ack} {l : List α} {x : α} (hx : x ∈ l)
    (h : (f x).Covers p) (a : Ack) : (l.foldl (fun a x => a.chain (f x)) a).Covers p := by
  induction l generalizing a with
  | nil => cases hx
  | cons y l ih =>
    rcases List.mem_cons.1 hx with rfl | hx
    · exact (h.chain_right a).foldl_chain l
    · exact ih hx _

end Ack

/-! ## The highest offset marked -/

theorem Attempt.mem_of_highest {attempts : List Attempt} {k : Key} {o : Int}
    (h : (Attempt.highest attempts).find? k = some o) :
    ∃ t ∈ attempts, t.accepted ∧ t.key = k ∧ t.offset = o := by
  rw [Attempt.highest, ← List.foldl_map (f := fun t : Attempt => (t.key, t.offset))
    (g := fun (d : Offsets) e => d.raise e.1 e.2)] at h
  rcases Offsets.mem_foldl_raise (Dict.mem_entries_iff (a := (k, o)).2 h) with hnil | hmem
  · cases hnil
  · obtain ⟨t, ht, he⟩ := List.mem_map.1 hmem
    obtain ⟨hmem, haccepted⟩ := List.mem_filter.1 ht
    obtain ⟨hk, ho⟩ := Prod.mk.injEq .. ▸ he
    exact ⟨t, hmem, haccepted, hk, ho⟩

theorem Attempt.highest_reaches {attempts : List Attempt} {t : Attempt} (ht : t ∈ attempts)
    (ha : t.accepted) : (Attempt.highest attempts).Reaches (t.key, t.offset) := by
  rw [Attempt.highest, ← List.foldl_map (f := fun t : Attempt => (t.key, t.offset))
    (g := fun (d : Offsets) e => d.raise e.1 e.2)]
  exact Offsets.reaches_foldl_raise (List.mem_map_of_mem (List.mem_filter.2 ⟨ht, ha⟩)) _

end EventPipeline
