import EventPipeline.Proofs.Ack.Coverage
/-!
# Chaining merges, in whatever order

Acknowledgments of single messages may be chained one by one, or in groups that were
chained before. Whatever the order of the calls (`Chaining`), the leftmost message is
the anchor, and what is chained for a partition is the highest offset of all other
messages that belong to it: each of them is reached, and nothing else is ever chained.
-/
namespace EventPipeline

/-- Calls of `chain` on acknowledgments of single messages, each kept with those before it. -/
inductive Chaining
  | single (session : Nat) (key : Key) (offset : Int)
  | chain (a later : Chaining)
deriving DecidableEq

namespace Chaining

/-- What the calls come to. -/
def ack : Chaining → Ack
  | single session key offset => .ofMessage session key offset
  | chain a later => a.ack.chain later.ack

/-- The acknowledgment of the leftmost message. -/
def first : Chaining → Ack
  | single session key offset => .ofMessage session key offset
  | chain a _ => a.first

/-- The acknowledgments of all other messages, from left to right. -/
def others : Chaining → List Ack
  | single _ _ _ => []
  | chain a later => a.others ++ later.first :: later.others

/-! ## What is chained -/

theorem anchor_ack (t : Chaining) : t.ack.session = t.first.session ∧ t.ack.key = t.first.key ∧
    t.ack.offset = t.first.offset := by
  induction t with
  | single => exact ⟨rfl, rfl, rfl⟩
  | chain a later iha _ => exact iha

theorem mem_others_of_mem_chained (t : Chaining) {p : Key × Int} (h : p ∈ t.ack.chained.entries) :
    p ∈ t.others.map (fun m => (m.key, m.offset)) := by
  induction t with
  | single => cases h
  | chain a later iha ihlater =>
    obtain ⟨-, hkey, hoffset⟩ := later.anchor_ack
    rw [others, List.map_append, List.map_cons, List.mem_append, List.mem_cons]
    rcases Offsets.mem_foldl_raise h with h | h
    · rcases Offsets.mem_raise h with h | rfl
      · exact .inl (iha h)
      · exact .inr (.inl (Prod.ext hkey hoffset))
    · exact .inr (.inr (ihlater h))

theorem reaches_of_mem_others (t : Chaining) {m : Ack} (h : m ∈ t.others) :
    t.ack.chained.Reaches (m.key, m.offset) := by
  induction t with
  | single => cases h
  | chain a later iha ihlater =>
    rcases List.mem_append.1 h with h | h
    · exact ((iha h).raise _ _).foldl_raise _
    · rcases List.mem_cons.1 h with rfl | h
      · obtain ⟨-, hkey, hoffset⟩ := later.anchor_ack
        rw [← hkey, ← hoffset]
        exact (Offsets.reaches_raise_self _ (later.ack.key, later.ack.offset)).foldl_raise _
      · -- what reached the message before is one of the positions merged in
        obtain ⟨present, hpresent, hle⟩ := ihlater h
        obtain ⟨final, hfinal, hpast⟩ := Offsets.reaches_foldl_raise
          (Dict.mem_entries_iff (a := (m.key, present)).2 hpresent)
          (Offsets.raise a.ack.chained later.ack.key later.ack.offset)
        exact ⟨final, hfinal, Int.le_trans hle hpast⟩

theorem chainedOffset?_eq (t : Chaining) (k : Key) :
    t.ack.chainedOffset? k = (Ack.offsetsOf k t.others).max? := by
  refine Offsets.find?_eq_max? (fun o ho => ?_) (fun o ho => ?_)
  · have hmem := t.mem_others_of_mem_chained (Dict.mem_entries_iff (a := (k, o)).2 ho)
    obtain ⟨m, hm, he⟩ := List.mem_map.1 hmem
    exact Ack.mem_offsetsOf.2 ⟨m, hm, congrArg Prod.fst he, congrArg Prod.snd he⟩
  · obtain ⟨m, hm, rfl, rfl⟩ := Ack.mem_offsetsOf.1 ho
    exact t.reaches_of_mem_others hm

theorem coveredOffset?_eq (t : Chaining) (k : Key) :
    t.ack.coveredOffset? k = (Ack.offsetsOf k (t.first :: t.others)).max? := by
  obtain ⟨-, hkey, hoffset⟩ := t.anchor_ack
  unfold Ack.coveredOffset?
  rw [t.chainedOffset?_eq, hkey, hoffset]
  by_cases hk : t.first.key = k
  · rw [if_pos hk, Ack.offsetsOf_cons_of_eq hk, List.max?_cons]
    cases (Ack.offsetsOf k t.others).max? <;> rfl
  · rw [if_neg hk, Ack.offsetsOf_cons_of_ne hk]

/-! ## The order does not matter -/

/-- The highest offset of a partition does not depend on the order of the messages. -/
theorem max?_offsetsOf_perm {l m : List Ack} (h : l.Perm m) (k : Key) :
    (Ack.offsetsOf k l).max? = (Ack.offsetsOf k m).max? := by
  have hmem (o : Int) : o ∈ Ack.offsetsOf k l ↔ o ∈ Ack.offsetsOf k m :=
    ((h.filter _).map _).mem_iff
  refine Option.ext fun o => ?_
  simp only [List.max?_eq_some_iff, hmem]

theorem ack_eq_of_perm {t u : Chaining} (hfirst : u.first = t.first)
    (hothers : u.others.Perm t.others) : u.ack = t.ack := by
  obtain ⟨hsession, hkey, hoffset⟩ := t.anchor_ack
  obtain ⟨hsession', hkey', hoffset'⟩ := u.anchor_ack
  rw [hfirst] at hsession' hkey' hoffset'
  have hchained : u.ack.chained = t.ack.chained := by
    refine Dict.ext_find? fun k => ?_
    calc u.ack.chained.find? k = (Ack.offsetsOf k u.others).max? := u.chainedOffset?_eq k
      _ = (Ack.offsetsOf k t.others).max? := max?_offsetsOf_perm hothers k
      _ = t.ack.chained.find? k := (t.chainedOffset?_eq k).symm
  exact Ack.ext (hsession'.trans hsession.symm) (hkey'.trans hkey.symm)
    (hoffset'.trans hoffset.symm) hchained

/-! ## One law -/

/-- What chained acknowledgments hold is said by their messages alone. -/
structure Merges (t : Chaining) : Prop where
  /-- The leftmost message is the anchor. -/
  session : t.ack.session = t.first.session
  key : t.ack.key = t.first.key
  offset : t.ack.offset = t.first.offset
  /-- The offset chained for a partition is the highest one of the other messages, -/
  chained : ∀ k, t.ack.chainedOffset? k = (Ack.offsetsOf k t.others).max?
  /-- and the offset covered is the highest one of all messages. -/
  covered : ∀ k, t.ack.coveredOffset? k = (Ack.offsetsOf k (t.first :: t.others)).max?
  /-- So neither the grouping of the calls matters nor the order of the other messages, -/
  regrouped : ∀ u : Chaining, u.first = t.first → u.others.Perm t.others → u.ack = t.ack
  /-- nor the order in which what was chained before is merged in. -/
  anyOrder : ∀ (later : Ack) (entries : List (Key × Int)), entries.Perm later.chained.entries →
    (t.ack.chain later).chained = entries.foldl (fun d e => Offsets.raise d e.1 e.2)
      (Offsets.raise t.ack.chained later.key later.offset)
  /-- One more call neither lowers nor removes anything. -/
  chainedGrows : ∀ (later : Ack) k o, t.ack.chainedOffset? k = some o →
    ∃ o', (t.ack.chain later).chainedOffset? k = some o' ∧ o ≤ o'
  coveredGrows : ∀ (later : Ack) k o, t.ack.coveredOffset? k = some o →
    ∃ o', (t.ack.chain later).coveredOffset? k = some o' ∧ o ≤ o'

/-- However acknowledgments are chained, they merge. -/
theorem merges (t : Chaining) : t.Merges where
  session := t.anchor_ack.1
  key := t.anchor_ack.2.1
  offset := t.anchor_ack.2.2
  chained := t.chainedOffset?_eq
  covered := t.coveredOffset?_eq
  regrouped _ := ack_eq_of_perm
  anyOrder later entries h := (Offsets.foldl_raise_perm h _).symm
  chainedGrows later k o ho := by
    have hreach : t.ack.chained.Reaches (k, o) := ⟨o, ho, Int.le_refl o⟩
    exact (hreach.raise later.key later.offset).foldl_raise _
  coveredGrows later k o ho :=
    ((Ack.covers_of_coveredOffset? ho).chain_left later).coveredOffset?

/-- Four messages of two partitions, chained two by two. -/
def pairwise : Chaining :=
  .chain (.chain (.single 1 ⟨"events", 0⟩ 10) (.single 1 ⟨"events", 1⟩ 7))
    (.chain (.single 2 ⟨"events", 1⟩ 9) (.single 2 ⟨"events", 0⟩ 4))

/-- The same messages chained one by one, the others in another order. -/
def oneByOne : Chaining :=
  .chain (.chain (.chain (.single 1 ⟨"events", 0⟩ 10) (.single 2 ⟨"events", 0⟩ 4))
    (.single 2 ⟨"events", 1⟩ 9)) (.single 1 ⟨"events", 1⟩ 7)

theorem merges_oneByOne : oneByOne.ack = pairwise.ack ∧
    pairwise.ack.chainedOffset? ⟨"events", 0⟩ = some 4 ∧
    pairwise.ack.coveredOffset? ⟨"events", 0⟩ = some 10 ∧
    ∃ o, (pairwise.ack.chain oneByOne.ack).chainedOffset? ⟨"events", 0⟩ = some o ∧ 4 ≤ o := by
  have hperm : oneByOne.others.Perm pairwise.others := by decide
  have hchained : pairwise.ack.chainedOffset? ⟨"events", 0⟩ = some 4 := by decide
  exact ⟨pairwise.merges.regrouped oneByOne rfl hperm, hchained, by decide,
    pairwise.merges.chainedGrows oneByOne.ack _ _ hchained⟩

end Chaining

end EventPipeline
