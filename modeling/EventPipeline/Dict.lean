/-!
# Dictionaries

A finite map is kept as the list of its entries with strictly increasing keys, so
two dictionaries with the same content are equal (`Dict.ext_find?`) and listing
one in key order is reading it off. Every change goes through `alter`, whose law
is `find?_alter`: the key changed gets the new value, all others keep theirs.
-/
namespace EventPipeline

/-- A finite map from `κ` to `ν`, listed by increasing key. -/
structure Dict (κ ν : Type) [Ord κ] where
  entries : List (κ × ν)
  increasing : entries.Pairwise (fun a b => compare a.1 b.1 = .lt)

namespace Dict

variable {κ ν : Type} [Ord κ]

instance [DecidableEq κ] [DecidableEq ν] : DecidableEq (Dict κ ν) := fun a b =>
  if h : a.entries = b.entries then
    isTrue (by cases a; cases b; simp_all)
  else
    isFalse (fun e => h (congrArg entries e))

/-- The dictionary without entries. -/
def empty : Dict κ ν := ⟨[], .nil⟩

instance : Inhabited (Dict κ ν) := ⟨empty⟩

/-- The value found under `k` in a list of entries. -/
def lookup (k : κ) : List (κ × ν) → Option ν
  | [] => none
  | e :: rest => if compare k e.1 = .eq then some e.2 else lookup k rest

/-- Put `f` of the present value of `k` in the place where `k` belongs. -/
def place (f : Option ν → ν) (k : κ) : List (κ × ν) → List (κ × ν)
  | [] => [(k, f none)]
  | e :: rest =>
    match compare k e.1 with
    | .lt => (k, f none) :: e :: rest
    | .eq => (k, f (some e.2)) :: rest
    | .gt => e :: place f k rest

/-- The value stored under `k`. -/
def find? (d : Dict κ ν) (k : κ) : Option ν := lookup k d.entries

@[simp] theorem find?_empty (k : κ) : (empty : Dict κ ν).find? k = none := rfl

theorem lookup_eq_none {k : κ} {l : List (κ × ν)} (h : ∀ a ∈ l, compare k a.1 = .lt) :
    lookup k l = none := by
  induction l with
  | nil => rfl
  | cons e rest ih =>
    rw [lookup, if_neg (by simp [h e List.mem_cons_self])]
    exact ih (fun a ha => h a (List.mem_cons_of_mem _ ha))

theorem mem_place {f : Option ν → ν} {k : κ} {l : List (κ × ν)} {a : κ × ν}
    (h : a ∈ place f k l) : a.1 = k ∨ a ∈ l := by
  induction l with
  | nil => simp [place] at h; exact .inl (by rw [h])
  | cons e rest ih =>
    rw [place] at h
    split at h
    · rcases List.mem_cons.1 h with rfl | h
      · exact .inl rfl
      · exact .inr h
    · rcases List.mem_cons.1 h with rfl | h
      · exact .inl rfl
      · exact .inr (List.mem_cons_of_mem _ h)
    · rcases List.mem_cons.1 h with rfl | h
      · exact .inr List.mem_cons_self
      · exact (ih h).imp_right (List.mem_cons_of_mem _)

variable [Std.TransOrd κ] [Std.LawfulEqOrd κ]

theorem place_increasing (f : Option ν → ν) (k : κ) {l : List (κ × ν)}
    (h : l.Pairwise (fun a b => compare a.1 b.1 = .lt)) :
    (place f k l).Pairwise (fun a b => compare a.1 b.1 = .lt) := by
  induction l with
  | nil => simp [place]
  | cons e rest ih =>
    obtain ⟨he, hr⟩ := List.pairwise_cons.1 h
    rw [place]
    split
    next hk =>
      refine List.pairwise_cons.2 ⟨fun a ha => ?_, h⟩
      rcases List.mem_cons.1 ha with rfl | ha
      · exact hk
      · exact Std.TransCmp.lt_trans hk (he a ha)
    next hk =>
      refine List.pairwise_cons.2 ⟨fun a ha => ?_, hr⟩
      rw [Std.LawfulEqOrd.eq_of_compare hk]
      exact he a ha
    next hk =>
      refine List.pairwise_cons.2 ⟨fun a ha => ?_, ih hr⟩
      rcases mem_place ha with ha | ha
      · rw [ha]; exact Std.OrientedCmp.lt_of_gt hk
      · exact he a ha

/-- Replace what is stored under `k`, if anything, by `f` of it. -/
def alter (d : Dict κ ν) (k : κ) (f : Option ν → ν) : Dict κ ν :=
  ⟨place f k d.entries, place_increasing f k d.increasing⟩

/-- Store `v` under `k`. -/
def insert (d : Dict κ ν) (k : κ) (v : ν) : Dict κ ν := d.alter k (fun _ => v)

/-- The entries stored one after the other; of two under one key the later stays. -/
def ofList (l : List (κ × ν)) : Dict κ ν := l.foldl (fun d e => d.insert e.1 e.2) empty

/-- Store nothing under `k`. -/
def erase (d : Dict κ ν) (k : κ) : Dict κ ν :=
  ⟨d.entries.filter (fun e => compare k e.1 ≠ .eq), d.increasing.filter _⟩

/-! ## What is found -/

theorem lookup_place_self (f : Option ν → ν) (k : κ) {l : List (κ × ν)}
    (h : l.Pairwise (fun a b => compare a.1 b.1 = .lt)) :
    lookup k (place f k l) = some (f (lookup k l)) := by
  induction l with
  | nil => simp [place, lookup, Std.ReflCmp.compare_self]
  | cons e rest ih =>
    obtain ⟨he, hr⟩ := List.pairwise_cons.1 h
    rw [place]
    split
    next hk =>
      have hn : lookup k (e :: rest) = none := lookup_eq_none (fun a ha => by
        rcases List.mem_cons.1 ha with rfl | ha
        · exact hk
        · exact Std.TransCmp.lt_trans hk (he a ha))
      rw [hn]
      simp [lookup, Std.ReflCmp.compare_self]
    next hk => simp [lookup, hk, Std.ReflCmp.compare_self]
    next hk => simp [lookup, hk, ih hr]

omit [Std.TransOrd κ] in
theorem lookup_place_ne (f : Option ν → ν) {k j : κ} (hj : compare j k ≠ .eq)
    (l : List (κ × ν)) : lookup j (place f k l) = lookup j l := by
  induction l with
  | nil => simp [place, lookup, hj]
  | cons e rest ih =>
    rw [place]
    split
    next => simp [lookup, hj]
    next hk =>
      have hk := Std.LawfulEqOrd.eq_of_compare hk
      subst hk
      simp [lookup, hj]
    next => simp only [lookup, ih]

theorem find?_alter_self (d : Dict κ ν) (k : κ) (f : Option ν → ν) :
    (d.alter k f).find? k = some (f (d.find? k)) :=
  lookup_place_self f k d.increasing

theorem find?_alter_ne (d : Dict κ ν) {k j : κ} (f : Option ν → ν) (h : j ≠ k) :
    (d.alter k f).find? j = d.find? j :=
  lookup_place_ne f (fun e => h (Std.LawfulEqOrd.eq_of_compare e)) d.entries

theorem find?_alter [DecidableEq κ] (d : Dict κ ν) (k j : κ) (f : Option ν → ν) :
    (d.alter k f).find? j = if j = k then some (f (d.find? k)) else d.find? j := by
  split
  · next h => rw [h, find?_alter_self]
  · next h => exact find?_alter_ne d f h

theorem find?_insert [DecidableEq κ] (d : Dict κ ν) (k j : κ) (v : ν) :
    (d.insert k v).find? j = if j = k then some v else d.find? j :=
  find?_alter d k j _

omit [Std.TransOrd κ] in
theorem lookup_filter [DecidableEq κ] {k j : κ} (l : List (κ × ν)) :
    lookup j (l.filter (fun e => compare k e.1 ≠ .eq)) = if j = k then none else lookup j l := by
  induction l with
  | nil => simp [lookup]
  | cons e rest ih =>
    rw [List.filter_cons]
    split
    next h =>
      simp only [lookup]
      split
      next hj =>
        have hj := Std.LawfulEqOrd.eq_of_compare hj
        rw [if_neg (fun hk => by
          subst hk; subst hj; simp [Std.ReflCmp.compare_self] at h)]
      next => exact ih
    next h =>
      simp only [decide_not, Bool.not_eq_true', decide_eq_false_iff_not, Decidable.not_not] at h
      have h := Std.LawfulEqOrd.eq_of_compare h
      rw [ih]
      split
      next => rfl
      next hj => rw [lookup, if_neg (fun hc => hj (by rw [Std.LawfulEqOrd.eq_of_compare hc, h]))]

omit [Std.TransOrd κ] in
theorem find?_erase [DecidableEq κ] (d : Dict κ ν) (k j : κ) :
    (d.erase k).find? j = if j = k then none else d.find? j := by
  simpa [find?, erase] using lookup_filter d.entries

/-! ## Dictionaries with the same content are equal -/

theorem lookup_of_mem {l : List (κ × ν)}
    (h : l.Pairwise (fun a b => compare a.1 b.1 = .lt)) {a : κ × ν} (ha : a ∈ l) :
    lookup a.1 l = some a.2 := by
  induction l with
  | nil => simp at ha
  | cons e rest ih =>
    obtain ⟨he, hr⟩ := List.pairwise_cons.1 h
    rcases List.mem_cons.1 ha with rfl | ha
    · simp [lookup, Std.ReflCmp.compare_self]
    · have := Std.OrientedCmp.gt_of_lt (he a ha)
      simp [lookup, this, ih hr ha]

omit [Std.TransOrd κ] in
theorem mem_of_lookup {l : List (κ × ν)} {k : κ} {v : ν} (h : lookup k l = some v) :
    (k, v) ∈ l := by
  induction l with
  | nil => simp [lookup] at h
  | cons e rest ih =>
    rw [lookup] at h
    split at h
    next hk =>
      simp only [Option.some.injEq] at h
      rw [Std.LawfulEqOrd.eq_of_compare hk, ← h]
      exact List.mem_cons_self
    next => exact List.mem_cons_of_mem _ (ih h)

theorem mem_entries_iff {d : Dict κ ν} {a : κ × ν} :
    a ∈ d.entries ↔ d.find? a.1 = some a.2 :=
  ⟨fun h => lookup_of_mem d.increasing h, fun h => mem_of_lookup h⟩

omit [Std.LawfulEqOrd κ] in
/-- No key of a dictionary is there twice. -/
theorem nodup_keys (d : Dict κ ν) : (d.entries.map fun e => e.1).Nodup := by
  refine List.pairwise_map.2 (d.increasing.imp fun hlt he => ?_)
  simp [he, Std.ReflCmp.compare_self] at hlt

omit [Std.LawfulEqOrd κ] in
theorem nodup_entries (d : Dict κ ν) : d.entries.Nodup :=
  (List.pairwise_map.1 d.nodup_keys).imp fun hne he => hne (congrArg Prod.fst he)

omit [Std.TransOrd κ] in
/-- A dictionary has one entry under a key at most. -/
theorem filter_entries [DecidableEq κ] (d : Dict κ ν) (k : κ) :
    d.entries.filter (fun e => e.1 = k) = (d.find? k).toList.map (fun v => (k, v)) := by
  obtain ⟨l, h⟩ := d
  show l.filter _ = (lookup k l).toList.map _
  induction l with
  | nil => rfl
  | cons e rest ih =>
    obtain ⟨he, hr⟩ := List.pairwise_cons.1 h
    by_cases hk : e.1 = k
    · subst hk
      have hnone : rest.filter (fun a => a.1 = e.1) = [] := by
        refine List.filter_eq_nil_iff.2 fun a ha heq => ?_
        have hlt := he a ha
        simp [of_decide_eq_true heq, Std.ReflCmp.compare_self] at hlt
      simp [lookup, Std.ReflCmp.compare_self, hnone]
    · have hne : compare k e.1 ≠ .eq := fun hc => hk (Std.LawfulEqOrd.eq_of_compare hc).symm
      rw [List.filter_cons_of_neg (by simpa using hk), lookup, if_neg hne]
      exact ih hr

theorem mem_of_find?_foldl {l : List (κ × ν)} {d : Dict κ ν} {k : κ} {v : ν}
    (h : (l.foldl (fun d e => d.insert e.1 e.2) d).find? k = some v) :
    d.find? k = some v ∨ (k, v) ∈ l := by
  classical
  induction l generalizing d with
  | nil => exact .inl h
  | cons e rest ih =>
    rcases ih h with h | h
    · rw [find?_insert] at h
      split at h
      next hk =>
        refine .inr ?_
        rw [hk, ← Option.some.inj h]
        exact List.mem_cons_self
      next => exact .inl h
    · exact .inr (List.mem_cons_of_mem _ h)

theorem mem_of_find?_ofList {l : List (κ × ν)} {k : κ} {v : ν}
    (h : (ofList l).find? k = some v) : (k, v) ∈ l := by
  rcases mem_of_find?_foldl h with h | h
  · cases h
  · exact h

theorem isSome_find?_foldl {l : List (κ × ν)} {d : Dict κ ν} {k : κ}
    (h : (d.find? k).isSome ∨ ∃ v, (k, v) ∈ l) :
    ((l.foldl (fun d e => d.insert e.1 e.2) d).find? k).isSome := by
  classical
  induction l generalizing d with
  | nil => exact h.elim id (fun ⟨v, hv⟩ => by cases hv)
  | cons e rest ih =>
    refine ih ?_
    rw [find?_insert]
    by_cases hk : k = e.1
    · rw [if_pos hk]
      exact .inl rfl
    · rw [if_neg hk]
      refine h.imp_right (fun ⟨v, hv⟩ => ⟨v, ?_⟩)
      rcases List.mem_cons.1 hv with rfl | hv
      · exact absurd rfl hk
      · exact hv

/-- A value that no other is stored behind is found. -/
theorem find?_ofList_of_mem {l : List (κ × ν)} {k : κ} {v : ν} (h : (k, v) ∈ l)
    (honly : ∀ w, (k, w) ∈ l → w = v) : (ofList l).find? k = some v := by
  obtain ⟨w, hw⟩ := Option.isSome_iff_exists.1 (isSome_find?_foldl (.inr ⟨v, h⟩))
  rw [← honly w (mem_of_find?_ofList hw)]
  exact hw

theorem entries_eq_of_lookup {l m : List (κ × ν)}
    (hl : l.Pairwise (fun a b => compare a.1 b.1 = .lt))
    (hm : m.Pairwise (fun a b => compare a.1 b.1 = .lt))
    (h : ∀ k, lookup k l = lookup k m) : l = m := by
  induction l generalizing m with
  | nil =>
    cases m with
    | nil => rfl
    | cons e rest =>
      have := h e.1
      simp [lookup, Std.ReflCmp.compare_self] at this
  | cons a l ih =>
    cases m with
    | nil =>
      have := h a.1
      simp [lookup, Std.ReflCmp.compare_self] at this
    | cons b m =>
      obtain ⟨ha, hl'⟩ := List.pairwise_cons.1 hl
      obtain ⟨hb, hm'⟩ := List.pairwise_cons.1 hm
      have hab : a.1 = b.1 := by
        cases hc : compare a.1 b.1 with
        | eq => exact Std.LawfulEqOrd.eq_of_compare hc
        | lt =>
          have hn : lookup a.1 (b :: m) = none := lookup_eq_none (fun c hc' => by
            rcases List.mem_cons.1 hc' with rfl | hc'
            · exact hc
            · exact Std.TransCmp.lt_trans hc (hb c hc'))
          have := h a.1
          rw [hn] at this
          simp [lookup, Std.ReflCmp.compare_self] at this
        | gt =>
          have hc := Std.OrientedCmp.lt_of_gt hc
          have hn : lookup b.1 (a :: l) = none := lookup_eq_none (fun c hc' => by
            rcases List.mem_cons.1 hc' with rfl | hc'
            · exact hc
            · exact Std.TransCmp.lt_trans hc (ha c hc'))
          have := h b.1
          rw [hn] at this
          simp [lookup, Std.ReflCmp.compare_self] at this
      have hv : a.2 = b.2 := by
        have := h a.1
        rw [hab] at this
        simpa [lookup, hab, Std.ReflCmp.compare_self] using this
      have htail : ∀ k, lookup k l = lookup k m := by
        intro k
        have hk := h k
        simp only [lookup, hab] at hk
        split at hk
        next he =>
          have he := Std.LawfulEqOrd.eq_of_compare he
          rw [lookup_eq_none (k := k) (l := l) (fun c hc => by rw [he, ← hab]; exact ha c hc),
            lookup_eq_none (k := k) (l := m) (fun c hc => by rw [he]; exact hb c hc)]
        next => exact hk
      rw [ih hl' hm' htail, show a = b from Prod.ext hab hv]

theorem ext_find? {d e : Dict κ ν} (h : ∀ k, d.find? k = e.find? k) : d = e := by
  have := entries_eq_of_lookup d.increasing e.increasing h
  cases d; cases e; simp_all

/-- Entries that are stored in key order are found as they are, before what was there. -/
theorem find?_foldl_insert {l : List (κ × ν)}
    (h : l.Pairwise (fun a b => compare a.1 b.1 = .lt)) (d : Dict κ ν) (k : κ) :
    (l.foldl (fun d e => d.insert e.1 e.2) d).find? k = (lookup k l).or (d.find? k) := by
  classical
  induction l generalizing d with
  | nil => rfl
  | cons e rest ih =>
    obtain ⟨he, hr⟩ := List.pairwise_cons.1 h
    rw [List.foldl_cons, ih hr, find?_insert, lookup]
    by_cases hk : k = e.1
    · rw [hk, lookup_eq_none he, if_pos rfl, if_pos Std.ReflCmp.compare_self]
      rfl
    · rw [if_neg hk, if_neg (fun hc => hk (Std.LawfulEqOrd.eq_of_compare hc))]

/-- A dictionary is made of its entries, in any order. -/
theorem ofList_of_perm {l : List (κ × ν)} {d : Dict κ ν} (h : l.Perm d.entries) : ofList l = d := by
  refine ext_find? fun k => ?_
  cases hd : d.find? k with
  | none =>
    cases hl : (ofList l).find? k with
    | none => rfl
    | some v =>
      have hmem := h.mem_iff.1 (mem_of_find?_ofList hl)
      rw [mem_entries_iff.1 hmem] at hd
      cases hd
  | some v =>
    refine find?_ofList_of_mem (h.mem_iff.2 (mem_entries_iff.2 hd)) fun w hw => ?_
    have hfind := mem_entries_iff.1 (h.mem_iff.1 hw)
    exact Option.some.inj (hfind.symm.trans hd)

end Dict

end EventPipeline
