/-!
# Drawing from lists

A list is drawn from others if each of its elements is taken from the head of one of
them (`Drawn`). What is drawn and what is left are together what there was
(`Drawn.perm`), and if nothing is left, the list is an interleaving of the others.
The others may grow at their ends, and in number, before anybody draws on.
-/
namespace EventPipeline

/-- The elements are drawn from the heads of some lists, and this is what is left of these. -/
inductive Drawn {α : Type} (lists : List (List α)) : List α → List (List α) → Prop
  | nothing : Drawn lists [] lists
  | next {drawn : List α} {left : List (List α)} {i : Nat} {x : α} {rest : List α} :
    Drawn lists drawn left → left[i]? = some (x :: rest) →
    Drawn lists (drawn ++ [x]) (left.set i rest)

section
variable {α : Type} {lists left : List (List α)} {drawn rest : List α} {i : Nat} {x : α}

theorem perm_flatten_set (hi : left[i]? = some (x :: rest)) :
    (x :: (left.set i rest).flatten).Perm left.flatten := by
  induction left generalizing i with
  | nil => cases hi
  | cons l left ih =>
    cases i with
    | zero =>
      obtain rfl := Option.some.inj hi
      exact .refl _
    | succ i => exact List.perm_middle.symm.trans ((ih hi).append_left l)

/-- Nothing is drawn twice, and nothing gets lost. -/
theorem Drawn.perm (h : Drawn lists drawn left) :
    (drawn ++ left.flatten).Perm lists.flatten := by
  induction h with
  | nothing => exact .refl _
  | next _ hi ih =>
    refine .trans ?_ ih
    rw [List.append_assoc]
    exact (perm_flatten_set hi).append_left _

theorem Drawn.subset (h : Drawn lists drawn left) : drawn ⊆ lists.flatten :=
  fun _ hx => h.perm.subset (List.mem_append_left _ hx)

/-- Another list may come after the others. -/
theorem Drawn.snoc (h : Drawn lists drawn left) (l : List α) :
    Drawn (lists ++ [l]) drawn (left ++ [l]) := by
  induction h with
  | nothing => exact .nothing
  | @next drawn left i x rest _ hi ih =>
    have hlt : i < left.length := (List.getElem?_eq_some_iff.1 hi).1
    rw [← List.set_append_left i rest hlt]
    exact ih.next (by rw [List.getElem?_append_left hlt, hi])

/-- What comes after the elements of a list comes after what is left of them. -/
theorem Drawn.extend {l r : List α} (h : Drawn lists drawn left) (hl : lists[i]? = some l)
    (hr : left[i]? = some r) (more : List α) :
    Drawn (lists.set i (l ++ more)) drawn (left.set i (r ++ more)) := by
  induction h generalizing r with
  | nothing =>
    obtain rfl := Option.some.inj (hl.symm.trans hr)
    exact .nothing
  | @next drawn left j x rest _ hj ih =>
    have hlt : j < left.length := (List.getElem?_eq_some_iff.1 hj).1
    by_cases hij : j = i
    · -- the element drawn last came from the list that grows
      subst hij
      rw [List.getElem?_set_self hlt] at hr
      obtain rfl := Option.some.inj hr
      have hnext := (ih hj).next (List.getElem?_set_self hlt)
      rw [List.set_set] at hnext ⊢
      exact hnext
    · rw [List.getElem?_set_ne hij] at hr
      rw [List.set_comm _ _ hij]
      exact (ih hr).next (by rw [List.getElem?_set_ne (Ne.symm hij), hj])

/-- The list is made of the elements of the others, each in its order. -/
def Interleaves (l : List α) (lists : List (List α)) : Prop :=
  Drawn lists l (.replicate lists.length [])

theorem Interleaves.nil : Interleaves ([] : List α) [] := .nothing

theorem Interleaves.snoc {l : List α} (h : Interleaves l lists) :
    Interleaves l (lists ++ [[]]) := by
  rw [Interleaves, List.length_append, List.length_singleton, List.replicate_succ']
  exact Drawn.snoc h []

/-- One of the lists goes on. -/
theorem Interleaves.push {l old : List α} (h : Interleaves l lists) (hi : lists[i]? = some old)
    (x : α) : Interleaves (l ++ [x]) (lists.set i (old ++ [x])) := by
  have hlt : i < lists.length := (List.getElem?_eq_some_iff.1 hi).1
  have hleft : (List.replicate lists.length ([] : List α))[i]? = some [] :=
    List.getElem?_replicate_of_lt hlt
  have hnext := (Drawn.extend h hi hleft [x]).next (List.getElem?_set_self (by simpa using hlt))
  rwa [List.set_set, List.set_replicate_self, ← List.length_set] at hnext

end

end EventPipeline
