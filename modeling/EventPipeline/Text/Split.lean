import EventPipeline.Text.Blank
/-!
# Splitting at a separator

`split` cuts a text at every occurrence of a separator; `splitTimes` cuts at most
so many times. `listed` reads a comma separated list, with blank entries dropped.
-/
namespace EventPipeline.Text

/-- The part before the first `sep` and, if there is a `sep`, the part after it. -/
def splitOnce (sep : Char) : List Char → List Char × Option (List Char)
  | [] => ([], none)
  | c :: rest =>
    if c = sep then ([], some rest)
    else
      let (before, after) := splitOnce sep rest
      (c :: before, after)

theorem splitOnce_of_not_mem {sep : Char} {cs : List Char} (h : sep ∉ cs) :
    splitOnce sep cs = (cs, none) := by
  induction cs with
  | nil => rfl
  | cons c rest ih =>
    obtain ⟨hc, hrest⟩ := List.ne_and_not_mem_of_not_mem_cons h
    rw [splitOnce, if_neg (Ne.symm hc), ih hrest]

theorem splitOnce_append {sep : Char} {cs : List Char} (h : sep ∉ cs) (ds : List Char) :
    splitOnce sep (cs ++ sep :: ds) = (cs, some ds) := by
  induction cs with
  | nil => exact if_pos rfl
  | cons c rest ih =>
    obtain ⟨hc, hrest⟩ := List.ne_and_not_mem_of_not_mem_cons h
    rw [List.cons_append, splitOnce, if_neg (Ne.symm hc), ih hrest]

/-- The parts of a text between the occurrences of `sep`; there is always one. -/
def split (sep : Char) : List Char → List (List Char)
  | [] => [[]]
  | c :: rest =>
    if c = sep then [] :: split sep rest
    else
      match split sep rest with
      | [] => [[c]]
      | part :: parts => (c :: part) :: parts

theorem split_of_not_mem {sep : Char} {cs : List Char} (h : sep ∉ cs) : split sep cs = [cs] := by
  induction cs with
  | nil => rfl
  | cons c rest ih =>
    obtain ⟨hc, hrest⟩ := List.ne_and_not_mem_of_not_mem_cons h
    rw [split, if_neg (Ne.symm hc), ih hrest]

/-- What is added behind a text without a separator goes to its last part. -/
theorem split_append (sep : Char) (cs : List Char) : ∃ before last, ∀ ds, sep ∉ ds →
    split sep (cs ++ ds) = before ++ [last ++ ds] := by
  induction cs with
  | nil => exact ⟨[], [], fun ds h => split_of_not_mem h⟩
  | cons c rest ih =>
    obtain ⟨before, last, ih⟩ := ih
    by_cases hc : c = sep
    · refine ⟨[] :: before, last, fun ds h => ?_⟩
      rw [List.cons_append, split, if_pos hc, ih ds h]
      rfl
    · cases before with
      | nil =>
        refine ⟨[], c :: last, fun ds h => ?_⟩
        rw [List.cons_append, split, if_neg hc, ih ds h]
        rfl
      | cons part parts =>
        refine ⟨(c :: part) :: parts, last, fun ds h => ?_⟩
        rw [List.cons_append, split, if_neg hc, ih ds h]
        rfl

/-- The first `n` parts of a text and, as the last one, all that follows them. -/
def splitTimes (sep : Char) : Nat → List Char → List (List Char)
  | 0, cs => [cs]
  | n + 1, cs =>
    match splitOnce sep cs with
    | (before, none) => [before]
    | (before, some after) => before :: splitTimes sep n after

/-- The entries of a comma separated list, trimmed and without the blank ones. -/
def listed (s : String) : List String :=
  (((split ',' s.toList).map trim).filter (fun cs => !cs.isEmpty)).map String.ofList

end EventPipeline.Text
