import EventPipeline.Proofs.Calendar.Pieces
import EventPipeline.Proofs.Storage.Usage
/-!
# How a write fails

A write to a rolling file fails if the file has to be moved aside, and the suffix has no
text, or the file cannot be moved. A suffix without a text breaks the write off. Of those
that are accepted it is the ones that ask for the lenient offset, and they have none at any
moment (`Reachable.returns_iff`). Whichever way a write fails, it has changed nothing
(`Reachable.failure_changes_nothing`).
-/
namespace EventPipeline.Storage

open Calendar (Moment Pattern)

/-! ## Suffixes without a text -/

/-- The suffix has `%#z` behind what is a pattern of its own. -/
def Opening.AsksLenient (o : Opening) : Prop :=
  ∃ before after p, (o.suffix.getD RollingFile.defaultSuffix).toList =
    before ++ '%' :: '#' :: 'z' :: after ∧ Pattern.read? before = some p

/-- The write came to an end: it was made, or refused for a cause. -/
def Returned (result : Except RollError RollingFile) : Prop :=
  (∃ f, result = .ok f) ∨ ∃ cause, result = .error (.refused cause)

theorem returned_iff {result : Except RollError RollingFile} :
    Returned result ↔ result ≠ .error .unprintableSuffix := by
  constructor
  · rintro (⟨f, rfl⟩ | ⟨cause, rfl⟩) <;> simp
  · intro h
    cases result with
    | ok f => exact .inl ⟨f, rfl⟩
    | error e =>
      cases e with
      | refused cause => exact .inr ⟨cause, rfl⟩
      | unprintableSuffix => exact absurd rfl h

namespace RollingFile

variable {f : RollingFile} {d : Disk} {bs : Bytes} {now : Moment} {o : Opening}

theorem OpenedBy.chars?_eq_none_iff (h : f.OpenedBy o) (now : Moment) :
    f.suffix.chars? now = none ↔ o.AsksLenient := by
  rw [← Option.not_isSome_iff_eq_none, Pattern.isSome_chars?, Decidable.not_not,
    Pattern.lenient_mem_iff h.suffix]
  rfl

theorem rotate_unprintable_iff :
    (f.rotate d now).1 = .error .unprintableSuffix ↔ f.suffix.chars? now = none := by
  rw [rotate, moveAside]
  cases f.suffix.chars? now with
  | none => simp
  | some suffix =>
    simp only [reduceCtorEq, iff_false]
    split
    next hm =>
      split at hm
      · cases hm
        simp
      · cases hm
    next => split <;> simp

theorem writeAt_unprintable_iff :
    (f.writeAt d bs now).1 = .error .unprintableSuffix ↔
      f.due bs.length now ∧ f.suffix.chars? now = none := by
  rw [writeAt, ← rotate_unprintable_iff]
  by_cases hdue : f.due bs.length now
  · simp only [hdue, if_true, true_and]
    split
    next hr => rw [hr]
    next hr => simp [hr]
  · simp [hdue]

end RollingFile

namespace Usage

variable {u : Usage} {o : Opening} {d₀ e : Disk} {bs : Bytes} {now : Moment} {cause : RollError}

/-- A suffix that was accepted has a text for every moment unless it asks for the lenient offset,
and then every write breaks off that has to move the file aside. No other write does. -/
theorem Reachable.returns_iff (h : u.Reachable o d₀) (bs : Bytes) (now : Moment) :
    ((∃ suffix, u.file.suffix.chars? now = some suffix) ↔ ¬ o.AsksLenient) ∧
    (Returned (u.file.writeAt u.disk bs now).1 ↔
      ¬ (u.file.due bs.length now ∧ o.AsksLenient)) := by
  obtain ⟨place, hstanding⟩ := h.standing
  have hnone := hstanding.openedBy.chars?_eq_none_iff now
  constructor
  · rw [← hnone, ← Option.isSome_iff_exists, Option.isSome_iff_ne_none]
  · rw [returned_iff, ne_eq, RollingFile.writeAt_unprintable_iff, hnone]

/-- The lenient offset is accepted, and a write breaks off for it, at a moment of the calendar. -/
theorem lenientOffset_breaksOff : ∃ u : Usage, u.Reachable (suffixed "%#z") .empty ∧
    Moment.Covered ⟨0⟩ ∧ u.file.due 1 ⟨0⟩ ∧ ¬ Returned (u.file.writeAt u.disk [2] ⟨0⟩).1 := by
  have hrun : (after? (suffixed "%#z") [.write [1] ⟨0⟩]).map (fun u =>
      (u.file.due 1 ⟨0⟩, u.file.suffix.chars? ⟨0⟩)) = some (true, none) := by
    decide +kernel
  obtain ⟨u, hu, hends⟩ := Option.map_eq_some_iff.1 hrun
  obtain ⟨hdue, hchars⟩ := Prod.mk.inj hends
  refine ⟨u, reachable_of_after? hu, by decide +kernel, hdue, fun hreturned => ?_⟩
  exact returned_iff.1 hreturned (RollingFile.writeAt_unprintable_iff.2 ⟨hdue, hchars⟩)

/-- Behind a percent sign of its own the same characters are a text like any other. -/
theorem returns_iff_percentSign : ∃ u : Usage, u.Reachable (suffixed "%%#z") .empty ∧
    u.file.due 1 ⟨0⟩ ∧ u.file.suffix.chars? ⟨0⟩ = some ['%', '#', 'z'] ∧
    Returned (u.file.writeAt u.disk [2] ⟨0⟩).1 := by
  have hrun : (after? (suffixed "%%#z") [.write [1] ⟨0⟩]).map (fun u =>
      (u.file.due 1 ⟨0⟩, u.file.suffix.chars? ⟨0⟩)) = some (true, some ['%', '#', 'z']) := by
    decide +kernel
  obtain ⟨u, hu, hends⟩ := Option.map_eq_some_iff.1 hrun
  obtain ⟨hdue, hchars⟩ := Prod.mk.inj hends
  have hreach := reachable_of_after? hu
  obtain ⟨htext, hreturns⟩ := Reachable.returns_iff hreach [2] ⟨0⟩
  refine ⟨_, hreach, hdue, hchars, hreturns.2 (fun hbad => ?_)⟩
  exact htext.1 ⟨_, hchars⟩ hbad.2

/-! ## Nothing changes -/

/-- A write that fails leaves the disk and the rolling file as they were, and so does every other
such write, which fails for the same cause. -/
theorem Reachable.failure_changes_nothing (h : u.Reachable o d₀)
    (hw : u.file.writeAt u.disk bs now = (.error cause, e)) :
    e = u.disk ∧ ∀ n, u.run o (List.replicate n (.write bs now)) = u := by
  obtain ⟨place, hstanding⟩ := h.standing
  have he : e = u.disk := by
    rcases RollingFile.writeAt_cases hstanding.path u.disk bs now with hok | ⟨cause', hfail⟩ |
      ⟨moved, -, hok⟩
    · rw [hok] at hw
      cases hw
    · rw [hfail] at hw
      cases hw
      rfl
    · rw [hok] at hw
      cases hw
  have hstep : u.step o (.write bs now) = u := by
    simp only [Usage.step, hw, he]
  refine ⟨he, fun n => ?_⟩
  induction n with
  | zero => rfl
  | succ n ih =>
    rw [List.replicate_succ, Usage.run, List.foldl_cons, hstep]
    exact ih

/-- Others put a directory at the path, and the suffix leads into a directory that is not there. -/
def replacedByDirectory : List Action :=
  [.write [1] ⟨0⟩, .outside (.remove "log"), .outside (.makeDirectory "log")]

/-- The cause for which a write fails, if it does. -/
def failure? (u : Usage) (bs : Bytes) (now : Moment) : Option RollError :=
  match u.file.writeAt u.disk bs now with
  | (.error cause, _) => some cause
  | (.ok _, _) => none

theorem exists_of_failure? (h : u.failure? bs now = some cause) :
    ∃ e, u.file.writeAt u.disk bs now = (.error cause, e) := by
  rw [failure?] at h
  split at h
  next e hw =>
    obtain rfl := Option.some.inj h
    exact ⟨e, hw⟩
  · cases h

/-- The directory would be moved aside like a file, but there is no place for it to go to. -/
theorem failure_changes_nothing_directory : ∃ (u : Usage) (e : Disk),
    u.Reachable (suffixed "old/%Y") .empty ∧
    u.disk.nodes.find? ["log"] = some .directory ∧
    u.file.writeAt u.disk [2] ⟨0⟩ = (.error (.refused .notFound), e) ∧ e = u.disk ∧
    ∀ n, u.run (suffixed "old/%Y") (List.replicate n (.write [2] ⟨0⟩)) = u := by
  have hrun : (after? (suffixed "old/%Y") replacedByDirectory).map (fun u =>
      (u.disk.nodes.find? ["log"], u.failure? [2] ⟨0⟩)) =
      some (some .directory, some (.refused .notFound)) := by
    decide +kernel
  obtain ⟨u, hu, hends⟩ := Option.map_eq_some_iff.1 hrun
  obtain ⟨hdirectory, hfails⟩ := Prod.mk.inj hends
  obtain ⟨e, hw⟩ := exists_of_failure? hfails
  have hreach := reachable_of_after? hu
  exact ⟨_, e, hreach, hdirectory, hw, Reachable.failure_changes_nothing hreach hw⟩

end Usage
end EventPipeline.Storage
