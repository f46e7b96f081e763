import EventPipeline.Proofs.Storage.Session
import EventPipeline.Proofs.Storage.Vacating
/-!
# A rolling file among others

A rolling file is in use while others make and remove files and directories anywhere, also
at its path and at the names of the files it moved aside (`Usage.Reachable`). The path leads
to the place where the file was opened or nowhere, for as long as it is in use
(`Reachable.standing`).
-/
namespace EventPipeline.Storage

/-! ## What others do -/

/-- Remove a directory that holds nothing. -/
def Disk.removeDirectory (d : Disk) (text : String) : Except Refusal Disk := do
  let p ← Path.read text
  match ← d.locate p with
  | .here _ => throw .busy
  | .named parent name =>
    match ← d.look parent name with
    | none => throw .notFound
    | some (.file _) => throw .notDirectory
    | some .directory =>
      if d.vacant (parent ++ [name]) then return d.without (parent ++ [name])
      else throw .directoryNotEmpty

/-- What others do on a disk: write a whole file, remove one, make or remove a directory. -/
inductive Disk.Change
  | put (text : String) (bs : Bytes)
  | remove (text : String)
  | makeDirectory (text : String)
  | removeDirectory (text : String)

/-- The disk after a change. One that is refused leaves it as it is. -/
def Disk.changed (d : Disk) : Disk.Change → Disk
  | .put text bs => (d.put text bs).toOption.getD d
  | .remove text => (d.remove text).toOption.getD d
  | .makeDirectory text => (d.makeDirectory text).toOption.getD d
  | .removeDirectory text => (d.removeDirectory text).toOption.getD d

namespace Disk

variable {d e : Disk} {text : String} {place : Place} {bs : Bytes} {id : Nat}

/-- Everything that a change may do to a disk. -/
inductive Changed (d : Disk) : Disk → Prop
  | same : Changed d d
  | rewritten (id : Nat) (bs : Bytes) : Changed d (d.replace id bs)
  | added (place : Place) (bs : Bytes) :
      Changed d ((d.create place).replace d.contents.length bs)
  | removed (place : Place) : Changed d (d.without place)
  | directory (place : Place) : Changed d (d.withDirectory place)

theorem changed_of_put (h : d.put text bs = .ok e) : d.Changed e := by
  simp only [put, bind, Except.bind] at h
  split at h
  · cases h
  next opened hopen =>
    obtain ⟨id, e⟩ := opened
    cases h
    obtain ⟨place, -, ⟨-, rfl⟩ | ⟨-, rfl, rfl⟩⟩ := openFile_ok hopen
    · exact .rewritten id bs
    · exact .added place bs

theorem changed_of_remove (h : d.remove text = .ok e) : d.Changed e := by
  simp only [remove, bind, Except.bind] at h
  split at h
  · cases h
  next p hr =>
    split at h
    · cases h
    next spot hloc =>
      cases spot with
      | here place => cases h
      | named parent name =>
        simp only at h
        split at h
        · cases h
        next there hlook =>
          cases there with
          | none => cases h
          | some node =>
            cases node with
            | directory => cases h
            | file id =>
              simp only at h
              split at h
              · cases h
              · cases h
                exact .removed _

theorem changed_of_makeDirectory (h : d.makeDirectory text = .ok e) : d.Changed e := by
  simp only [makeDirectory, bind, Except.bind] at h
  split at h
  · cases h
  next p hr =>
    split at h
    · cases h
    next spot hloc =>
      cases spot with
      | here place => cases h
      | named parent name =>
        simp only at h
        split at h
        · cases h
        next there hlook =>
          cases there with
          | some node => cases h
          | none =>
            cases h
            exact .directory _

theorem changed_of_removeDirectory (h : d.removeDirectory text = .ok e) : d.Changed e := by
  simp only [removeDirectory, bind, Except.bind] at h
  split at h
  · cases h
  next p hr =>
    split at h
    · cases h
    next spot hloc =>
      cases spot with
      | here place => cases h
      | named parent name =>
        simp only at h
        split at h
        · cases h
        next there hlook =>
          cases there with
          | none => cases h
          | some node =>
            cases node with
            | file id => cases h
            | directory =>
              simp only at h
              split at h
              · cases h
                exact .removed _
              · cases h

theorem changed_getD {result : Except Refusal Disk} (h : ∀ e, result = .ok e → d.Changed e) :
    d.Changed (result.toOption.getD d) := by
  cases result with
  | error cause => exact .same
  | ok e => exact h e rfl

theorem changed_changed (d : Disk) (c : Change) : d.Changed (d.changed c) := by
  cases c with
  | put text bs => exact changed_getD (fun _ => changed_of_put)
  | remove text => exact changed_getD (fun _ => changed_of_remove)
  | makeDirectory text => exact changed_getD (fun _ => changed_of_makeDirectory)
  | removeDirectory text => exact changed_getD (fun _ => changed_of_removeDirectory)

theorem find?_withDirectory {old : Place} : (d.withDirectory old).nodes.find? place =
    if place = old then some .directory else d.nodes.find? place :=
  Dict.find?_insert _ _ _ _

end Disk

/-! ## What happens to a rolling file in use -/

/-- A rolling file in use, and the disk it is on. -/
structure Usage where
  file : RollingFile
  disk : Disk

namespace Usage

/-- What happens next: to the rolling file, or by others. -/
inductive Action
  | write (bs : Bytes) (now : Calendar.Moment)
  | flush
  | reopen (now : Calendar.Moment)
  | outside (change : Disk.Change)

/-- What an action leads to. A write or an opening that fails leaves the rolling file as it is. -/
def step (o : Opening) (u : Usage) : Action → Usage
  | .write bs now =>
    match u.file.writeAt u.disk bs now with
    | (.ok f, d) => ⟨f, d⟩
    | (.error _, d) => ⟨u.file, d⟩
  | .flush => u
  | .reopen now =>
    match o.openAt u.disk now with
    | .ok (f, d) => ⟨f, d⟩
    | .error _ => u
  | .outside change => ⟨u.file, u.disk.changed change⟩

/-- What a rolling file opened on a disk may come to. -/
inductive Reachable (o : Opening) (d₀ : Disk) : Usage → Prop
  | opened {now : Calendar.Moment} {f : RollingFile} {d : Disk}
      (h : o.openAt d₀ now = .ok (f, d)) : Reachable o d₀ ⟨f, d⟩
  | step {u : Usage} (h : Reachable o d₀ u) (a : Action) : Reachable o d₀ (u.step o a)

/-- The rolling file has its arguments, and its path leads to no place but the given one. -/
structure Standing (u : Usage) (o : Opening) (place : Place) : Prop where
  openedBy : u.file.OpenedBy o
  straight : Disk.Straight o.path place

variable {u : Usage} {o : Opening} {d₀ d e : Disk} {f : RollingFile} {place : Place}
  {now : Calendar.Moment}

theorem Standing.path (h : u.Standing o place) : Disk.Straight u.file.path place :=
  h.openedBy.path ▸ h.straight

theorem Standing.opened (h : o.openAt d now = .ok (f, e)) : ∃ place, Standing ⟨f, e⟩ o place := by
  obtain ⟨place, hl, hfile⟩ := Disk.openFile_ok (o.openAt_ok h).1
  refine ⟨place, o.openedBy h, d, hl.straight ?_⟩
  rcases hfile with ⟨hfile, -⟩ | ⟨hfree, -, -⟩
  · simp [hfile]
  · simp [hfree]

theorem Standing.step (h : u.Standing o place) (a : Action) :
    (u.step o a).Standing o place := by
  refine ⟨?_, h.straight⟩
  cases a with
  | write bs now =>
    rw [Usage.step]
    split
    next hw => exact h.openedBy.writeAt hw
    next => exact h.openedBy
  | flush => exact h.openedBy
  | reopen now =>
    rw [Usage.step]
    split
    next hr => exact o.openedBy hr
    next => exact h.openedBy
  | outside change => exact h.openedBy

/-- The path leads to the place where the file was opened first, or nowhere. -/
theorem Reachable.standing (h : u.Reachable o d₀) : ∃ place, u.Standing o place := by
  induction h with
  | opened h => exact Standing.opened h
  | step _ a ih =>
    obtain ⟨place, hstanding⟩ := ih
    exact ⟨place, hstanding.step a⟩

/-! ## A run -/

/-- Actions one after the other. -/
def run (o : Opening) (u : Usage) (actions : List Action) : Usage :=
  actions.foldl (fun u a => u.step o a) u

theorem Reachable.run (h : u.Reachable o d₀) (actions : List Action) :
    (u.run o actions).Reachable o d₀ := by
  induction actions generalizing u with
  | nil => exact h
  | cons a actions ih => exact ih (h.step a)

/-- A file of one byte with a given suffix. -/
def suffixed (suffix : String) : Opening := ⟨"log", 1, 0, some suffix⟩

/-- A file newly opened on an empty disk, after some actions. -/
def after? (o : Opening) (actions : List Action) : Option Usage :=
  (o.openAt .empty ⟨0⟩).toOption.map (fun result => run o ⟨result.1, result.2⟩ actions)

theorem reachable_of_after? {actions : List Action} (h : after? o actions = some u) :
    u.Reachable o .empty := by
  obtain ⟨⟨f, d⟩, hopen, rfl⟩ := Option.map_eq_some_iff.1 h
  cases hr : o.openAt .empty ⟨0⟩ with
  | error cause => rw [hr] at hopen; cases hopen
  | ok result =>
    rw [hr] at hopen
    cases hopen
    exact (Reachable.opened hr).run actions

end Usage

end EventPipeline.Storage
