import EventPipeline.Proofs.Storage.FreeName
import EventPipeline.Proofs.Storage.Leads
/-!
# What a write to a rolling file does

A rolling file is in place when the file it has open stands at its path and is as large
as it was taken for (`RollingFile.InPlace`). Where its path names a file, be it the open one
or not, a write does one of three things (`RollingFile.writeAt_of_fileAt?`): it appends to
the open file; or the file at the path cannot be moved aside and nothing changes; or that
file is moved to a name that led nowhere, an empty file takes its path, and the write is
appended to that one. A file that was moved aside can always be opened anew, because the
directories on the way to its path are still there.
-/
namespace EventPipeline.Storage

/-- Between two disks, the file at a path got another name and a new one took its path. -/
structure Disk.Rotated (d e : Disk) (path name : String) (file : Nat) : Prop where
  aside : e.fileAt? name = some file
  current : e.fileAt? path = some d.contents.length
  others : ∀ {text id}, d.fileAt? text = some id → id ≠ file → e.fileAt? text = some id
  contents : e.contents = d.contents ++ [[]]

theorem Disk.find?_create_moveNode {d : Disk} {old new place : Place} {node : Node}
    (h : d.nodes.find? old = some node) :
    ((d.moveNode old new).create old).nodes.find? place =
      if place = old then some (.file d.contents.length)
      else if place = new then some node else d.nodes.find? place := by
  rw [find?_create, find?_moveNode h, contents_moveNode]
  by_cases ho : place = old
  · rw [if_pos ho, if_pos ho]
  · rw [if_neg ho, if_neg ho, if_neg ho]

theorem Disk.rotated {d : Disk} {path name : String} {old new : Place} {file : Nat}
    (hold : d.Leads path old) (hfile : d.nodes.find? old = some (.file file))
    (hnew : d.Leads name new) (hfree : d.nodes.find? new = none) :
    d.Rotated ((d.moveNode old new).create old) path name file := by
  have hdirs : ∀ place, d.nodes.find? place = some .directory →
      ((d.moveNode old new).create old).nodes.find? place = some .directory := by
    intro place h
    apply directory_create (find?_moveNode_source hfile hfree)
    exact directory_moveNode hfile hfree h
  have hne : new ≠ old := by
    rintro rfl
    rw [hfree] at hfile
    cases hfile
  constructor
  · refine fileAt?_eq_some.2 ⟨new, hnew.mono hdirs, ?_⟩
    rw [find?_create_moveNode hfile, if_neg hne, if_pos rfl]
  · refine fileAt?_eq_some.2 ⟨old, hold.mono hdirs, ?_⟩
    rw [find?_create_moveNode hfile, if_pos rfl]
  · intro text id h hid
    obtain ⟨place, hl, hf⟩ := fileAt?_eq_some.1 h
    refine fileAt?_eq_some.2 ⟨place, hl.mono hdirs, ?_⟩
    have ho : place ≠ old := by
      rintro rfl
      rw [hfile] at hf
      cases hf
      exact hid rfl
    have hn : place ≠ new := by
      rintro rfl
      rw [hfree] at hf
      cases hf
    rw [find?_create_moveNode hfile, if_neg ho, if_neg hn, hf]
  · show (d.moveNode old new).contents ++ [[]] = _
    rw [contents_moveNode]

namespace RollingFile

/-- The file that is open stands at the path, and its size is known. -/
structure InPlace (f : RollingFile) (d : Disk) : Prop where
  current : d.fileAt? f.path = some f.file
  size : f.size = (d.content f.file).length

/-- The name a write moves the file to first, if it does. -/
def movesTo? (f : RollingFile) (d : Disk) (incoming : Nat) (now : Calendar.Moment) :
    Option String :=
  if f.due incoming now then (f.moveAside d now).toOption.map Prod.fst else none

/-- The rolling file after it was moved aside at a given moment. -/
def renewed (f : RollingFile) (file : Nat) (now : Calendar.Moment) : RollingFile :=
  { f with file := file, size := 0, openedAt := now }

variable {f : RollingFile} {d e moved : Disk} {bs : Bytes} {now : Calendar.Moment} {name : String}
  {id : Nat}

theorem moveAside_ok (h : f.moveAside d now = .ok (name, moved)) :
    ∃ suffix, f.suffix.chars? now = some suffix ∧
      name = freeName d (extended f.path (String.ofList suffix)) ∧
      d.rename f.path name = .ok moved := by
  rw [RollingFile.moveAside] at h
  split at h
  · cases h
  next suffix hsuffix =>
    simp only at h
    split at h
    · cases h
    next hrename =>
      cases h
      exact ⟨suffix, hsuffix, rfl, hrename⟩

theorem moveAside_of_fileAt? (h : d.fileAt? f.path = some id)
    (hm : f.moveAside d now = .ok (name, moved)) :
    ∃ old new, d.Leads f.path old ∧ d.nodes.find? old = some (.file id) ∧
      d.Leads name new ∧ d.nodes.find? new = none ∧ moved = d.moveNode old new := by
  obtain ⟨old, hold, hfile⟩ := Disk.fileAt?_eq_some.1 h
  obtain ⟨suffix, -, hname, hrename⟩ := moveAside_ok hm
  rcases hold.rename_cases hrename with ⟨-, new, -, hnew, -, rfl⟩ | ⟨hdir, -⟩
  · have hfree := freeName_not_occupied d (extended f.path (String.ofList suffix))
    rw [← hname, hnew.occupied] at hfree
    exact ⟨old, new, hold, hfile, hnew, by simpa using hfree, rfl⟩
  · rw [hfile] at hdir
    cases hdir

theorem rotate_of_fileAt? (h : d.fileAt? f.path = some id)
    (hm : f.moveAside d now = .ok (name, moved)) :
    ∃ e, f.rotate d now = (.ok (f.renewed d.contents.length now), e) ∧
      d.Rotated e f.path name id := by
  obtain ⟨old, new, hold, hfile, hnew, hfree, rfl⟩ := moveAside_of_fileAt? h hm
  have hr := Disk.rotated hold hfile hnew hfree
  refine ⟨_, ?_, hr⟩
  have hopen := (hold.mono (fun _ => Disk.directory_moveNode hfile hfree)).openFile
  rw [Disk.find?_moveNode_source hfile hfree] at hopen
  have hempty := Disk.content_create (d.moveNode old new) old
  rw [Disk.contents_moveNode] at hempty
  rw [RollingFile.rotate]
  simp only [hm, hopen, Disk.contents_moveNode, hempty]
  rfl

/-- The file goes to the free name for its path and the text of its suffix. -/
theorem exists_of_movesTo? {incoming : Nat} (h : f.movesTo? d incoming now = some name) :
    ∃ suffix, f.suffix.chars? now = some suffix ∧
      name = freeName d (extended f.path (String.ofList suffix)) := by
  rw [movesTo?] at h
  split at h
  · cases hm : f.moveAside d now with
    | error cause => rw [hm] at h; cases h
    | ok result =>
      rw [hm] at h
      obtain rfl := Option.some.inj h
      obtain ⟨suffix, hsuffix, hname, -⟩ := moveAside_ok hm
      exact ⟨suffix, hsuffix, hname⟩
  · cases h

theorem movesTo?_of_not_due {incoming : Nat} (h : f.due incoming now = false) :
    f.movesTo? d incoming now = none := by
  rw [movesTo?, h]
  rfl

/-- What a write does where the path names a file, be it the open one or not. -/
theorem writeAt_of_fileAt? (h : d.fileAt? f.path = some id) (bs : Bytes)
    (now : Calendar.Moment) :
    (f.due bs.length now = false ∧
      f.writeAt d bs now = (.ok (f.append d bs).1, (f.append d bs).2)) ∨
    (f.movesTo? d bs.length now = none ∧ ∃ cause, f.writeAt d bs now = (.error cause, d)) ∨
    ∃ name e, f.movesTo? d bs.length now = some name ∧ d.Rotated e f.path name id ∧
      f.writeAt d bs now = (.ok ((f.renewed d.contents.length now).append e bs).1,
        ((f.renewed d.contents.length now).append e bs).2) := by
  rw [movesTo?, RollingFile.writeAt]
  by_cases hdue : f.due bs.length now
  · rw [if_pos hdue, if_pos hdue]
    refine .inr ?_
    cases hm : f.moveAside d now with
    | error cause =>
      refine .inl ⟨rfl, cause, ?_⟩
      simp only [RollingFile.rotate, hm]
    | ok result =>
      obtain ⟨e, hrotate, hrotated⟩ := rotate_of_fileAt? h hm
      refine .inr ⟨result.1, e, rfl, hrotated, ?_⟩
      simp only [hrotate]
  · rw [if_neg hdue, if_neg hdue]
    exact .inl ⟨Bool.eq_false_iff.2 hdue, rfl⟩

end RollingFile

end EventPipeline.Storage
