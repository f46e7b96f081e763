import EventPipeline.Proofs.Storage.Rotation
/-!
# A rolling file in use

A session writes to a rolling file, flushes it and opens it again with the same
arguments. In between the disk may change in any way that spares the files of the
session. Where the session stands is told by a cut (`Session.Cut`): the files that were
moved aside and the open one, each with the pieces it holds. A write adds a piece to the
last file, a rotation begins a new last file, and nothing else moves the cut.
-/
namespace EventPipeline.Storage

/-- What a rolling file is opened with. -/
structure Opening where
  path : String
  maxSize : Nat
  maxAge : Nat
  suffix : Option String

/-- Open a rolling file at a given moment. -/
def Opening.openAt (o : Opening) (d : Disk) (now : Calendar.Moment) :
    Except OpenError (RollingFile × Disk) :=
  RollingFile.openAt d o.path o.maxSize o.maxAge o.suffix now

/-- A rolling file in use, with the names of the files moved aside and the buffers written, the
first ones first. -/
structure Session where
  file : RollingFile
  disk : Disk
  aside : List String
  written : List Bytes

namespace Session

/-- What happens next to a rolling file in use. -/
inductive Action
  | write (bs : Bytes) (now : Calendar.Moment)
  | flush
  | reopen (now : Calendar.Moment)
  | outside (disk : Disk)

/-- Whether another disk has the files of the session where they are and as they are. -/
def Spares (s : Session) (e : Disk) : Prop :=
  ∀ text ∈ s.aside ++ [s.file.path],
    e.fileAt? text = s.disk.fileAt? text ∧ e.readFile? text = s.disk.readFile? text

instance (s : Session) (e : Disk) : Decidable (s.Spares e) :=
  inferInstanceAs (Decidable (∀ text ∈ s.aside ++ [s.file.path], _))

/-- The session after an action. A write or an opening that fails leaves the file that is open. -/
def step (o : Opening) (s : Session) : Action → Option Session
  | .write bs now =>
    let aside := s.aside ++ (s.file.movesTo? s.disk bs.length now).toList
    match s.file.writeAt s.disk bs now with
    | (.ok f, d) => some ⟨f, d, aside, s.written ++ [bs]⟩
    | (.error _, d) => some ⟨s.file, d, aside, s.written⟩
  | .flush => some s
  | .reopen now =>
    match o.openAt s.disk now with
    | .ok (f, d) => some { s with file := f, disk := d }
    | .error _ => some s
  | .outside e => if s.Spares e then some { s with disk := e } else none

/-- The sessions that a rolling file opened on a disk may come to. -/
inductive Reachable (o : Opening) (d₀ : Disk) : Session → Prop
  | opened {now : Calendar.Moment} {f : RollingFile} {d : Disk}
      (h : o.openAt d₀ now = .ok (f, d)) : Reachable o d₀ ⟨f, d, [], []⟩
  | step {s t : Session} {a : Action} (h : Reachable o d₀ s) (hs : s.step o a = some t) :
      Reachable o d₀ t

/-! ## The pieces in the files -/

/-- The files of a session by number, and the pieces each of them holds; `last` are those in the
open file. -/
structure Cut (s : Session) (ids : List Nat) (groups : List (List Bytes)) (last : List Bytes) :
    Prop where
  inPlace : s.file.InPlace s.disk
  aside : s.aside.map s.disk.fileAt? = ids.map some
  distinct : (ids ++ [s.file.file]).Nodup
  moved : ids.map s.disk.content = groups.map List.flatten
  current : s.disk.content s.file.file = last.flatten

variable {s t : Session} {o : Opening} {d₀ d e : Disk} {f : RollingFile} {ids : List Nat}
  {groups : List (List Bytes)} {last : List Bytes} {name : String} {id : Nat}

theorem Cut.exists_id (h : s.Cut ids groups last) (hname : name ∈ s.aside) :
    ∃ id ∈ ids, s.disk.fileAt? name = some id := by
  have hmem : s.disk.fileAt? name ∈ ids.map some := by
    rw [← h.aside]
    exact List.mem_map_of_mem hname
  obtain ⟨id, hid, heq⟩ := List.mem_map.1 hmem
  exact ⟨id, hid, heq.symm⟩

theorem Cut.exists_name (h : s.Cut ids groups last) (hid : id ∈ ids) :
    ∃ name ∈ s.aside, s.disk.fileAt? name = some id := by
  have hmem : some id ∈ s.aside.map s.disk.fileAt? := by
    rw [h.aside]
    exact List.mem_map_of_mem hid
  exact List.mem_map.1 hmem

theorem Cut.ne (h : s.Cut ids groups last) (hid : id ∈ ids) : id ≠ s.file.file := by
  rintro rfl
  exact (List.nodup_append.1 h.distinct).2.2 _ hid _ List.mem_cons_self rfl

theorem Cut.lt (h : s.Cut ids groups last) (hid : id ∈ ids ++ [s.file.file]) :
    id < s.disk.contents.length := by
  rcases List.mem_append.1 hid with hid | hid
  · obtain ⟨name, -, hname⟩ := h.exists_name hid
    exact Disk.lt_of_fileAt? hname
  · rw [List.mem_singleton.1 hid]
    exact Disk.lt_of_fileAt? h.inPlace.current

end Session

/-! ## What each move does to the cut -/

theorem Disk.content_append_self {d : Disk} {id : Nat} (h : id < d.contents.length) (bs : Bytes) :
    (d.append id bs).content id = d.content id ++ bs := by
  simp [append, replace, content, h]

theorem Disk.content_append_ne {d : Disk} {id other : Nat} (h : other ≠ id) (bs : Bytes) :
    (d.append id bs).content other = d.content other := by
  simp [append, replace, content, Ne.symm h]

namespace Disk.Rotated

variable {d e : Disk} {path name : String} {file id : Nat}

theorem content_old (h : d.Rotated e path name file) (hid : id < d.contents.length) :
    e.content id = d.content id := by
  rw [content, content, h.contents]
  simp [List.getElem?_append_left hid]

theorem content_new (h : d.Rotated e path name file) : e.content d.contents.length = [] := by
  rw [content, h.contents]
  simp

end Disk.Rotated

theorem Opening.openAt_ok {o : Opening} {d e : Disk} {f : RollingFile} {now : Calendar.Moment}
    (h : o.openAt d now = .ok (f, e)) : d.openFile o.path = .ok (f.file, e) ∧ f.path = o.path ∧
      f.size = (e.content f.file).length := by
  rw [openAt, RollingFile.openAt_eq] at h
  split at h
  · cases h
  · cases h
  · split at h
    · cases h
    next hopen =>
      cases h
      exact ⟨hopen, rfl, rfl⟩

/-- A rolling file has the arguments it was opened with. -/
structure RollingFile.OpenedBy (f : RollingFile) (o : Opening) : Prop where
  path : f.path = o.path
  maxSize : f.maxSize = o.maxSize
  maxAge : f.maxAge = o.maxAge
  suffix : Calendar.Pattern.read? (o.suffix.getD RollingFile.defaultSuffix).toList = some f.suffix

theorem Opening.openedBy {o : Opening} {d e : Disk} {f : RollingFile} {now : Calendar.Moment}
    (h : o.openAt d now = .ok (f, e)) : f.OpenedBy o := by
  rw [openAt, RollingFile.openAt_eq] at h
  split at h
  · cases h
  · cases h
  next hread =>
    split at h
    · cases h
    · cases h
      exact ⟨rfl, rfl, rfl, hread⟩

theorem Opening.suffix_openAt {o : Opening} {d e : Disk} {f : RollingFile} {now : Calendar.Moment}
    (h : o.openAt d now = .ok (f, e)) :
    Calendar.Pattern.read? (o.suffix.getD RollingFile.defaultSuffix).toList = some f.suffix :=
  (o.openedBy h).suffix

/-- A write renews the file, its size and the moment of its opening, and nothing else. -/
theorem RollingFile.OpenedBy.writeAt {o : Opening} {d e : Disk} {f g : RollingFile} {bs : Bytes}
    {now : Calendar.Moment} (h : f.OpenedBy o) (hw : f.writeAt d bs now = (.ok g, e)) :
    g.OpenedBy o := by
  rw [RollingFile.writeAt, rotate] at hw
  split at hw
  · split at hw
    · cases hw
    next hrotate =>
      split at hrotate
      · cases hrotate
      · split at hrotate
        · cases hrotate
        · cases hrotate
          cases hw
          exact ⟨h.path, h.maxSize, h.maxAge, h.suffix⟩
  · cases hw
    exact ⟨h.path, h.maxSize, h.maxAge, h.suffix⟩

namespace Session

variable {s t : Session} {o : Opening} {d₀ d e : Disk} {f : RollingFile} {ids : List Nat}
  {groups : List (List Bytes)} {last : List Bytes} {name : String} {id : Nat}

/-- A write to the open file is a further piece in it. -/
theorem Cut.append (h : s.Cut ids groups last) (bs : Bytes) (written : List Bytes) :
    Cut ⟨(s.file.append s.disk bs).1, (s.file.append s.disk bs).2, s.aside, written⟩ ids groups
      (last ++ [bs]) := by
  have hself := Disk.content_append_self (Disk.lt_of_fileAt? h.inPlace.current) bs
  have hfileAt : ∀ text, (s.disk.append s.file.file bs).fileAt? text = s.disk.fileAt? text :=
    fun text => Disk.fileAt?_replace _
  constructor
  · constructor
    · exact (hfileAt _).trans h.inPlace.current
    · show s.file.size + bs.length = _
      rw [h.inPlace.size]
      show _ = ((s.disk.append s.file.file bs).content s.file.file).length
      rw [hself, List.length_append]
  · rw [← h.aside]
    exact List.map_congr_left (fun text _ => hfileAt text)
  · exact h.distinct
  · rw [← h.moved]
    exact List.map_congr_left (fun id hid => Disk.content_append_ne (h.ne hid) bs)
  · show (s.disk.append s.file.file bs).content s.file.file = _
    rw [hself, h.current]
    simp

/-- A rotation begins a new file. -/
theorem Cut.rotate (h : s.Cut ids groups last) (hr : s.disk.Rotated e s.file.path name s.file.file)
    (now : Calendar.Moment) (written : List Bytes) :
    Cut ⟨s.file.renewed s.disk.contents.length now, e, s.aside ++ [name], written⟩
      (ids ++ [s.file.file]) (groups ++ [last]) [] := by
  constructor
  · constructor
    · exact hr.current
    · show 0 = (e.content s.disk.contents.length).length
      rw [hr.content_new]
      rfl
  · rw [List.map_append, List.map_append, List.map_singleton, hr.aside, ← h.aside]
    congr 1
    refine List.map_congr_left (fun text htext => ?_)
    obtain ⟨id, hid, hfile⟩ := h.exists_id htext
    rw [hfile]
    exact hr.others hfile (h.ne hid)
  · refine List.nodup_append.2 ⟨h.distinct, by simp, fun a ha b hb => ?_⟩
    rw [List.mem_singleton.1 hb]
    exact Nat.ne_of_lt (h.lt ha)
  · rw [List.map_append, List.map_append, ← h.moved, List.map_singleton, List.map_singleton,
      ← h.current]
    congr 1
    · exact List.map_congr_left (fun id hid =>
        hr.content_old (h.lt (List.mem_append_left _ hid)))
    · rw [hr.content_old (h.lt (List.mem_append_right _ List.mem_cons_self))]
  · exact hr.content_new

/-- A change of the disk that spares the files of the session leaves the cut where it is. -/
theorem Cut.outside (h : s.Cut ids groups last) (hs : s.Spares e) :
    Cut { s with disk := e } ids groups last := by
  have hcontent : ∀ text ∈ s.aside ++ [s.file.path], ∀ id, s.disk.fileAt? text = some id →
      e.content id = s.disk.content id := by
    intro text htext id hid
    obtain ⟨hfile, hread⟩ := hs text htext
    rw [Disk.readFile?, Disk.readFile?, hfile, hid] at hread
    exact Option.some.inj hread
  have hpath : s.file.path ∈ s.aside ++ [s.file.path] :=
    List.mem_append_right _ List.mem_cons_self
  have hcurrent := hcontent _ hpath _ h.inPlace.current
  constructor
  · constructor
    · exact (hs _ hpath).1.trans h.inPlace.current
    · show s.file.size = (e.content s.file.file).length
      rw [hcurrent, h.inPlace.size]
  · rw [← h.aside]
    exact List.map_congr_left (fun text htext => (hs text (List.mem_append_left _ htext)).1)
  · exact h.distinct
  · rw [← h.moved]
    refine List.map_congr_left (fun id hid => ?_)
    obtain ⟨text, htext, hfile⟩ := h.exists_name hid
    exact hcontent text (List.mem_append_left _ htext) id hfile
  · show e.content s.file.file = _
    rw [hcurrent, h.current]

/-- A session begins with one piece, what was at the path. -/
theorem Cut.opened {now : Calendar.Moment} (h : o.openAt d₀ now = .ok (f, d)) :
    Cut ⟨f, d, [], []⟩ [] [] [(d₀.readFile? o.path).getD []] := by
  obtain ⟨hopen, hpath, hsize⟩ := o.openAt_ok h
  have hfile : d.fileAt? f.path = some f.file := by
    rw [hpath]
    exact Disk.fileAt?_of_openFile hopen
  refine ⟨⟨hfile, hsize⟩, rfl, by simp, rfl, ?_⟩
  rw [List.flatten_singleton]
  obtain ⟨place, hl, ⟨-, rfl⟩ | ⟨hfree, hid, rfl⟩⟩ := Disk.openFile_ok hopen
  · rw [hpath] at hfile
    rw [Disk.readFile?, hfile]
    rfl
  · have hnone : d₀.readFile? o.path = none := by
      rw [Disk.readFile?, hl.fileAt?, hfree]
      rfl
    rw [hnone, hid]
    exact Disk.content_create d₀ place

/-- Opening again finds the file that is open. -/
theorem Cut.reopen (h : s.Cut ids groups last) (hpath : s.file.path = o.path)
    {now : Calendar.Moment} (hr : o.openAt s.disk now = .ok (f, d)) :
    f.path = o.path ∧ Cut { s with file := f, disk := d } ids groups last := by
  obtain ⟨hopen, hf, hsize⟩ := o.openAt_ok hr
  have hcurrent := h.inPlace.current
  rw [hpath] at hcurrent
  rw [Disk.openFile_of_fileAt? hcurrent] at hopen
  obtain ⟨hid, rfl⟩ := Prod.mk.inj (Except.ok.inj hopen)
  refine ⟨hf, ⟨⟨?_, hsize⟩, h.aside, ?_, h.moved, ?_⟩⟩
  · show s.disk.fileAt? f.path = some f.file
    rw [hf, hcurrent, hid]
  · show (ids ++ [f.file]).Nodup
    rw [← hid]
    exact h.distinct
  · show s.disk.content f.file = _
    rw [← hid, h.current]

/-! ## A whole run -/

/-- A write is appended to the file that is open, or fails, or goes to a new file. -/
theorem step_write {bs : Bytes} {now : Calendar.Moment}
    (h : s.disk.fileAt? s.file.path = some s.file.file)
    (ht : s.step o (.write bs now) = some t) :
    (s.file.due bs.length now = false ∧
      t = ⟨(s.file.append s.disk bs).1, (s.file.append s.disk bs).2, s.aside,
        s.written ++ [bs]⟩) ∨
    t = s ∨
    ∃ name e, s.file.movesTo? s.disk bs.length now = some name ∧
      s.disk.Rotated e s.file.path name s.file.file ∧
      t = ⟨((s.file.renewed s.disk.contents.length now).append e bs).1,
        ((s.file.renewed s.disk.contents.length now).append e bs).2, s.aside ++ [name],
        s.written ++ [bs]⟩ := by
  rw [Session.step] at ht
  rcases RollingFile.writeAt_of_fileAt? h bs now with
    ⟨hdue, hw⟩ | ⟨hnone, cause, hw⟩ | ⟨name, e, hname, hr, hw⟩
  · simp only [RollingFile.movesTo?_of_not_due hdue, hw, Option.toList_none,
      List.append_nil] at ht
    exact .inl ⟨hdue, (Option.some.inj ht).symm⟩
  · simp only [hnone, hw, Option.toList_none, List.append_nil] at ht
    exact .inr (.inl (Option.some.inj ht).symm)
  · simp only [hname, hw, Option.toList_some] at ht
    exact .inr (.inr ⟨name, e, hname, hr, (Option.some.inj ht).symm⟩)

/-- What an action does to the cut: nothing, or a write found room in the open file, or it began a
new one. -/
theorem Cut.step (h : s.Cut ids groups last) (hpath : s.file.path = o.path) {a : Action}
    (hs : s.step o a = some t) : t.file.path = o.path ∧
      ((t.Cut ids groups last ∧ t.written = s.written) ∨
      (∃ bs now, s.file.due bs.length now = false ∧ t.Cut ids groups (last ++ [bs]) ∧
        t.written = s.written ++ [bs]) ∨
      ∃ bs now name, s.file.movesTo? s.disk bs.length now = some name ∧
        t.Cut (ids ++ [s.file.file]) (groups ++ [last]) [bs] ∧
        t.written = s.written ++ [bs]) := by
  cases a with
  | write bs now =>
    rcases step_write h.inPlace.current hs with ⟨hdue, rfl⟩ | rfl | ⟨name, e, hname, hr, rfl⟩
    · exact ⟨hpath, .inr (.inl ⟨bs, now, hdue, h.append bs _, rfl⟩)⟩
    · exact ⟨hpath, .inl ⟨h, rfl⟩⟩
    · exact ⟨hpath,
        .inr (.inr ⟨bs, now, name, hname, (h.rotate hr now s.written).append bs _, rfl⟩)⟩
  | flush =>
    cases hs
    exact ⟨hpath, .inl ⟨h, rfl⟩⟩
  | reopen now =>
    rw [Session.step] at hs
    split at hs
    next f d hr =>
      cases hs
      obtain ⟨hf, hcut⟩ := h.reopen hpath hr
      exact ⟨hf, .inl ⟨hcut, rfl⟩⟩
    · cases hs
      exact ⟨hpath, .inl ⟨h, rfl⟩⟩
  | outside e =>
    rw [Session.step] at hs
    split at hs
    next hspares =>
      cases hs
      exact ⟨hpath, .inl ⟨h.outside hspares, rfl⟩⟩
    · cases hs

/-- The pieces in the files of a session are what was at the path, and the buffers written. -/
theorem Reachable.cut (h : s.Reachable o d₀) : s.file.path = o.path ∧ ∃ ids groups last,
    s.Cut ids groups last ∧
      groups.flatten ++ last = (d₀.readFile? o.path).getD [] :: s.written := by
  induction h with
  | opened h => exact ⟨(o.openAt_ok h).2.1, [], [], _, Cut.opened h, rfl⟩
  | step _ hs ih =>
    obtain ⟨hpath, ids, groups, last, hcut, hpieces⟩ := ih
    obtain ⟨hpath', ⟨hcut', hwritten⟩ | ⟨bs, now, -, hcut', hwritten⟩ |
      ⟨bs, now, name, -, hcut', hwritten⟩⟩ := hcut.step hpath hs
    · exact ⟨hpath', _, _, _, hcut', by rw [hpieces, hwritten]⟩
    · refine ⟨hpath', _, _, _, hcut', ?_⟩
      rw [← List.append_assoc, hpieces, hwritten]
      rfl
    · refine ⟨hpath', _, _, _, hcut', ?_⟩
      rw [List.flatten_append, List.flatten_singleton, hpieces, hwritten]
      rfl

theorem Reachable.openedBy (h : s.Reachable o d₀) : s.file.OpenedBy o := by
  induction h with
  | opened h => exact o.openedBy h
  | @step s t a hs ht ih =>
    cases a with
    | write bs now =>
      rw [Session.step] at ht
      split at ht
      next hw => cases ht; exact ih.writeAt hw
      · cases ht; exact ih
    | flush =>
      cases ht
      exact ih
    | reopen now =>
      rw [Session.step] at ht
      split at ht
      next hr => cases ht; exact o.openedBy hr
      · cases ht; exact ih
    | outside e =>
      rw [Session.step] at ht
      split at ht
      · cases ht; exact ih
      · cases ht

/-- All files of a session are moved aside under the suffix it was opened with. -/
theorem Reachable.suffix (h : s.Reachable o d₀) :
    Calendar.Pattern.read? (o.suffix.getD RollingFile.defaultSuffix).toList =
      some s.file.suffix :=
  h.openedBy.suffix

end Session

end EventPipeline.Storage
