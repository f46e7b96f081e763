import EventPipeline.Proofs.Storage.Usage
/-!
# What a write leaves alone

A rolling file is moved to the first name that nothing has, of those that are tried, and so
to the place of nothing else. All other files keep their places and what they hold
(`RollingFile.overwrites_nothing`). The bytes written go to the file that is open, which
others may have taken from its path. Where no file had two places at first, it then has none
(`Usage.Reachable.eq_of_fileAt?`).
-/
namespace EventPipeline.Storage

/-! ## Files with one place each -/

/-- No file stands at two places. -/
def Disk.Unlinked (d : Disk) : Prop :=
  ∀ place other id, d.nodes.find? place = some (.file id) →
    d.nodes.find? other = some (.file id) → place = other

namespace Disk

variable {d e moved : Disk} {text : String} {place old : Place} {id : Nat}

theorem unlinked_empty : empty.Unlinked := fun _ _ _ h => absurd h (by simp [empty])

theorem Unlinked.of_files (h : d.Unlinked) (hfiles : ∀ place id,
    e.nodes.find? place = some (.file id) → d.nodes.find? place = some (.file id)) :
    e.Unlinked :=
  fun place other id hplace hother => h place other id (hfiles _ _ hplace) (hfiles _ _ hother)

/-- Moving a file or a directory gives no file a second place. -/
theorem Vacated.unlinked (hv : d.Vacated moved text old) (h : d.Unlinked) : moved.Unlinked := by
  obtain ⟨shift, hshift⟩ := hv.shifted
  intro place other id hplace hother
  obtain ⟨source, hsource, rfl⟩ := hshift place (.file id) hplace
  obtain ⟨source', hsource', rfl⟩ := hshift other (.file id) hother
  rw [h source source' id hsource hsource']

/-- The files after one was made are the new one, and those before. -/
theorem file_of_find?_create (h : (d.create old).nodes.find? place = some (.file id)) :
    (place = old ∧ id = d.contents.length) ∨
      (d.nodes.find? place = some (.file id) ∧ id < d.contents.length) := by
  rw [find?_create] at h
  split at h
  next hplace =>
    cases h
    exact .inl ⟨hplace, rfl⟩
  · exact .inr ⟨h, d.numbered _ _ h⟩

theorem Unlinked.create (h : d.Unlinked) (old : Place) : (d.create old).Unlinked := by
  intro place other id hplace hother
  rcases file_of_find?_create hplace with ⟨rfl, hid⟩ | ⟨hplace, hid⟩
  · rcases file_of_find?_create hother with ⟨rfl, -⟩ | ⟨-, hid'⟩
    · rfl
    · omega
  · rcases file_of_find?_create hother with ⟨-, hid'⟩ | ⟨hother, -⟩
    · omega
    · exact h place other id hplace hother

/-- Others only ever make new files. -/
theorem Changed.file (h : d.Changed e) (hid : id < d.contents.length)
    (hfile : e.nodes.find? place = some (.file id)) : d.nodes.find? place = some (.file id) := by
  cases h with
  | same => exact hfile
  | rewritten => exact hfile
  | added =>
    rcases file_of_find?_create hfile with ⟨-, rfl⟩ | ⟨hfile, -⟩
    · exact absurd hid (Nat.lt_irrefl _)
    · exact hfile
  | removed =>
    rw [find?_without] at hfile
    split at hfile
    · cases hfile
    · exact hfile
  | directory =>
    rw [find?_withDirectory] at hfile
    split at hfile
    · cases hfile
    · exact hfile

theorem Changed.length_le (h : d.Changed e) : d.contents.length ≤ e.contents.length := by
  cases h with
  | same => exact Nat.le_refl _
  | rewritten => exact Nat.le_of_eq List.length_set.symm
  | added => simp [replace, create]
  | removed => exact Nat.le_refl _
  | directory => exact Nat.le_refl _

theorem Changed.unlinked (h : d.Changed e) (hd : d.Unlinked) : e.Unlinked := by
  cases h with
  | same => exact hd
  | rewritten => exact hd
  | added => exact hd.create _
  | removed old =>
    exact hd.of_files (fun place id h =>
      (Changed.removed old).file ((d.without old).numbered place id h) h)
  | directory old =>
    exact hd.of_files (fun place id h =>
      (Changed.directory old).file ((d.withDirectory old).numbered place id h) h)

end Disk

/-! ## One write -/

theorem Disk.readFile?_congr {d e : Disk} {text text' : String} {id : Nat}
    (h : d.fileAt? text = some id) (h' : e.fileAt? text' = some id)
    (hcontent : e.content id = d.content id) : e.readFile? text' = d.readFile? text := by
  rw [readFile?, readFile?, h, h', Option.map_some, Option.map_some, hcontent]

/-- The bytes written go to the new file. -/
theorem Disk.Rotated.content_append {d e : Disk} {path name : String} {file id : Nat}
    (h : d.Rotated e path name file) (hid : id < d.contents.length) (bs : Bytes) :
    (e.append d.contents.length bs).content id = d.content id := by
  rw [content_append_ne (Nat.ne_of_lt hid), h.content_old hid]

namespace RollingFile

variable {f : RollingFile} {d e : Disk} {bs : Bytes} {now : Calendar.Moment} {text : String}
  {id other : Nat} {result : Except RollError RollingFile}

/-- A file that is neither at the path nor open stays where it is and holds what it held. -/
theorem writeAt_spares (hpath : d.fileAt? f.path = some id)
    (hw : f.writeAt d bs now = (result, e)) (h : d.fileAt? text = some other) (hne : other ≠ id)
    (hopen : other ≠ f.file) :
    e.fileAt? text = some other ∧ e.readFile? text = d.readFile? text := by
  rcases writeAt_of_fileAt? hpath bs now with ⟨-, hok⟩ | ⟨-, cause, hfail⟩ | ⟨name, r, -, hr, hok⟩
  · obtain ⟨-, rfl⟩ := Prod.mk.inj (hok.symm.trans hw)
    have hkept : (d.append f.file bs).fileAt? text = some other :=
      (Disk.fileAt?_replace _).trans h
    exact ⟨hkept, Disk.readFile?_congr h hkept (Disk.content_append_ne hopen bs)⟩
  · obtain ⟨-, rfl⟩ := Prod.mk.inj (hfail.symm.trans hw)
    exact ⟨h, rfl⟩
  · obtain ⟨-, rfl⟩ := Prod.mk.inj (hok.symm.trans hw)
    have hkept : (r.append d.contents.length bs).fileAt? text = some other :=
      (Disk.fileAt?_replace _).trans (hr.others h hne)
    exact ⟨hkept, Disk.readFile?_congr h hkept (hr.content_append (Disk.lt_of_fileAt? h) bs)⟩

/-- The file at the path stays there, or has got the name it is moved to and holds what it held. -/
theorem writeAt_moves (hpath : d.fileAt? f.path = some id)
    (hw : f.writeAt d bs now = (result, e)) :
    (f.movesTo? d bs.length now = none ∧ e.fileAt? f.path = some id) ∨
    ∃ name, f.movesTo? d bs.length now = some name ∧ e.fileAt? name = some id ∧
      e.readFile? name = d.readFile? f.path := by
  rcases writeAt_of_fileAt? hpath bs now with
    ⟨hdue, hok⟩ | ⟨hnone, cause, hfail⟩ | ⟨name, r, hname, hr, hok⟩
  · obtain ⟨-, rfl⟩ := Prod.mk.inj (hok.symm.trans hw)
    exact .inl ⟨movesTo?_of_not_due hdue, (Disk.fileAt?_replace _).trans hpath⟩
  · obtain ⟨-, rfl⟩ := Prod.mk.inj (hfail.symm.trans hw)
    exact .inl ⟨hnone, hpath⟩
  · obtain ⟨-, rfl⟩ := Prod.mk.inj (hok.symm.trans hw)
    have haside : (r.append d.contents.length bs).fileAt? name = some id :=
      (Disk.fileAt?_replace _).trans hr.aside
    exact .inr ⟨name, hname, haside, Disk.readFile?_congr hpath haside
      (hr.content_append (Disk.lt_of_fileAt? hpath) bs)⟩

end RollingFile

/-! ## The open file -/

open RollingFile (FirstFree extended freeName)

variable {u : Usage} {o : Opening} {d₀ d e : Disk} {f : RollingFile} {place : Place}
  {now : Calendar.Moment} {text : String} {id : Nat} {bs : Bytes}
  {result : Except RollError RollingFile}

namespace Usage

/-- No file stands at two places, and the open one at no place but the given one. -/
structure Alone (u : Usage) (place : Place) : Prop where
  unlinked : u.disk.Unlinked
  known : u.file.file < u.disk.contents.length
  only : ∀ other, u.disk.nodes.find? other = some (.file u.file.file) → other = place

theorem Alone.openAt (hd : d.Unlinked) (h : o.openAt d now = .ok (f, e))
    (hs : Disk.Straight o.path place) : Alone ⟨f, e⟩ place := by
  have hopen := (o.openAt_ok h).1
  have hfile : e.nodes.find? place = some (.file f.file) :=
    hs.find?_of_fileAt? (Disk.fileAt?_of_openFile hopen)
  have he : e.Unlinked := by
    obtain ⟨old, -, ⟨-, rfl⟩ | ⟨-, -, rfl⟩⟩ := Disk.openFile_ok hopen
    · exact hd
    · exact hd.create old
  exact ⟨he, e.numbered place _ hfile, fun other hother => he other place _ hother hfile⟩

theorem Alone.step (hs : u.Standing o place) (h : u.Alone place) (a : Action) :
    (u.step o a).Alone place := by
  cases a with
  | write bs now =>
    rw [Usage.step]
    rcases RollingFile.writeAt_cases hs.path u.disk bs now with hw | ⟨cause, hw⟩ | ⟨moved, hv, hw⟩
    · simp only [hw]
      exact ⟨h.unlinked, Nat.lt_of_lt_of_le h.known (Nat.le_of_eq List.length_set.symm), h.only⟩
    · simp only [hw]
      exact h
    · simp only [hw]
      refine ⟨(hv.unlinked h.unlinked).create place, ?_, fun other hother => ?_⟩
      · show u.disk.contents.length < ((moved.contents ++ [[]]).set _ _).length
        simp [hv.contents]
      · rcases Disk.file_of_find?_create hother with ⟨hplace, -⟩ | ⟨-, hlt⟩
        · exact hplace
        · rw [hv.contents] at hlt
          exact absurd hlt (Nat.lt_irrefl _)
  | flush => exact h
  | reopen now =>
    rw [Usage.step]
    split
    next hr => exact Alone.openAt h.unlinked hr hs.straight
    · exact h
  | outside change =>
    have hc := u.disk.changed_changed change
    exact ⟨hc.unlinked h.unlinked, Nat.lt_of_lt_of_le h.known hc.length_le,
      fun other hother => h.only other (hc.file h.known hother)⟩

/-- Where no file has two places, the file that is open is the one at the path, if it has a
place. -/
theorem Reachable.alone (h : u.Reachable o d₀) (hd : d₀.Unlinked) :
    ∃ place, u.Standing o place ∧ u.Alone place := by
  induction h with
  | opened h =>
    obtain ⟨place, hs⟩ := Standing.opened h
    exact ⟨place, hs, Alone.openAt hd h hs.straight⟩
  | step _ a ih =>
    obtain ⟨place, hs, ha⟩ := ih
    exact ⟨place, hs.step a, Alone.step hs ha a⟩

/-- The file that is open is the one at the path, or stands nowhere. -/
theorem Reachable.eq_of_fileAt? (h : u.Reachable o d₀) (hd : d₀.Unlinked)
    (hpath : u.disk.fileAt? u.file.path = some id)
    (hfile : u.disk.fileAt? text = some u.file.file) : u.file.file = id := by
  obtain ⟨place, hs, ha⟩ := h.alone hd
  obtain ⟨other, -, hother⟩ := Disk.fileAt?_eq_some.1 hfile
  obtain rfl := ha.only other hother
  have hid := hs.path.find?_of_fileAt? hpath
  rw [hother] at hid
  exact Node.file.inj (Option.some.inj hid)

end Usage

/-- A write moves the file at the path to the first free name, or leaves it at the path. All other
files stay where they are and hold what they held. The open file may be one of them only where
it was given a second place by other means than those of `Disk.Change`. -/
theorem RollingFile.overwrites_nothing (hpath : d.fileAt? f.path = some id)
    (hw : f.writeAt d bs now = (result, e)) :
    (∀ suffix, FirstFree d (extended f.path suffix) (freeName d (extended f.path suffix))) ∧
    (∀ text other, d.fileAt? text = some other → other ≠ id →
      other ≠ f.file ∨ (∃ o d₀, Disk.Unlinked d₀ ∧ Usage.Reachable o d₀ ⟨f, d⟩) →
        e.fileAt? text = some other ∧ e.readFile? text = d.readFile? text) ∧
    ((f.movesTo? d bs.length now = none ∧ e.fileAt? f.path = some id) ∨
      ∃ suffix name, f.suffix.chars? now = some suffix ∧
        f.movesTo? d bs.length now = some name ∧
        FirstFree d (extended f.path (String.ofList suffix)) name ∧
        e.fileAt? name = some id ∧ e.readFile? name = d.readFile? f.path) := by
  refine ⟨fun suffix => freeName_first _ _, fun text other hfile hne hopen => ?_, ?_⟩
  · refine writeAt_spares hpath hw hfile hne ?_
    rcases hopen with hopen | ⟨o, d₀, hd, hreach⟩
    · exact hopen
    · rintro rfl
      exact hne (hreach.eq_of_fileAt? hd hpath hfile)
  · rcases writeAt_moves hpath hw with hstays | ⟨name, hname, haside, hread⟩
    · exact .inl hstays
    · obtain ⟨suffix, hsuffix, hfree⟩ := exists_of_movesTo? hname
      refine .inr ⟨suffix, name, hsuffix, hname, ?_, haside, hread⟩
      rw [hfree]
      exact freeName_first _ _

namespace Usage

/-- Others put directories and files at the names of files moved aside, and leave a gap. -/
def namesTaken : List Action :=
  [.write [1] ⟨0⟩, .outside (.makeDirectory "log.day"), .outside (.put "log.day.1" [7]),
    .outside (.makeDirectory "log.day.2"), .outside (.put "log.day.3" [8]),
    .outside (.removeDirectory "log.day.2")]

/-- The file is moved into the gap. -/
theorem overwrites_nothing_gap : ∃ (u : Usage) (result : Except RollError RollingFile) (e : Disk),
    u.Reachable (suffixed "day") .empty ∧ u.disk.fileAt? u.file.path = some 0 ∧
    u.file.writeAt u.disk [2] ⟨0⟩ = (result, e) ∧ FirstFree u.disk "log.day" "log.day.2" ∧
    e.readFile? "log.day.2" = u.disk.readFile? u.file.path ∧
    e.readFile? "log.day.1" = u.disk.readFile? "log.day.1" ∧
    e.readFile? "log.day.3" = u.disk.readFile? "log.day.3" := by
  have hrun : (after? (suffixed "day") namesTaken).map (fun u =>
      ([u.file.path, "log.day.1", "log.day.3"].map u.disk.fileAt?, u.file.path,
        u.file.suffix.chars? ⟨0⟩, u.file.movesTo? u.disk 1 ⟨0⟩)) =
      some ([some 0, some 1, some 2], "log", some ['d', 'a', 'y'], some "log.day.2") := by
    decide +kernel
  obtain ⟨u, hu, hends⟩ := Option.map_eq_some_iff.1 hrun
  obtain ⟨hfiles, hends⟩ := Prod.mk.inj hends
  obtain ⟨hname, hends⟩ := Prod.mk.inj hends
  obtain ⟨hday, hmoves⟩ := Prod.mk.inj hends
  simp only [List.map_cons, List.map_nil, List.cons.injEq, and_true] at hfiles
  obtain ⟨hlog, hfirst, hthird⟩ := hfiles
  have hreach := reachable_of_after? hu
  obtain ⟨result, e, hw⟩ : ∃ result e, u.file.writeAt u.disk [2] ⟨0⟩ = (result, e) := ⟨_, _, rfl⟩
  obtain ⟨-, hothers, hmoved⟩ := RollingFile.overwrites_nothing hlog hw
  have hused : ∃ o d₀, Disk.Unlinked d₀ ∧ Reachable o d₀ u := ⟨_, _, Disk.unlinked_empty, hreach⟩
  have hfirst' := hothers _ _ hfirst (by decide) (.inr hused)
  have hthird' := hothers _ _ hthird (by decide) (.inr hused)
  refine ⟨u, result, e, hreach, hlog, hw, ?_⟩
  rcases hmoved with ⟨hnone, -⟩ | ⟨suffix, name, hsuffix, hname', hfree, -, hread⟩
  · exact absurd (hmoves.symm.trans hnone) (by simp)
  · obtain rfl := Option.some.inj (hday.symm.trans hsuffix)
    obtain rfl := Option.some.inj (hmoves.symm.trans hname')
    rw [hname] at hfree
    exact ⟨hfree, hread, hfirst'.2, hthird'.2⟩

end Usage

end EventPipeline.Storage
