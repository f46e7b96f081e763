import EventPipeline.Proofs.Storage.Rotation
/-!
# Moving aside whatever stands at a path

Others may remove the file of a rolling file, and put another file or a directory in its
place. A path at which a file was opened does not lead by way of its own place, on whatever
disk (`Disk.Straight`). So where anything is moved aside from there, directories with all
that is in them, the path still leads to the place and nothing stands there any more
(`Disk.Vacated`), and a new file can be opened. A write appends, or is refused before
anything has changed, or goes to a new file at the path (`RollingFile.writeAt_cases`).
-/
namespace EventPipeline.Storage
namespace Disk

/-- The path leads to the place, and not by way of it. -/
def LeadsStraight (d : Disk) (text : String) (place : Place) : Prop :=
  (d.without place).Leads text place

variable {d e : Disk} {text source target : String} {place other old new : Place} {node : Node}
  {id : Nat}

theorem find?_without : (d.without old).nodes.find? place =
    if place = old then none else d.nodes.find? place :=
  Dict.find?_erase _ _ _

theorem LeadsStraight.leads (h : d.LeadsStraight text place) : d.Leads text place := by
  refine Leads.mono (fun other hdir => ?_) h
  rw [find?_without] at hdir
  split at hdir
  · cases hdir
  · exact hdir

/-- A path does not lead by way of what is no directory. -/
theorem Leads.straight (h : d.Leads text place) (hnot : d.nodes.find? place ≠ some .directory) :
    d.LeadsStraight text place := by
  refine h.mono (fun other hdir => ?_)
  rw [find?_without, if_neg (by rintro rfl; exact hnot hdir)]
  exact hdir

theorem LeadsStraight.mono (hdirs : ∀ place, d.nodes.find? place = some .directory →
      e.nodes.find? place = some .directory) (h : d.LeadsStraight text place) :
    e.LeadsStraight text place := by
  refine Leads.mono (fun other hdir => ?_) h
  rw [find?_without] at hdir ⊢
  split at hdir
  · cases hdir
  next hne =>
    rw [if_neg hne]
    exact hdirs other hdir

theorem Leads.ne_nil (h : d.Leads text place) : place ≠ [] := by
  obtain ⟨p, parent, name, -, -, -, -, rfl⟩ := h
  simp

/-! ## Where a path leads at other times -/

/-- A path leads to one place. -/
theorem Leads.unique (h : d.Leads text place) (h' : d.Leads text other) : other = place := by
  obtain ⟨names, name, hiff⟩ := h.iff_walk
  obtain ⟨parent, hw, rfl⟩ := (hiff d place).1 h
  obtain ⟨parent', hw', rfl⟩ := (hiff d other).1 h'
  rw [Except.ok.inj (hw'.symm.trans hw)]

/-- On some disk the path leads straight to the place. -/
def Straight (text : String) (place : Place) : Prop :=
  ∃ d : Disk, d.LeadsStraight text place

/-- Whatever became of the directories, the path leads straight to the place or nowhere. -/
theorem Straight.leadsStraight (h : Straight text place) (hl : d.Leads text other) :
    d.LeadsStraight text place := by
  obtain ⟨once, h⟩ := h
  obtain ⟨names, name, hiff⟩ := hl.iff_walk
  obtain ⟨parent, hw, hplace⟩ := (hiff (once.without place) place).1 h
  obtain ⟨parent', hw', -⟩ := (hiff d other).1 hl
  refine (hiff (d.without place) place).2 ⟨parent, ?_, hplace⟩
  refine walk_of_directories (fun _ => True) (fun _ _ => trivial) ?_ trivial hw hw'
  intro above below _ hdir hdir'
  rw [find?_without] at hdir ⊢
  split at hdir
  · cases hdir
  next hne =>
    rw [if_neg hne]
    exact ⟨hdir', trivial⟩

theorem Straight.find?_of_fileAt? (h : Straight text place) (hfile : d.fileAt? text = some id) :
    d.nodes.find? place = some (.file id) := by
  obtain ⟨other, hl, hother⟩ := fileAt?_eq_some.1 hfile
  rw [← (h.leadsStraight hl).leads.unique hl]
  exact hother

/-- A path from which something was renamed leads to where that was. -/
theorem leads_of_rename {p : Path} (hread : Path.read source = .ok p) (hslash : p.slash = false)
    (hr : d.rename source target = .ok e) : ∃ place, d.Leads source place := by
  simp only [Disk.rename, bind, Except.bind, hread] at hr
  split at hr
  · cases hr
  next q hread' =>
    split at hr
    · cases hr
    next spot hloc =>
      split at hr
      · cases hr
      next spot' hloc' =>
        cases spot with
        | here place => cases hr
        | named parent name =>
          cases spot' with
          | here place => cases hr
          | named newParent newName =>
            simp only at hr
            split at hr
            · cases hr
            next found hlook =>
              exact ⟨_, p, parent, name, hread, hslash, hloc, (look_ok hlook).1, rfl⟩

theorem Straight.of_rename (h : Straight source old) (hr : d.rename source target = .ok e) :
    d.LeadsStraight source old := by
  obtain ⟨once, p, parent, name, hread, hslash, -⟩ := id h
  obtain ⟨place, hl⟩ := leads_of_rename hread hslash hr
  exact h.leadsStraight hl

/-! ## Moving a directory -/

theorem exists_of_find?_moveTree (h : (d.moveTree old new).nodes.find? place = some node) :
    ∃ source, d.nodes.find? source = some node ∧ place = rebased old new source := by
  obtain ⟨⟨source, found⟩, hmem, heq⟩ := List.mem_map.1 (Dict.mem_of_find?_ofList h)
  obtain ⟨hplace, rfl⟩ := Prod.mk.inj heq
  exact ⟨source, Dict.mem_entries_iff.1 hmem, hplace.symm⟩

theorem rebased_below (h : old <+: place) :
    rebased old new place = new ++ place.drop old.length :=
  if_pos (List.isPrefixOf_iff_prefix.2 h)

theorem rebased_apart (h : ¬ old <+: place) : rebased old new place = place :=
  if_neg (fun hbelow => h (List.isPrefixOf_iff_prefix.1 hbelow))

/-- What stands neither below the old place nor below the new one stays where it is. -/
theorem find?_moveTree_apart (h : d.nodes.find? place = some node)
    (hold : ¬ old <+: place) (hnew : ¬ new <+: place) :
    (d.moveTree old new).nodes.find? place = some node := by
  refine Dict.find?_ofList_of_mem ?_ (fun other hother => ?_)
  · refine List.mem_map.2 ⟨(place, node), Dict.mem_entries_iff.2 h, ?_⟩
    rw [rebased_apart hold]
  · obtain ⟨⟨source, found⟩, hmem, heq⟩ := List.mem_map.1 hother
    obtain ⟨hplace, rfl⟩ := Prod.mk.inj heq
    by_cases hsource : old <+: source
    · refine absurd ?_ hnew
      rw [← hplace, rebased_below hsource]
      exact List.prefix_append _ _
    · rw [rebased_apart hsource] at hplace
      obtain rfl : source = place := hplace
      exact Option.some.inj ((Dict.mem_entries_iff.1 hmem).symm.trans h)

/-- The way to a place does not lead through what is below it, nor below a free one. -/
theorem LeadsStraight.moveTree (h : d.LeadsStraight text old) (hnew : new ≠ [])
    (hfree : d.nodes.find? new = none) : (d.moveTree old new).LeadsStraight text old := by
  have hold := h.leads.ne_nil
  refine Leads.of_walk (fun names place hw => ?_) h
  refine walk_of_directories (fun place => ¬ old <+: place ∧ ¬ new <+: place) ?_ ?_
    ⟨by simpa using hold, by simpa using hnew⟩ hw hw
  · rintro place ⟨h1, h2⟩
    have hdrop := List.dropLast_prefix place
    exact ⟨fun hp => h1 (hp.trans hdrop), fun hp => h2 (hp.trans hdrop)⟩
  · rintro place name ⟨h1, h2⟩ hdir -
    rw [find?_without] at hdir ⊢
    split at hdir
    · cases hdir
    next hne =>
      have h1' : ¬ old <+: place ++ [name] := by
        rw [List.prefix_concat_iff]
        exact not_or.2 ⟨Ne.symm hne, h1⟩
      have h2' : ¬ new <+: place ++ [name] := by
        rw [List.prefix_concat_iff]
        refine not_or.2 ⟨?_, h2⟩
        rintro rfl
        rw [hfree] at hdir
        cases hdir
      rw [if_neg hne]
      exact ⟨find?_moveTree_apart hdir h1' h2', h1', h2'⟩

theorem find?_moveTree_source (h : ¬ new <+: old) :
    (d.moveTree old new).nodes.find? old = none := by
  refine Option.eq_none_iff_forall_not_mem.2 (fun node hnode => ?_)
  obtain ⟨source, -, hsource⟩ := exists_of_find?_moveTree hnode
  by_cases hbelow : old <+: source
  · refine h ?_
    rw [hsource, rebased_below hbelow]
    exact List.prefix_append _ _
  · rw [rebased_apart hbelow] at hsource
    exact hbelow (hsource ▸ List.prefix_refl _)

/-! ## A path made free -/

/-- Between two disks, what stood where a path leads to was moved away. -/
structure Vacated (d moved : Disk) (text : String) (old : Place) : Prop where
  straight : moved.LeadsStraight text old
  free : moved.nodes.find? old = none
  contents : moved.contents = d.contents
  shifted : ∃ shift : Place → Place, ∀ place node, moved.nodes.find? place = some node →
    ∃ source, d.nodes.find? source = some node ∧ place = shift source

theorem LeadsStraight.vacated_of_file (h : d.LeadsStraight text old)
    (hfile : d.nodes.find? old = some (.file id)) (hfree : d.nodes.find? new = none) :
    d.Vacated (d.moveNode old new) text old where
  straight := h.mono (fun _ => directory_moveNode hfile hfree)
  free := find?_moveNode_source hfile hfree
  contents := contents_moveNode
  shifted := by
    refine ⟨fun source => if source = old then new else source, fun place node hplace => ?_⟩
    rw [find?_moveNode hfile] at hplace
    split at hplace
    next hnew =>
      obtain rfl := Option.some.inj hplace
      exact ⟨old, hfile, hnew.trans (if_pos rfl).symm⟩
    next =>
      split at hplace
      · cases hplace
      next hold => exact ⟨place, hplace, (if_neg hold).symm⟩

theorem LeadsStraight.vacated_of_directory (h : d.LeadsStraight text old) (hnew : new ≠ [])
    (hfree : d.nodes.find? new = none) (hbelow : ¬ new <+: old) :
    d.Vacated (d.moveTree old new) text old where
  straight := h.moveTree hnew hfree
  free := find?_moveTree_source hbelow
  contents := rfl
  shifted := ⟨rebased old new, fun _ _ => exists_of_find?_moveTree⟩

/-- Whatever is renamed to a free name leaves its place free. -/
theorem LeadsStraight.vacated (h : d.LeadsStraight source old)
    (hfree : d.occupied target = false) (hr : d.rename source target = .ok e) :
    d.Vacated e source old := by
  rcases h.leads.rename_cases hr with ⟨id, new, hfile, hleads, -, rfl⟩ |
    ⟨-, hocc | ⟨new, hnew, hfree', hbelow, rfl⟩⟩
  · rw [hleads.occupied] at hfree
    exact h.vacated_of_file hfile (by simpa using hfree)
  · rw [hfree] at hocc
    cases hocc
  · exact h.vacated_of_directory hnew hfree' hbelow

end Disk

namespace RollingFile

variable {f : RollingFile} {d : Disk} {bs : Bytes} {now : Calendar.Moment} {old : Place}

/-- A rotation is refused before anything has changed, or opens a new file at the path. -/
theorem rotate_cases (h : Disk.Straight f.path old) (d : Disk) (now : Calendar.Moment) :
    (∃ cause, f.rotate d now = (.error cause, d)) ∨
    ∃ moved, d.Vacated moved f.path old ∧
      f.rotate d now = (.ok (f.renewed d.contents.length now), moved.create old) := by
  cases hm : f.moveAside d now with
  | error cause => exact .inl ⟨cause, by rw [rotate, hm]⟩
  | ok result =>
    obtain ⟨name, moved⟩ := result
    obtain ⟨suffix, -, hname, hrename⟩ := moveAside_ok hm
    have hfree := freeName_not_occupied d (extended f.path (String.ofList suffix))
    rw [← hname] at hfree
    have hv := (h.of_rename hrename).vacated hfree hrename
    refine .inr ⟨moved, hv, ?_⟩
    have hopen := hv.straight.leads.openFile
    rw [hv.free, hv.contents] at hopen
    have hempty := Disk.content_create moved old
    rw [hv.contents] at hempty
    simp only [rotate, hm, hopen, hempty]
    rfl

/-- What a write does, whatever stands at the path. -/
theorem writeAt_cases (h : Disk.Straight f.path old) (d : Disk) (bs : Bytes)
    (now : Calendar.Moment) :
    f.writeAt d bs now = (.ok (f.append d bs).1, (f.append d bs).2) ∨
    (∃ cause, f.writeAt d bs now = (.error cause, d)) ∨
    ∃ moved, d.Vacated moved f.path old ∧
      f.writeAt d bs now =
        (.ok ((f.renewed d.contents.length now).append (moved.create old) bs).1,
          ((f.renewed d.contents.length now).append (moved.create old) bs).2) := by
  rw [writeAt]
  by_cases hdue : f.due bs.length now
  · rw [if_pos hdue]
    rcases rotate_cases h d now with ⟨cause, hr⟩ | ⟨moved, hv, hr⟩
    · exact .inr (.inl ⟨cause, by rw [hr]⟩)
    · exact .inr (.inr ⟨moved, hv, by rw [hr]⟩)
  · rw [if_neg hdue]
    exact .inl rfl

end RollingFile

end EventPipeline.Storage
