import EventPipeline.Proofs.Storage.Rotation
/-!
# What keeps a file from being moved aside

The name a file is moved to is its path with something added behind the last name. If no
slash is added, the name lies in the directory of the file, which is there; and as it is
a free name, the only thing that may be wrong with it is that no file can have it
(`RollingFile.InPlace.moveAside_error`).
-/
namespace EventPipeline.Storage

open RollingFile (extended freeName)

variable {d : Disk} {text source ext : String} {p : Path} {old : Place} {id : Nat}
  {cause : Refusal}

theorem toList_extended (text ext : String) :
    (extended text ext).toList = text.toList ++ '.' :: ext.toList := by
  simp [extended]

theorem extended_extended (text ext more : String) :
    extended (extended text ext) more = extended text (extended ext more) := by
  simp [extended, String.append_assoc]

/-- Something without a slash that is added behind a path goes to its last name. -/
theorem read_extended (hread : Path.read text = .ok p) (hslash : p.slash = false)
    (hext : '/' ∉ ext.toList) : p.last ≠ "" ∧
      ((∃ cause, Path.read (extended text ext) = .error cause ∧ cause.ofName) ∨
        Path.read (extended text ext) = .ok ⟨p.parents, extended p.last ext, false⟩) := by
  obtain ⟨hnonempty, hends⟩ : text ≠ "" ∧ text.toList.getLast? ≠ some '/' := by
    rw [Path.read] at hread
    split at hread
    · cases hread
    · split at hread
      · cases hread
      next hne =>
        split at hread
        · cases hread
        · cases hread
          exact ⟨hne, by simpa using hslash⟩
  -- the path ends with a character of its last name
  obtain ⟨init, c, htext⟩ : ∃ init c, text.toList = init ++ [c] := by
    rcases List.eq_nil_or_concat text.toList with hnil | ⟨init, c, htext⟩
    · exact absurd (String.toList_eq_nil_iff.1 hnil) hnonempty
    · exact ⟨init, c, by rw [htext, List.concat_eq_append]⟩
  have hc : '/' ≠ c := by simpa [htext, eq_comm] using hends
  obtain ⟨parents, stem, hconcat⟩ := Path.read_concat init
  have hsame : p = ⟨parents, String.ofList (stem ++ [c]), false⟩ := by
    rcases hconcat [c] text (List.cons_ne_nil _ _) (by simpa using hc) htext with
      ⟨cause, hcause, -⟩ | hok
    · rw [hcause] at hread
      cases hread
    · exact Except.ok.inj (hread.symm.trans hok)
  have hlast : extended (String.ofList (stem ++ [c])) ext =
      String.ofList (stem ++ c :: '.' :: ext.toList) := by
    apply String.toList_injective
    simp [toList_extended]
  rw [hsame, hlast]
  refine ⟨by simp, hconcat _ _ (List.cons_ne_nil _ _) ?_ ?_⟩
  · simp [hc, hext]
  · rw [toList_extended, htext, List.append_assoc, List.singleton_append]

theorem extended_ne (ext : String) (hne : text ≠ "") (hdot : text ≠ ".") :
    extended text ext ≠ "." ∧ extended text ext ≠ ".." := by
  obtain ⟨c, more, htext⟩ := List.exists_cons_of_ne_nil
    (fun hnil => hne (String.toList_eq_nil_iff.1 hnil))
  refine ⟨fun h => ?_, fun h => ?_⟩
  · have hlist := congrArg String.toList h
    simp [toList_extended, htext] at hlist
  · have hlist := congrArg String.toList h
    simp only [toList_extended, htext] at hlist
    obtain ⟨rfl, hmore⟩ := List.cons.inj hlist
    cases more with
    | nil => exact hdot (String.toList_injective htext)
    | cons e more => simp at hmore

/-- A file cannot be renamed to a free name behind its own only if no file can have that name. -/
theorem Disk.Leads.rename_extended (hs : d.Leads source old)
    (hfile : d.nodes.find? old = some (.file id)) (hext : '/' ∉ ext.toList)
    (hfree : d.occupied (extended source ext) = false)
    (h : d.rename source (extended source ext) = .error cause) : cause.ofName := by
  obtain ⟨p, parent, name, hread, hslash, hloc, hsize, rfl⟩ := hs
  obtain ⟨hlast, ⟨cause', hrefused, hcause⟩ | hread'⟩ := read_extended hread hslash hext
  · simp only [Disk.rename, bind, Except.bind, hread, hrefused] at h
    cases h
    exact hcause
  · -- the new name is one in the same directory
    obtain ⟨hwalk, hdot, -, -⟩ := locate_eq_named.1 hloc
    obtain ⟨hne, hne'⟩ := extended_ne ext hlast hdot
    have hloc' : d.locate ⟨p.parents, extended p.last ext, false⟩ =
        .ok (.named parent (extended p.last ext)) := locate_eq_named.2 ⟨hwalk, hne, hne', rfl⟩
    by_cases hlong : maxNameSize < (extended p.last ext).utf8ByteSize
    · have hlook : d.look parent (extended p.last ext) = .error .nameTooLong := if_pos hlong
      simp only [Disk.rename, bind, Except.bind, hread, hread', hloc, hloc', look_eq hsize, hfile,
        hlook] at h
      cases h
      rfl
    · have hlook : d.look parent (extended p.last ext) = .ok _ := look_eq (Nat.le_of_not_lt hlong)
      have hnone : d.nodes.find? (parent ++ [extended p.last ext]) = none := by
        have hleads : d.Leads (extended source ext) (parent ++ [extended p.last ext]) :=
          ⟨_, _, _, hread', rfl, hloc', Nat.le_of_not_lt hlong, rfl⟩
        rw [hleads.occupied] at hfree
        simpa using hfree
      simp only [Disk.rename, bind, Except.bind, hread, hread', hloc, hloc', look_eq hsize, hfile,
        hlook, hslash, hnone] at h
      cases h

/-- The free name for a file lies in the directory of the file, if no slash is added. -/
theorem exists_freeName (d : Disk) (text : String) {suffix : String}
    (hslash : '/' ∉ suffix.toList) :
    ∃ ext, freeName d (extended text suffix) = extended text ext ∧ '/' ∉ ext.toList := by
  obtain ⟨n, -, hname, -, -⟩ := RollingFile.freeName_first d (extended text suffix)
  rw [hname]
  cases n with
  | zero => exact ⟨suffix, rfl, hslash⟩
  | succ n =>
    refine ⟨extended suffix (Decimal.nat (n + 1)), extended_extended .., ?_⟩
    have hdigits : '/' ∉ '.' :: Decimal.natChars (n + 1) :=
      RollingFile.not_mem_numbered (by decide) (by decide)
    simpa [toList_extended, Decimal.nat, hslash] using hdigits

/-- A file in place whose suffix has a text without a slash can be moved aside, unless no file can
have the name it would get. -/
theorem RollingFile.InPlace.moveAside_error {f : RollingFile} {now : Calendar.Moment}
    {suffix : List Char} {error : RollError} (h : f.InPlace d)
    (hsuffix : f.suffix.chars? now = some suffix) (hslash : '/' ∉ suffix)
    (hm : f.moveAside d now = .error error) : ∃ cause, error = .refused cause ∧ cause.ofName := by
  obtain ⟨old, hold, hfile⟩ := Disk.fileAt?_eq_some.1 h.current
  have hslash' : '/' ∉ (String.ofList suffix).toList := by simpa using hslash
  obtain ⟨ext, hname, hext⟩ := exists_freeName d f.path hslash'
  have hfree := freeName_not_occupied d (extended f.path (String.ofList suffix))
  rw [hname] at hfree
  simp only [RollingFile.moveAside, hsuffix, hname] at hm
  split at hm
  next cause hrename =>
    cases hm
    exact ⟨cause, rfl, hold.rename_extended hfile hext hfree hrename⟩
  next => cases hm

end EventPipeline.Storage
