import EventPipeline.Storage.Disk
/-!
# Where paths lead

A path leads to a place when it asks for no directory and the directories on the way
are there, whether anything stands at the place or not (`Disk.Leads`). It still leads
there while no directory is taken away (`Leads.mono`), and neither making a file nor
moving one to a free place takes any. Finding, opening and renaming a file are then
statements about what stands at places: `fileAt?_eq_some`, `openFile_ok`,
`Leads.rename_cases`.
-/
namespace EventPipeline.Storage
namespace Disk

/-- The path leads to the place. -/
def Leads (d : Disk) (text : String) (place : Place) : Prop :=
  ∃ p parent name, Path.read text = .ok p ∧ p.slash = false ∧
    d.locate p = .ok (.named parent name) ∧ name.utf8ByteSize ≤ maxNameSize ∧
    place = parent ++ [name]

variable {d d' e : Disk} {text source target : String} {place other other' old new : Place}
  {id : Nat}

/-! ## The directories on the way -/

/-- Where two disks let a walk go on, so does one that keeps the directories entered on both. -/
theorem walk_of_directories (P : Place → Prop) (hup : ∀ place, P place → P place.dropLast)
    (hdown : ∀ place name, P place → d.nodes.find? (place ++ [name]) = some .directory →
      d'.nodes.find? (place ++ [name]) = some .directory →
      e.nodes.find? (place ++ [name]) = some .directory ∧ P (place ++ [name]))
    {names : List String} (hp : P place) (hw : d.walk place names = .ok other)
    (hw' : d'.walk place names = .ok other') : e.walk place names = .ok other := by
  induction names generalizing place with
  | nil => exact hw
  | cons name rest ih =>
    rw [walk] at hw hw' ⊢
    split
    next hdot =>
      rw [if_pos hdot] at hw hw'
      exact ih hp hw hw'
    next hdot =>
      rw [if_neg hdot] at hw hw'
      split
      next hback =>
        rw [if_pos hback] at hw hw'
        exact ih (hup _ hp) hw hw'
      next hback =>
        rw [if_neg hback] at hw hw'
        split
        next hlong => rw [if_pos hlong] at hw; cases hw
        next hlong =>
          rw [if_neg hlong] at hw hw'
          -- only a directory lets the walk go on
          split at hw
          next hf =>
            split at hw'
            next hf' =>
              obtain ⟨hdir, hp'⟩ := hdown place name hp hf hf'
              simp only [hdir]
              exact ih hp' hw hw'
            next => cases hw'
            next => cases hw'
          next => cases hw
          next => cases hw

theorem walk_mono (h : ∀ place, d.nodes.find? place = some .directory →
      e.nodes.find? place = some .directory) {names : List String}
    (hw : d.walk place names = .ok other) : e.walk place names = .ok other :=
  walk_of_directories (fun _ => True) (fun _ _ => trivial)
    (fun _ _ _ hf _ => ⟨h _ hf, trivial⟩) trivial hw hw

theorem locate_eq_named {p : Path} {parent : Place} {name : String} :
    d.locate p = .ok (.named parent name) ↔
      d.walk [] p.parents = .ok parent ∧ p.last ≠ "." ∧ p.last ≠ ".." ∧ name = p.last := by
  simp only [locate, bind, Except.bind]
  cases d.walk [] p.parents with
  | error cause => simp
  | ok reached =>
    simp only [Except.ok.injEq]
    constructor
    · intro h
      split at h
      · cases h
      next hdot =>
        split at h
        · cases h
        next hup =>
          cases h
          exact ⟨rfl, hdot, hup, rfl⟩
    · rintro ⟨rfl, hdot, hup, rfl⟩
      rw [if_neg hdot, if_neg hup]
      rfl

/-- On every disk, the path leads to where a walk along the same names ends. -/
theorem Leads.iff_walk (h : d.Leads text place) : ∃ names name, ∀ (e : Disk) (other : Place),
    e.Leads text other ↔ ∃ parent, e.walk [] names = .ok parent ∧ other = parent ++ [name] := by
  obtain ⟨p, parent, name, hr, hslash, hloc, hsize, -⟩ := h
  obtain ⟨-, hdot, hup, rfl⟩ := locate_eq_named.1 hloc
  refine ⟨p.parents, p.last, fun e other => ⟨?_, ?_⟩⟩
  · rintro ⟨q, parent', name, hr', -, hloc', -, rfl⟩
    obtain rfl := Except.ok.inj (hr.symm.trans hr')
    obtain ⟨hw, -, -, rfl⟩ := locate_eq_named.1 hloc'
    exact ⟨parent', hw, rfl⟩
  · rintro ⟨parent', hw, rfl⟩
    exact ⟨p, parent', p.last, hr, hslash, locate_eq_named.2 ⟨hw, hdot, hup, rfl⟩, hsize, rfl⟩

theorem Leads.of_walk (h : ∀ names place, d.walk [] names = .ok place →
      e.walk [] names = .ok place) (hl : d.Leads text place) : e.Leads text place := by
  obtain ⟨names, name, hiff⟩ := hl.iff_walk
  obtain ⟨parent, hw, hplace⟩ := (hiff d place).1 hl
  exact (hiff e place).2 ⟨parent, h _ _ hw, hplace⟩

theorem Leads.mono (h : ∀ place, d.nodes.find? place = some .directory →
      e.nodes.find? place = some .directory) (hl : d.Leads text place) : e.Leads text place :=
  hl.of_walk (fun _ _ => walk_mono h)

/-! ## Finding and opening -/

theorem look_ok {parent : Place} {name : String} {found : Option Node}
    (h : d.look parent name = .ok found) :
    name.utf8ByteSize ≤ maxNameSize ∧ found = d.nodes.find? (parent ++ [name]) := by
  rw [look] at h
  split at h
  · cases h
  next hsize => exact ⟨by omega, (Except.ok.inj h).symm⟩

theorem look_eq {parent : Place} {name : String} (h : name.utf8ByteSize ≤ maxNameSize) :
    d.look parent name = .ok (d.nodes.find? (parent ++ [name])) := by
  rw [look, if_neg (by omega)]

theorem fileAt?_eq_some :
    d.fileAt? text = some id ↔
      ∃ place, d.Leads text place ∧ d.nodes.find? place = some (.file id) := by
  constructor
  · intro h
    rw [fileAt?] at h
    split at h
    · cases h
    next p hr =>
      split at h
      next parent name hloc =>
        split at h
        next file hlook =>
          obtain ⟨hsize, hfound⟩ := look_ok hlook
          split at h
          · cases h
          next hslash =>
            obtain rfl := Option.some.inj h
            exact ⟨_, ⟨p, parent, name, hr, by simpa using hslash, hloc, hsize, rfl⟩, hfound.symm⟩
        · cases h
      · cases h
  · rintro ⟨place, ⟨p, parent, name, hr, hslash, hloc, hsize, rfl⟩, hf⟩
    simp [fileAt?, hr, hloc, look_eq hsize, hf, hslash]

theorem Leads.fileAt? (h : d.Leads text place) :
    d.fileAt? text = match d.nodes.find? place with
      | some (.file id) => some id
      | _ => none := by
  obtain ⟨p, parent, name, hr, hslash, hloc, hsize, rfl⟩ := h
  simp only [Disk.fileAt?, hr, hloc, look_eq hsize, hslash]
  cases d.nodes.find? (parent ++ [name]) with
  | none => rfl
  | some node => cases node <;> rfl

theorem Leads.occupied (h : d.Leads text place) :
    d.occupied text = (d.nodes.find? place).isSome := by
  obtain ⟨p, parent, name, hr, hslash, hloc, hsize, rfl⟩ := h
  simp only [Disk.occupied, exists?, bind, Except.bind, hr, hloc, look_eq hsize, hslash]
  cases d.nodes.find? (parent ++ [name]) with
  | none => rfl
  | some node => cases node <;> rfl

theorem Leads.openFile (h : d.Leads text place) :
    d.openFile text = match d.nodes.find? place with
      | some .directory => .error .isDirectory
      | some (.file id) => .ok (id, d)
      | none => .ok (d.contents.length, d.create place) := by
  obtain ⟨p, parent, name, hr, hslash, hloc, hsize, rfl⟩ := h
  simp only [Disk.openFile, bind, Except.bind, hr, hloc, look_eq hsize, hslash]
  cases d.nodes.find? (parent ++ [name]) with
  | none => rfl
  | some node => cases node <;> rfl

theorem leads_of_openFile (h : d.openFile text = .ok (id, e)) : ∃ place, d.Leads text place := by
  simp only [Disk.openFile, bind, Except.bind] at h
  split at h
  · cases h
  next p hr =>
    split at h
    · cases h
    next spot hloc =>
      split at h
      · cases h
      next parent name =>
        split at h
        · cases h
        next hslash =>
          split at h
          · cases h
          next found hlook =>
            exact ⟨_, p, parent, name, hr, by simpa using hslash, hloc, (look_ok hlook).1, rfl⟩

/-- A file opened is the one that stands at the path, or a new one there. -/
theorem openFile_ok (h : d.openFile text = .ok (id, e)) : ∃ place, d.Leads text place ∧
    (d.nodes.find? place = some (.file id) ∧ e = d ∨
      d.nodes.find? place = none ∧ id = d.contents.length ∧ e = d.create place) := by
  obtain ⟨place, hl⟩ := leads_of_openFile h
  refine ⟨place, hl, ?_⟩
  rw [hl.openFile] at h
  split at h
  · cases h
  next hf => cases h; exact .inl ⟨hf, rfl⟩
  next hf => cases h; exact .inr ⟨hf, rfl, rfl⟩

theorem Leads.fileAt?_eq_some (h : d.Leads text place) :
    d.fileAt? text = some id ↔ d.nodes.find? place = some (.file id) := by
  rw [h.fileAt?]
  split
  next hf => rw [hf]; simp
  next hf => simpa using hf id

theorem openFile_of_fileAt? (h : d.fileAt? text = some id) : d.openFile text = .ok (id, d) := by
  obtain ⟨place, hl, hf⟩ := fileAt?_eq_some.1 h
  rw [hl.openFile, hf]

/-! ## Moving and making a file -/

/-- What a rename did: a file now stands where the new name leads to; a directory and all below it
moved to a free place, unless something had the new name. -/
theorem Leads.rename_cases (hs : d.Leads source old) (h : d.rename source target = .ok e) :
    (∃ id new, d.nodes.find? old = some (.file id) ∧ d.Leads target new ∧
      d.nodes.find? new ≠ some .directory ∧ e = d.moveNode old new) ∨
    d.nodes.find? old = some .directory ∧ (d.occupied target = true ∨
      ∃ new, new ≠ [] ∧ d.nodes.find? new = none ∧ ¬ new <+: old ∧ e = d.moveTree old new) := by
  obtain ⟨p, parent, name, hr, hslash, hloc, hsize, rfl⟩ := hs
  simp only [Disk.rename, bind, Except.bind, hr, hloc, hslash] at h
  split at h
  · cases h
  next q hr' =>
    split at h
    · cases h
    next spot hloc' =>
      cases spot with
      | here place => cases h
      | named newParent newName =>
        simp only [look_eq hsize] at h
        cases hf : d.nodes.find? (parent ++ [name]) with
        | none => simp only [hf] at h; cases h
        | some node =>
          cases node with
          | file id =>
            simp only [hf] at h
            split at h
            · cases h
            next there hlook =>
              obtain ⟨hsize', rfl⟩ := look_ok hlook
              split at h
              · cases h
              next hslash' =>
                split at h
                · cases h
                next hdir =>
                  refine .inl ⟨id, _, rfl, ?_, hdir, (Except.ok.inj h).symm⟩
                  exact ⟨q, newParent, newName, hr', by simpa using hslash', hloc', hsize', rfl⟩
          | directory =>
            simp only [hf] at h
            split at h
            · cases h
            next there hlook =>
              obtain ⟨hsize', rfl⟩ := look_ok hlook
              refine .inr ⟨rfl, ?_⟩
              -- a directory under the new name is something that has it
              have hocc : d.nodes.find? (newParent ++ [newName]) = some .directory →
                  d.occupied target = true := by
                intro hthere
                simp only [Disk.occupied, exists?, bind, Except.bind, hr', hloc', look_eq hsize',
                  hthere]
                rfl
              split at h
              next hsame => exact .inl (hocc (hsame ▸ hf))
              next =>
                split at h
                · cases h
                · split at h
                  · cases h
                  next hbelow =>
                    split at h
                    · cases h
                    next hthere => exact .inl (hocc hthere)
                    next hthere =>
                      refine .inr ⟨_, by simp, hthere, fun hpre => hbelow ?_,
                        (Except.ok.inj h).symm⟩
                      exact List.isPrefixOf_iff_prefix.2 hpre

theorem find?_moveNode {node : Node} (hs : d.nodes.find? old = some node) :
    (d.moveNode old new).nodes.find? place =
      if place = new then some node else if place = old then none else d.nodes.find? place := by
  rw [moveNode]
  split
  next hn => rw [hs] at hn; cases hn
  next node' hn =>
    obtain rfl := Option.some.inj (hs.symm.trans hn)
    rw [arranged, Dict.find?_insert, Dict.find?_erase]

@[simp] theorem contents_moveNode : (d.moveNode old new).contents = d.contents := by
  rw [moveNode]
  split <;> rfl

theorem find?_create : (d.create old).nodes.find? place =
    if place = old then some (.file d.contents.length) else d.nodes.find? place :=
  Dict.find?_insert _ _ _ _

theorem content_create (d : Disk) (old : Place) :
    (d.create old).content d.contents.length = [] := by
  simp [content, create]

theorem directory_create (hfree : d.nodes.find? old = none)
    (h : d.nodes.find? place = some .directory) :
    (d.create old).nodes.find? place = some .directory := by
  rw [find?_create, if_neg (by rintro rfl; rw [hfree] at h; cases h), h]

/-- Once opened, the file is the one at the path. -/
theorem fileAt?_of_openFile (h : d.openFile text = .ok (id, e)) : e.fileAt? text = some id := by
  obtain ⟨place, hl, ⟨hf, rfl⟩ | ⟨hfree, rfl, rfl⟩⟩ := openFile_ok h
  · exact hl.fileAt?_eq_some.2 hf
  · refine (hl.mono (fun _ => directory_create hfree)).fileAt?_eq_some.2 ?_
    rw [find?_create, if_pos rfl]

section
variable (hfile : d.nodes.find? old = some (.file id)) (hfree : d.nodes.find? new = none)
include hfile hfree

theorem directory_moveNode (h : d.nodes.find? place = some .directory) :
    (d.moveNode old new).nodes.find? place = some .directory := by
  rw [find?_moveNode hfile, if_neg (by rintro rfl; rw [hfree] at h; cases h),
    if_neg (by rintro rfl; rw [hfile] at h; cases h), h]

theorem find?_moveNode_source : (d.moveNode old new).nodes.find? old = none := by
  rw [find?_moveNode hfile, if_neg (by rintro rfl; rw [hfree] at hfile; cases hfile), if_pos rfl]

end

theorem fileAt?_replace (bs : Bytes) : (d.replace id bs).fileAt? text = d.fileAt? text := by
  have hsame : ∀ place, (d.replace id bs).nodes.find? place = d.nodes.find? place := fun _ => rfl
  ext file
  rw [fileAt?_eq_some, fileAt?_eq_some]
  constructor
  · rintro ⟨place, hl, hf⟩
    exact ⟨place, hl.mono (fun other h => (hsame other).symm.trans h), hf⟩
  · rintro ⟨place, hl, hf⟩
    exact ⟨place, hl.mono (fun other h => (hsame other).trans h), hf⟩

theorem lt_of_fileAt? (h : d.fileAt? text = some id) : id < d.contents.length := by
  obtain ⟨place, -, hf⟩ := fileAt?_eq_some.1 h
  exact d.numbered place id hf

end Disk

end EventPipeline.Storage
