import EventPipeline.Bytes
import EventPipeline.Dict
import EventPipeline.Storage.Path
/-!
# Disks

A disk holds directories and files by their place, the names on the way from the
root. What a file holds is kept apart from its place, under a number that stays
with the file: a file that was opened can be appended to after it was moved or
removed. Every number that stands at a place has contents (`Disk.numbered`), so the
next number belongs to a new file. Every operation either happens or is refused
and changes nothing.
-/
namespace EventPipeline.Storage

/-- Where something stands: the names on the way from the root, without `.` and `..`. -/
abbrev Place := List String

/-- What stands at a place: a directory, or the file with some number. -/
inductive Node
  | directory
  | file (id : Nat)
deriving DecidableEq

/-- Directories and files by place, the root not counted, and the contents of the files by
number. -/
structure Disk where
  nodes : Dict Place Node
  contents : List Bytes
  numbered : ∀ place id, nodes.find? place = some (.file id) → id < contents.length
deriving DecidableEq

/-- What the last name of a path denotes. -/
inductive Spot
  | here (place : Place)
  | named (parent : Place) (name : String)
deriving DecidableEq

namespace Disk

/-- The disk that holds nothing. -/
def empty : Disk := ⟨.empty, [], fun _ _ h => nomatch h⟩

/-- What the file with a number holds. -/
def content (d : Disk) (id : Nat) : Bytes := d.contents.getD id []

/-- All files, with what they hold. -/
def files (d : Disk) : List (Place × Bytes) :=
  d.nodes.entries.filterMap (fun e =>
    match e.2 with
    | .directory => none
    | .file id => some (e.1, d.content id))

/-! ## Finding -/

/-- The directory reached from another by some names. -/
def walk (d : Disk) (place : Place) : List String → Except Refusal Place
  | [] => .ok place
  | name :: rest =>
    if name = "." then d.walk place rest
    else if name = ".." then d.walk place.dropLast rest
    else if maxNameSize < name.utf8ByteSize then .error .nameTooLong
    else
      match d.nodes.find? (place ++ [name]) with
      | some .directory => d.walk (place ++ [name]) rest
      | some (.file _) => .error .notDirectory
      | none => .error .notFound

/-- What a path denotes, whether there is anything or not. -/
def locate (d : Disk) (p : Path) : Except Refusal Spot := do
  let parent ← d.walk [] p.parents
  if p.last = "." then return .here parent
  else if p.last = ".." then return .here parent.dropLast
  else return .named parent p.last

/-- What stands under a name in a directory. -/
def look (d : Disk) (parent : Place) (name : String) : Except Refusal (Option Node) :=
  if maxNameSize < name.utf8ByteSize then .error .nameTooLong
  else .ok (d.nodes.find? (parent ++ [name]))

/-- The number of the file at a path, if there is a file. -/
def fileAt? (d : Disk) (text : String) : Option Nat :=
  match Path.read text with
  | .error _ => none
  | .ok p =>
    match d.locate p with
    | .ok (.named parent name) =>
      match d.look parent name with
      | .ok (some (.file id)) => if p.slash then none else some id
      | _ => none
    | _ => none

/-- What the file at a path holds, if there is a file. -/
def readFile? (d : Disk) (text : String) : Option Bytes := (d.fileAt? text).map d.content

/-- Whether a path denotes anything, as far as that can be told. -/
def exists? (d : Disk) (text : String) : Except Refusal Bool := do
  let p ← Path.read text
  match ← d.locate p with
  | .here _ => return true
  | .named parent name =>
    match ← d.look parent name with
    | none => return false
    | some .directory => return true
    | some (.file _) => return !p.slash

/-- Whether a path is known to denote something. -/
def occupied (d : Disk) (text : String) : Bool := (d.exists? text).toOption.getD false

/-! ## Arranging -/

/-- The same files at other places. -/
def arranged (d : Disk) (nodes : Dict Place Node)
    (h : ∀ place id, nodes.find? place = some (.file id) →
      ∃ source, d.nodes.find? source = some (.file id)) : Disk :=
  ⟨nodes, d.contents, fun place id hp => (h place id hp).elim (fun source => d.numbered source id)⟩

/-- The disk with a directory at a place. -/
def withDirectory (d : Disk) (place : Place) : Disk :=
  d.arranged (d.nodes.insert place .directory) (by
    intro other id h
    rw [Dict.find?_insert] at h
    split at h
    · cases h
    · exact ⟨other, h⟩)

/-- The disk with nothing at a place. -/
def without (d : Disk) (place : Place) : Disk :=
  d.arranged (d.nodes.erase place) (by
    intro other id h
    rw [Dict.find?_erase] at h
    split at h
    · cases h
    · exact ⟨other, h⟩)

/-- The disk with what stands at `source` moved to `target`, in the place of what is there. -/
def moveNode (d : Disk) (source target : Place) : Disk :=
  match hs : d.nodes.find? source with
  | none => d
  | some node =>
    d.arranged ((d.nodes.erase source).insert target node) (by
      intro other id h
      rw [Dict.find?_insert, Dict.find?_erase] at h
      split at h
      · exact ⟨source, hs.trans h⟩
      · split at h
        · cases h
        · exact ⟨other, h⟩)

/-- A place, with the beginning `source` replaced by `target`. -/
def rebased (source target place : Place) : Place :=
  if source.isPrefixOf place then target ++ place.drop source.length else place

/-- The disk with everything at and below `source` moved to `target`, where nothing is yet. -/
def moveTree (d : Disk) (source target : Place) : Disk :=
  d.arranged (Dict.ofList (d.nodes.entries.map (fun e => (rebased source target e.1, e.2)))) (by
    intro other id h
    obtain ⟨⟨source, node⟩, he, heq⟩ := List.mem_map.1 (Dict.mem_of_find?_ofList h)
    obtain rfl : node = .file id := congrArg Prod.snd heq
    exact ⟨source, Dict.mem_entries_iff.1 he⟩)

/-- The disk with a new empty file at a place. -/
def create (d : Disk) (place : Place) : Disk where
  nodes := d.nodes.insert place (.file d.contents.length)
  contents := d.contents ++ [[]]
  numbered := by
    intro other id h
    rw [Dict.find?_insert] at h
    split at h
    · cases h
      simp
    · have := d.numbered other id h
      simp
      omega

/-! ## Opening and writing -/

/-- The number of the file at a path, which is made if there is none. -/
def openFile (d : Disk) (text : String) : Except Refusal (Nat × Disk) := do
  let p ← Path.read text
  match ← d.locate p with
  | .here _ => throw .isDirectory
  | .named parent name =>
    if p.slash then throw .isDirectory
    else
      match ← d.look parent name with
      | some .directory => throw .isDirectory
      | some (.file id) => return (id, d)
      | none => return (d.contents.length, d.create (parent ++ [name]))

/-- Replace what a file holds. -/
def replace (d : Disk) (id : Nat) (bs : Bytes) : Disk :=
  ⟨d.nodes, d.contents.set id bs, by simpa using d.numbered⟩

/-- Add to the end of what a file holds. -/
def append (d : Disk) (id : Nat) (bs : Bytes) : Disk := d.replace id (d.content id ++ bs)

/-- Write the whole file at a path, new or not. -/
def put (d : Disk) (text : String) (bs : Bytes) : Except Refusal Disk := do
  let (id, d) ← d.openFile text
  return d.replace id bs

/-! ## Changing places -/

/-- Make a directory. -/
def makeDirectory (d : Disk) (text : String) : Except Refusal Disk := do
  let p ← Path.read text
  match ← d.locate p with
  | .here _ => throw .alreadyExists
  | .named parent name =>
    match ← d.look parent name with
    | some _ => throw .alreadyExists
    | none => return d.withDirectory (parent ++ [name])

/-- Remove a file from its place. -/
def remove (d : Disk) (text : String) : Except Refusal Disk := do
  let p ← Path.read text
  match ← d.locate p with
  | .here _ => throw .isDirectory
  | .named parent name =>
    match ← d.look parent name with
    | none => throw .notFound
    | some .directory => throw .isDirectory
    | some (.file _) =>
      if p.slash then throw .notDirectory
      else return d.without (parent ++ [name])

/-- Whether a directory holds nothing. -/
def vacant (d : Disk) (place : Place) : Bool :=
  d.nodes.entries.all (fun e => !(place.isPrefixOf e.1 && e.1 != place))

/-- Move what stands at one path to another. A file takes the place of a file there, and a
directory that of an empty directory. -/
def rename (d : Disk) (source target : String) : Except Refusal Disk := do
  let p ← Path.read source
  let q ← Path.read target
  match ← d.locate p, ← d.locate q with
  | .named parent name, .named newParent newName =>
    let old := parent ++ [name]
    let new := newParent ++ [newName]
    match ← d.look parent name with
    | none => throw .notFound
    | some (.file _) =>
      let there ← d.look newParent newName
      if p.slash || q.slash then throw .notDirectory
      else if there = some .directory then throw .isDirectory
      else return d.moveNode old new
    | some .directory =>
      let there ← d.look newParent newName
      if old = new then return d
      else if old.isPrefixOf new then throw .intoItself
      else if new.isPrefixOf old then throw .directoryNotEmpty
      else
        match there with
        | some (.file _) => throw .notDirectory
        | some .directory =>
          if d.vacant new then return (d.without new).moveTree old new
          else throw .directoryNotEmpty
        | none => return d.moveTree old new
  | _, _ => throw .busy

end Disk

end EventPipeline.Storage
