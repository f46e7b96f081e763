import EventPipeline.Calendar.Pattern.Text
import EventPipeline.Storage.Disk
/-!
# Rolling files

A rolling file is appended to until it is too large or too old. Then it is moved
aside, under its path and a suffix that tells the time, and a new file takes its
place. That happens only between two writes, so no write is split over two files.
See the specification, 4.6.
-/
namespace EventPipeline.Storage

/-- An open file with its limits: bytes and seconds, of which zero means no limit. -/
structure RollingFile where
  path : String
  maxSize : Nat
  maxAge : Nat
  suffix : Calendar.Pattern
  file : Nat
  size : Nat
  openedAt : Calendar.Moment
deriving DecidableEq

/-- Why a file is not opened. -/
inductive OpenError
  | refused (cause : Refusal)
  | invalidSuffix (format : String)
deriving DecidableEq

/-- The wording of an open error. -/
def OpenError.message : OpenError → String
  | .refused cause => cause.message
  | .invalidSuffix format => "invalid rotation suffix format: " ++ format

/-- Why a write does not happen: the file cannot be moved or opened, or the suffix has no text. -/
inductive RollError
  | refused (cause : Refusal)
  | unprintableSuffix
deriving DecidableEq

/-- What was opened with the disk it is on. When nothing was, there is no more to be had. -/
def granted {ε α : Type} : Except ε α × Disk → Except ε (α × Disk)
  | (.error e, _) => .error e
  | (.ok a, d) => .ok (a, d)

namespace RollingFile

/-- The suffix where none is given: date and time in fourteen digits. -/
def defaultSuffix : String := "%Y%m%d%H%M%S"

/-- Open a rolling file at a given moment, and say how the disk is then. -/
def tryOpen (d : Disk) (path : String) (maxSize maxAge : Nat) (suffix : Option String)
    (now : Calendar.Moment) : Except OpenError RollingFile × Disk :=
  let format := suffix.getD defaultSuffix
  match Calendar.Pattern.read? format.toList with
  | none | some [] => (.error (.invalidSuffix format), d)
  | some pattern =>
    match d.openFile path with
    | .error e => (.error (.refused e), d)
    | .ok (file, d) =>
      (.ok ⟨path, maxSize, maxAge, pattern, file, (d.content file).length, now⟩, d)

/-- The rolling file opened at a given moment, with the disk it is on. -/
def openAt (d : Disk) (path : String) (maxSize maxAge : Nat) (suffix : Option String)
    (now : Calendar.Moment) : Except OpenError (RollingFile × Disk) :=
  granted (tryOpen d path maxSize maxAge suffix now)

theorem openAt_eq (d : Disk) (path : String) (maxSize maxAge : Nat) (suffix : Option String)
    (now : Calendar.Moment) : openAt d path maxSize maxAge suffix now =
      match Calendar.Pattern.read? (suffix.getD defaultSuffix).toList with
      | none | some [] => .error (.invalidSuffix (suffix.getD defaultSuffix))
      | some pattern =>
        match d.openFile path with
        | .error e => .error (.refused e)
        | .ok (file, d) =>
          .ok (⟨path, maxSize, maxAge, pattern, file, (d.content file).length, now⟩, d) := by
  rw [openAt, tryOpen]
  cases Calendar.Pattern.read? (suffix.getD defaultSuffix).toList with
  | none => rfl
  | some pattern =>
    cases pattern with
    | nil => rfl
    | cons => cases d.openFile path <;> rfl

/-- Whether the file would grow too large. -/
def tooLarge (f : RollingFile) (incoming : Nat) : Bool :=
  0 < f.maxSize && f.maxSize < f.size + incoming

/-- Whether the file is too old. One opened later than `now` is not. -/
def tooOld (f : RollingFile) (now : Calendar.Moment) : Bool :=
  let age := now.nanoseconds - f.openedAt.nanoseconds
  0 < f.maxAge && 0 ≤ age && f.maxAge * 1000000000 ≤ age

/-- Whether the file has to be moved aside first. An empty one never has. -/
def due (f : RollingFile) (incoming : Nat) (now : Calendar.Moment) : Bool :=
  f.size ≠ 0 && (f.tooLarge incoming || f.tooOld now)

/-- A name with a dot and another name behind it. -/
def extended (name extension : String) : String := name ++ "." ++ extension

/-- The names a file may be moved to, the preferred ones first. There is one more of them than
there are places taken. -/
def candidates (d : Disk) (base : String) : List String :=
  base :: (List.range (d.nodes.entries.length + 1)).map (fun n =>
    extended base (Decimal.nat (n + 1)))

/-- The first of the names that is not occupied. -/
def freeName (d : Disk) (base : String) : String :=
  ((candidates d base).find? (fun name => !d.occupied name)).getD base

/-- Move the file aside, and say where to. -/
def moveAside (f : RollingFile) (d : Disk) (now : Calendar.Moment) :
    Except RollError (String × Disk) :=
  match f.suffix.chars? now with
  | none => .error .unprintableSuffix
  | some suffix =>
    let name := freeName d (extended f.path (String.ofList suffix))
    match d.rename f.path name with
    | .error e => .error (.refused e)
    | .ok moved => .ok (name, moved)

/-- Move the file aside and open a new one. -/
def rotate (f : RollingFile) (d : Disk) (now : Calendar.Moment) :
    Except RollError RollingFile × Disk :=
  match f.moveAside d now with
  | .error e => (.error e, d)
  | .ok (_, moved) =>
    match moved.openFile f.path with
    | .error e => (.error (.refused e), moved)
    | .ok (file, d) =>
      (.ok { f with file := file, size := (d.content file).length, openedAt := now }, d)

/-- Append to the open file. -/
def append (f : RollingFile) (d : Disk) (bs : Bytes) : RollingFile × Disk :=
  ({ f with size := f.size + bs.length }, d.append f.file bs)

/-- Write at a given moment, after moving the file aside if that is due. -/
def writeAt (f : RollingFile) (d : Disk) (bs : Bytes) (now : Calendar.Moment) :
    Except RollError RollingFile × Disk :=
  if f.due bs.length now then
    match f.rotate d now with
    | (.error e, d) => (.error e, d)
    | (.ok f, d) => ((.ok (f.append d bs).1), (f.append d bs).2)
  else ((.ok (f.append d bs).1), (f.append d bs).2)

end RollingFile

end EventPipeline.Storage
