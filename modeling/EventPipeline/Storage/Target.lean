import EventPipeline.Storage.Rolling
import EventPipeline.Text.Natural
import EventPipeline.Text.Quoted
/-!
# Targets

Where records go, chosen by name: the standard output, a file that is appended to,
or a rolling file. The arguments of a file are its name and, after colons, its
limits in bytes and seconds and the suffix of the files moved aside. The suffix is
all that follows the third colon. See the specification, 4.5.
-/
namespace EventPipeline.Storage

/-- An open target. -/
inductive Target
  | standardOutput
  | file (id : Nat)
  | rolling (f : RollingFile)
deriving DecidableEq

/-- What is wrong with the arguments of a target. -/
inductive InvalidArgs
  | filenameMissing | sizeMissing | sizeNotNumber | ageNotNumber
deriving DecidableEq

/-- The wording of what is wrong. -/
def InvalidArgs.reason : InvalidArgs → String
  | .filenameMissing => "filename is missing"
  | .sizeMissing => "rolling file needs filename:max_size"
  | .sizeNotNumber => "max size is not a number"
  | .ageNotNumber => "max age is not a number"

/-- Why a target is not opened. -/
inductive TargetError
  | unknownTarget (name : String)
  | invalidArgs (args : String) (cause : InvalidArgs)
  | notOpened (cause : OpenError)
deriving DecidableEq

/-- The wording of a target error. -/
def TargetError.message : TargetError → String
  | .unknownTarget name => "unknown target: " ++ name
  | .invalidArgs args cause =>
    "invalid target arguments " ++ Text.quoted args ++ ": " ++ cause.reason
  | .notOpened cause => "failed to open target: " ++ cause.message

namespace Target

/-- A number among the arguments, with or without blanks around it. -/
def number? (cs : List Char) : Option Nat := Text.natural? UInt64.size (Text.trim cs)

/-- The age limit among the parts behind the size limit. Without one there is no such limit. -/
def age? : List (List Char) → Option Nat
  | [] => some 0
  | age :: _ => number? age

/-- A rolling file as a target, if it was opened. -/
def ofRolling : Except OpenError RollingFile × Disk → Except TargetError Target × Disk
  | (.error e, d) => (.error (.notOpened e), d)
  | (.ok f, d) => (.ok (.rolling f), d)

/-- The rolling file with the given name, and the limits and suffix in `rest`. -/
def openRolling (d : Disk) (now : Calendar.Moment) (args filename : String) (size : List Char)
    (rest : List (List Char)) : Except TargetError Target × Disk :=
  match number? size with
  | none => (.error (.invalidArgs args .sizeNotNumber), d)
  | some maxSize =>
    match age? rest with
    | none => (.error (.invalidArgs args .ageNotNumber), d)
    | some maxAge =>
      ofRolling (RollingFile.tryOpen d filename maxSize maxAge (rest[1]?.map String.ofList) now)

/-- The file described by some arguments. It rolls if there is a limit among them. -/
def openFile (d : Disk) (now : Calendar.Moment) (args : String) :
    Except TargetError Target × Disk :=
  let parts := Text.splitTimes ':' 3 args.toList
  let filename := String.ofList (Text.trim (parts.headD []))
  if filename = "" then (.error (.invalidArgs args .filenameMissing), d)
  else
    match parts.tail with
    | [] =>
      match d.openFile filename with
      | .error e => (.error (.notOpened (.refused e)), d)
      | .ok (id, d) => (.ok (.file id), d)
    | size :: rest => openRolling d now args filename size rest

/-- Whether the part after the first colon is there and is not blank. -/
def hasSize (args : String) : Bool :=
  match (Text.split ':' args.toList)[1]? with
  | none => false
  | some size => Text.trim size ≠ []

/-- Open the target with the given name, and say how the disk is then. -/
def tryOpen (d : Disk) (now : Calendar.Moment) (name args : String) :
    Except TargetError Target × Disk :=
  if name = "stdout" then (.ok .standardOutput, d)
  else if name = "file" then openFile d now args
  else if name = "rollingfile" then
    if hasSize args then openFile d now args else (.error (.invalidArgs args .sizeMissing), d)
  else (.error (.unknownTarget name), d)

/-- The target with the given name, with the disk it is on. -/
def ofName? (d : Disk) (now : Calendar.Moment) (name args : String) :
    Except TargetError (Target × Disk) :=
  granted (tryOpen d now name args)

/-- Write once at a given moment. -/
def writeAt (t : Target) (d : Disk) (bs : Bytes) (now : Calendar.Moment) :
    Except RollError Target × Disk :=
  match t with
  | .standardOutput => (.ok t, d)
  | .file id => (.ok t, d.append id bs)
  | .rolling f =>
    match f.writeAt d bs now with
    | (.error e, d) => (.error e, d)
    | (.ok f, d) => (.ok (.rolling f), d)

/-- Write until nothing is left. A write takes all it is given, so there is at most one. -/
def writeAllAt (t : Target) (d : Disk) (bs : Bytes) (now : Calendar.Moment) :
    Except RollError Target × Disk :=
  if bs = [] then (.ok t, d) else t.writeAt d bs now

end Target

end EventPipeline.Storage
