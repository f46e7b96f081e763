import EventPipeline.Text.Split
/-!
# Paths

A path names a file or directory by the names to walk through from the working
directory. `.` stays where it is and `..` goes back up; a slash at the end asks
for a directory.
-/
namespace EventPipeline.Storage

/-- Why an operation on files is refused. -/
inductive Refusal
  | notFound | isDirectory | notDirectory | alreadyExists | directoryNotEmpty | intoItself
  | busy | nameTooLong | nulInName
deriving DecidableEq

/-- The wording of a refusal. -/
def Refusal.message : Refusal → String
  | .notFound => "No such file or directory (os error 2)"
  | .isDirectory => "Is a directory (os error 21)"
  | .notDirectory => "Not a directory (os error 20)"
  | .alreadyExists => "File exists (os error 17)"
  | .directoryNotEmpty => "Directory not empty (os error 39)"
  | .intoItself => "Invalid argument (os error 22)"
  | .busy => "Device or resource busy (os error 16)"
  | .nameTooLong => "File name too long (os error 36)"
  | .nulInName => "file name contained an unexpected NUL byte"

/-- A path taken apart: the names before the last, the last, and whether a slash follows it. -/
structure Path where
  parents : List String
  last : String
  slash : Bool
deriving DecidableEq

/-- The most bytes of a name in a directory. -/
def maxNameSize : Nat := 255

/-- The most bytes of a path. -/
def maxPathSize : Nat := 4095

/-- The path written in a text. -/
def Path.read (text : String) : Except Refusal Path :=
  if '\x00' ∈ text.toList then .error .nulInName
  else if text = "" then .error .notFound
  else if maxPathSize < text.utf8ByteSize then .error .nameTooLong
  else
    let names := ((Text.split '/' text.toList).filter (fun cs => !cs.isEmpty)).map String.ofList
    .ok ⟨names.dropLast, names.getLastD ".", text.toList.getLast? = some '/'⟩

end EventPipeline.Storage
