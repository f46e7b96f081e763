import EventPipeline.Dict
import EventPipeline.Text.Natural
/-!
# Environments

Settings are read from named variables. A variable that is not set has a default;
one that is set has to be of the right form, and the first that is not is the one
reported. See the specification, 12.
-/
namespace EventPipeline.Settings

/-- The variables that are set. -/
abbrev Environment := Dict String String

/-- A variable whose text is not of the right form. -/
structure Unreadable where
  name : String
deriving DecidableEq

/-- The wording of an unreadable variable. -/
def Unreadable.message (e : Unreadable) : String :=
  "Failed to parse environment variable " ++ e.name

namespace Environment

/-- The text of a variable. -/
def text (env : Environment) (name default : String) : String := (env.find? name).getD default

/-- The value of a variable whose text `read?` understands. -/
def parsed {α : Type} (env : Environment) (read? : String → Option α) (name default : String) :
    Except Unreadable α :=
  match read? (env.text name default) with
  | some a => .ok a
  | none => .error ⟨name⟩

end Environment

/-- A truth value is written in one way only. -/
def flag? (s : String) : Option Bool :=
  if s = "true" then some true else if s = "false" then some false else none

/-- A natural number below `size`. -/
def number? (size : Nat) (s : String) : Option Nat := Text.natural? size s.toList

end EventPipeline.Settings
