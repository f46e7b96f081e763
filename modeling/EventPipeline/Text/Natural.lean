/-!
# Natural numbers in settings

A number is written in ASCII digits, with an optional `+` in front and nothing
else around it, and has to fit the setting it is for.
-/
namespace EventPipeline.Text

/-- The value of an ASCII digit. -/
def digit? (c : Char) : Option Nat :=
  if '0' ≤ c ∧ c ≤ '9' then some (c.toNat - '0'.toNat) else none

/-- The number written by the digits `cs` after those that make `acc`. -/
def readDigits (acc : Nat) : List Char → Option Nat
  | [] => some acc
  | c :: rest => (digit? c).bind (fun d => readDigits (10 * acc + d) rest)

/-- The number written by `cs`, if `cs` is one and it is below `size`. -/
def natural? (size : Nat) (cs : List Char) : Option Nat :=
  let digits := match cs with
    | '+' :: rest => rest
    | _ => cs
  if digits = [] then none
  else (readDigits 0 digits).filter (fun n => n < size)

end EventPipeline.Text
