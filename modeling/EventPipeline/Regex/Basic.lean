import EventPipeline.Bytes
import EventPipeline.Regex.Token
/-!
# Regular expressions

Which texts are extended regular expressions. Something has to stand in front of
a repetition, every group is closed, and a reference is to a group that is
complete and not in another alternative. A closing parenthesis without an opening
one is a character. Every byte of a text counts as a character. The client of the
broker takes a topic with `^` in front for such an expression and refuses to
subscribe if it is none, which `Settings.subscriptionRefusal?` has to tell.
Nothing is proved of it.
-/
namespace EventPipeline.Regex

/-- A group that is open, or the whole: the groups that are complete where it begins, and those
completed in its earlier alternatives. -/
structure Level where
  group : Nat
  before : List Nat
  elsewhere : List Nat
deriving DecidableEq

/-- How far the tokens of an expression have been read: the groups opened so far and those that are
complete, the open groups, and whether a repetition may follow. -/
structure Progress where
  opened : Nat
  complete : List Nat
  level : Level
  outer : List Level
  repeatable : Bool
deriving DecidableEq

namespace Progress

/-- Nothing has been read. -/
def initial : Progress := ⟨0, [], ⟨0, [], []⟩, [], false⟩

/-- Go on by a token, if it may follow. -/
def step (p : Progress) : Token → Option Progress
  | .atom => some { p with repeatable := true }
  | .anchor => some { p with repeatable := false }
  | .repetition => if p.repeatable then some p else none
  | .reference group => if group ∈ p.complete then some { p with repeatable := true } else none
  | .alternation =>
    some { p with
      complete := p.level.before
      level := { p.level with elsewhere := p.level.elsewhere ++ p.complete }
      repeatable := false }
  | .opening =>
    some { p with
      opened := p.opened + 1
      level := ⟨p.opened + 1, p.complete, []⟩
      outer := p.level :: p.outer
      repeatable := false }
  | .closing =>
    match p.outer with
    | [] => some { p with repeatable := true }
    | level :: outer =>
      some { p with
        complete := p.level.group :: (p.level.elsewhere ++ p.complete)
        level := level
        outer := outer
        repeatable := true }

/-- Go on by some tokens. -/
def run (p : Progress) : List Token → Option Progress
  | [] => some p
  | t :: ts => (p.step t).bind (fun p => p.run ts)

end Progress

/-- Whether some tokens make up an expression. -/
def complete (ts : List Token) : Bool :=
  match Progress.initial.run ts with
  | some p => p.outer = []
  | none => false

/-- Whether a text is a regular expression. -/
def isRegex (s : String) : Bool :=
  let cs := (Bytes.ofText s).map (fun b => Char.ofNat b.toNat)
  match tokens? cs.length cs with
  | some ts => complete ts
  | none => false

end EventPipeline.Regex
