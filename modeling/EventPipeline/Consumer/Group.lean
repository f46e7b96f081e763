import EventPipeline.Consumer.Claim
import EventPipeline.Consumer.Starting
/-!
# What a free group does

From its first free session on a group keeps the means to claim partitions. It may
claim any partition for any session, feed a claim any message or none any more,
drop a claim, and end its session with or without an error. A group takes notice of
shutdown; it never brings it about. See the specification, 4.8, on the contract of
a group.
-/
namespace EventPipeline.Consumer

variable {ω : Type}

/-- A move of a free group. Claims and calls of `start` are named by their numbers. -/
inductive GroupMove
  | claim (session : Nat) (key : Key)
  | feed (i : Nat) (d : Delivery)
  | cutOff (i : Nat)
  | drop (i : Nat)
  | endSession (i : Nat) (result : Option GroupError)
  | breakOff (i : Nat)
deriving DecidableEq

namespace State

/-- End the session that a call of `start` is in. -/
def leaveSession (s : State ω) (i : Nat) (stage : Starting) : Option (State ω) :=
  if s.tasks[i]? = some (.start .inSession) then
    some { s with tasks := s.tasks.set i (.start stage) }
  else none

/-- A move of the group, if it is free to make one. -/
def groupMove (s : State ω) (m : GroupMove) : Option (State ω) :=
  if !s.free then none
  else
    match m with
    | .claim session key =>
      some { s with claims := s.claims ++ [⟨session, key, [], true, .receiving⟩] }
    | .feed i d =>
      s.claims[i]?.bind (fun claim =>
        if claim.fed then some (s.setClaim i { claim with waiting := claim.waiting ++ [d] })
        else none)
    | .cutOff i => s.claims[i]?.map (fun claim => s.setClaim i { claim with fed := false })
    | .drop i => s.claims[i]?.bind (s.claimDrop i)
    | .endSession i none => s.leaveSession i .checking
    | .endSession i (some e) => s.leaveSession i (.closing e .entering)
    | .breakOff i => s.leaveSession i .brokenOff

end State

end EventPipeline.Consumer
