import EventPipeline.Consumer.Group
/-!
# A consumer at work

The sink, the claims, the coordinator, the group and the calls of `start` and
`close` move independently; who moves next is not fixed. A run is any sequence of
actions that are possible one after the other (`Reachable`). `settle` follows one of
the runs in which nobody calls anything new, and a free group does nothing, to its
end. See the specification, 5.
-/
namespace EventPipeline.Consumer

variable {ω : Type}

/-- Somebody's move. -/
inductive Action
  | sinkTake | sinkWindUp | sinkWork
  | claimReceive (i : Nat) | claimSend (i : Nat) | claimLeave (i : Nat)
  | coordinate
  | advance (i : Nat)
  | group (m : GroupMove)
  | callStart | callClose
  | reportBrokerError
  | takeBrokerErrors
deriving DecidableEq

namespace State

/-- A step of a call that is under way. -/
def advance (c : Setup ω) (s : State ω) (i : Nat) : Task → Option (State ω)
  | .start stage =>
    (s.start c stage).map (fun r => { r.2 with tasks := r.2.tasks.set i (.start r.1) })
  | .close stage =>
    (s.close c stage).map (fun r => { r.2 with tasks := r.2.tasks.set i (.close r.1) })
  | .closeAfterFailure stage =>
    (s.close c stage).map (fun r => { r.2 with tasks := r.2.tasks.set i (.closeAfterFailure r.1) })

/-- The consumer after a move, if the move is possible. -/
def step (c : Setup ω) (s : State ω) : Action → Option (State ω)
  | .sinkTake => (s.sink.take c.sink).map ({ s with sink := · })
  | .sinkWindUp => (s.sink.windUp c.sink).map ({ s with sink := · })
  | .sinkWork => (s.sink.work c.sink).map ({ s with sink := · })
  | .claimReceive i => s.claims[i]?.bind (s.claimReceive c i)
  | .claimSend i => s.claims[i]?.bind (s.claimSend c i)
  | .claimLeave i => s.claims[i]?.bind (s.claimLeave i)
  | .coordinate => s.coordinate c
  | .advance i => s.tasks[i]?.bind (s.advance c i)
  | .group m => s.groupMove m
  | .callStart => some { s with tasks := s.tasks ++ [.start .entering] }
  | .callClose => some { s with tasks := s.tasks ++ [.close .entering] }
  | .reportBrokerError => some { s with brokerErrors := s.brokerErrors + 1 }
  | .takeBrokerErrors => some { s with brokerErrorsHeld := false }

/-- The consumers that come about. -/
inductive Reachable (c : Setup ω) (writer : ω) (plans : List Plan) : State ω → Prop
  | initial : Reachable c writer plans (.initial writer plans)
  | step {s t : State ω} {a : Action} : Reachable c writer plans s → s.step c a = some t →
      Reachable c writer plans t

/-- The moves of everybody but those who call something new. -/
def ownActions (s : State ω) : List Action :=
  [.coordinate, .sinkWork, .sinkTake, .sinkWindUp] ++
    (List.range s.claims.length).flatMap (fun i =>
      [.claimSend i, .claimReceive i, .claimLeave i]) ++
    (List.range s.tasks.length).map .advance

/-- Let everybody move, at most `limit` times, until nobody can. -/
def settle (c : Setup ω) : Nat → State ω → State ω
  | 0, s => s
  | limit + 1, s =>
    match s.ownActions.findSome? (s.step c) with
    | some t => settle c limit t
    | none => s

end State

end EventPipeline.Consumer
