import EventPipeline.Consumer.Basic
/-!
# What a claim does

A claim takes its messages one by one, drops those that hold no event, and sends
the others to the sink with an acknowledgment each. It ends when there are no more
messages, when the sink no longer takes any, and at any moment after shutdown. See
the specification, 4.3, on claim handling.
-/
namespace EventPipeline.Consumer

variable {ω : Type}

/-- The event that a delivered message holds. -/
def Setup.event (c : Setup ω) (d : Delivery) : Except DecodeError Event :=
  match d.payload with
  | some payload => c.decode payload
  | none => .error .empty

namespace State

/-- Put a claim into its place. -/
def setClaim (s : State ω) (i : Nat) (claim : Claim) : State ω :=
  { s with claims := s.claims.set i claim }

/-- Take the next message of a claim, or see that there are no more. -/
def claimReceive (c : Setup ω) (s : State ω) (i : Nat) (claim : Claim) : Option (State ω) :=
  match claim.phase, claim.waiting with
  | .receiving, d :: rest =>
    let claim := { claim with waiting := rest }
    let intake := { s.intake with messagesConsumed := s.intake.messagesConsumed + 1 }
    let s := { s with intake := intake }.record (.consumed d)
    match c.event d with
    | .error _ =>
      let intake := { s.intake with decodeErrors := s.intake.decodeErrors + 1 }
      some (({ s with intake := intake }.record (.undecodable d)).setClaim i claim)
    | .ok event =>
      let m : Sink.Message := ⟨d.key.topic, event, Ack.ofMessage claim.session d.key d.offset⟩
      some (s.setClaim i { claim with phase := .sending m })
  | .receiving, [] =>
    if claim.fed then none else some (s.setClaim i { claim with phase := .finished })
  | _, _ => none

/-- Send a message to the sink, or give up because the sink takes no more. -/
def claimSend (c : Setup ω) (s : State ω) (i : Nat) (claim : Claim) : Option (State ω) :=
  match claim.phase with
  | .sending m =>
    if s.sink.inputOpen then
      (s.sink.offer c.sink m).map (fun sink =>
        { s with sink := sink }.setClaim i { claim with phase := .receiving })
    else some ((s.record (.abandoned m)).setClaim i { claim with phase := .finished })
  | _ => none

/-- Give a claim up, and the message it is sending with it. -/
def claimDrop (s : State ω) (i : Nat) (claim : Claim) : Option (State ω) :=
  match claim.phase with
  | .receiving => some (s.setClaim i { claim with phase := .finished })
  | .sending m => some ((s.record (.abandoned m)).setClaim i { claim with phase := .finished })
  | .finished => none

/-- Leave a claim because of shutdown. -/
def claimLeave (s : State ω) (i : Nat) (claim : Claim) : Option (State ω) :=
  if s.shutdown then s.claimDrop i claim else none

end State

end EventPipeline.Consumer
