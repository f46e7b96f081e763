import EventPipeline.Consumer.Basic
/-!
# What the coordinator does

The coordinator looks for acknowledgments of the sink, then for its error, then
for errors of the broker, then for shutdown. It marks every acknowledgment it
finds. The sink's error makes it close the consumer and stop, shutdown makes it
stop; before it stops it marks what is still in the channel. See the
specification, 4.3, on the coordinator.
-/
namespace EventPipeline.Consumer

variable {ω : Type}

namespace State

/-- Mark an acknowledgment. -/
def mark (c : Setup ω) (s : State ω) (a : Ack) : State ω :=
  let attempts := a.mark c.refuses
  { s with
    marks := s.marks.countAll attempts
    log := s.log ++ .ackMarked a :: attempts.map .marked }

/-- Put the coordinator into its place. -/
def setCoordinator (s : State ω) (k : Coordinator) : State ω := { s with coordinator := some k }

/-- Look for an acknowledgment. -/
def pollAcks (c : Setup ω) (s : State ω) (k : Coordinator) : State ω :=
  if !k.acksOpen then s.setCoordinator { k with poll := .sinkError }
  else
    match s.sink.takeAck with
    | some (a, sink) => ({ s with sink := sink }.mark c a).setCoordinator { k with poll := .acks }
    | none =>
      if s.sink.stopped then s.setCoordinator { k with poll := .acks, acksOpen := false }
      else s.setCoordinator { k with poll := .sinkError }

/-- Look for the sink's error. -/
def pollSinkError (s : State ω) (k : Coordinator) : State ω :=
  if !k.sinkErrorOpen then s.setCoordinator { k with poll := .brokerErrors }
  else
    match s.sink.takeError with
    | some (e, sink) =>
      { s with
        sink := sink
        failure := some e
        tasks := s.tasks ++ [Task.closeAfterFailure .entering] }.setCoordinator
        { k with poll := .draining }
    | none =>
      if s.sink.stopped then s.setCoordinator { k with poll := .acks, sinkErrorOpen := false }
      else s.setCoordinator { k with poll := .brokerErrors }

/-- Look for an error of the broker. -/
def pollBrokerErrors (s : State ω) (k : Coordinator) : State ω :=
  if k.brokerErrorsOpen && s.brokerErrors ≠ 0 then
    { s with
      brokerErrors := s.brokerErrors - 1
      brokerErrorCount := s.brokerErrorCount + 1 }.setCoordinator { k with poll := .acks }
  else s.setCoordinator { k with poll := .shutdown }

/-- Whether there is anything for a resting coordinator to find. -/
def stirs (s : State ω) (k : Coordinator) : Bool :=
  (k.acksOpen && (s.sink.ack.isSome || s.sink.stopped)) ||
    (k.sinkErrorOpen && (s.sink.error.isSome || s.sink.stopped)) ||
    (k.brokerErrorsOpen && s.brokerErrors ≠ 0) || s.shutdown

/-- Mark what is still in the channel, and then stop. -/
def drain (c : Setup ω) (s : State ω) (k : Coordinator) : State ω :=
  match s.sink.takeAck with
  | some (a, sink) => ({ s with sink := sink }.mark c a).setCoordinator k
  | none =>
    { s with sink := s.sink.muteAcks.muteErrors }.setCoordinator { k with poll := .stopped }

/-- A step of the coordinator. -/
def coordinate (c : Setup ω) (s : State ω) : Option (State ω) :=
  match s.coordinator with
  | none => none
  | some k =>
    match k.poll with
    | .acks => some (s.pollAcks c k)
    | .sinkError => some (s.pollSinkError k)
    | .brokerErrors => some (s.pollBrokerErrors k)
    | .shutdown =>
      some (s.setCoordinator { k with poll := if s.shutdown then .draining else .resting })
    | .resting => if s.stirs k then some (s.setCoordinator { k with poll := .acks }) else none
    | .draining => some (s.drain c k)
    | .stopped => none

/-- Whether the coordinator has stopped. -/
def coordinatorStopped (s : State ω) : Bool := s.coordinator.all (fun k => k.poll = .stopped)

end State

end EventPipeline.Consumer
