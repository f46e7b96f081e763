import EventPipeline.Consumer.Coordinator
/-!
# What a call of `close` does

The first call stops the sink and waits for it, cancels the rest, waits for the
claims and the coordinator, leaves the group, and then says that the consumer is
closed. Every other call waits for that. See the specification, 4.3, on closing.
-/
namespace EventPipeline.Consumer

variable {ω : Type}

/-- A step of a call of `close`. -/
def State.close (c : Setup ω) (s : State ω) : Closing → Option (Closing × State ω)
  | .entering =>
    match s.lifecycle with
    | .created | .running => some (.stoppingSink, s.become .closing)
    | .closing | .closed => some (.waiting, s)
  | .waiting => if s.lifecycle = .closed then some (.returned none, s) else none
  | .stoppingSink => some (.joiningSink, { s with sink := s.sink.askStop })
  | .joiningSink => if s.sink.stopped then some (.cancelling, s) else none
  | .cancelling => some (.awaitingClaims, { s with shutdown := true })
  | .awaitingClaims => if s.finished (fun _ => true) then some (.takingHandle, s) else none
  | .takingHandle =>
    if s.handle = .kept then some (.joiningCoordinator, { s with handle := .taken })
    else some (.leavingGroup, s)
  | .joiningCoordinator => if s.coordinatorStopped then some (.leavingGroup, s) else none
  | .leavingGroup =>
    some (.publishing c.closeError,
      { s with groupClosed := s.groupClosed + 1 }.record .groupClosed)
  | .publishing result => some (.returned result, s.become .closed)
  | .returned _ => none

end EventPipeline.Consumer
