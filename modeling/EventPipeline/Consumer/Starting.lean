import EventPipeline.Consumer.Closing
/-!
# What a call of `start` does

The first call starts the coordinator and runs one session of the group after the
other until shutdown. A session that fails makes it close the consumer; if leaving
the group fails then, that is the error returned. A call that got that far returns
once the consumer is closed, with the error of the session or of the sink. See the
specification, 4.3 and 7.
-/
namespace EventPipeline.Consumer

variable {ω : Type}

namespace State

/-- Begin a session of the group. -/
def beginSession (s : State ω) : Starting × State ω :=
  let session := s.sessions + 1
  let s := { s with sessions := session }.record (.sessionBegun session)
  match s.plans with
  | [] => (.dispatching session [] false, s)
  | .breakOff :: rest => (.brokenOff, { s with plans := rest })
  | .fail e :: rest => (.closing e .entering, { s with plans := rest })
  | .serve claims :: rest => (.dispatching session claims (!rest.isEmpty), { s with plans := rest })
  | .free :: rest => (.inSession, { s with plans := rest, free := true })

/-- Let no more messages come to the claims of a session. -/
def release (s : State ω) (session : Nat) : State ω :=
  { s with
    claims := s.claims.map (fun c => if c.session = session then { c with fed := false } else c) }

/-- What `start` returns, given how the sessions ended and whether the sink failed. -/
def outcome (failure : Option Sink.SinkError) (result : Option GroupError) :
    Option ConsumerError :=
  match failure, result with
  | some e, none => some (.sink e)
  | _, some e => some (.group e)
  | none, none => none

/-- A step of a call of `start`. -/
def start (c : Setup ω) (s : State ω) : Starting → Option (Starting × State ω)
  | .entering =>
    if s.lifecycle = .created then some (.takingReceivers, s.become .running)
    else some (.returned (some .alreadyStarted), s)
  | .takingReceivers =>
    if s.receiversHeld then
      some (.spawning s.brokerErrorsHeld,
        { s with receiversHeld := false, brokerErrorsHeld := false })
    else some (.returned (some .alreadyStarted), s)
  | .spawning brokerErrors =>
    some (.keepingHandle, s.setCoordinator ⟨.acks, true, true, brokerErrors⟩)
  | .keepingHandle => some (.checking, { s with handle := .kept })
  | .checking => some (if s.shutdown then .waiting none else .consuming, s)
  | .consuming => some s.beginSession
  | .dispatching session [] ends =>
    some (if ends then .releasing session else .awaitingShutdown session, s)
  | .dispatching session ((key, waiting) :: rest) ends =>
    some (.dispatching session rest ends,
      { s with claims := s.claims ++ [⟨session, key, waiting, true, .receiving⟩] })
  | .awaitingShutdown session => if s.shutdown then some (.releasing session, s) else none
  | .releasing session => some (.joiningClaims session, s.release session)
  | .joiningClaims session => if s.finished (· = session) then some (.checking, s) else none
  | .closing e (.returned none) => some (.waiting (some e), s)
  | .closing _ (.returned (some g)) => some (.returned (some (.group g)), s)
  | .closing e stage => (s.close c stage).map (fun r => (.closing e r.1, r.2))
  | .waiting result => if s.lifecycle = .closed then some (.collecting result, s) else none
  | .collecting result =>
    some (.returned (outcome s.failure result), { s with failure := none })
  | .inSession | .brokenOff | .returned _ => none

end State

end EventPipeline.Consumer
