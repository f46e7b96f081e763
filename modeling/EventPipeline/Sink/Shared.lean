import EventPipeline.Sink.Step
/-!
# A sink that is shared

Any number of senders and of calls of `close` use a sink together, and somebody
receives its acknowledgments. A sender has one message at a time on its way. That
the sink has stopped can be waited for once, through its handle, which is kept
behind a lock: the first call of `close` that gets the lock takes the handle, and
holds the lock for as long as it waits. Every other call finds no handle and
returns. Who moves next is not fixed. See the specification, 4.1, on closing.
-/
namespace EventPipeline.Sink

variable {ω : Type}

/-- A sender: the message that waits for room in the queue, and what became of those before. -/
structure Sender where
  sending : Option Message := none
  sent : List Message := []
  refused : List Message := []
deriving DecidableEq

/-- What a call of `close` is at, once it has asked the sink to stop. -/
inductive Closer
  | locking | joining | returned
deriving DecidableEq

/-- A sink with its senders, its calls of `close` and the acknowledgments received. -/
structure Shared (ω : Type) where
  sink : State ω
  senders : List Sender := []
  closers : List Closer := []
  locked : Bool := false
  handle : Bool := true
  received : List Ack := []

namespace Shared

/-- Somebody's move. Senders and calls of `close` are named by their numbers. -/
inductive Action
  | take | windUp | work
  | input
  | callSend (i : Nat) (m : Message)
  | send (i : Nat)
  | giveUp (i : Nat)
  | callClose
  | close (i : Nat)
  | receive
  | takeError | muteErrors
deriving DecidableEq

/-- Get the message that a sender has on its way into the queue, or see that the input is closed.
As long as the queue is full, neither is possible. -/
def send (c : Setup ω) (sink : State ω) (x : Sender) : Option (Sender × State ω) :=
  x.sending.bind (fun m =>
    if sink.inputOpen then
      (sink.offer c m).map (fun sink => ({ x with sending := none, sent := x.sent ++ [m] }, sink))
    else some ({ x with sending := none, refused := x.refused ++ [m] }, sink))

/-- A step of a call of `close`. -/
def close (s : Shared ω) : Closer → Option (Closer × Shared ω)
  | .locking =>
    if s.locked then none
    else if s.handle then some (.joining, { s with locked := true, handle := false })
    else some (.returned, s)
  | .joining => if s.sink.stopped then some (.returned, { s with locked := false }) else none
  | .returned => none

/-- The sink and its users after a move, if the move is possible. -/
def step (c : Setup ω) (s : Shared ω) : Action → Option (Shared ω)
  | .take => (s.sink.take c).map ({ s with sink := · })
  | .windUp => (s.sink.windUp c).map ({ s with sink := · })
  | .work => (s.sink.work c).map ({ s with sink := · })
  | .input => some { s with senders := s.senders ++ [{}] }
  | .callSend i m =>
    s.senders[i]?.bind (fun x =>
      if x.sending.isSome then none
      else some { s with senders := s.senders.set i { x with sending := some m } })
  | .send i =>
    s.senders[i]?.bind (fun x =>
      (send c s.sink x).map (fun r => { s with sink := r.2, senders := s.senders.set i r.1 }))
  | .giveUp i =>
    s.senders[i]?.map (fun x => { s with senders := s.senders.set i { x with sending := none } })
  | .callClose => some { s with sink := s.sink.askStop, closers := s.closers ++ [.locking] }
  | .close i =>
    s.closers[i]?.bind (fun k =>
      (s.close k).map (fun r => { r.2 with closers := r.2.closers.set i r.1 }))
  | .receive =>
    s.sink.takeAck.map (fun r => { s with sink := r.2, received := s.received ++ [r.1] })
  | .takeError => s.sink.takeError.map (fun r => { s with sink := r.2 })
  | .muteErrors => some { s with sink := s.sink.muteErrors }

/-- What a sink and its users come to. -/
inductive Reachable (c : Setup ω) (writer : ω) : Shared ω → Prop
  | initial : Reachable c writer { sink := .initial writer }
  | step {s t : Shared ω} {a : Action} : Reachable c writer s → s.step c a = some t →
      Reachable c writer t

/-- The moves of everybody but the senders and those who call `close`. -/
def ownActions (s : Shared ω) : List Action :=
  [.work, .take, .windUp, .receive] ++ (List.range s.closers.length).map .close

end Shared

end EventPipeline.Sink
