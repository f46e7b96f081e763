import EventPipeline.Sink.Step
/-!
# A sink among others

A sink together with those who use it: senders offer it messages, calls of `close`
ask it to stop and wait until it has, and somebody takes its acknowledgments and
its error. Who moves next is not fixed: a run is any sequence of actions that are
possible one after the other (`Reachable`). `settle` follows one of the runs in
which only the sink and the calls of `close` move, to its end. See the
specification, 4.1 and 5.
-/
namespace EventPipeline.Sink

variable {ω : Type}

/-- A sink and, for each call of `close`, whether it has returned. -/
structure System (ω : Type) where
  sink : State ω
  closes : List Bool := []

/-- Somebody's move. -/
inductive Action
  | take | windUp | work
  | returnClose (call : Nat)
  | offer (m : Message)
  | close
  | takeAck | takeError
  | muteAcks | muteErrors
  | releaseInput
deriving DecidableEq

namespace System

/-- The system after a move, if the move is possible. -/
def step (c : Setup ω) (s : System ω) : Action → Option (System ω)
  | .take => (s.sink.take c).map ({ s with sink := · })
  | .windUp => (s.sink.windUp c).map ({ s with sink := · })
  | .work => (s.sink.work c).map ({ s with sink := · })
  | .returnClose i =>
    if s.closes[i]? = some false ∧ s.sink.stopped then some { s with closes := s.closes.set i true }
    else none
  | .offer m => (s.sink.offer c m).map ({ s with sink := · })
  | .close => some { s with sink := s.sink.askStop, closes := s.closes ++ [false] }
  | .takeAck => s.sink.takeAck.map (fun r => { s with sink := r.2 })
  | .takeError => s.sink.takeError.map (fun r => { s with sink := r.2 })
  | .muteAcks => some { s with sink := s.sink.muteAcks }
  | .muteErrors => some { s with sink := s.sink.muteErrors }
  | .releaseInput => some { s with sink := s.sink.releaseInput }

/-- The systems that come about. -/
inductive Reachable (c : Setup ω) (writer : ω) : System ω → Prop
  | initial : Reachable c writer { sink := .initial writer }
  | step {s t : System ω} {a : Action} : Reachable c writer s → s.step c a = some t →
      Reachable c writer t

/-- The moves of the sink and of the calls of `close`. -/
def ownActions (s : System ω) : List Action :=
  .work :: .take :: .windUp :: (List.range s.closes.length).map .returnClose

/-- Let the sink and the calls of `close` move, at most `limit` times, until none of them can. -/
def settle (c : Setup ω) : Nat → System ω → System ω
  | 0, s => s
  | limit + 1, s =>
    match s.ownActions.findSome? (s.step c) with
    | some t => settle c limit t
    | none => s

/-- What offering a message at once comes to. -/
inductive Offered
  | sent | full | closed
deriving DecidableEq

/-- Offer a message, without waiting for room. -/
def tryOffer (c : Setup ω) (s : System ω) (m : Message) : Offered × System ω :=
  match s.step c (.offer m) with
  | some t => (.sent, t)
  | none => (if s.sink.inputOpen then .full else .closed, s)

end System

end EventPipeline.Sink
