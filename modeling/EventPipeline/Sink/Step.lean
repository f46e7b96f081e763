import EventPipeline.Sink.Basic
/-!
# What a sink does

A sink moves in small steps, between which others may move: a message is taken and
turned into a record at once, but every call of the writer and every sending on of
an acknowledgment is a step of its own. A step that is not possible gives nothing.
`Step` also has what others do to a sink: offer it messages, take what it sends,
and ask it to stop. See the specification, 4.1, on the algorithm.
-/
namespace EventPipeline.Sink

variable {ω : Type}

namespace State

/-- Hand the buffer to the writer. -/
def handOut (s : State ω) (next : Next) : State ω :=
  if s.writerHeld then { s with writerHeld := false, phase := .writing s.buffer next }
  else { s with phase := .failing (.write writerGone) }

/-- Put a record into the buffer and its acknowledgment to those pending. A record larger than
the whole buffer is written at once. -/
def store (c : Setup ω) (s : State ω) (bytes : Bytes) (ack : Ack) : State ω :=
  let pending := match s.pending with
    | some a => a.chain ack
    | none => ack
  let s := { s with buffer := s.buffer ++ bytes, pending := some pending }
  if c.options.buffer < s.buffer.length then s.handOut .resume
  else { s with phase := .receiving }

/-- Go on after the buffer is flushed and acknowledged. -/
def proceed (c : Setup ω) (s : State ω) : Next → State ω
  | .resume => { s with phase := .receiving }
  | .append bytes ack => s.store c bytes ack
  | .stop => { s with phase := .stopped }

/-- Send on the pending acknowledgment, if there is one. -/
def emit (c : Setup ω) (s : State ω) (next : Next) : State ω :=
  match s.pending with
  | none => s.proceed c next
  | some a =>
    { s with
      pending := none
      phase := .acking a next
      counts := { s.counts with acksEmitted := s.counts.acksEmitted + 1 } }

/-- Turn a message into a record. The buffer is written first if the record does not fit. -/
def handle (c : Setup ω) (s : State ω) (m : Message) : State ω :=
  let number := s.marshalCalls + 1
  let s := { s with marshalCalls := number }
  match c.marshal number m with
  | .error e => { s with phase := .failing (.marshal m.topic e) }
  | .ok bytes =>
    let s := s.record (.marshaled m bytes)
    if c.options.buffer - s.buffer.length < bytes.length ∧ s.buffer ≠ [] then
      s.handOut (.append bytes m.ack)
    else s.store c bytes m.ack

/-- Offer the writer the rest of the buffer. To say that more was taken than was offered counts
as a panic. -/
def write (c : Setup ω) (s : State ω) (rest : Bytes) (next : Next) : State ω :=
  match c.writer.write s.writer rest with
  | (.panicked message, w) =>
    { s with writer := w, phase := .failing (.flushTask message) }.record .tookNone
  | (.failed reason, w) =>
    { s with writer := w, phase := .failing (.write reason) }.record .tookNone
  | (.interrupted, w) => { s with writer := w }.record .tookNone
  | (.accepted 0, w) =>
    { s with writer := w, phase := .failing (.write nothingTaken) }.record .tookNone
  | (.accepted count, w) =>
    if rest.length < count then
      { s with
        writer := w
        phase := .failing (.flushTask (overrun count rest.length)) }.record .tookNone
    else
      let s := { s with writer := w }.record (.wrote (rest.take count))
      match rest.drop count with
      | [] => { s with phase := .syncing next }
      | rest => { s with phase := .writing rest next }

/-- Ask the writer to flush, and count the flush if it does. -/
def sync (c : Setup ω) (s : State ω) (next : Next) : State ω :=
  match c.writer.flush s.writer with
  | (.panicked message, w) =>
    { s with writer := w, phase := .failing (.flushTask message) }.record (.flushed false)
  | (.failed reason, w) =>
    { s with writer := w, phase := .failing (.write reason) }.record (.flushed false)
  | (.done, w) =>
    let counts :=
      { s.counts with
        flushes := s.counts.flushes + 1
        bytesWritten := s.counts.bytesWritten + s.buffer.length
        flushesTimed := s.counts.flushesTimed + 1 }
    let s := { s with writer := w, writerHeld := true, buffer := [], counts := counts }
    (s.record (.flushed true)).emit c next

/-- Put an acknowledgment into its channel, once there is room. -/
def send (c : Setup ω) (s : State ω) (a : Ack) (next : Next) : Option (State ω) :=
  if !s.acksHeard then some ((s.record (.unheard a)).proceed c next)
  else if s.ack.isSome then none
  else some (({ s with ack := some a }.record (.emitted a)).proceed c next)

/-- Put the error that ended the sink into its channel. -/
def report (s : State ω) (e : SinkError) : State ω :=
  let s := s.record (.failed e)
  { s with phase := .stopped, error := if s.errorsHeard then some e else none }

/-! ## Steps of the sink -/

/-- Take a message from the queue. -/
def take (c : Setup ω) (s : State ω) : Option (State ω) :=
  match s.phase, s.queue with
  | .receiving, m :: rest => some (({ s with queue := rest }.record (.taken m)).handle c m)
  | _, _ => none

/-- See that no more messages are to be waited for: close the input, or, once that is done and
the queue is empty, write out what is left. -/
def windUp (c : Setup ω) (s : State ω) : Option (State ω) :=
  match s.phase with
  | .receiving =>
    if s.draining then
      if s.queue ≠ [] then none
      else if s.buffer ≠ [] then some (s.handOut .stop)
      else some (s.emit c .stop)
    else if s.stopAsked || (!s.inputHeld && s.queue.isEmpty) then
      some { s with draining := true, inputOpen := false }
    else none
  | _ => none

/-- Go on with what the sink is at. -/
def work (c : Setup ω) (s : State ω) : Option (State ω) :=
  match s.phase with
  | .receiving | .stopped => none
  | .writing rest next => some (s.write c rest next)
  | .syncing next => some (s.sync c next)
  | .acking a next => s.send c a next
  | .failing e => some { s with phase := .reporting e, inputOpen := false }
  | .reporting e => some (s.report e)

/-! ## What others do -/

/-- Whether a message can be put into the queue, once there is room. -/
def accepts (c : Setup ω) (s : State ω) : Bool := s.queue.length < c.options.queue

/-- Put a message into the queue. -/
def offer (c : Setup ω) (s : State ω) (m : Message) : Option (State ω) :=
  if s.inputOpen && s.accepts c then some ({ s with queue := s.queue ++ [m] }.record (.accepted m))
  else none

/-- Ask the sink to stop. -/
def askStop (s : State ω) : State ω := { s with stopAsked := true }

/-- Let go of the input: nobody is going to send any more. -/
def releaseInput (s : State ω) : State ω := { s with inputHeld := false }

/-- Take the acknowledgment out of its channel. -/
def takeAck (s : State ω) : Option (Ack × State ω) :=
  s.ack.map (fun a => (a, { s with ack := none }))

/-- Take the error out of its channel. -/
def takeError (s : State ω) : Option (SinkError × State ω) :=
  s.error.map (fun e => (e, { s with error := none }))

/-- Stop hearing acknowledgments. -/
def muteAcks (s : State ω) : State ω := { s with ack := none, acksHeard := false }

/-- Stop hearing errors. -/
def muteErrors (s : State ω) : State ω := { s with error := none, errorsHeard := false }

end State

end EventPipeline.Sink
