import EventPipeline.Ack.Basic
import EventPipeline.Event.Basic
import EventPipeline.Marshaler
import EventPipeline.Metrics.Basic
import EventPipeline.Sink.Options
import EventPipeline.Text.Quoted
import EventPipeline.Writer.Basic
/-!
# Sinks

A sink takes messages from a bounded queue, turns each into a record, and gathers
records in a buffer until the next would not fit. Then it writes and flushes the
buffer and sends on one acknowledgment for all records in it. Here is what a sink
consists of; what it does is in `EventPipeline.Sink.Step`. See the specification,
4.1.
-/
namespace EventPipeline.Sink

/-- A message on its way to the output. -/
structure Message where
  topic : String
  event : Event
  ack : Ack
deriving DecidableEq

/-- What ends a sink. The task that flushes fails when the writer panics in it. -/
inductive SinkError
  | marshal (topic : String) (cause : MarshalError)
  | write (reason : String)
  | flushTask (panic : String)
deriving DecidableEq

/-- The wording of a sink error. The task that failed is not named by its number. -/
def SinkError.message : SinkError → String
  | .marshal topic cause => "failed to marshal event from " ++ topic ++ ": " ++ cause.message
  | .write reason => "failed to write to target: " ++ reason
  | .flushTask panic =>
    "flush task failed: task panicked with message " ++ Text.quoted panic

/-- The reason given when a writer takes nothing of what it is offered. -/
def nothingTaken : String := "failed to write whole buffer"

/-- The message of the panic when a writer says that it took more than it was offered. -/
def overrun (count offered : Nat) : String :=
  "range start index " ++ Decimal.nat count ++ " out of range for slice of length " ++
    Decimal.nat offered

/-- The reason given when there is no writer to hand the buffer to. -/
def writerGone : String := "sink writer is gone"

/-- What a sink is made with: how records are made, given how many were made before, where they
are written, and how much is held back. -/
structure Setup (ω : Type) where
  marshal : Nat → Message → Except MarshalError Bytes
  writer : Writer ω
  options : Options

/-- What is done once the buffer is flushed and acknowledged. -/
inductive Next
  | resume
  | append (record : Bytes) (ack : Ack)
  | stop
deriving DecidableEq

/-- What a sink is at. -/
inductive Phase
  | receiving
  | writing (rest : Bytes) (next : Next)
  | syncing (next : Next)
  | acking (ack : Ack) (next : Next)
  | failing (error : SinkError)
  | reporting (error : SinkError)
  | stopped
deriving DecidableEq

/-- Something that happened to a sink. A call of the writer either took some bytes (`wrote`), or
took none (`tookNone`), or was one to flush. -/
inductive Happening
  | accepted (m : Message)
  | taken (m : Message)
  | marshaled (m : Message) (record : Bytes)
  | wrote (bytes : Bytes)
  | tookNone
  | flushed (succeeded : Bool)
  | emitted (ack : Ack)
  | unheard (ack : Ack)
  | failed (error : SinkError)
deriving DecidableEq

/-- A sink. Acknowledgments and the error wait in channels that hold one each, for as long as
somebody hears them. The writer is handed out with the buffer, and held again once it has taken and
flushed all of it. -/
structure State (ω : Type) where
  writer : ω
  writerHeld : Bool := true
  queue : List Message := []
  inputOpen : Bool := true
  inputHeld : Bool := true
  stopAsked : Bool := false
  draining : Bool := false
  buffer : Bytes := []
  pending : Option Ack := none
  phase : Phase := .receiving
  marshalCalls : Nat := 0
  ack : Option Ack := none
  acksHeard : Bool := true
  error : Option SinkError := none
  errorsHeard : Bool := true
  counts : SinkCounts := {}
  log : List Happening := []

namespace State

variable {ω : Type}

/-- A sink that has done nothing yet. -/
def initial (writer : ω) : State ω := { writer := writer }

/-- Add to the log. -/
def record (s : State ω) (h : Happening) : State ω := { s with log := s.log ++ [h] }

/-- Whether the sink has stopped. -/
def stopped (s : State ω) : Bool := s.phase = .stopped

/-- The bytes taken by the writer, call by call. -/
def writes (s : State ω) : List Bytes :=
  s.log.filterMap (fun
    | .wrote bs => some bs
    | _ => none)

/-- The number of times the writer was asked to flush. -/
def flushCalls (s : State ω) : Nat :=
  s.log.countP (fun
    | .flushed _ => true
    | _ => false)

end State

end EventPipeline.Sink
