import EventPipeline.Consumer.Error
import EventPipeline.Sink.Step
/-!
# Consumers

A consumer joins a group of consumers, which gives it sessions. In a session it
claims partitions; each claim decodes its messages and sends them to the sink. A
coordinator marks what the sink has acknowledged. The first call of `close` takes
all this down again. Here is what a consumer consists of. See the specification,
4.3 and 4.8.
-/
namespace EventPipeline.Consumer

/-- A message as the broker delivers it. -/
structure Delivery where
  key : Key
  offset : Int
  payload : Option Bytes
deriving DecidableEq

/-- What a session of the group is going to be: it breaks off, and the call of `start` with it; or
it fails; or it serves the messages of some partitions; or the group does in it as it likes. A
session that serves ends by itself if another one is planned behind it, and else when the consumer
shuts down. From a free session on the group may claim and feed partitions at any time. -/
inductive Plan
  | breakOff
  | fail (cause : GroupError)
  | serve (claims : List (Key × List Delivery))
  | free
deriving DecidableEq

/-- What a consumer is made with. `refuses` says which marks a session does not take. -/
structure Setup (ω : Type) where
  sink : Sink.Setup ω
  decode : Bytes → Except DecodeError Event
  refuses : Nat → Key → Bool
  closeError : Option GroupError

/-- The life of a consumer. -/
inductive Lifecycle
  | created | running | closing | closed
deriving DecidableEq

/-- What a claim is at. -/
inductive ClaimPhase
  | receiving
  | sending (m : Sink.Message)
  | finished
deriving DecidableEq

/-- A claimed partition: the messages waiting, and whether the session still feeds it. -/
structure Claim where
  session : Nat
  key : Key
  waiting : List Delivery
  fed : Bool
  phase : ClaimPhase
deriving DecidableEq

/-- Where the coordinator looks next. It looks in a fixed order, starts again whenever it found
something, and rests if it found nothing. -/
inductive Poll
  | acks | sinkError | brokerErrors | shutdown | resting | draining | stopped
deriving DecidableEq

/-- The coordinator, and which of its channels are open as far as it knows. -/
structure Coordinator where
  poll : Poll
  acksOpen : Bool
  sinkErrorOpen : Bool
  brokerErrorsOpen : Bool
deriving DecidableEq

/-- Whether the task of the coordinator can be waited for. -/
inductive Handle
  | absent | kept | taken
deriving DecidableEq

/-- What a call of `close` is at. -/
inductive Closing
  | entering
  | waiting
  | stoppingSink | joiningSink | cancelling | awaitingClaims | takingHandle | joiningCoordinator
  | leavingGroup
  | publishing (result : Option GroupError)
  | returned (result : Option GroupError)
deriving DecidableEq

/-- What a call of `start` is at. One that is broken off never returns. -/
inductive Starting
  | entering | takingReceivers
  | spawning (brokerErrors : Bool)
  | keepingHandle
  | checking | consuming
  | dispatching (session : Nat) (claims : List (Key × List Delivery)) (ends : Bool)
  | awaitingShutdown (session : Nat)
  | releasing (session : Nat)
  | joiningClaims (session : Nat)
  | inSession
  | closing (cause : GroupError) (stage : Closing)
  | waiting (result : Option GroupError)
  | collecting (result : Option GroupError)
  | brokenOff
  | returned (result : Option ConsumerError)
deriving DecidableEq

/-- A call that is under way: of `start`, of `close`, or of `close` by the coordinator. -/
inductive Task
  | start (stage : Starting)
  | close (stage : Closing)
  | closeAfterFailure (stage : Closing)
deriving DecidableEq

/-- Something that happened to a consumer. -/
inductive Happening
  | became (l : Lifecycle)
  | sessionBegun (session : Nat)
  | consumed (d : Delivery)
  | undecodable (d : Delivery)
  | abandoned (m : Sink.Message)
  | marked (t : Attempt)
  | ackMarked (ack : Ack)
  | groupClosed
deriving DecidableEq

/-- A consumer. -/
structure State (ω : Type) where
  sink : Sink.State ω
  plans : List Plan
  lifecycle : Lifecycle := .created
  receiversHeld : Bool := true
  brokerErrorsHeld : Bool := true
  brokerErrors : Nat := 0
  shutdown : Bool := false
  claims : List Claim := []
  coordinator : Option Coordinator := none
  handle : Handle := .absent
  failure : Option Sink.SinkError := none
  sessions : Nat := 0
  free : Bool := false
  groupClosed : Nat := 0
  tasks : List Task := []
  intake : IntakeCounts := {}
  brokerErrorCount : Nat := 0
  marks : MarkCounts := {}
  log : List Happening := []

namespace State

variable {ω : Type}

/-- A consumer that has not been started, with the sessions its group is going to give it. -/
def initial (writer : ω) (plans : List Plan) : State ω :=
  { sink := .initial writer, plans := plans }

/-- Add to the log. -/
def record (s : State ω) (h : Happening) : State ω := { s with log := s.log ++ [h] }

/-- Enter another part of the consumer's life. -/
def become (s : State ω) (l : Lifecycle) : State ω := { s with lifecycle := l }.record (.became l)

/-- Every offset that was reported to a session, in order. -/
def attempts (s : State ω) : List Attempt :=
  s.log.filterMap (fun
    | .marked t => some t
    | _ => none)

/-- The metrics of the consumer. -/
def metrics (s : State ω) : Metrics :=
  { intake := s.intake
    brokerErrors := s.brokerErrorCount
    sink := s.sink.counts
    marks := s.marks }

/-- Whether all claims of some sessions are finished. -/
def finished (s : State ω) (sessions : Nat → Bool) : Bool :=
  s.claims.all (fun c => !sessions c.session || c.phase = .finished)

end State

end EventPipeline.Consumer
