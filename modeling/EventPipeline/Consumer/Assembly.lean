import EventPipeline.Consumer.Basic
import EventPipeline.Settings.Basic
import EventPipeline.Settings.Client
import EventPipeline.Writer.Target
/-!
# Making a consumer from settings

The parts that the settings name are found in a fixed order: the decoder, the
marshaler, the target, and last the client of the broker. The first one that is
missing or refused is the error reported. See the specification, 4.5 and 6.
-/
namespace EventPipeline.Consumer

/-- The parts of a consumer. -/
structure Assembly where
  decoder : Decoder
  marshaler : Marshaler
  target : Storage.Target
  disk : Storage.Disk
  client : Settings.ClientConfig
  topics : List String
  options : Sink.Options

/-- The client of the broker, if it can be made. -/
def makeClient (b : Settings.Broker) (m : Settings.Membership) :
    Except GroupError Settings.ClientConfig :=
  match Settings.clientConfig b m with
  | .error e => .error (.invalidConfig e)
  | .ok config =>
    match Settings.clientRefusal? b m with
    | some reason => .error (.client reason)
    | none => .ok config

namespace Assembly

/-- The parts that some settings name. -/
def ofSettings (d : Storage.Disk) (now : Calendar.Moment) (p : Settings.Program) :
    Except ConsumerError Assembly := do
  let decoder ← (Decoder.ofName? p.decoder).mapError .decode
  let marshaler ← (Marshaler.ofName? p.output.marshaler p.output.marshalerArgs).mapError .marshal
  let (target, disk) ←
    (Storage.Target.ofName? d now p.output.target p.output.targetArgs).mapError .target
  let client ← (makeClient p.broker p.membership).mapError .group
  return ⟨decoder, marshaler, target, disk, client, p.membership.topics, p.output.options⟩

/-- What a consumer of these parts is made with. -/
def setup (a : Assembly) : Setup Writer.Station where
  sink :=
    { marshal := fun _ m => .ok (a.marshaler.record m.event)
      writer := Writer.ofTarget
      options := a.options }
  decode := a.decoder.decode
  refuses := fun _ _ => false
  closeError := none

/-- The sessions of a group whose broker is out of reach: the first breaks off if the client cannot
be told the topics, fails if it refuses them, and else lasts until shutdown without a claim. -/
def unreachablePlans (a : Assembly) : List Plan :=
  if a.topics.any Settings.holdsNul then [.breakOff]
  else
    match Settings.subscriptionRefusal? a.topics with
    | some reason => [.fail (.client reason)]
    | none => [.serve []]

/-- A consumer of these parts, with the sessions its group is going to give it. -/
def consumer (a : Assembly) (now : Calendar.Moment) (plans : List Plan) : State Writer.Station :=
  .initial ⟨a.target, a.disk, [], now⟩ plans

end Assembly

end EventPipeline.Consumer
