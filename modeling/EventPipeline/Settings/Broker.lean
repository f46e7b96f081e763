import EventPipeline.Decimal.Digits
import EventPipeline.Settings.Environment
import EventPipeline.Text.Case
import EventPipeline.Text.Split
/-!
# Broker settings

Where the broker is, how a consumer joins its group there, and the configuration
of the broker client that follows from both. A list of hosts or topics without any
entry gives no configuration. See the specification, 4.8 and 6.
-/
namespace EventPipeline.Settings

/-- Where to start in a partition for which the group has no position. -/
inductive OffsetReset
  | newest | oldest
deriving DecidableEq

namespace OffsetReset

/-- The policy with the given name, in either vocabulary and any letter case. -/
def ofName? (name : String) : Option OffsetReset :=
  let key := String.ofList (Text.lowercase (Text.trim name.toList))
  if key = "newest" ∨ key = "latest" then some .newest
  else if key = "oldest" ∨ key = "earliest" then some .oldest
  else none

/-- The broker client's word for a policy. -/
def clientWord : OffsetReset → String
  | .newest => "latest"
  | .oldest => "earliest"

end OffsetReset

/-- The broker: comma separated hosts, and how to speak to them. -/
structure Broker where
  hosts : String
  tls : Bool
  version : Option String
deriving DecidableEq

/-- The hosts in the order given. -/
def Broker.hostList (b : Broker) : List String := Text.listed b.hosts

/-- Membership in a consumer group. -/
structure Membership where
  group : String
  topics : List String
  offsetReset : OffsetReset
  autoCommitMilliseconds : Nat
  claimCapacity : Nat
deriving DecidableEq

/-- Why there is no configuration of the broker client. -/
inductive InvalidBroker
  | hostsMissing | topicsMissing
deriving DecidableEq

/-- The wording of what is missing. -/
def InvalidBroker.reason : InvalidBroker → String
  | .hostsMissing => "kafka hosts are missing"
  | .topicsMissing => "topics are missing"

/-- The configuration of the broker client: properties by name. -/
abbrev ClientConfig := Dict String String

/-- The configuration of the broker client. Offsets are committed at an interval, but only those
that the pipeline has marked. -/
def clientConfig (b : Broker) (m : Membership) : Except InvalidBroker ClientConfig :=
  if b.hostList = [] then .error .hostsMissing
  else if m.topics = [] then .error .topicsMissing
  else .ok (Dict.ofList (
    [("bootstrap.servers", String.intercalate "," b.hostList),
     ("group.id", m.group),
     ("auto.offset.reset", m.offsetReset.clientWord),
     ("enable.auto.commit", "true"),
     ("auto.commit.interval.ms", Decimal.nat m.autoCommitMilliseconds),
     ("enable.auto.offset.store", "false")] ++
    (match b.version with
     | some v => [("broker.version.fallback", v)]
     | none => []) ++
    if b.tls then
      [("security.protocol", "ssl"), ("enable.ssl.certificate.verification", "false")]
    else []))

/-- The broker described by an environment. -/
def Broker.read (env : Environment) : Except Unreadable Broker := do
  return {
    hosts := env.text "KAFKA_HOSTS" "localhost:9092"
    tls := ← env.parsed flag? "KAFKA_TLS" "false"
    version := env.find? "KAFKA_VERSION" }

/-- The group membership described by an environment. -/
def Membership.read (env : Environment) : Except Unreadable Membership := do
  return {
    group := env.text "KAFKA_CONSUMER_GROUP" "default"
    topics := Text.listed (env.text "KAFKA_CONSUMER_TOPICS" "event-log")
    offsetReset := ← env.parsed OffsetReset.ofName? "KAFKA_CONSUMER_OFFSET_RESET" "newest"
    autoCommitMilliseconds :=
      ← env.parsed (number? UInt32.size) "KAFKA_CONSUMER_AUTO_COMMIT_INTERVAL_MS" "5000"
    claimCapacity := ← env.parsed (number? UInt64.size) "KAFKA_CLAIM_BUFFER_SIZE" "100" }

end EventPipeline.Settings
