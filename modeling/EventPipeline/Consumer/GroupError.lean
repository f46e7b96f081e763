import EventPipeline.Settings.Broker
/-!
# Errors of the consumer group

What keeps a consumer from joining its group, or ends a session of it. See the
specification, 7.
-/
namespace EventPipeline.Consumer

/-- An error of the group. -/
inductive GroupError
  | client (reason : String)
  | unavailable (reason : String)
  | invalidConfig (cause : Settings.InvalidBroker)
deriving DecidableEq

/-- The wording of a group error. -/
def GroupError.message : GroupError → String
  | .client reason => "Kafka error: " ++ reason
  | .unavailable reason => "broker unavailable: " ++ reason
  | .invalidConfig cause => "invalid consumer configuration: " ++ cause.reason

end EventPipeline.Consumer
