import EventPipeline.Consumer.GroupError
import EventPipeline.Decoder
import EventPipeline.Sink.Basic
import EventPipeline.Storage.Target
/-!
# Errors of a consumer

What keeps a consumer from being made or started, or brings it to an end. See
the specification, 7.
-/
namespace EventPipeline.Consumer

/-- An error of a consumer. -/
inductive ConsumerError
  | group (cause : GroupError)
  | sink (cause : Sink.SinkError)
  | marshal (cause : MarshalError)
  | target (cause : Storage.TargetError)
  | decode (cause : DecodeError)
  | alreadyStarted
deriving DecidableEq

/-- The wording of a consumer error. -/
def ConsumerError.message : ConsumerError → String
  | .group cause => "consumer group error: " ++ cause.message
  | .sink cause => "sink error: " ++ cause.message
  | .marshal cause => "marshaler error: " ++ cause.message
  | .target cause => "target error: " ++ cause.message
  | .decode cause => "decoder error: " ++ cause.message
  | .alreadyStarted => "consumer already started"

end EventPipeline.Consumer
