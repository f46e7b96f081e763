import EventPipeline.Settings.Broker
import EventPipeline.Sink.Options
/-!
# Settings

All settings of the program, as an environment describes them. Variables are read
in a fixed order, so that of several unreadable ones the first in that order is
reported. See the specification, 6 and 12.
-/
namespace EventPipeline.Settings

/-- What is written, where to, and how much is held back until then. -/
structure Output where
  marshaler : String
  marshalerArgs : String
  target : String
  targetArgs : String
  options : Sink.Options
deriving DecidableEq

/-- The settings of the program. -/
structure Program where
  host : String
  port : Nat
  exportMetrics : Bool
  decoder : String
  broker : Broker
  membership : Membership
  output : Output
deriving DecidableEq

/-- The address at which metrics are served. -/
def Program.address (p : Program) : String := p.host ++ ":" ++ Decimal.nat p.port

/-- The output settings described by an environment. -/
def Output.read (env : Environment) : Except Unreadable Output := do
  return {
    marshaler := env.text "SINK_MARSHALER" "json"
    marshalerArgs := env.text "SINK_MARSHALER_ARGS" ""
    target := env.text "SINK_TARGET" "stdout"
    targetArgs := env.text "SINK_TARGET_ARGS" ""
    options := Sink.Options.of
      (← env.parsed (number? UInt64.size) "SINK_INPUT_BUFFER_SIZE" "100")
      (← env.parsed (number? UInt64.size) "SINK_OUTPUT_BUFFER_SIZE" "4096") }

/-- The settings described by an environment. -/
def Program.read (env : Environment) : Except Unreadable Program := do
  return {
    host := env.text "BIND_HOST" "0.0.0.0"
    port := ← env.parsed (number? UInt16.size) "BIND_PORT" "3310"
    exportMetrics := ← env.parsed flag? "EXPORT_PROMETHEUS" "true"
    decoder := env.text "EVENT_DECODER" "protobuf"
    broker := ← Broker.read env
    membership := ← Membership.read env
    output := ← Output.read env }

end EventPipeline.Settings
