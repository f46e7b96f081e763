import EventPipeline.Ack.Basic
import EventPipeline.Decimal.Digits
import EventPipeline.Decimal.Shortest
/-!
# Metrics

Counters of what the pipeline has done, by the part that counts it, and the last
offset marked for each partition. `Metrics.counters` lists the counters under the
names they are published with. See the specification, 11.
-/
namespace EventPipeline

/-- What claims have received. -/
structure IntakeCounts where
  messagesConsumed : Nat := 0
  decodeErrors : Nat := 0
deriving DecidableEq

/-- What the sink has done with its buffer. -/
structure SinkCounts where
  flushes : Nat := 0
  bytesWritten : Nat := 0
  flushesTimed : Nat := 0
  acksEmitted : Nat := 0
deriving DecidableEq

/-- What was marked, and the last offset marked for each key. -/
structure MarkCounts where
  offsetsMarked : Nat := 0
  markErrors : Nat := 0
  lastMarked : Offsets := .empty
deriving DecidableEq

/-- All metrics. -/
structure Metrics where
  intake : IntakeCounts := {}
  brokerErrors : Nat := 0
  sink : SinkCounts := {}
  marks : MarkCounts := {}
deriving DecidableEq

namespace MarkCounts

/-- Count one attempt to mark an offset. -/
def count (m : MarkCounts) (t : Attempt) : MarkCounts :=
  if t.accepted then
    { m with
      offsetsMarked := m.offsetsMarked + 1
      lastMarked := m.lastMarked.insert t.key t.offset }
  else { m with markErrors := m.markErrors + 1 }

/-- Count attempts in order. -/
def countAll (m : MarkCounts) (attempts : List Attempt) : MarkCounts := attempts.foldl count m

end MarkCounts

namespace Metrics

/-- The counters by name. -/
def counters (m : Metrics) : List (String × Nat) :=
  [("log_consumer_messages_consumed_total", m.intake.messagesConsumed),
   ("log_consumer_decode_errors_total", m.intake.decodeErrors),
   ("log_consumer_broker_errors_total", m.brokerErrors),
   ("log_consumer_sink_flushes_total", m.sink.flushes),
   ("log_consumer_sink_bytes_written_total", m.sink.bytesWritten),
   ("log_consumer_sink_acks_emitted_total", m.sink.acksEmitted),
   ("log_consumer_offsets_marked_total", m.marks.offsetsMarked),
   ("log_consumer_mark_errors_total", m.marks.markErrors)]

/-- The name of the count of timed flushes. -/
def flushDurationCount : String := "log_consumer_sink_flush_duration_seconds_count"

/-- The name of the last marked offset. -/
def lastMarkedOffset : String := "log_consumer_last_marked_offset"

/-- An offset as a gauge shows it. Gauges hold numbers of double precision, so the digits are the
fewest that determine one, and zeros stand in the places below them. -/
def gaugeText (offset : Int) : String :=
  let n := offset.natAbs
  let size := ((Decimal.Double.ofNat? n).map Decimal.Double.shortest).getD ⟨n, 0⟩
  String.ofList ((if offset < 0 then ['-'] else []) ++ size.wholeChars)

end Metrics

end EventPipeline
