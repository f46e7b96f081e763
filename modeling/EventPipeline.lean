import EventPipeline.Ack.Text
import EventPipeline.Consumer.Assembly
import EventPipeline.Consumer.System
import EventPipeline.Metrics.Endpoint
import EventPipeline.Sink.System
import EventPipeline.Writer.Scripted
import EventPipeline.Proofs.Runs
import EventPipeline.Proofs.Sink.History
import EventPipeline.Proofs.Sink.Move
import EventPipeline.Proofs.Sink.Segment
import EventPipeline.Proofs.Sink.Intake
import EventPipeline.Proofs.Sink.Progress
import EventPipeline.Proofs.Sink.Segmentation
import EventPipeline.Proofs.Consumer.Move
import EventPipeline.Proofs.Consumer.Calls
import EventPipeline.Proofs.Consumer.Marking
import EventPipeline.Proofs.Consumer.Turns
import EventPipeline.Proofs.Consumer.Delivery
import EventPipeline.Proofs.Ack.Chain
import EventPipeline.Proofs.Ack.LastMark
import EventPipeline.Proofs.Consumer.Durability
import EventPipeline.Proofs.Storage.Leads
import EventPipeline.Proofs.Storage.FreeName
import EventPipeline.Proofs.Storage.Rotation
import EventPipeline.Proofs.Storage.Session
import EventPipeline.Proofs.Storage.Lossless
import EventPipeline.Proofs.Sink.Failure
import EventPipeline.Proofs.Ack.Coverage
import EventPipeline.Proofs.Consumer.Runs
import EventPipeline.Proofs.Consumer.Passing
import EventPipeline.Proofs.Consumer.Lifecycle
import EventPipeline.Proofs.Consumer.Noticing
import EventPipeline.Proofs.Consumer.Resting
import EventPipeline.Proofs.Consumer.Outcome
import EventPipeline.Proofs.Consumer.Drawn
import EventPipeline.Proofs.Sink.Reliable
import EventPipeline.Proofs.Consumer.Drained
import EventPipeline.Proofs.Consumer.Advance
import EventPipeline.Proofs.Sink.Aftermath
import EventPipeline.Proofs.Csv.Reading
import EventPipeline.Proofs.Json.Reading
import EventPipeline.Proofs.Protobuf.RoundTrip
import EventPipeline.Proofs.Storage.Refusal
import EventPipeline.Proofs.Sink.WholeWrites
import EventPipeline.Proofs.Sink.Rolling
import EventPipeline.Proofs.Sink.Shared
import EventPipeline.Proofs.Consumer.Unblocked
import EventPipeline.Proofs.Ack.Merging
import EventPipeline.Proofs.Ack.BestEffort
import EventPipeline.Proofs.Sink.Filling
import EventPipeline.Proofs.Sink.Settling
import EventPipeline.Proofs.Consumer.Settling
import EventPipeline.Proofs.Consumer.GroupFailure
import EventPipeline.Proofs.Calendar.Pieces
import EventPipeline.Proofs.Storage.Vacating
import EventPipeline.Proofs.Storage.Usage
import EventPipeline.Proofs.Storage.Failing
import EventPipeline.Proofs.Storage.Limit
import EventPipeline.Proofs.Storage.Sparing
import EventPipeline.Proofs.Protobuf.LastWins
import EventPipeline.Proofs.Calendar.Counting
import EventPipeline.Proofs.Field.Times
import EventPipeline.Proofs.Field.Naming
import EventPipeline.Proofs.Text.Listing
import EventPipeline.Proofs.Settings.Lists
import EventPipeline.Proofs.Storage.Arguments
import EventPipeline.Proofs.Sink.Counts
import EventPipeline.Proofs.Consumer.Attendance
import EventPipeline.Proofs.Consumer.Dropping
import EventPipeline.Proofs.Consumer.Accounts
