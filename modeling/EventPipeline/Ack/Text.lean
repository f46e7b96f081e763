import EventPipeline.Ack.Basic
import EventPipeline.Decimal.Digits
import EventPipeline.Text.Quoted
/-!
# Acknowledgments as text

How an acknowledgment is shown in a log: its anchor, and what is chained by topic
and partition. The text appears in log lines only (specification, 10); nothing is
proved of it.
-/
namespace EventPipeline.Ack

/-- Entries of a map, already written, between braces. -/
def braced (entries : List String) : String := "\x7b" ++ String.intercalate ", " entries ++ "\x7d"

/-- The partitions and offsets chained for one topic. -/
def partitionsText (entries : List (Key × Int)) : String :=
  braced (entries.map (fun e => Decimal.int e.1.partition ++ ": " ++ Decimal.int e.2))

/-- What is chained, grouped by topic. -/
def chainedText (d : Offsets) : String :=
  let topics := (d.entries.map (fun e => e.1.topic)).eraseDups
  braced (topics.map (fun t =>
    Text.quoted t ++ ": " ++ partitionsText (d.entries.filter (fun e => e.1.topic = t))))

/-- An acknowledgment as a log shows it. -/
def text (a : Ack) : String :=
  "Ack \x7b topic: " ++ Text.quoted a.key.topic ++ ", partition: " ++ Decimal.int a.key.partition
    ++ ", offset: " ++ Decimal.int a.offset ++ ", chained: " ++ chainedText a.chained ++ " \x7d"

end EventPipeline.Ack
