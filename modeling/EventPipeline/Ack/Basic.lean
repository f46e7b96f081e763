import EventPipeline.Ack.Key
/-!
# Acknowledgments

An acknowledgment covers one message or more. It has an anchor, the first of them,
and for each partition that the others belong to the highest of their offsets.
Chaining two acknowledgments keeps the first anchor and merges the rest. Marking
one reports every offset it holds to the session of its anchor, anchor first, and
goes on after a refusal. See the specification, 3 and 4.2.
-/
namespace EventPipeline

/-- An acknowledgment. -/
structure Ack where
  session : Nat
  key : Key
  offset : Int
  chained : Offsets
deriving DecidableEq

/-- An offset reported to a session, and whether the session took it. -/
structure Attempt where
  session : Nat
  key : Key
  offset : Int
  accepted : Bool
deriving DecidableEq

namespace Ack

/-- The acknowledgment of a single message. -/
def ofMessage (session : Nat) (key : Key) (offset : Int) : Ack := ⟨session, key, offset, .empty⟩

/-- What is chained after the anchor of `later` and all chained there are merged in. -/
def merged (chained : Offsets) (later : Ack) : Offsets :=
  later.chained.entries.foldl (fun d e => Offsets.raise d e.1 e.2)
    (Offsets.raise chained later.key later.offset)

/-- One acknowledgment for all that `a` and `later` cover. -/
def chain (a later : Ack) : Ack := { a with chained := merged a.chained later }

/-- The offset chained for a key. -/
def chainedOffset? (a : Ack) (k : Key) : Option Int := a.chained.find? k

/-- The highest offset covered for a key, the anchor included. -/
def coveredOffset? (a : Ack) (k : Key) : Option Int :=
  match if a.key = k then some a.offset else none, a.chainedOffset? k with
  | some anchor, some chained => some (max anchor chained)
  | some anchor, none => some anchor
  | none, chained => chained

/-- Everything marked for an acknowledgment: the anchor, then what is chained in key order. -/
def positions (a : Ack) : List (Key × Int) := (a.key, a.offset) :: a.chained.entries

/-- Mark an acknowledgment on its session, which refuses some keys. -/
def mark (refuses : Nat → Key → Bool) (a : Ack) : List Attempt :=
  a.positions.map (fun p => ⟨a.session, p.1, p.2, !refuses a.session p.1⟩)

end Ack

/-- The wording of a refused mark. -/
def Attempt.refusal : String := "Consumer gone"

/-- Whether some offset was refused. -/
def Attempt.anyRefused (attempts : List Attempt) : Bool := attempts.any (fun t => !t.accepted)

/-- The highest offset accepted for each key. -/
def Attempt.highest (attempts : List Attempt) : Offsets :=
  (attempts.filter (fun t => t.accepted)).foldl (fun d t => Offsets.raise d t.key t.offset) .empty

end EventPipeline
