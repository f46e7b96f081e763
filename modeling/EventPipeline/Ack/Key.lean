import EventPipeline.Dict
/-!
# Keys

Messages are numbered within a partition of a topic. A key names such a partition;
keys are listed by topic and then by partition. See the specification, 3.
-/
namespace EventPipeline

/-- A partition of a topic. -/
structure Key where
  topic : String
  partition : Int
deriving DecidableEq

namespace Key

instance : Ord Key := ⟨compareLex (compareOn Key.topic) (compareOn Key.partition)⟩

instance : Std.TransOrd Key :=
  inferInstanceAs (Std.TransCmp (compareLex (compareOn Key.topic) (compareOn Key.partition)))

instance : Std.LawfulEqOrd Key where
  compare_self := Std.ReflCmp.compare_self
  eq_of_compare {a b} h := by
    have h : (compareOn Key.topic a b).then (compareOn Key.partition a b) = .eq := h
    rw [Ordering.then_eq_eq] at h
    cases a
    cases b
    rw [mk.injEq]
    exact ⟨Std.LawfulEqOrd.eq_of_compare h.1, Std.LawfulEqOrd.eq_of_compare h.2⟩

end Key

/-- A position for some partitions each. -/
abbrev Offsets := Dict Key Int

namespace Offsets

/-- The positions after one more is known for a key: the higher one stays. -/
def raise (d : Offsets) (k : Key) (offset : Int) : Offsets :=
  d.alter k (fun
    | none => offset
    | some present => max present offset)

end Offsets

end EventPipeline
