/-!
# Capacities of a sink

A sink has room for some messages in its queue and some bytes in its buffer. There
is always room for one of each. See the specification, 4.1, on edge cases.
-/
namespace EventPipeline.Sink

/-- The capacities of a sink. -/
structure Options where
  queue : Nat
  buffer : Nat
  queue_pos : 0 < queue
  buffer_pos : 0 < buffer
deriving DecidableEq

namespace Options

/-- The given capacities, where one of nothing counts as one of a single unit. -/
def of (queue buffer : Nat) : Options := ⟨max queue 1, max buffer 1, by omega, by omega⟩

/-- A hundred messages and four kilobytes. -/
def default : Options := of 100 4096

/-- Whether a sink with these capacities can be made at all: an eighth of the address space is
the bound of a queue, a half of it that of a buffer. -/
def Feasible (o : Options) : Prop := 8 * o.queue < UInt64.size ∧ 2 * o.buffer < UInt64.size

instance (o : Options) : Decidable o.Feasible := inferInstanceAs (Decidable (_ ∧ _))

end Options

end EventPipeline.Sink
