import EventPipeline.Bytes
/-!
# Writers

A writer is asked to write some bytes and to flush what it was given. It may take fewer
bytes than it is offered, or none, and it may fail or panic at any call. A panic has a
message. See the specification, 6.
-/
namespace EventPipeline

/-- What asking to write comes to. -/
inductive WriteAnswer
  | accepted (count : Nat)
  | interrupted
  | failed (reason : String)
  | panicked (message : String)
deriving DecidableEq

/-- What asking to flush comes to. -/
inductive FlushAnswer
  | done
  | failed (reason : String)
  | panicked (message : String)
deriving DecidableEq

/-- A writer with states in `ω`. -/
structure Writer (ω : Type) where
  write : ω → Bytes → WriteAnswer × ω
  flush : ω → FlushAnswer × ω

end EventPipeline
