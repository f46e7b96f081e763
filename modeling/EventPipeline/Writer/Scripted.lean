import EventPipeline.Writer.Basic
/-!
# Scripted writers

A writer that keeps nothing and does what a script says at the calls it names, for
trying out what depends on a writer. Calls are numbered from 1. See the
specification, 13.
-/
namespace EventPipeline.Writer

/-- What goes wrong at which call of `write` or `flush`, and how much a write takes at most. -/
structure Script where
  maxWrite : Option Nat := none
  failWrite : Option Nat := none
  interruptWrite : Option Nat := none
  zeroWrite : Option Nat := none
  panicWrite : Option Nat := none
  failFlush : Option Nat := none
deriving DecidableEq

/-- The calls made so far. -/
structure Calls where
  writes : Nat := 0
  flushes : Nat := 0
deriving DecidableEq

/-- What the script says about the write call with number `n`. -/
def Script.writeAnswer (s : Script) (n : Nat) (offered : Bytes) : WriteAnswer :=
  if s.panicWrite = some n then .panicked "writer panicked"
  else if s.failWrite = some n then .failed "disk on fire"
  else if s.interruptWrite = some n then .interrupted
  else if s.zeroWrite = some n then .accepted 0
  else .accepted (min offered.length (s.maxWrite.getD offered.length))

/-- What the script says about the flush call with number `n`. -/
def Script.flushAnswer (s : Script) (n : Nat) : FlushAnswer :=
  if s.failFlush = some n then .failed "cannot sync" else .done

/-- The writer that follows a script. -/
def scripted (s : Script) : Writer Calls where
  write c offered := (s.writeAnswer (c.writes + 1) offered, { c with writes := c.writes + 1 })
  flush c := (s.flushAnswer (c.flushes + 1), { c with flushes := c.flushes + 1 })

end EventPipeline.Writer
