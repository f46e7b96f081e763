import EventPipeline.Storage.Target
import EventPipeline.Writer.Basic
/-!
# Targets as writers

A target on a disk takes each write whole, at the moment a clock gives for it.
See the specification, 4.6.
-/
namespace EventPipeline.Writer

/-- A target, the disk it is on, and the readings the clock is going to give. -/
structure Station where
  target : Storage.Target
  disk : Storage.Disk
  clock : List Calendar.Moment
  now : Calendar.Moment

/-- The station after the clock was read. -/
def Station.tick (s : Station) : Station :=
  { s with clock := s.clock.tail, now := s.clock.headD s.now }

/-- What is said of a suffix that cannot be printed. -/
def unprintable : String := "a Display implementation returned an error unexpectedly: Error"

/-- The writer that a target is. -/
def ofTarget : Writer Station where
  write s bs :=
    let s := s.tick
    match s.target.writeAt s.disk bs s.now with
    | (.ok t, d) => (.accepted bs.length, { s with target := t, disk := d })
    | (.error (.refused e), d) => (.failed e.message, { s with disk := d })
    | (.error .unprintableSuffix, d) => (.panicked unprintable, { s with disk := d })
  flush s := (.done, s)

end EventPipeline.Writer
