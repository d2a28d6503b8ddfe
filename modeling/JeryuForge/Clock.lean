import Mathlib

/-!
# Instants

The forge's wall clock.  An instant is an integer, the nanoseconds since the epoch,
and the seconds between two instants are counted as the source counts them, rounding
towards zero.
-/

namespace JeryuForge.Clock

def nanosPerSecond : Int := 1000000000

/-- `chrono::Duration::seconds`. -/
def seconds (count : Int) : Int :=
  count * nanosPerSecond

def numSeconds (duration : Int) : Int :=
  duration.tdiv nanosPerSecond

end JeryuForge.Clock
