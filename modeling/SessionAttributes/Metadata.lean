namespace SessionAttributes

/-- Moments count nanoseconds from the epoch and may lie before it. -/
structure Metadata where
  created : Int
  lastAccessed : Int
  maxInactive : Nat
deriving DecidableEq, Repr

namespace Metadata

def nanosPerSecond : Nat := 1000000000

def moment (seconds : Int) (nanos : Nat) : Int := seconds * nanosPerSecond + nanos

def span (seconds nanos : Nat) : Nat := seconds * nanosPerSecond + nanos

/-- Whether the session was idle for its whole interval. An interval of zero never ends, and a
clock that runs behind the last access counts as no idleness. -/
def isExpired (m : Metadata) (now : Int) : Bool :=
  m.maxInactive != 0 && m.lastAccessed ≤ now && m.maxInactive ≤ now - m.lastAccessed

def ofSeconds (created lastAccessed : Int) (maxInactive : Nat) : Metadata :=
  ⟨moment created 0, moment lastAccessed 0, span maxInactive 0⟩

end Metadata
end SessionAttributes
