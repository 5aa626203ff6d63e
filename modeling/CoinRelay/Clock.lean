/-!
# Wall clocks

Seconds since the epoch in 64 bits. A clock that is moved on wraps at the end of its range; one that is set never goes
back.
-/

namespace CoinRelay

/-- A reading of the wall clock, in seconds. -/
structure Clock where
  now : UInt64
  deriving DecidableEq, Repr

namespace Clock

/-- Moves the clock on by the whole seconds of a time in milliseconds. -/
def advance (millis : Nat) (c : Clock) : Clock := ⟨c.now + UInt64.ofNat (millis / 1000)⟩

/-- Sets the clock, unless that would set it back. -/
def set (now : UInt64) (c : Clock) : Clock := ⟨max c.now now⟩

end Clock

/-- The seconds from one reading to a later one; none when the second is not later. -/
def elapsed (since now : UInt64) : Nat := now.toNat - since.toNat

end CoinRelay
