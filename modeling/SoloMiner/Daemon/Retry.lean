import SoloMiner.Clock.Duration

/-! # Retries

    After each failed connection in a row the miner waits a second longer, and after the last
    allowed one it gives up. -/

namespace SoloMiner

/-- Failures in a row, and how many are allowed. The count stays at its greatest value when it
    gets there. -/
structure RetryPolicy where
  /-- The failure at which to give up; zero for none. -/
  maxFailures : UInt32
  failures : UInt32
  deriving DecidableEq, Repr

namespace RetryPolicy

def start (maxFailures : UInt32) : RetryPolicy := ⟨maxFailures, 0⟩

/-- Forgets all failures. -/
def reset (r : RetryPolicy) : RetryPolicy := { r with failures := 0 }

/-- One more failure. The count stops at its bound. -/
def count (r : RetryPolicy) : RetryPolicy :=
  if r.failures.toNat + 1 < UInt32.size then { r with failures := r.failures + 1 } else r

/-- The wait after the failure counted last, unless it is time to give up. -/
def delay? (r : RetryPolicy) : Option Duration :=
  if r.maxFailures ≠ 0 ∧ r.maxFailures ≤ r.failures then none
  else some (.ofSeconds r.failures.toNat)

/-- Counts a failure and says how long to wait before the next attempt. -/
def onFailure (r : RetryPolicy) : Option Duration × RetryPolicy := (r.count.delay?, r.count)

end RetryPolicy
end SoloMiner
