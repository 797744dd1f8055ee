import SoloMiner.Rate.HashRate

/-! # Hash rates over time

    Every worker counts its hashes. A tick every ten seconds reads and resets the counters and
    folds them into rates over ten seconds, one minute and a quarter of an hour. How the rate of
    a count over a time is worked out is a parameter of the definitions; `apply` and `tick` take
    the standard way. -/

namespace SoloMiner

/-- One hash counter per worker. -/
structure HashCounters where
  counts : List UInt64
  deriving DecidableEq, Repr

namespace HashCounters

def zero (workers : Nat) : HashCounters := ⟨List.replicate workers 0⟩

/-- Adds to the counter of a worker; an unknown worker has none. -/
def record (c : HashCounters) (worker : Nat) (hashes : UInt64) : HashCounters :=
  ⟨c.counts.modify worker (· + hashes)⟩

/-- Reads and resets the counter of a worker. -/
def take (c : HashCounters) (worker : Nat) : UInt64 × HashCounters :=
  (c.counts.getD worker 0, ⟨c.counts.set worker 0⟩)

/-- Reads and resets all counters. -/
def takeAll (c : HashCounters) : List UInt64 × HashCounters :=
  (c.counts, zero c.counts.length)

end HashCounters

/-- The rates of each worker as of the last tick, over three spans, and the highest total there
    was. -/
structure HashrateReport where
  tenSeconds : List HashRate
  sixtySeconds : List HashRate
  fifteenMinutes : List HashRate
  /-- The highest total over ten seconds so far. -/
  max : HashRate
  deriving DecidableEq, Repr

namespace HashrateReport

/-- The report before the first tick of a tracker. -/
def zero (workers : Nat) : HashrateReport :=
  ⟨List.replicate workers .zero, List.replicate workers .zero, List.replicate workers .zero, .zero⟩

/-- The report before there is a tracker. -/
def none : HashrateReport := zero 0

def totalTenSeconds (r : HashrateReport) : HashRate := HashRate.sum r.tenSeconds
def totalSixtySeconds (r : HashrateReport) : HashRate := HashRate.sum r.sixtySeconds
def totalFifteenMinutes (r : HashrateReport) : HashRate := HashRate.sum r.fifteenMinutes

end HashrateReport

/-- What one worker has done in the windows that are still open, and its last rates. -/
structure WorkerWindows where
  minuteCount : UInt64
  quarterCount : UInt64
  tenSeconds : HashRate
  sixtySeconds : HashRate
  fifteenMinutes : HashRate
  deriving DecidableEq, Repr

namespace WorkerWindows

def empty : WorkerWindows := ⟨0, 0, .zero, .zero, .zero⟩

end WorkerWindows

/-- The windows of all workers. The number of ticks tells which windows are complete. -/
structure HashrateTracker where
  workers : List WorkerWindows
  ticks : Nat
  max : HashRate
  deriving DecidableEq, Repr

namespace HashrateTracker

/-- Seconds between ticks. -/
def tickSeconds : Nat := 10

def ticksPerMinute : Nat := 6

def ticksPerQuarter : Nat := 90

def start (workers : Nat) : HashrateTracker := ⟨List.replicate workers .empty, 0, .zero⟩

def report (t : HashrateTracker) : HashrateReport :=
  ⟨t.workers.map (·.tenSeconds), t.workers.map (·.sixtySeconds),
    t.workers.map (·.fifteenMinutes), t.max⟩

/-- The rate of a count over a window of `ticks` ticks that closes `overhead` nanoseconds
    late. -/
def windowRate (rateOf : UInt64 → Nat → Nat → HashRate) (count : UInt64) (ticks overhead : Nat) :
    HashRate :=
  rateOf count (ticks * tickSeconds + overhead / 1000000000) (overhead % 1000000000)

/-- Adds the count of tick number `tick` to the windows of a worker and closes those that end
    with it. -/
def advance (rateOf : UInt64 → Nat → Nat → HashRate) (w : WorkerWindows) (tick overhead : Nat)
    (count : UInt64) : WorkerWindows :=
  let w := {
    w with
    minuteCount := w.minuteCount + count
    quarterCount := w.quarterCount + count
    tenSeconds := windowRate rateOf count 1 overhead }
  let w :=
    if tick % ticksPerMinute = 0 then
      { w with
        sixtySeconds := windowRate rateOf w.minuteCount ticksPerMinute overhead
        minuteCount := 0 }
    else w
  if tick % ticksPerQuarter = 0 then
    { w with
      fifteenMinutes := windowRate rateOf w.quarterCount ticksPerQuarter overhead
      quarterCount := 0 }
  else w

/-- Advances the workers that have a count and leaves the others as they are. -/
def advanceAll (rateOf : UInt64 → Nat → Nat → HashRate) (tick overhead : Nat) :
    List WorkerWindows → List UInt64 → List WorkerWindows
  | w :: ws, n :: ns => advance rateOf w tick overhead n :: advanceAll rateOf tick overhead ws ns
  | ws, _ => ws

/-- One tick: `counts` holds what each worker did since the tick before. The highest total is
    compared with the new one after all workers have been advanced. -/
def applyBy (rateOf : UInt64 → Nat → Nat → HashRate) (t : HashrateTracker) (counts : List UInt64)
    (overhead : Nat) : HashrateTracker :=
  let tick := t.ticks + 1
  let workers := advanceAll rateOf tick overhead t.workers counts
  let total := HashRate.sum (workers.map (·.tenSeconds))
  ⟨workers, tick, if t.max.perSecond < total.perSecond then total else t.max⟩

def apply (t : HashrateTracker) (counts : List UInt64) (overhead : Nat) : HashrateTracker :=
  t.applyBy HashRate.ofCount counts overhead

/-- One tick that reads and resets the counters. -/
def tickBy (rateOf : UInt64 → Nat → Nat → HashRate) (t : HashrateTracker) (c : HashCounters)
    (overhead : Nat) : HashrateTracker × HashCounters :=
  let (counts, c) := c.takeAll
  (t.applyBy rateOf counts overhead, c)

def tick (t : HashrateTracker) (c : HashCounters) (overhead : Nat) :
    HashrateTracker × HashCounters :=
  t.tickBy HashRate.ofCount c overhead

end HashrateTracker
end SoloMiner
