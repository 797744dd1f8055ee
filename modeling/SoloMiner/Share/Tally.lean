import SoloMiner.Share.Status

/-! # Share tallies

    Verdicts are counted by job type. Of verdicts on one height in a row only the first
    counts. -/

namespace SoloMiner

/-- Accepted shares and others. The counters of the program have 64 bits. Natural numbers do for
    them: each verdict adds one to one counter at most, so neither a counter nor the sum of all of
    them goes past the number of verdicts heard (`ShareStats.total_le_length`), and a run of the
    program hears no 2^64 verdicts. -/
structure ShareTally where
  good : Nat
  bad : Nat
  deriving DecidableEq, Repr

namespace ShareTally

def zero : ShareTally := ⟨0, 0⟩

def add (x y : ShareTally) : ShareTally := ⟨x.good + y.good, x.bad + y.bad⟩

def count (t : ShareTally) (status : ShareStatus) : ShareTally :=
  if status.isAccepted then ⟨t.good + 1, t.bad⟩ else ⟨t.good, t.bad + 1⟩

end ShareTally

/-- The tallies and the height counted last. -/
structure ShareStats where
  lastHeight : Option Int64
  easy : ShareTally
  semiRandom : ShareTally
  random : ShareTally
  deriving DecidableEq, Repr

namespace ShareStats

def empty : ShareStats := ⟨none, .zero, .zero, .zero⟩

def tally (s : ShareStats) : JobType → ShareTally
  | .easy => s.easy
  | .semiRandom => s.semiRandom
  | .random => s.random

def count (s : ShareStats) (jobType : JobType) (status : ShareStatus) : ShareStats :=
  match jobType with
  | .easy => { s with easy := s.easy.count status }
  | .semiRandom => { s with semiRandom := s.semiRandom.count status }
  | .random => { s with random := s.random.count status }

/-- Takes a verdict and says whether it counts. -/
def record (s : ShareStats) (height : Int64) (jobType : JobType) (status : ShareStatus) :
    Bool × ShareStats :=
  if s.lastHeight = some height then (false, s)
  else (true, { s.count jobType status with lastHeight := some height })

def total (s : ShareStats) : ShareTally :=
  (JobType.all.map s.tally).foldl ShareTally.add .zero

end ShareStats
end SoloMiner
