import SoloMiner.Digest.Share
import SoloMiner.Text.Decimal
import SoloMiner.Text.JsonValue

/-! # Settings of the mining threads

    The miner runs one worker per thread. A worker's settings are those given for its thread,
    and those given for all threads where its own are missing. Threads that take part in the
    easy search are numbered among themselves. -/

namespace SoloMiner

/-- Scheduling priority of a thread. -/
inductive ThreadPriority where
  | lowest
  | belowNormal
  | normal
  | aboveNormal
  | highest
  deriving DecidableEq, Repr

namespace ThreadPriority

def all : List ThreadPriority := [.lowest, .belowNormal, .normal, .aboveNormal, .highest]

def name : ThreadPriority → String
  | .lowest => "lowest"
  | .belowNormal => "below_normal"
  | .normal => "normal"
  | .aboveNormal => "above_normal"
  | .highest => "highest"

def ofName? (s : String) : Option ThreadPriority := all.find? fun p => p.name == s

def ofJson? (v : JsonValue) : Option ThreadPriority := v.choice? ofName?

/-- The nice value of the priority. -/
def nice : ThreadPriority → Int
  | .lowest => 10
  | .belowNormal => 5
  | .normal => 0
  | .aboveNormal => -5
  | .highest => -10

end ThreadPriority

/-! ## Settings as given -/

/-- What is set for one thread. -/
structure ThreadSettings where
  /-- The processors the thread may run on, one bit each; zero for all. -/
  affinity : UInt64 := 0
  priority : Option ThreadPriority := none
  digitSampler : Option Bool := none
  /-- Does the thread take part in the easy search? -/
  easyBlock : Option Bool := none
  deriving DecidableEq, Repr

/-- Bound of counts and sizes. -/
def JsonValue.size? (v : JsonValue) : Option Nat := v.natBelow? UInt64.size

namespace ThreadSettings

def fields : List (JsonValue.FieldReader ThreadSettings) := [
  .of "affinity" (fun v => v.size?.map UInt64.ofNat) fun x s => { s with affinity := x },
  .of "priority" (·.nullable? ThreadPriority.ofJson?) fun x s => { s with priority := x },
  .of "use_xenophyte_randomizer" (·.nullable? JsonValue.bool?)
    fun x s => { s with digitSampler := x },
  .of "easy_block" (·.nullable? JsonValue.bool?) fun x s => { s with easyBlock := x }]

def ofJson? (v : JsonValue) : Option ThreadSettings := v.record? fields {}

end ThreadSettings

/-- What is set for all threads. -/
structure PoolSettings where
  /-- Number of threads; at least as many run as have settings of their own. -/
  threads : Nat
  priority : ThreadPriority := .normal
  /-- Is there no search beyond the easy one? -/
  easyBlockOnly : Bool := false
  /-- Are random operands drawn digit by digit? -/
  digitSampler : Bool := false
  threadSettings : List ThreadSettings := []
  deriving DecidableEq, Repr

namespace PoolSettings

def fields : List (JsonValue.FieldReader PoolSettings) := [
  .of "threads" JsonValue.size? fun x s => { s with threads := x },
  .of "thread_priority" ThreadPriority.ofJson? fun x s => { s with priority := x },
  .of "easy_block_only" JsonValue.bool? fun x s => { s with easyBlockOnly := x },
  .of "use_xenophyte_randomizer" JsonValue.bool? fun x s => { s with digitSampler := x },
  .of "thread_configs" (·.list? ThreadSettings.ofJson?)
    fun x s => { s with threadSettings := x }]

/-- Reads settings; `cpus` threads run when no number is given. -/
def ofJson? (cpus : Nat) (v : JsonValue) : Option PoolSettings :=
  v.record? fields { threads := cpus }

/-- Number of threads that run. -/
def threadCount (s : PoolSettings) : Nat := max s.threads s.threadSettings.length

end PoolSettings

/-! ## Settings of a worker -/

/-- Everything a worker goes by. -/
structure WorkerSettings where
  id : Nat
  affinity : UInt64
  priority : ThreadPriority
  digitSampler : Bool
  easyBlockOnly : Bool
  /-- Number among the threads of the easy search, and how many those are. -/
  easySlot : Option (Nat × Nat)
  digest : ShareDigest
  deriving DecidableEq, Repr

namespace PoolSettings

/-- Does thread `id` take part in the easy search? -/
def isEasyThread (s : PoolSettings) (id : Nat) : Bool :=
  ((s.threadSettings[id]?).bind (·.easyBlock)).getD true

/-- Number of threads below `id` that take part in the easy search. -/
def easyBefore (s : PoolSettings) (id : Nat) : Nat :=
  ((List.range id).filter s.isEasyThread).length

/-- The settings of thread `id`: its own ones, and those of the pool for all that it does not
    have. -/
def worker (s : PoolSettings) (digest : ShareDigest) (id : Nat) : WorkerSettings :=
  let own := (s.threadSettings[id]?).getD {}
  { id, digest
    affinity := own.affinity
    priority := own.priority.getD s.priority
    digitSampler := own.digitSampler.getD s.digitSampler
    easyBlockOnly := s.easyBlockOnly
    easySlot := if s.isEasyThread id then some (s.easyBefore id, s.easyBefore s.threadCount)
      else none }

def workers (s : PoolSettings) (digest : ShareDigest) : List WorkerSettings :=
  (List.range s.threadCount).map (s.worker digest)

end PoolSettings
end SoloMiner
