import SoloMiner.Search.Shift

/-! # Worker pools

    All workers search the same job. Here they work in turns of one shift each, until one finds
    a share or none has anything left to search. With one winning candidate the outcome does
    not depend on the order of the turns. -/

namespace SoloMiner

/-- A worker of a pool, where it is, and how many hashes it has counted. -/
structure PoolWorker where
  settings : WorkerSettings
  station : Station
  hashes : Nat
  deriving DecidableEq, Repr

namespace Pool

/-- The outcome of a search. -/
inductive Outcome where
  | found (share : FoundShare)
  /-- No worker found a share; the hashes of each. -/
  | exhausted (hashes : List Nat)
  | unfinished
  deriving DecidableEq, Repr

/-- The workers as they begin a job. -/
def start (job : JobTemplate) (settings : List WorkerSettings) : List PoolWorker :=
  settings.map fun s => ⟨s, .first s job, 0⟩

/-- One shift of a worker. -/
def shift (w : PoolWorker) (job : JobTemplate) (words : Words) (looks : Nat) :
    Option FoundShare × PoolWorker :=
  let report := w.station.shift w.settings job words looks
  (report.share, { w with station := report.station, hashes := w.hashes + report.hashes })

/-- One shift of each worker, up to the first that finds a share. `words id` are the words that
    worker `id` draws. -/
def turn (job : JobTemplate) (words : Nat → Words) (looks : Nat) :
    List PoolWorker → Option FoundShare × List PoolWorker
  | [] => (none, [])
  | w :: rest =>
    match shift w job (words w.settings.id) looks with
    | (some share, w) => (some share, w :: rest)
    | (none, w) =>
      let (share, rest) := turn job words looks rest
      (share, w :: rest)

/-- At most `turns` turns. `words id n` are the words that worker `id` draws when `n` turns are
    left. -/
def searchFrom (job : JobTemplate) (words : Nat → Nat → Words) (looks : Nat) :
    Nat → List PoolWorker → Outcome
  | 0, _ => .unfinished
  | turns + 1, workers =>
    if workers.all (·.station == .done) then .exhausted (workers.map (·.hashes))
    else
      match turn job (words · turns) looks workers with
      | (some share, _) => .found share
      | (none, workers) => searchFrom job words looks turns workers

/-- Searches a job with shifts of `looks` looks, in at most `turns` turns. -/
def search (settings : List WorkerSettings) (job : JobTemplate) (words : Nat → Nat → Words)
    (looks turns : Nat) : Outcome :=
  searchFrom job words looks turns (start job settings)

end Pool
end SoloMiner
