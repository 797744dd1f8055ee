import SoloMiner.Search.Worker

/-! # Shifts

    A worker that has to report from time to time works in shifts: some rows of the easy search,
    or some rounds of the random search. Between shifts it can be given another job. -/

namespace SoloMiner

/-- Where a worker is in the search of a job. -/
inductive Station where
  | easy (rows : Worker.EasyRows)
  | random
  /-- There is nothing left to search. -/
  | done
  deriving DecidableEq, Repr

/-- What a shift has brought about. -/
structure ShiftReport where
  station : Station
  /-- Number of hashes counted. -/
  hashes : Nat
  share : Option FoundShare

namespace Station

/-- Where a worker goes on when no easy values are left to it. -/
def beyondEasy (settings : WorkerSettings) (job : JobTemplate) : Station :=
  if Worker.searchesRandom settings job then .random else .done

/-- Where a worker begins. -/
def first (settings : WorkerSettings) (job : JobTemplate) : Station :=
  match settings.easySlot with
  | some slot => .easy (.ofSlot job slot)
  | none => beyondEasy settings job

/-- Where a worker stands that has `rows` left. -/
def afterRows (settings : WorkerSettings) (job : JobTemplate) (rows : Worker.EasyRows) :
    Station :=
  if rows.left = 0 then beyondEasy settings job else .easy rows

/-- Works for about `looks` looks. A shift that runs out of words is repeated, with other words
    and from the station where it began. -/
def shift (settings : WorkerSettings) (job : JobTemplate) (words : Words) (looks : Nat)
    (station : Station) : ShiftReport :=
  let worker := Worker.fresh settings words fun n => decide (looks ≤ n)
  let report (w : Worker) (next : Station) : ShiftReport :=
    ⟨if w.blockFound then .done else next, w.hashCount, w.lastShare?⟩
  match station with
  | .easy rows =>
    match rows.search job worker with
    | .ok rows w => report w (afterRows settings job rows)
    | .error _ w => report w station
  | .random =>
    match Worker.randomRounds job (looks + 1) job.easyValues worker with
    | .ok _ w | .error _ w => report w station
  | .done => ⟨.done, 0, none⟩

end Station
end SoloMiner
