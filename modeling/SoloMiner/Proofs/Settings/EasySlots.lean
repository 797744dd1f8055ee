import SoloMiner.Settings.Threads

/-! # Slots of the easy search

    The threads that take part in the easy search are numbered from zero on without a gap,
    whatever is set for each of them. -/

namespace SoloMiner.PoolSettings

/-- The threads that take part in the easy search. -/
def easyThreads (s : PoolSettings) : List Nat := (List.range s.threadCount).filter s.isEasyThread

theorem length_easyThreads (s : PoolSettings) :
    s.easyThreads.length = s.easyBefore s.threadCount := rfl

/-- The threads below `n` that take part are numbered in order. -/
theorem map_easyBefore (s : PoolSettings) (n : Nat) :
    ((List.range n).filter s.isEasyThread).map s.easyBefore = List.range (s.easyBefore n) := by
  induction n with
  | zero => rfl
  | succ n ih =>
    rw [List.range_succ, List.filter_append, List.map_append, ih]
    -- thread `n` takes part and has the next number, or it takes no part and no number is used up
    by_cases h : s.isEasyThread n = true
    · have hsucc : s.easyBefore (n + 1) = s.easyBefore n + 1 := by
        simp [easyBefore, List.range_succ, List.filter_append, h]
      rw [List.filter_cons_of_pos h, hsucc, List.range_succ]
      rfl
    · have hsucc : s.easyBefore (n + 1) = s.easyBefore n := by
        simp [easyBefore, List.range_succ, List.filter_append, h]
      rw [List.filter_cons_of_neg h, hsucc]
      simp

/-- The settings of the workers that take part in the easy search. -/
def easyWorkers (s : PoolSettings) (digest : ShareDigest) : List WorkerSettings :=
  (s.workers digest).filter (·.easySlot.isSome)

theorem easyWorkers_eq (s : PoolSettings) (digest : ShareDigest) :
    s.easyWorkers digest = s.easyThreads.map (s.worker digest) := by
  have hslot : ∀ id, (s.worker digest id).easySlot.isSome = s.isEasyThread id := by
    intro id
    by_cases h : s.isEasyThread id = true <;> simp [worker, h]
  simp only [easyWorkers, workers, easyThreads, List.filter_map]
  congr 2
  funext id
  exact hslot id

/-- The slots of all workers that take part. -/
theorem map_easySlot (s : PoolSettings) (digest : ShareDigest) :
    (s.easyWorkers digest).map (·.easySlot) =
      (List.range (s.easyWorkers digest).length).map
        fun index => some (index, (s.easyWorkers digest).length) := by
  rw [easyWorkers_eq, List.length_map, length_easyThreads, ← map_easyBefore, List.map_map,
    List.map_map]
  refine List.map_congr_left ?_
  intro id hid
  have heasy : s.isEasyThread id = true := (List.mem_filter.mp hid).2
  simp [worker, heasy]

end SoloMiner.PoolSettings
