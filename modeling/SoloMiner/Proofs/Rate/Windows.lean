import Mathlib.Algebra.BigOperators.Intervals
import Mathlib.Algebra.Order.BigOperators.Group.Finset
import Mathlib.Data.Finset.Lattice.Fold
import Mathlib.Order.Lattice.Nat
import SoloMiner.Rate.Tracker

/-! # Windows

    The hashes that a worker records between two ticks are one portion of its work, and a window
    of some ticks is as many portions in a row. The tracker adds portions up until the window is
    complete and then starts over, so the windows of one size follow each other without gap or
    overlap.

    The state of counters and tracker is given in closed form by what was recorded and when the
    ticks were; each step of a run keeps it so. The rate of a count over a time may be any
    function of the two. -/

namespace SoloMiner

/-! ## Sums of rates -/

namespace HashRate

/-- A sum of two rates is their sum as numbers, unless that has no place in 64 bits. -/
theorem toNat_add (x y : HashRate) :
    (x.add y).perSecond.toNat = min (x.perSecond.toNat + y.perSecond.toNat) (2 ^ 64 - 1) := by
  have hsize : UInt64.size = 2 ^ 64 := rfl
  unfold add
  split
  · next hfits =>
    rw [UInt64.toNat_add, Nat.mod_eq_of_lt hfits]
    omega
  · next hover =>
    show (UInt64.ofNat (2 ^ 64 - 1)).toNat = _
    rw [UInt64.toNat_ofNat_of_lt' (show _ < 2 ^ 64 by omega)]
    omega

/-- A sum that has stopped at the greatest rate stays there, so the sum of a list is that of the
    numbers, cut off once. -/
theorem toNat_foldl_add (rates : List HashRate) (x : HashRate) :
    (rates.foldl add x).perSecond.toNat =
      min (x.perSecond.toNat + (rates.map (·.perSecond.toNat)).sum) (2 ^ 64 - 1) := by
  induction rates generalizing x with
  | nil =>
    have hlt := x.perSecond.toNat_lt
    simp only [List.foldl_nil, List.map_nil, List.sum_nil]
    omega
  | cons y rates ih =>
    rw [List.foldl_cons, ih, toNat_add, List.map_cons, List.sum_cons]
    omega

/-- A sum of rates stops at the greatest rate. -/
theorem toNat_sum (rates : List HashRate) :
    (sum rates).perSecond.toNat = min (rates.map (·.perSecond.toNat)).sum (2 ^ 64 - 1) := by
  have hfold := toNat_foldl_add rates zero
  rwa [show zero.perSecond.toNat = 0 from rfl, Nat.zero_add] at hfold

end HashRate

/-! ## Runs -/

/-- The counters of some workers and the tracker that reads them. The counters go up from one
    tick to the next, and a tick reads them and sets them to zero. -/
structure Meter where
  tracker : HashrateTracker
  counters : HashCounters

namespace Meter

inductive Action where
  | record (worker : Nat) (hashes : UInt64)
  | tick (overhead : Nat)

def start (workers : Nat) : Meter := ⟨.start workers, .zero workers⟩

variable (rateOf : UInt64 → Nat → Nat → HashRate)

def step (m : Meter) : Action → Meter
  | .record worker hashes => { m with counters := m.counters.record worker hashes }
  | .tick overhead =>
    let (tracker, counters) := m.tracker.tickBy rateOf m.counters overhead
    ⟨tracker, counters⟩

def run (m : Meter) (actions : List Action) : Meter := actions.foldl (step rateOf) m

/-! ## What was recorded -/

def Action.overhead? : Action → Option Nat
  | .record _ _ => none
  | .tick overhead => some overhead

/-- The overheads of the ticks, in order. -/
def overheads (actions : List Action) : List Nat := actions.filterMap Action.overhead?

/-- The number of ticks. -/
def ticks (actions : List Action) : Nat := (overheads actions).length

/-- The overhead of tick number `k`; the first tick is number one. Behind the last tick there is
    none. -/
def overheadAt (actions : List Action) (k : Nat) : Nat := (overheads actions).getD (k - 1) 0

/-- What worker `i` recorded between tick number `n` and the next one, or up to now if there is
    none yet. -/
def portion (i : Nat) : Nat → List Action → Nat
  | _, [] => 0
  | 0, .record worker hashes :: rest =>
    (if worker = i then hashes.toNat else 0) + portion i 0 rest
  | n + 1, .record _ _ :: rest => portion i (n + 1) rest
  | 0, .tick _ :: _ => 0
  | n + 1, .tick _ :: rest => portion i n rest

/-- What worker `i` recorded between tick number `first` and tick number `last`. -/
def between (actions : List Action) (i first last : Nat) : Nat :=
  ∑ n ∈ Finset.Ico first last, portion i n actions

/-- All that worker `i` recorded. -/
def total (i : Nat) : List Action → Nat
  | [] => 0
  | .record worker hashes :: rest => (if worker = i then hashes.toNat else 0) + total i rest
  | .tick _ :: rest => total i rest

/-! ## What was reported -/

/-- The rate over the last complete window of `size` ticks; zero before the first. The time of a
    window is that of its ticks and the overhead of the last one. -/
def lastRate (actions : List Action) (size i : Nat) : HashRate :=
  let complete := ticks actions / size
  if complete = 0 then .zero
  else
    HashrateTracker.windowRate rateOf
      (UInt64.ofNat (between actions i (size * (complete - 1)) (size * complete))) size
      (overheadAt actions (size * complete))

/-- The sum of all workers' rates over the ten seconds up to tick number `k`, bounded by the
    width of a rate. -/
def totalAt (workers : Nat) (actions : List Action) (k : Nat) : Nat :=
  min ((List.range workers).map fun i =>
      (HashrateTracker.windowRate rateOf (UInt64.ofNat (portion i (k - 1) actions)) 1
        (overheadAt actions k)).perSecond.toNat).sum
    (2 ^ 64 - 1)

/-! ## One more action -/

variable {actions : List Action} {worker i n : Nat} {hashes : UInt64} {overhead : Nat}

theorem overheads_record :
    overheads (actions ++ [.record worker hashes]) = overheads actions := by
  rw [overheads, List.filterMap_append]
  exact List.append_nil _

theorem overheads_tick :
    overheads (actions ++ [.tick overhead]) = overheads actions ++ [overhead] := by
  rw [overheads, List.filterMap_append]
  rfl

theorem ticks_record : ticks (actions ++ [.record worker hashes]) = ticks actions := by
  rw [ticks, overheads_record]
  rfl

theorem ticks_tick : ticks (actions ++ [.tick overhead]) = ticks actions + 1 := by
  rw [ticks, overheads_tick, List.length_append]
  rfl

theorem overheadAt_record (k : Nat) :
    overheadAt (actions ++ [.record worker hashes]) k = overheadAt actions k := by
  rw [overheadAt, overheads_record]
  rfl

theorem overheadAt_tick :
    overheadAt (actions ++ [.tick overhead]) (ticks actions + 1) = overhead := by
  rw [overheadAt, overheads_tick, Nat.add_sub_cancel, ticks, List.getD_eq_getElem?_getD,
    List.getElem?_concat_length]
  rfl

theorem overheadAt_tick_of_le {k : Nat} (hpos : 0 < k) (hk : k ≤ ticks actions) :
    overheadAt (actions ++ [.tick overhead]) k = overheadAt actions k := by
  have hlt : k - 1 < (overheads actions).length := show k - 1 < ticks actions by omega
  rw [overheadAt, overheads_tick, List.getD_eq_getElem?_getD, List.getElem?_append_left hlt,
    ← List.getD_eq_getElem?_getD]
  rfl

/-- What is recorded is added to the portion that is still open. -/
theorem portion_record :
    portion i n (actions ++ [.record worker hashes]) =
      portion i n actions + if worker = i ∧ n = ticks actions then hashes.toNat else 0 := by
  induction actions generalizing n with
  | nil => cases n <;> simp [portion, ticks, overheads]
  | cons action rest ih =>
    -- a record in front adds to the first portion, a tick in front moves all portions on by one
    cases action with
    | record worker' hashes' =>
      have hticks : ticks (.record worker' hashes' :: rest) = ticks rest := rfl
      rw [hticks]
      cases n with
      | zero =>
        rw [List.cons_append, portion, ih, portion, Nat.add_assoc]
      | succ n => exact ih
    | tick overhead' =>
      have hticks : ticks (.tick overhead' :: rest) = ticks rest + 1 := rfl
      rw [hticks]
      cases n with
      | zero => simp [portion]
      | succ n =>
        rw [List.cons_append, portion, ih, portion]
        simp only [Nat.add_right_cancel_iff]

/-- A tick adds nothing to any portion: what it opens is empty. -/
theorem portion_tick : portion i n (actions ++ [.tick overhead]) = portion i n actions := by
  induction actions generalizing n with
  | nil => cases n <;> rfl
  | cons action rest ih =>
    cases action with
    | record worker' hashes' =>
      cases n with
      | zero => rw [List.cons_append, portion, ih, portion]
      | succ n => exact ih
    | tick overhead' =>
      cases n with
      | zero => rfl
      | succ n => exact ih

/-- Nothing was recorded behind a tick that has not been. -/
theorem portion_of_lt (h : ticks actions < n) : portion i n actions = 0 := by
  induction actions generalizing n with
  | nil => cases n <;> rfl
  | cons action rest ih =>
    cases n with
    | zero => exact absurd h (Nat.not_lt_zero _)
    | succ n =>
      cases action with
      | record worker' hashes' => exact ih h
      | tick overhead' => exact ih (Nat.lt_of_succ_lt_succ h)

theorem between_record {first last : Nat} (h : last ≤ ticks actions) :
    between (actions ++ [.record worker hashes]) i first last = between actions i first last := by
  apply Finset.sum_congr rfl
  intro n hn
  have hlt := (Finset.mem_Ico.mp hn).2
  rw [portion_record, if_neg (by omega), Nat.add_zero]

theorem between_tick {first last : Nat} :
    between (actions ++ [.tick overhead]) i first last = between actions i first last := by
  apply Finset.sum_congr rfl
  intro n _
  exact portion_tick

theorem portion_record_of_ne (h : n ≠ ticks actions) :
    portion i n (actions ++ [.record worker hashes]) = portion i n actions := by
  rw [portion_record, if_neg fun heq => h heq.2, Nat.add_zero]

/-! ## Windows -/

/-- The count of the window of `size` ticks that is not complete yet. It is empty right behind
    the tick that completes one. -/
def openCount (actions : List Action) (size i : Nat) : UInt64 :=
  UInt64.ofNat (between actions i (size * (ticks actions / size)) (ticks actions))

theorem openCount_record {size : Nat} :
    openCount (actions ++ [.record worker hashes]) size i = openCount actions size i := by
  rw [openCount, ticks_record, between_record (Nat.le_refl _)]
  rfl

theorem lastRate_record {size : Nat} :
    lastRate rateOf (actions ++ [.record worker hashes]) size i =
      lastRate rateOf actions size i := by
  have hle : size * (ticks actions / size) ≤ ticks actions := Nat.mul_div_le _ _
  simp only [lastRate, ticks_record, between_record hle, overheadAt_record]

/-- A tick adds a portion to the open window, or completes it and starts over. -/
theorem openCount_tick (actions : List Action) (size i overhead : Nat) :
    openCount (actions ++ [.tick overhead]) size i =
      if (ticks actions + 1) % size = 0 then 0
      else openCount actions size i + UInt64.ofNat (portion i (ticks actions) actions) := by
  rw [openCount, ticks_tick, between_tick]
  -- the tick completes a window, and the open one is empty, or the portion joins those of the open
  -- one
  by_cases hcomplete : (ticks actions + 1) % size = 0
  · rw [if_pos hcomplete, Nat.mul_div_cancel' (Nat.dvd_of_mod_eq_zero hcomplete), between,
      Finset.Ico_self, Finset.sum_empty]
    rfl
  · have hdvd : ¬size ∣ ticks actions + 1 := fun hdvd => hcomplete (Nat.mod_eq_zero_of_dvd hdvd)
    have hle : size * (ticks actions / size) ≤ ticks actions := Nat.mul_div_le _ _
    rw [if_neg hcomplete, Nat.succ_div_of_not_dvd hdvd, between, Finset.sum_Ico_succ_top hle,
      UInt64.ofNat_add]
    rfl

/-- The window that a tick completes holds what was open and the last portion. -/
theorem lastRate_tick (actions : List Action) {size : Nat} (hsize : 0 < size) (i overhead : Nat) :
    lastRate rateOf (actions ++ [.tick overhead]) size i =
      if (ticks actions + 1) % size = 0 then
        HashrateTracker.windowRate rateOf
          (openCount actions size i + UInt64.ofNat (portion i (ticks actions) actions)) size
          overhead
      else lastRate rateOf actions size i := by
  have hle : size * (ticks actions / size) ≤ ticks actions := Nat.mul_div_le _ _
  simp only [lastRate, ticks_tick, between_tick]
  by_cases hcomplete : (ticks actions + 1) % size = 0
  · -- the window that is completed ends with the last portion, and its overhead is that of this
    -- tick
    have hdvd := Nat.dvd_of_mod_eq_zero hcomplete
    have hsum : between actions i (size * (ticks actions / size)) (ticks actions + 1) =
        between actions i (size * (ticks actions / size)) (ticks actions) +
          portion i (ticks actions) actions := Finset.sum_Ico_succ_top hle _
    rw [if_pos hcomplete, Nat.mul_div_cancel' hdvd, Nat.succ_div_of_dvd hdvd,
      if_neg (Nat.succ_ne_zero _), Nat.add_sub_cancel, hsum, UInt64.ofNat_add, overheadAt_tick]
    rfl
  · -- the last complete window, if there is one, is the same as before
    have hdvd : ¬size ∣ ticks actions + 1 := fun hdvd => hcomplete (Nat.mod_eq_zero_of_dvd hdvd)
    rw [if_neg hcomplete, Nat.succ_div_of_not_dvd hdvd]
    by_cases hnone : ticks actions / size = 0
    · rw [if_pos hnone, if_pos hnone]
    · have hpos : 0 < size * (ticks actions / size) :=
        Nat.mul_pos hsize (Nat.pos_of_ne_zero hnone)
      rw [if_neg hnone, if_neg hnone, overheadAt_tick_of_le hpos hle]

/-- A window of one tick is the last portion. -/
theorem lastRate_one_tick (actions : List Action) (i overhead : Nat) :
    lastRate rateOf (actions ++ [.tick overhead]) 1 i =
      HashrateTracker.windowRate rateOf (UInt64.ofNat (portion i (ticks actions) actions)) 1
        overhead := by
  have hempty : openCount actions 1 i = 0 := by
    rw [openCount, Nat.div_one, Nat.one_mul, between, Finset.Ico_self, Finset.sum_empty]
    rfl
  rw [lastRate_tick rateOf actions Nat.one_pos, if_pos (Nat.mod_one _), hempty, UInt64.zero_add]

/-- What was the total at a tick stays so. -/
theorem totalAt_append {k : Nat} (workers : Nat) (hpos : 0 < k) (hk : k ≤ ticks actions)
    (action : Action) :
    totalAt rateOf workers (actions ++ [action]) k = totalAt rateOf workers actions k := by
  unfold totalAt
  congr 2
  apply List.map_congr_left
  intro i _
  cases action with
  | record worker hashes => rw [portion_record_of_ne (by omega), overheadAt_record]
  | tick overhead => rw [portion_tick, overheadAt_tick_of_le hpos hk]

/-! ## The state of a run -/

/-- The windows of worker `i`, in closed form. -/
def windowsOf (actions : List Action) (i : Nat) : WorkerWindows where
  minuteCount := openCount actions HashrateTracker.ticksPerMinute i
  quarterCount := openCount actions HashrateTracker.ticksPerQuarter i
  tenSeconds := lastRate rateOf actions 1 i
  sixtySeconds := lastRate rateOf actions HashrateTracker.ticksPerMinute i
  fifteenMinutes := lastRate rateOf actions HashrateTracker.ticksPerQuarter i

/-- What the tracker makes of the windows of one worker at a tick are its windows after that
    tick, whichever of the window sizes the tick completes. -/
theorem advance_windowsOf (actions : List Action) (overhead i : Nat) :
    HashrateTracker.advance rateOf (windowsOf rateOf actions i) (ticks actions + 1) overhead
        (UInt64.ofNat (portion i (ticks actions) actions)) =
      windowsOf rateOf (actions ++ [.tick overhead]) i := by
  have hminute : 0 < HashrateTracker.ticksPerMinute := by decide
  have hquarter : 0 < HashrateTracker.ticksPerQuarter := by decide
  unfold windowsOf
  rw [lastRate_one_tick, lastRate_tick rateOf actions hminute, lastRate_tick rateOf actions hquarter,
    openCount_tick, openCount_tick, HashrateTracker.advance]
  -- whether the tick completes a minute, and whether it completes a quarter
  by_cases hm : (ticks actions + 1) % HashrateTracker.ticksPerMinute = 0 <;>
    by_cases hq : (ticks actions + 1) % HashrateTracker.ticksPerQuarter = 0 <;>
    simp only [hm, hq, if_true, if_false]

theorem advanceAll_map (tick overhead : Nat) (windows : Nat → WorkerWindows)
    (counts : Nat → UInt64) (ids : List Nat) :
    HashrateTracker.advanceAll rateOf tick overhead (ids.map windows) (ids.map counts) =
      ids.map fun i => HashrateTracker.advance rateOf (windows i) tick overhead (counts i) := by
  induction ids with
  | nil => rfl
  | cons i ids ih => rw [List.map_cons, List.map_cons, HashrateTracker.advanceAll, ih, List.map_cons]

/-- To change one entry of a list of counts is to change the count of one worker. -/
theorem modify_map_range (counts : Nat → UInt64) (workers worker : Nat) (hashes : UInt64) :
    ((List.range workers).map counts).modify worker (· + hashes) =
      (List.range workers).map fun i => if worker = i then counts i + hashes else counts i := by
  apply List.ext_getElem?
  intro i
  rw [List.getElem?_modify, List.getElem?_map, List.getElem?_map]
  -- behind the last worker there is nothing to change
  cases hi : (List.range workers)[i]? with
  | none => rfl
  | some j =>
    obtain ⟨hlt, hj⟩ := List.getElem?_eq_some_iff.mp hi
    obtain rfl : i = j := by rw [← hj, List.getElem_range]
    by_cases hworker : worker = i <;> simp [hworker]

/-- What counters and tracker hold after some actions, said by the actions alone. It is the
    invariant of a run. -/
structure Holds (workers : Nat) (actions : List Action) (m : Meter) : Prop where
  windows : m.tracker.workers = (List.range workers).map (windowsOf rateOf actions)
  tickCount : m.tracker.ticks = ticks actions
  counts : m.counters.counts =
    (List.range workers).map fun i => UInt64.ofNat (portion i (ticks actions) actions)
  highest : m.tracker.max.perSecond.toNat =
    (Finset.Icc 1 (ticks actions)).sup (totalAt rateOf workers actions)

variable {m : Meter} {workers : Nat}

theorem map_const_range {α : Type} (a : α) (workers : Nat) :
    (List.range workers).map (fun _ => a) = List.replicate workers a := by
  rw [List.map_const', List.length_range]

theorem holds_start (workers : Nat) : (start workers).Holds rateOf workers [] where
  windows := (map_const_range WorkerWindows.empty workers).symm
  tickCount := rfl
  counts := (map_const_range 0 workers).symm
  highest := rfl

/-- A record changes the count of one worker, and neither a window nor the highest total. -/
theorem Holds.record (h : m.Holds rateOf workers actions) (worker : Nat) (hashes : UInt64) :
    (m.step rateOf (.record worker hashes)).Holds rateOf workers
      (actions ++ [.record worker hashes]) := by
  refine ⟨?_, h.tickCount.trans ticks_record.symm, ?_, ?_⟩
  · show m.tracker.workers = _
    rw [h.windows]
    apply List.map_congr_left
    intro i _
    simp only [windowsOf, openCount_record, lastRate_record]
  · show m.counters.counts.modify worker (· + hashes) = _
    rw [h.counts, modify_map_range]
    apply List.map_congr_left
    intro i _
    rw [portion_record, ticks_record]
    -- the count of that worker is its open portion, and the counts of the others stay
    by_cases hworker : worker = i
    · rw [if_pos hworker, if_pos ⟨hworker, rfl⟩, UInt64.ofNat_add, UInt64.ofNat_toNat]
    · rw [if_neg hworker, if_neg fun heq => hworker heq.1, Nat.add_zero]
  · rw [ticks_record]
    refine h.highest.trans (Finset.sup_congr rfl fun k hk => ?_)
    obtain ⟨hpos, hle⟩ := Finset.mem_Icc.mp hk
    exact (totalAt_append rateOf workers hpos hle _).symm

/-- The total that a tick compares with the highest one. -/
theorem toNat_sum_windowsOf_tick (actions : List Action) (workers overhead : Nat) :
    (HashRate.sum (((List.range workers).map
        (windowsOf rateOf (actions ++ [.tick overhead]))).map (·.tenSeconds))).perSecond.toNat =
      totalAt rateOf workers (actions ++ [.tick overhead]) (ticks actions + 1) := by
  rw [HashRate.toNat_sum, totalAt, List.map_map, List.map_map]
  congr 2
  apply List.map_congr_left
  intro i _
  rw [Nat.add_sub_cancel, portion_tick, overheadAt_tick]
  exact congrArg (·.perSecond.toNat) (lastRate_one_tick rateOf actions i overhead)

theorem sup_Icc_succ (f : Nat → Nat) (n : Nat) :
    (Finset.Icc 1 (n + 1)).sup f = max (f (n + 1)) ((Finset.Icc 1 n).sup f) := by
  have hIcc : Finset.Icc 1 (n + 1) = insert (n + 1) (Finset.Icc 1 n) := by
    ext k
    simp only [Finset.mem_insert, Finset.mem_Icc]
    omega
  rw [hIcc, Finset.sup_insert]

/-- A tick advances the windows of all workers, sets their counts to zero, and compares the new
    total with the highest one. -/
theorem Holds.tick (h : m.Holds rateOf workers actions) (overhead : Nat) :
    (m.step rateOf (.tick overhead)).Holds rateOf workers (actions ++ [.tick overhead]) := by
  have hwindows : (m.step rateOf (.tick overhead)).tracker.workers =
      (List.range workers).map (windowsOf rateOf (actions ++ [.tick overhead])) := by
    show HashrateTracker.advanceAll rateOf (m.tracker.ticks + 1) overhead m.tracker.workers
      m.counters.counts = _
    rw [h.windows, h.tickCount, h.counts, advanceAll_map]
    apply List.map_congr_left
    intro i _
    exact advance_windowsOf rateOf actions overhead i
  refine ⟨hwindows, ?_, ?_, ?_⟩
  · rw [ticks_tick, ← h.tickCount]
    rfl
  · -- nothing was recorded since this tick
    have hzero (i : Nat) : portion i (ticks actions + 1) (actions ++ [.tick overhead]) = 0 := by
      rw [portion_tick]
      exact portion_of_lt (Nat.lt_succ_self _)
    show List.replicate m.counters.counts.length 0 = _
    rw [h.counts, List.length_map, List.length_range, ticks_tick]
    simp only [hzero]
    exact (map_const_range 0 workers).symm
  · have hbefore : (Finset.Icc 1 (ticks actions)).sup
        (totalAt rateOf workers (actions ++ [.tick overhead])) = m.tracker.max.perSecond.toNat := by
      refine (Finset.sup_congr rfl fun k hk => ?_).trans h.highest.symm
      obtain ⟨hpos, hle⟩ := Finset.mem_Icc.mp hk
      exact totalAt_append rateOf workers hpos hle _
    let sum := HashRate.sum
      ((m.step rateOf (.tick overhead)).tracker.workers.map (·.tenSeconds))
    have hsum : sum.perSecond.toNat =
        totalAt rateOf workers (actions ++ [.tick overhead]) (ticks actions + 1) := by
      rw [← toNat_sum_windowsOf_tick, ← hwindows]
    rw [ticks_tick, sup_Icc_succ, hbefore, ← hsum]
    -- the tracker keeps the greater of the two, and the greater in `UInt64` is the greater number
    show (if m.tracker.max.perSecond < sum.perSecond then sum else m.tracker.max).perSecond.toNat
      = _
    split
    · next hless =>
      exact (max_eq_left (Nat.le_of_lt (UInt64.lt_iff_toNat_lt.mp hless))).symm
    · next hless =>
      exact (max_eq_right (UInt64.le_iff_toNat_le.mp (UInt64.not_lt.mp hless))).symm

theorem Holds.step (h : m.Holds rateOf workers actions) (action : Action) :
    (m.step rateOf action).Holds rateOf workers (actions ++ [action]) := by
  cases action with
  | record worker hashes => exact h.record rateOf worker hashes
  | tick overhead => exact h.tick rateOf overhead

/-- What holds at the start and is kept by every action holds after any actions. -/
theorem holds_run (workers : Nat) (actions : List Action) :
    ((start workers).run rateOf actions).Holds rateOf workers actions := by
  induction actions using List.reverseRecOn with
  | nil => exact holds_start rateOf workers
  | append_singleton actions action ih =>
    rw [run, List.foldl_concat]
    exact ih.step rateOf action

/-! ## No gap and no overlap -/

/-- Windows of one size that follow each other are one span. -/
theorem sum_between (actions : List Action) (i size count : Nat) :
    ∑ g ∈ Finset.range count, between actions i (size * g) (size * (g + 1)) =
      between actions i 0 (size * count) := by
  induction count with
  | zero => rfl
  | succ count ih =>
    rw [Finset.sum_range_succ, ih]
    exact Finset.sum_Ico_consecutive _ (Nat.zero_le _) (Nat.mul_le_mul_left _ (Nat.le_succ _))

/-- All portions together are all that was recorded. -/
theorem between_all (actions : List Action) (i : Nat) :
    between actions i 0 (ticks actions + 1) = total i actions := by
  induction actions with
  | nil => rfl
  | cons action rest ih =>
    rw [between, ← Finset.range_eq_Ico] at ih ⊢
    cases action with
    | record worker hashes =>
      have hticks : ticks (.record worker hashes :: rest) = ticks rest := rfl
      rw [hticks, Finset.sum_range_succ', portion, total, ← ih, Finset.sum_range_succ']
      simp only [portion]
      omega
    | tick overhead =>
      have hticks : ticks (.tick overhead :: rest) = ticks rest + 1 := rfl
      rw [hticks, Finset.sum_range_succ', total, ← ih]
      rfl

/-- Whatever span is taken, a worker recorded no more in it than in all. -/
theorem between_le_total (actions : List Action) (i first last : Nat) :
    between actions i first last ≤ total i actions := by
  rw [← between_all]
  -- portions behind the last tick are empty, so a span may as well end there
  calc between actions i first last
      ≤ ∑ n ∈ Finset.Ico 0 (max last (ticks actions + 1)), portion i n actions :=
        Finset.sum_le_sum_of_subset (Finset.Ico_subset_Ico (Nat.zero_le _) (le_max_left _ _))
    _ = between actions i 0 (ticks actions + 1) := by
        refine (Finset.sum_subset (Finset.Ico_subset_Ico le_rfl (le_max_right _ _)) ?_).symm
        intro n _ hn
        apply portion_of_lt
        simp only [Finset.mem_Ico, Nat.zero_le, true_and] at hn
        omega

/-- The complete windows of one size and the open one hold every recorded hash once. -/
theorem sum_windows (actions : List Action) (i size : Nat) :
    ∑ g ∈ Finset.range (ticks actions / size), between actions i (size * g) (size * (g + 1)) +
        between actions i (size * (ticks actions / size)) (ticks actions + 1) =
      total i actions := by
  rw [sum_between, ← between_all]
  exact Finset.sum_Ico_consecutive _ (Nat.zero_le _)
    ((Nat.mul_div_le _ _).trans (Nat.le_succ _))

/-! ## The report -/

/-- A report tells, for each worker, the rate over the last complete window of each size, and
    the highest total over ten seconds at any tick. A window lasts ten seconds a tick and the
    overhead of the tick that completes it. The windows of one size, with the open one, hold every
    hash that a worker recorded once, and no count leaves its width. -/
theorem run_windows (workers : Nat) (actions : List Action)
    (hfits : ∀ i < workers, total i actions < 2 ^ 64) :
    let report := ((start workers).run rateOf actions).tracker.report
    report.tenSeconds = (List.range workers).map (lastRate rateOf actions 1) ∧
      report.sixtySeconds = (List.range workers).map (lastRate rateOf actions 6) ∧
      report.fifteenMinutes = (List.range workers).map (lastRate rateOf actions 90) ∧
      report.max.perSecond.toNat =
        (Finset.Icc 1 (ticks actions)).sup (totalAt rateOf workers actions) ∧
      ∀ i < workers,
        (∀ first last, (UInt64.ofNat (between actions i first last)).toNat =
          between actions i first last) ∧
        ∀ size,
          ∑ g ∈ Finset.range (ticks actions / size),
              between actions i (size * g) (size * (g + 1)) +
            between actions i (size * (ticks actions / size)) (ticks actions + 1) =
          total i actions := by
  intro report
  have h := holds_run rateOf workers actions
  refine ⟨?_, ?_, ?_, h.highest, fun i hi => ⟨fun first last => ?_, sum_windows actions i⟩⟩
  · show List.map _ _ = _
    rw [h.windows, List.map_map]
    rfl
  · show List.map _ _ = _
    rw [h.windows, List.map_map]
    rfl
  · show List.map _ _ = _
    rw [h.windows, List.map_map]
    rfl
  · -- no span holds more than all that the worker recorded, which has its place in 64 bits
    exact UInt64.toNat_ofNat_of_lt'
      ((between_le_total actions i first last).trans_lt (hfits i hi))

/-- Six ticks of two workers, which record out of step; the last tick is two seconds late. -/
def sixTicks : List Action :=
  [.record 0 5, .record 1 4, .tick 0, .tick 0, .record 1 7, .record 0 2, .record 1 1, .tick 1,
    .tick 0, .tick 0, .record 0 3, .tick 2000000000]

/-- A count and the seconds it took, side by side. It stands in for the rate where a result is to
    show what was divided by what. -/
def countAndTime (count : UInt64) (secs _ : Nat) : HashRate := ⟨count * 1000 + UInt64.ofNat secs⟩

/-- Each worker has its own rates: the second recorded nothing since the last tick but one, and
    more than the first over all six. The highest total is that of the third tick, where both had
    recorded. -/
theorem run_windows_small :
    (∀ i < 2, total i sixTicks < 2 ^ 64) ∧
      let report := ((start 2).run countAndTime sixTicks).tracker.report
      report.tenSeconds = [⟨3012⟩, ⟨12⟩] ∧ report.sixtySeconds = [⟨10062⟩, ⟨12062⟩] ∧
        report.fifteenMinutes = [⟨0⟩, ⟨0⟩] ∧ report.max.perSecond.toNat = 10020 := by
  have hfits : ∀ i < 2, total i sixTicks < 2 ^ 64 := by
    intro i hi
    rcases (show i = 0 ∨ i = 1 by omega) with rfl | rfl
    · show 10 < 2 ^ 64
      omega
    · show 12 < 2 ^ 64
      omega
  obtain ⟨hten, hsixty, hfifteen, hmax, _⟩ := run_windows countAndTime 2 sixTicks hfits
  refine ⟨hfits, hten.trans ?_, hsixty.trans ?_, hfifteen.trans ?_, hmax.trans ?_⟩
  · decide
  · decide
  · decide
  · decide

end Meter
end SoloMiner
