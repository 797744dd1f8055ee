import Mathlib.Data.List.Induction
import Mathlib.Data.List.SplitBy
import SoloMiner.Share.Tally

/-! # Tallies of verdicts

    Verdicts come in runs of equal heights. The tallies know of a run by its first verdict only,
    and that although they remember no more than the height they counted last: a verdict that is
    not counted has the height of the one before it, so the height remembered is always that of
    the verdict heard last. -/

namespace SoloMiner

/-- A verdict with what it is about. -/
structure Verdict where
  height : Int64
  jobType : JobType
  status : ShareStatus
  deriving DecidableEq, Repr

namespace Verdict

/-- The maximal runs of verdicts on one height. A height that comes back after another one begins
    a new run. -/
def runs (history : List Verdict) : List (List Verdict) :=
  history.splitBy fun u v => u.height == v.height

/-- Neighbours on one height are all on the height of the first, by induction on them. -/
theorem height_eq_of_isChain {v : Verdict} {rest : List Verdict}
    (h : (v :: rest).IsChain fun u w => (u.height == w.height) = true) :
    ∀ u ∈ rest, v.height = u.height := by
  induction rest generalizing v with
  | nil => simp
  | cons w rest ih =>
    rw [List.isChain_cons_cons, beq_iff_eq] at h
    intro u hu
    rcases List.mem_cons.mp hu with rfl | hu
    · exact h.1
    · exact h.1.trans (ih h.2 u hu)

end Verdict

namespace ShareTally

/-- The accepted verdicts of a list, and the others. It counts all of them, so it is used on
    verdicts that count. -/
def of (vs : List Verdict) : ShareTally :=
  ⟨vs.countP fun v => v.status.isAccepted, vs.countP fun v => !v.status.isAccepted⟩

theorem count_add (t u : ShareTally) (status : ShareStatus) :
    (t.count status).add u = (t.add u).count status := by
  unfold count add
  by_cases haccepted : status.isAccepted = true
  · simp only [if_pos haccepted, Nat.add_right_comm]
  · simp only [if_neg haccepted, Nat.add_right_comm]

theorem add_count (t u : ShareTally) (status : ShareStatus) :
    t.add (u.count status) = (t.add u).count status := by
  unfold count add
  by_cases haccepted : status.isAccepted = true
  · simp only [if_pos haccepted, Nat.add_assoc]
  · simp only [if_neg haccepted, Nat.add_assoc]

theorem of_cons (v : Verdict) (vs : List Verdict) : of (v :: vs) = (of vs).count v.status := by
  unfold of count
  rw [List.countP_cons, List.countP_cons]
  by_cases haccepted : v.status.isAccepted = true
  · simp [haccepted]
  · simp [haccepted]

theorem zero_add (t : ShareTally) : zero.add t = t := by
  unfold zero add
  rw [Nat.zero_add, Nat.zero_add]

theorem good_add_bad (vs : List Verdict) : (of vs).good + (of vs).bad = vs.length := by
  unfold of
  rw [List.length_eq_countP_add_countP fun v => v.status.isAccepted]
  simp

end ShareTally

namespace ShareStats

variable {s : ShareStats} {v : Verdict} {vs : List Verdict}

/-! ## One verdict -/

def take (s : ShareStats) (v : Verdict) : Bool × ShareStats := s.record v.height v.jobType v.status

theorem take_of_repeated (h : s.lastHeight = some v.height) : s.take v = (false, s) := by
  unfold take record
  rw [if_pos h]

theorem take_of_new (h : s.lastHeight ≠ some v.height) :
    s.take v = (true, { s.count v.jobType v.status with lastHeight := some v.height }) := by
  unfold take record
  rw [if_neg h]

/-- Counted or not, the verdict's height is the one remembered. -/
theorem lastHeight_take (s : ShareStats) (v : Verdict) :
    (s.take v).2.lastHeight = some v.height := by
  by_cases h : s.lastHeight = some v.height
  · rw [take_of_repeated h]
    exact h
  · rw [take_of_new h]

theorem counts_iff : (s.take v).1 = true ↔ s.lastHeight ≠ some v.height := by
  by_cases h : s.lastHeight = some v.height
  · simp [take_of_repeated h, h]
  · simp [take_of_new h, h]

theorem tally_take (h : s.lastHeight ≠ some v.height) (t : JobType) :
    (s.take v).2.tally t =
      if v.jobType = t then (s.tally t).count v.status else s.tally t := by
  rw [take_of_new h]
  cases v.jobType <;> cases t <;> rfl

/-- A verdict on a new height adds one to the total, whatever kind of job it is for. -/
theorem total_take (h : s.lastHeight ≠ some v.height) :
    (s.take v).2.total = s.total.count v.status := by
  rw [take_of_new h]
  unfold count
  -- the sum of three tallies of which one goes up
  cases v.jobType with
  | easy =>
    show ((ShareTally.zero.add (s.easy.count v.status)).add s.semiRandom).add s.random = _
    rw [ShareTally.add_count, ShareTally.count_add, ShareTally.count_add]
    rfl
  | semiRandom =>
    show ((ShareTally.zero.add s.easy).add (s.semiRandom.count v.status)).add s.random = _
    rw [ShareTally.add_count, ShareTally.count_add]
    rfl
  | random =>
    show ((ShareTally.zero.add s.easy).add s.semiRandom).add (s.random.count v.status) = _
    rw [ShareTally.add_count]
    rfl

/-! ## Histories -/

/-- The tallies after some verdicts. -/
def after (s : ShareStats) (vs : List Verdict) : ShareStats := vs.foldl (fun s v => (s.take v).2) s

/-- Those of some verdicts that are counted. -/
def counted (s : ShareStats) : List Verdict → List Verdict
  | [] => []
  | v :: vs => if (s.take v).1 then v :: (s.take v).2.counted vs else (s.take v).2.counted vs

theorem after_append (s : ShareStats) (us vs : List Verdict) :
    s.after (us ++ vs) = (s.after us).after vs := List.foldl_append

/-- The verdicts behind others are counted from where those left the tallies. -/
theorem counted_append (s : ShareStats) (us vs : List Verdict) :
    s.counted (us ++ vs) = s.counted us ++ (s.after us).counted vs := by
  induction us generalizing s with
  | nil => rfl
  | cons u us ih =>
    rw [List.cons_append, counted, counted, ih]
    by_cases h : (s.take u).1 = true
    · rw [if_pos h, if_pos h]
      rfl
    · rw [if_neg h, if_neg h]
      rfl

/-- The height remembered is that of the verdict heard last. -/
theorem lastHeight_after (s : ShareStats) (hne : vs ≠ []) :
    (s.after vs).lastHeight = vs.getLast?.map (·.height) := by
  obtain ⟨us, v, rfl⟩ := (List.eq_nil_or_concat' vs).resolve_left hne
  rw [after_append, List.getLast?_concat]
  exact lastHeight_take (s.after us) v

theorem lastHeight_after_empty (vs : List Verdict) :
    (empty.after vs).lastHeight = vs.getLast?.map (·.height) := by
  by_cases hne : vs = []
  · rw [hne]
    rfl
  · exact lastHeight_after empty hne

/-- A part of the tallies to which each counted verdict with `p` adds one, and nothing else adds
    anything, grows by the counted verdicts with `p`. -/
theorem part_after (part : ShareStats → ShareTally) (p : Verdict → Bool)
    (hpart : ∀ s v, s.lastHeight ≠ some v.height →
      part (s.take v).2 = if p v = true then (part s).count v.status else part s)
    (s : ShareStats) (vs : List Verdict) :
    part (s.after vs) = (part s).add (.of ((s.counted vs).filter p)) := by
  induction vs generalizing s with
  | nil => rfl
  | cons v vs ih =>
    show part ((s.take v).2.after vs) = _
    rw [ih, counted]
    -- a verdict on the height remembered leaves all tallies as they are
    by_cases h : s.lastHeight = some v.height
    · rw [take_of_repeated h]
      rfl
    · rw [hpart s v h, if_pos (counts_iff.mpr h), List.filter_cons]
      by_cases hp : p v = true
      · rw [if_pos hp, if_pos hp, ShareTally.count_add, ShareTally.of_cons,
          ShareTally.add_count]
      · rw [if_neg hp, if_neg hp]

theorem tally_after (vs : List Verdict) (t : JobType) :
    (empty.after vs).tally t = .of ((empty.counted vs).filter fun v => decide (v.jobType = t)) := by
  have hzero : empty.tally t = .zero := by cases t <;> rfl
  rw [part_after (fun s => s.tally t) (fun v => decide (v.jobType = t)) ?_ empty vs]
  · rw [hzero, ShareTally.zero_add]
  · intro s v h
    simp only [tally_take h, decide_eq_true_eq]

theorem total_after (vs : List Verdict) :
    (empty.after vs).total = .of (empty.counted vs) := by
  have hzero : empty.total = .zero := rfl
  rw [part_after total (fun _ => true) ?_ empty vs]
  · rw [hzero, ShareTally.zero_add, List.filter_true]
  · intro s v h
    rw [total_take h, if_pos rfl]

/-! ## Bounds -/

/-- What is counted was heard. -/
theorem counted_sublist (s : ShareStats) (vs : List Verdict) : (s.counted vs).Sublist vs := by
  induction vs generalizing s with
  | nil => exact List.Sublist.slnil
  | cons v vs ih =>
    rw [counted]
    by_cases h : (s.take v).1 = true
    · rw [if_pos h]
      exact (ih _).cons_cons v
    · rw [if_neg h]
      exact (ih _).cons v

/-- No counter goes past the number of verdicts heard. -/
theorem tally_le_length (history : List Verdict) (t : JobType) :
    ((empty.after history).tally t).good + ((empty.after history).tally t).bad ≤
      history.length := by
  rw [tally_after, ShareTally.good_add_bad]
  exact (List.filter_sublist.trans (counted_sublist empty history)).length_le

/-- The sum of all counters does not either: counters of 64 bits would count the same for as long
    as fewer than `2 ^ 64` verdicts are heard. -/
theorem total_le_length (history : List Verdict) :
    (empty.after history).total.good + (empty.after history).total.bad ≤ history.length := by
  rw [total_after, ShareTally.good_add_bad]
  exact (counted_sublist empty history).length_le

/-! ## Runs -/

/-- Of verdicts on the height remembered none is counted. -/
theorem counted_of_repeated (h : ∀ v ∈ vs, s.lastHeight = some v.height) : s.counted vs = [] := by
  induction vs with
  | nil => rfl
  | cons v vs ih =>
    have hv := take_of_repeated (h v List.mem_cons_self)
    rw [counted, hv]
    exact ih fun u hu => h u (List.mem_cons_of_mem v hu)

/-- Of a run on another height the first is counted. -/
theorem counted_run {rest : List Verdict} (h : s.lastHeight ≠ some v.height)
    (hrest : ∀ u ∈ rest, v.height = u.height) : s.counted (v :: rest) = [v] := by
  rw [counted, if_pos (counts_iff.mpr h), counted_of_repeated]
  intro u hu
  rw [lastHeight_take, hrest u hu]

/-- One of each run is counted, if the first run is on another height than the one remembered. -/
theorem counted_flatten {rs : List (List Verdict)} (hne : [] ∉ rs)
    (hequal : ∀ r ∈ rs, r.IsChain fun u v => (u.height == v.height) = true)
    (hapart : rs.IsChain fun r r' =>
      ∃ hr hr', ((r.getLast hr).height == (r'.head hr').height) = false)
    (hfirst : ∀ r ∈ rs.head?, ∀ v ∈ r.head?, s.lastHeight ≠ some v.height) :
    s.counted rs.flatten = rs.filterMap List.head? := by
  induction rs generalizing s with
  | nil => rfl
  | cons r rs ih =>
    rw [List.mem_cons, not_or] at hne
    obtain ⟨v, rest, rfl⟩ := List.exists_cons_of_ne_nil (Ne.symm hne.1)
    have hrun : s.counted (v :: rest) = [v] :=
      counted_run (hfirst _ rfl v rfl) (Verdict.height_eq_of_isChain (hequal _ List.mem_cons_self))
    have hlast := lastHeight_after s (List.cons_ne_nil v rest)
    have hhead : (v :: rest).head? = some v := rfl
    rw [List.flatten_cons, counted_append, hrun, List.filterMap_cons_some hhead]
    show v :: (s.after (v :: rest)).counted rs.flatten = v :: rs.filterMap List.head?
    congr 1
    refine ih hne.2 (fun r hr => hequal r (List.mem_cons_of_mem _ hr)) hapart.tail ?_
    -- the next run begins on another height than the one this run ends on
    intro r' hr' w hw hsame
    obtain ⟨hr, hr'', hdiffer⟩ := (List.isChain_cons.mp hapart).1 r' hr'
    have hend : ((v :: rest).getLast hr).height = w.height := by
      rw [hlast, List.getLast?_eq_some_getLast hr] at hsame
      exact Option.some.inj hsame
    have hbegin : r'.head hr'' = w := List.head_of_mem_head? hw
    rw [hbegin, hend, beq_self_eq_true] at hdiffer
    cases hdiffer

/-- From the beginning on, the counted verdicts are the first ones of the runs of equal heights. -/
theorem counted_eq_heads (history : List Verdict) :
    empty.counted history = (Verdict.runs history).filterMap List.head? := by
  have hnew : ∀ r ∈ (Verdict.runs history).head?, ∀ v ∈ r.head?,
      empty.lastHeight ≠ some v.height := by
    intro r _ v _ h
    cases h
  have h := counted_flatten (List.nil_notMem_splitBy _ history)
    (fun r hr => List.isChain_of_mem_splitBy hr)
    (List.isChain_getLast_head_splitBy (fun u v => u.height == v.height) history) hnew
  rwa [List.flatten_splitBy] at h

/-- Every run has a first verdict. -/
theorem length_heads (history : List Verdict) :
    ((Verdict.runs history).filterMap List.head?).length = (Verdict.runs history).length := by
  rw [List.length_filterMap_eq_countP, List.countP_eq_length]
  intro r hr
  rw [List.isSome_head?]
  exact List.ne_nil_of_mem_splitBy hr

/-! ## Tallies -/

/-- A verdict is counted if and only if its height differs from that of the verdict before it,
    whether or not that one was counted. So the counted verdicts are the first ones of the runs of
    equal heights. The tallies are those of the counted verdicts, each under its job type, and
    there are as many in all as there are runs. -/
theorem tallies_judge_runs (history : List Verdict) :
    (∀ v, ((empty.after history).take v).1 = true ↔
      history.getLast?.map (·.height) ≠ some v.height) ∧
    empty.counted history = (Verdict.runs history).filterMap List.head? ∧
    (∀ t, (empty.after history).tally t =
      .of ((empty.counted history).filter fun v => decide (v.jobType = t))) ∧
    (empty.after history).total = .of (empty.counted history) ∧
    (empty.after history).total.good + (empty.after history).total.bad =
      (Verdict.runs history).length := by
  refine ⟨?_, counted_eq_heads history, tally_after history, total_after history, ?_⟩
  · intro v
    rw [counts_iff, lastHeight_after_empty]
  · -- each counted verdict is the first of its run
    rw [total_after, ShareTally.good_add_bad, counted_eq_heads, length_heads]

end ShareStats
end SoloMiner
