import Mathlib.Algebra.Ring.Nat
import Mathlib.Data.List.Nodup
import SoloMiner.Proofs.Job.Division
import SoloMiner.Proofs.Search.EasyRows
import SoloMiner.Proofs.Search.ZeroWords
import SoloMiner.Proofs.Settings.EasySlots

/-! # The easy phase

    On a job that no pair of easy values wins, workers that are left alone try every pair of
    easy values once, each pair by one of them, with all its candidates.

    On such a job no worker gives up, so each tries all the pairs that fall to it. The chunks of
    all workers make up the easy values. -/

namespace SoloMiner

/-! ## What was tried -/

/-- Number of candidates of a pair. It depends on the operands and the range, and on no hash. -/
def JobTemplate.candidateCount (job : JobTemplate) (pair : Int64 × Int64) : Nat :=
  (Candidate.ofPair pair.1 pair.2 job.minRange job.maxRange).length

/-- No candidate of a pair of easy values wins. On such a job an easy search has nothing to stop
    for but the end of its pairs. -/
def JobTemplate.IsHopeless (job : JobTemplate) (digest : ShareDigest) : Prop :=
  ∀ a ∈ job.easyValues, ∀ b ∈ job.easyValues,
    ∀ c ∈ Candidate.ofPair a b job.minRange job.maxRange, ∀ out,
      job.Encrypts digest c out → out.isMatch job.indication = false

/-- No hash is an indication of another length. -/
theorem JobTemplate.isHopeless_of_length {job : JobTemplate} (digest : ShareDigest)
    (h : (Bytes.ofString job.indication).length ≠ ShareDigest.textLength) :
    job.IsHopeless digest := by
  rintro a - b - c - out ⟨e, hencrypt⟩
  have hlength := ShareEncoder.length_hash_of_encrypt hencrypt
  rw [EncryptedShare.isMatch, beq_eq_false_iff_ne]
  intro heq
  exact h (heq ▸ hlength)

namespace Worker

/-- Between `w` and `w'` just the given pairs were tried, each with all its candidates. Neither
    the order of the pairs nor that of the hashes is told. -/
structure Tried (job : JobTemplate) (pairs : List (Int64 × Int64)) (w w' : Worker) : Prop where
  pairs_perm : w'.pairs.Perm (pairs ++ w.pairs)
  hashCount_eq : w'.hashCount = w.hashCount + (pairs.map job.candidateCount).sum

/-- Number of hashes among some events. -/
def hashesOf (events : List WorkerEvent) : Nat :=
  events.countP fun e => match e with
    | .hashed _ => true
    | _ => false

theorem hashesOf_attempt (job : JobTemplate) (pair : Int64 × Int64) :
    hashesOf (job.attempt pair) = job.candidateCount pair := by
  simp [hashesOf, JobTemplate.attempt, JobTemplate.candidateCount, List.countP_map]

theorem hashesOf_flatMap_attempt (job : JobTemplate) (pairs : List (Int64 × Int64)) :
    hashesOf (pairs.flatMap job.attempt) = (pairs.map job.candidateCount).sum := by
  induction pairs with
  | nil => rfl
  | cons pair pairs ih =>
    rw [List.flatMap_cons, hashesOf, List.countP_append]
    show hashesOf (job.attempt pair) + hashesOf (pairs.flatMap job.attempt) = _
    rw [hashesOf_attempt, ih, List.map_cons, List.sum_cons]

/-- As long as no share is found, what is tried is tried to the last candidate. -/
theorem TriesAll.tried {job : JobTemplate} {ps : List (Int64 × Int64)} {w w' : Worker}
    (h : TriesAll job ps w w') (hfound : w'.blockFound = false) : Tried job ps w w' := by
  obtain ⟨order, horder, hgoes⟩ := h
  refine ⟨?_, ?_⟩
  · rw [hgoes.pairs_eq, WorkerEvent.pairsOf_flatMap_attempt]
    exact (order.reverse_perm.trans horder).append_right _
  · -- the journal has each pair of the plan, and behind it a hash for each of its candidates
    obtain ⟨-, hjournal⟩ := hgoes.journal_eq hfound
    show hashesOf w'.journal = hashesOf w.journal + _
    rw [hjournal, hashesOf, List.countP_append, List.countP_reverse, Nat.add_comm,
      ← (horder.map job.candidateCount).sum_nat, ← hashesOf_flatMap_attempt]
    rfl

variable {digest : ShareDigest} {job : JobTemplate} {w w' : Worker}

/-- On a job without hope it tries all its pairs to the last candidate. -/
theorem IsUndisturbed.easySearch_tried (h : w.IsUndisturbed digest) (laid : job.IsLaidOut)
    (hopeless : job.IsHopeless digest) {slot : Nat × Nat}
    (hsearch : easySearch job slot w = .ok () w') : Tried job (pairsOfSlot job slot) w w' := by
  obtain ⟨hsome, hall⟩ := h.easySearch_tries laid hsearch
  have hfound : w'.blockFound = false := by
    rw [← Bool.not_eq_true]
    -- a share would be that of a pair in the range, where there is no hope
    intro hfound
    obtain ⟨⟨a, b⟩, hpair, c, hc, out, hencrypts, hmatch⟩ :=
      hsome.exists_of_found h.encoder_isReady h.blockFound_eq hfound
    obtain ⟨ha, hb⟩ := List.mem_product.mp hpair
    have hmiss := hopeless a (EasyBlock.mem_of_mem_chunkOf (Array.mem_toList_iff.mp ha)) b
      (Array.mem_toList_iff.mp hb) c hc out hencrypts
    rw [hmiss] at hmatch
    cases hmatch
  exact (hall hfound).tried hfound

end Worker

/-! ## The pool -/

namespace Worker

/-- The worker with these settings takes the job, whatever it did before, and its easy search
    leads from `w` to its end `w'` without a stop or a new job. -/
structure SearchesEasy (settings : WorkerSettings) (job : JobTemplate) (w w' : Worker) : Prop where
  takes : ∃ words interrupted rounds earlier before, (∀ job ∈ earlier, job.IsBuilt) ∧
    run rounds earlier (fresh settings words interrupted) = .ok () before ∧
    take job before = .ok () w
  quiet : ∀ n, w.looks ≤ n → w.interrupted n = false
  ends : ∃ slot, settings.easySlot = some slot ∧ easySearch job slot w = .ok () w'

variable {settings : WorkerSettings} {job : JobTemplate} {w w' : Worker}

/-- Whatever it did before, a worker that takes a job starts with no share and an encoder that
    is ready. -/
theorem SearchesEasy.isUndisturbed (h : SearchesEasy settings job w w') :
    w.IsUndisturbed settings.digest := by
  obtain ⟨words, interrupted, rounds, earlier, before, hbuilt, hrun, htake⟩ := h.takes
  have hfresh : (fresh settings words interrupted).encoder.IsReady settings.digest :=
    ShareEncoder.isReady_fresh settings.digest
  have hready := run_isReady hbuilt hfresh hrun
  have hquiet := h.quiet
  -- taking the job clears the flag that an earlier share has set
  cases htake
  exact ⟨hready, rfl, hquiet⟩

theorem SearchesEasy.tried (h : SearchesEasy settings job w w') (laid : job.IsLaidOut)
    (hopeless : job.IsHopeless settings.digest) :
    ∃ slot, settings.easySlot = some slot ∧ Tried job (pairsOfSlot job slot) w w' := by
  obtain ⟨slot, hslot, hsearch⟩ := h.ends
  exact ⟨slot, hslot, h.isUndisturbed.easySearch_tried laid hopeless hsearch⟩

/-- A worker of the easy search can be given words with which it comes to the end. -/
theorem exists_searchesEasy {slot : Nat × Nat} (hslot : settings.easySlot = some slot)
    (job : JobTemplate) : ∃ w w', SearchesEasy settings job w w' := by
  let words : Words :=
    List.replicate ((EasyRows.ofSlot job slot).left * (job.easyValues.size + 1)) 0
  let w := { (fresh settings words fun _ => false).note (.took job) with blockFound := false }
  obtain ⟨w', hsearch⟩ := easySearch_of_count job slot (w := w)
    (Nat.le_of_eq List.count_replicate_self.symm)
  exact ⟨w, w', ⟨words, fun _ => false, 0, [], _, nofun, rfl, rfl⟩, fun _ _ => rfl, slot, hslot,
    hsearch⟩

/-- What several workers tried, counted over all of them. -/
theorem sum_of_tried {L : List WorkerSettings} {start finish : WorkerSettings → Worker}
    {ps : WorkerSettings → List (Int64 × Int64)}
    (h : ∀ x ∈ L, Tried job (ps x) (start x) (finish x)) :
    (∀ p, (L.map fun x => (finish x).pairs.count p).sum =
        (L.map fun x => (start x).pairs.count p).sum + (L.flatMap ps).count p) ∧
      (L.map fun x => (finish x).hashCount).sum =
        (L.map fun x => (start x).hashCount).sum +
          ((L.flatMap ps).map job.candidateCount).sum := by
  induction L with
  | nil => exact ⟨fun _ => rfl, rfl⟩
  | cons x L ih =>
    obtain ⟨hcount, hhash⟩ := ih fun y hy => h y (List.mem_cons_of_mem _ hy)
    have hx := h x List.mem_cons_self
    refine ⟨?_, ?_⟩
    · intro p
      have hp := hx.pairs_perm.count_eq p
      rw [List.count_append] at hp
      simp only [List.map_cons, List.sum_cons, List.flatMap_cons, List.count_append, hcount, hp]
      omega
    · have hh := hx.hashCount_eq
      simp only [List.map_cons, List.sum_cons, List.flatMap_cons, List.map_append,
        List.sum_append, hhash, hh]
      omega

end Worker

open Worker

/-- What falls to the slots of a pool is all pairs. -/
theorem flatMap_pairsOfSlot (job : JobTemplate) {n : Nat} (h : 0 < n) :
    (List.range n).flatMap (fun index => pairsOfSlot job (index, n)) =
      job.easyValues.toList ×ˢ job.easyValues.toList := by
  have hchunks := EasyBlock.flatMap_chunkOf job.easyValues h
  show (List.range n).flatMap (fun index => (EasyBlock.chunkOf job.easyValues n index).toList.flatMap
    fun a => job.easyValues.toList.map (a, ·)) =
      job.easyValues.toList.flatMap fun a => job.easyValues.toList.map (a, ·)
  rw [← List.flatMap_assoc, hchunks]

theorem flatMap_easyWorkers (s : PoolSettings) (digest : ShareDigest) (job : JobTemplate)
    (h : s.easyWorkers digest ≠ []) :
    (s.easyWorkers digest).flatMap (fun x => (x.easySlot.map (pairsOfSlot job)).getD []) =
      job.easyValues.toList ×ˢ job.easyValues.toList := by
  rw [← flatMap_pairsOfSlot job (List.length_pos_of_ne_nil h)]
  have hslots := congrArg (List.flatMap fun slot => (slot.map (pairsOfSlot job)).getD [])
    (s.map_easySlot digest)
  rw [List.flatMap_map, List.flatMap_map] at hslots
  exact hslots

/-- Each pair of easy values is tried once. -/
theorem count_product (job : JobTemplate) (laid : job.IsLaidOut) (a b : Int64) :
    (job.easyValues.toList ×ˢ job.easyValues.toList).count (a, b) =
      if a ∈ job.easyValues ∧ b ∈ job.easyValues then 1 else 0 := by
  have hnodup := List.Nodup.product laid.nodup laid.nodup
  have hmem : (a, b) ∈ job.easyValues.toList ×ˢ job.easyValues.toList ↔
      a ∈ job.easyValues ∧ b ∈ job.easyValues := by
    rw [List.mem_product, Array.mem_toList_iff, Array.mem_toList_iff]
  -- no easy value occurs twice, so no pair does
  by_cases h : a ∈ job.easyValues ∧ b ∈ job.easyValues
  · rw [if_pos h]
    exact List.count_eq_one_of_mem hnodup (hmem.mpr h)
  · rw [if_neg h]
    exact List.count_eq_zero_of_not_mem (hmem.not.mpr h)

/-- Whatever words the workers draw, in the easy phase of a hopeless job the pool tries each
    ordered pair of easy values once and no other pair, and counts a hash for each candidate. -/
theorem easyPhase_tries_each_pair_once (s : PoolSettings) (digest : ShareDigest)
    (job : JobTemplate) (start finish : WorkerSettings → Worker)
    (hpool : s.easyWorkers digest ≠ []) (hbuilt : job.IsBuilt)
    (hopeless : job.IsHopeless digest)
    (hrun : ∀ x ∈ s.easyWorkers digest, SearchesEasy x job (start x) (finish x)) :
    (∀ a b, ((s.easyWorkers digest).map fun x => (finish x).pairs.count (a, b)).sum =
        ((s.easyWorkers digest).map fun x => (start x).pairs.count (a, b)).sum +
          if a ∈ job.easyValues ∧ b ∈ job.easyValues then 1 else 0) ∧
      ((s.easyWorkers digest).map fun x => (finish x).hashCount).sum =
        ((s.easyWorkers digest).map fun x => (start x).hashCount).sum +
          ((job.easyValues.toList ×ˢ job.easyValues.toList).map job.candidateCount).sum := by
  have laid := hbuilt.isLaidOut
  have htried : ∀ x ∈ s.easyWorkers digest,
      Tried job ((x.easySlot.map (pairsOfSlot job)).getD []) (start x) (finish x) := by
    intro x hx
    -- every worker of the pool hashes with its digest function
    have hdigest : x.digest = digest := by
      rw [PoolSettings.easyWorkers_eq] at hx
      obtain ⟨id, -, rfl⟩ := List.mem_map.mp hx
      rfl
    obtain ⟨slot, hslot, htried⟩ := (hrun x hx).tried laid (hdigest ▸ hopeless)
    rw [hslot]
    exact htried
  obtain ⟨hcount, hhash⟩ := sum_of_tried htried
  rw [flatMap_easyWorkers s digest job hpool] at hhash hcount
  refine ⟨?_, hhash⟩
  intro a b
  rw [hcount, count_product job laid]

/-- A pool of two workers on the range from two to nine, with an indication that is no hash. -/
theorem easyPhase_tries_each_pair_once_small :
    ∃ (job : JobTemplate) (start finish : WorkerSettings → Worker),
      JobTemplate.build ⟨7, 0, "AES", "", 1, 2, 9, [107]⟩ ⟨0, .bits128, [115], [120]⟩ = .ok job ∧
      (∀ x ∈ PoolSettings.easyWorkers { threads := 2 } .sha3,
        SearchesEasy x job (start x) (finish x)) ∧
      (∀ a b, ((PoolSettings.easyWorkers { threads := 2 } .sha3).map
            fun x => (finish x).pairs.count (a, b)).sum =
          ((PoolSettings.easyWorkers { threads := 2 } .sha3).map
            fun x => (start x).pairs.count (a, b)).sum +
            if a ∈ job.easyValues ∧ b ∈ job.easyValues then 1 else 0) ∧
        ((PoolSettings.easyWorkers { threads := 2 } .sha3).map fun x => (finish x).hashCount).sum =
          ((PoolSettings.easyWorkers { threads := 2 } .sha3).map fun x => (start x).hashCount).sum +
            ((job.easyValues.toList ×ˢ job.easyValues.toList).map job.candidateCount).sum := by
  obtain ⟨job, hbuild⟩ := JobTemplate.exists_build ⟨7, 0, "AES", "", 1, 2, 9, [107]⟩
    ⟨0, .bits128, [115], [120]⟩ (by decide)
  have hruns : ∀ x : WorkerSettings, ∃ w w',
      x ∈ PoolSettings.easyWorkers { threads := 2 } .sha3 → SearchesEasy x job w w' := by
    intro x
    by_cases hx : x ∈ PoolSettings.easyWorkers { threads := 2 } .sha3
    · obtain ⟨slot, hslot⟩ := Option.isSome_iff_exists.mp (List.mem_filter.mp hx).2
      obtain ⟨w, w', hrun⟩ := exists_searchesEasy hslot job
      exact ⟨w, w', fun _ => hrun⟩
    · exact ⟨fresh x [] fun _ => false, fresh x [] fun _ => false, fun h => (hx h).elim⟩
  -- the functions are asked for all settings, so those of no worker get some worker too
  choose start finish hrun using hruns
  refine ⟨job, start, finish, hbuild, hrun, ?_⟩
  refine easyPhase_tries_each_pair_once _ _ job start finish (by decide) ⟨_, _, hbuild⟩ ?_ hrun
  obtain ⟨aesKey, aesIv, rfl⟩ := JobTemplate.eq_of_build hbuild
  exact JobTemplate.isHopeless_of_length _ (show (Bytes.ofString "").length ≠ 128 by decide)

end SoloMiner
