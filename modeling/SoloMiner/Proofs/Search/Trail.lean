import Mathlib.Data.List.Perm.Subperm
import SoloMiner.Proofs.Random.Bounds
import SoloMiner.Proofs.Search.Record

/-! # Plans of a search

    A stretch of a search goes through a plan: pairs, each in front of its candidates. As long
    as no candidate wins, the journal is the plan. The first one that wins is submitted, and
    from then on the pairs still go by, but no hash is counted and nothing else is submitted. -/

namespace SoloMiner

/-! ## What was tried -/

/-- The pairs of operands among some events. -/
def WorkerEvent.pairsOf (events : List WorkerEvent) : List (Int64 × Int64) :=
  events.filterMap fun e => match e with
    | .paired a b => some (a, b)
    | _ => none

/-- The pairs of operands tried, the latest first. -/
def Worker.pairs (w : Worker) : List (Int64 × Int64) :=
  w.journal.filterMap fun e => match e with
    | .paired a b => some (a, b)
    | _ => none

/-- The shares submitted, the latest first. -/
def Worker.shares (w : Worker) : List FoundShare :=
  w.journal.filterMap fun e => match e with
    | .submitted s => some s
    | _ => none

/-- What is to be done for a pair: to note it, and to hash each of its candidates in the order of
    the rules. -/
def JobTemplate.attempt (job : JobTemplate) (pair : Int64 × Int64) : List WorkerEvent :=
  .paired pair.1 pair.2 ::
    (Candidate.ofPair pair.1 pair.2 job.minRange job.maxRange).map .hashed

theorem WorkerEvent.pairsOf_append (events events' : List WorkerEvent) :
    pairsOf (events ++ events') = pairsOf events ++ pairsOf events' :=
  List.filterMap_append

theorem WorkerEvent.pairsOf_attempt (job : JobTemplate) (pair : Int64 × Int64) :
    pairsOf (job.attempt pair) = [pair] := by
  have hhashed : ∀ cs : List Candidate, pairsOf (cs.map .hashed) = [] := by
    intro cs
    simp [pairsOf, List.filterMap_map]
  show pair :: pairsOf (List.map _ _) = [pair]
  rw [hhashed]

theorem WorkerEvent.pairsOf_flatMap_attempt (job : JobTemplate) (pairs : List (Int64 × Int64)) :
    pairsOf (pairs.flatMap job.attempt) = pairs := by
  induction pairs with
  | nil => rfl
  | cons pair pairs ih => rw [List.flatMap_cons, pairsOf_append, pairsOf_attempt, ih]; rfl

/-! ## Candidates that win -/

/-- The hash of the candidate is the indication. Such a candidate is what a search is for. -/
def JobTemplate.Wins (job : JobTemplate) (digest : ShareDigest) (c : Candidate) : Prop :=
  ∃ out, job.Encrypts digest c out ∧ out.isMatch job.indication = true

/-- An indication that has not the length of a hash is won by no candidate. -/
theorem JobTemplate.not_wins_of_length {job : JobTemplate}
    (h : (Bytes.ofString job.indication).length ≠ ShareDigest.textLength) (digest : ShareDigest)
    (c : Candidate) : ¬job.Wins digest c := by
  rintro ⟨out, ⟨e, hencrypt⟩, hmatch⟩
  rw [EncryptedShare.isMatch, beq_iff_eq] at hmatch
  rw [← hmatch, ShareEncoder.length_hash_of_encrypt hencrypt] at h
  exact h rfl

/-- Some candidate of the pair wins. -/
def JobTemplate.HasWinner (job : JobTemplate) (digest : ShareDigest) (pair : Int64 × Int64) :
    Prop :=
  ∃ c ∈ Candidate.ofPair pair.1 pair.2 job.minRange job.maxRange, job.Wins digest c

/-- The candidates of a plan are those of its pairs. -/
theorem JobTemplate.exists_wins_iff {job : JobTemplate} {digest : ShareDigest}
    {pairs : List (Int64 × Int64)} :
    (∃ c, .hashed c ∈ pairs.flatMap job.attempt ∧ job.Wins digest c) ↔
      ∃ pair ∈ pairs, job.HasWinner digest pair := by
  simp only [List.mem_flatMap, attempt, List.mem_cons, reduceCtorEq, false_or, List.mem_map,
    WorkerEvent.hashed.injEq, exists_eq_right, HasWinner]
  constructor
  · rintro ⟨c, ⟨pair, hpair, hc⟩, hwins⟩
    exact ⟨pair, hpair, c, hc, hwins⟩
  · rintro ⟨pair, hpair, c, hc, hwins⟩
    exact ⟨c, ⟨pair, hpair, hc⟩, hwins⟩

namespace Worker

/-! ## Going through a plan -/

/-- Between `w` and `w'` the worker goes through `plan`. -/
structure GoesThrough (job : JobTemplate) (plan : List WorkerEvent) (w w' : Worker) : Prop where
  interrupted_eq : w'.interrupted = w.interrupted
  looks_le : w.looks ≤ w'.looks
  journal_suffix : w.journal <:+ w'.journal
  pairs_eq : w'.pairs = (WorkerEvent.pairsOf plan).reverse ++ w.pairs
  /-- Without a share everything planned is done. -/
  journal_eq : w'.blockFound = false →
    w.blockFound = false ∧ w'.journal = plan.reverse ++ w.journal
  /-- The flag is set with the one share that is submitted. -/
  shares_eq : ∃ shares, w'.shares = shares ++ w.shares ∧
    shares.length + w.blockFound.toNat = w'.blockFound.toNat
  found_iff : ∀ digest, w.encoder.IsReady digest → w'.encoder.IsReady digest ∧
    (w'.blockFound = true ↔ w.blockFound = true ∨ ∃ c, .hashed c ∈ plan ∧ job.Wins digest c)

variable {job : JobTemplate} {plan plan' : List WorkerEvent} {w w' w'' : Worker}

/-- To go through two plans one after the other is to go through both. -/
theorem GoesThrough.trans (h : GoesThrough job plan w w') (h' : GoesThrough job plan' w' w'') :
    GoesThrough job (plan ++ plan') w w'' := by
  constructor
  case interrupted_eq => exact h'.interrupted_eq.trans h.interrupted_eq
  case looks_le => exact Nat.le_trans h.looks_le h'.looks_le
  case journal_suffix => exact h.journal_suffix.trans h'.journal_suffix
  case pairs_eq =>
    rw [h'.pairs_eq, h.pairs_eq, WorkerEvent.pairsOf_append, List.reverse_append, List.append_assoc]
  case journal_eq =>
    intro hfound
    obtain ⟨hfound', hjournal'⟩ := h'.journal_eq hfound
    obtain ⟨hfound₀, hjournal⟩ := h.journal_eq hfound'
    refine ⟨hfound₀, ?_⟩
    rw [hjournal', hjournal, List.reverse_append, List.append_assoc]
  case shares_eq =>
    obtain ⟨shares, hshares, hlength⟩ := h.shares_eq
    obtain ⟨shares', hshares', hlength'⟩ := h'.shares_eq
    refine ⟨shares' ++ shares, ?_, ?_⟩
    · rw [hshares', hshares, List.append_assoc]
    · rw [List.length_append]
      omega
  case found_iff =>
    -- the flag is set by one of the plans or was set before
    intro digest hready
    obtain ⟨hready', hfound⟩ := h.found_iff digest hready
    obtain ⟨hready'', hfound'⟩ := h'.found_iff digest hready'
    refine ⟨hready'', ?_⟩
    rw [hfound', hfound, or_assoc]
    refine or_congr_right ?_
    simp only [List.mem_append, or_and_right, exists_or]

/-- What is planned is done, and none of it wins. -/
theorem GoesThrough.of_journal_eq (hinterrupted : w'.interrupted = w.interrupted)
    (hlooks : w.looks ≤ w'.looks) (hfound : w'.blockFound = w.blockFound)
    (hjournal : w'.journal = plan.reverse ++ w.journal) (hshares : w'.shares = w.shares)
    (hmiss : ∀ digest, w.encoder.IsReady digest → w'.encoder.IsReady digest ∧
      ∀ c, .hashed c ∈ plan → ¬job.Wins digest c) : GoesThrough job plan w w' := by
  constructor
  case interrupted_eq => exact hinterrupted
  case looks_le => exact hlooks
  case journal_suffix => exact hjournal ▸ List.suffix_append _ _
  case pairs_eq =>
    rw [pairs, hjournal, List.filterMap_append, List.filterMap_reverse]
    rfl
  case journal_eq => exact fun h => ⟨hfound ▸ h, hjournal⟩
  case shares_eq => exact ⟨[], hshares, by rw [hfound]; simp⟩
  case found_iff =>
    intro digest hready
    obtain ⟨hready', hmiss⟩ := hmiss digest hready
    refine ⟨hready', ?_⟩
    rw [hfound]
    exact ⟨.inl, fun h => h.elim id fun ⟨c, hc, hwins⟩ => (hmiss c hc hwins).elim⟩

theorem GoesThrough.refl (job : JobTemplate) (w : Worker) : GoesThrough job [] w w :=
  .of_journal_eq rfl (Nat.le_refl _) rfl rfl rfl fun _ hready => ⟨hready, nofun⟩

/-- Drawing is no part of a plan. -/
theorem GoesThrough.draw (job : JobTemplate) (w : Worker) (words : Words) :
    GoesThrough job [] w { w with words := words } :=
  .of_journal_eq rfl (Nat.le_refl _) rfl rfl rfl fun _ hready => ⟨hready, nofun⟩

/-- Neither is looking. -/
theorem GoesThrough.look (job : JobTemplate) (w : Worker) :
    GoesThrough job [] w { w with looks := w.looks + 1 } :=
  .of_journal_eq rfl (Nat.le_succ _) rfl rfl rfl fun _ hready => ⟨hready, nofun⟩

theorem GoesThrough.note_paired (job : JobTemplate) (w : Worker) (a b : Int64) :
    GoesThrough job [.paired a b] w (w.note (.paired a b)) :=
  .of_journal_eq rfl (Nat.le_refl _) rfl rfl rfl fun _ hready => ⟨hready, by simp⟩

/-- A candidate is passed over once a share was found. Before that it is counted, and the one
    that wins is submitted as well. -/
theorem tryCandidate_cases (job : JobTemplate) (jobType : JobType) (w : Worker) (c : Candidate) :
    (w.blockFound = true ∧ w.tryCandidate job jobType c = w) ∨
    (∃ encoder output, w.blockFound = false ∧
      w.tryCandidate job jobType c = { w.note (.hashed c) with encoder, output } ∧
      ∀ digest, w.encoder.IsReady digest → encoder.IsReady digest ∧ ¬job.Wins digest c) ∨
    (∃ encoder output share, w.blockFound = false ∧
      w.tryCandidate job jobType c =
        { (w.note (.hashed c)).note (.submitted share) with encoder, output, blockFound := true } ∧
      ∀ digest, w.encoder.IsReady digest → encoder.IsReady digest ∧ job.Wins digest c) := by
  have hready : ∀ digest, w.encoder.IsReady digest →
      (w.encoder.encrypt job c w.output).2.1.IsReady digest :=
    fun _ hready => hready.encrypt job c w.output
  unfold Worker.tryCandidate
  by_cases hfound : w.blockFound = true
  · rw [if_pos hfound]
    exact .inl ⟨hfound, rfl⟩
  · rw [if_neg hfound]
    have hfound : w.blockFound = false := eq_false_of_ne_true hfound
    split
    · next fault e out hres =>
      -- what cannot be encrypted does not win
      rw [hres] at hready
      refine .inr (.inl ⟨e, out, hfound, rfl, fun digest h => ⟨hready digest h, ?_⟩⟩)
      rintro ⟨out', hencrypts, -⟩
      obtain ⟨e', hok⟩ := (JobTemplate.encrypts_iff h c w.output).mp hencrypts
      rw [hres] at hok
      cases hok
    · next e out hres =>
      rw [hres] at hready
      by_cases hmatch : out.isMatch job.indication = true
      · simp only [hmatch, if_true]
        refine .inr (.inr ⟨e, out, _, hfound, rfl, fun digest h => ⟨hready digest h, out, ?_⟩⟩)
        exact ⟨(JobTemplate.encrypts_iff h c w.output).mpr ⟨e, hres⟩, hmatch⟩
      · simp only [hmatch, Bool.false_eq_true, if_false]
        refine .inr (.inl ⟨e, out, hfound, rfl, fun digest h => ⟨hready digest h, ?_⟩⟩)
        -- there is but one thing that ready encoders make of the candidate
        rintro ⟨out', hencrypts, hmatch'⟩
        obtain ⟨e', hok⟩ := (JobTemplate.encrypts_iff h c w.output).mp hencrypts
        rw [hres] at hok
        cases hok
        exact hmatch hmatch'

/-- To try a candidate goes through the plan of hashing it, whether it is passed over, misses or
    wins. -/
theorem GoesThrough.tryCandidate (job : JobTemplate) (jobType : JobType) (w : Worker)
    (c : Candidate) : GoesThrough job [.hashed c] w (w.tryCandidate job jobType c) := by
  rcases tryCandidate_cases job jobType w c with ⟨hfound, heq⟩ |
    ⟨encoder, output, hfound, heq, hmiss⟩ | ⟨encoder, output, share, hfound, heq, hwins⟩
  · -- the flag is set already, so the plan asks for nothing
    rw [heq]
    constructor
    case interrupted_eq => rfl
    case looks_le => exact Nat.le_refl _
    case journal_suffix => exact List.suffix_rfl
    case pairs_eq => rfl
    case journal_eq => simp [hfound]
    case shares_eq => exact ⟨[], rfl, by simp⟩
    case found_iff => exact fun digest hready => ⟨hready, by simp [hfound]⟩
  · rw [heq]
    -- it is hashed and misses
    refine .of_journal_eq rfl (Nat.le_refl _) rfl rfl rfl fun digest hready => ?_
    obtain ⟨hready', hmiss⟩ := hmiss digest hready
    exact ⟨hready', by simpa using hmiss⟩
  · -- the flag goes up with the share
    rw [heq]
    constructor
    case interrupted_eq => rfl
    case looks_le => exact Nat.le_refl _
    case journal_suffix => exact ⟨[_, _], rfl⟩
    case pairs_eq => rfl
    case journal_eq => exact nofun
    case shares_eq => exact ⟨[share], rfl, by simp [hfound]⟩
    case found_iff =>
      intro digest hready
      obtain ⟨hready', hwins⟩ := hwins digest hready
      exact ⟨hready', by simp [hwins]⟩

theorem GoesThrough.tryCandidates (job : JobTemplate) (jobType : JobType) (w : Worker)
    (cs : List Candidate) :
    GoesThrough job (cs.map .hashed) w (cs.foldl (Worker.tryCandidate job jobType) w) := by
  induction cs generalizing w with
  | nil => exact .refl job w
  | cons c cs ih => exact (GoesThrough.tryCandidate job jobType w c).trans (ih _)

theorem GoesThrough.tryPair (job : JobTemplate) (jobType : JobType) (w : Worker) (a b : Int64) :
    GoesThrough job (job.attempt (a, b)) w (w.tryPair job jobType a b) :=
  (GoesThrough.note_paired job w a b).trans (.tryCandidates job jobType _ _)

/-! ## Trying pairs -/

/-- Between `w` and `w'` just the given pairs were tried, in whatever order. Once a share is
    found the others are still noted, but none of their candidates is hashed. -/
def TriesAll (job : JobTemplate) (pairs : List (Int64 × Int64)) (w w' : Worker) : Prop :=
  ∃ order : List (Int64 × Int64), order.Perm pairs ∧
    GoesThrough job (order.flatMap job.attempt) w w'

/-- Between `w` and `w'` some of the given pairs were tried, in whatever order. None of them is
    tried more often than it is given. -/
def TriesSome (job : JobTemplate) (pairs : List (Int64 × Int64)) (w w' : Worker) : Prop :=
  ∃ order : List (Int64 × Int64), order.Subperm pairs ∧
    GoesThrough job (order.flatMap job.attempt) w w'

variable {ps qs : List (Int64 × Int64)}

theorem GoesThrough.triesAll (h : GoesThrough job [] w w') : TriesAll job [] w w' :=
  ⟨[], List.Perm.refl _, h⟩

theorem GoesThrough.triesSome (h : GoesThrough job [] w w') (ps : List (Int64 × Int64)) :
    TriesSome job ps w w' :=
  ⟨[], List.nil_subperm, h⟩

theorem triesAll_tryPair (job : JobTemplate) (jobType : JobType) (w : Worker) (a b : Int64) :
    TriesAll job [(a, b)] w (w.tryPair job jobType a b) := by
  refine ⟨[(a, b)], List.Perm.refl _, ?_⟩
  rw [List.flatMap_singleton]
  exact .tryPair job jobType w a b

theorem TriesAll.perm (h : TriesAll job ps w w') (hperm : ps.Perm qs) : TriesAll job qs w w' := by
  obtain ⟨order, horder, hgoes⟩ := h
  exact ⟨order, horder.trans hperm, hgoes⟩

theorem TriesSome.mono (h : TriesSome job ps w w') (hsub : ps.Subperm qs) :
    TriesSome job qs w w' := by
  obtain ⟨order, horder, hgoes⟩ := h
  exact ⟨order, horder.trans hsub, hgoes⟩

theorem TriesAll.triesSome (h : TriesAll job ps w w') : TriesSome job ps w w' := by
  obtain ⟨order, horder, hgoes⟩ := h
  exact ⟨order, horder.subperm, hgoes⟩

theorem TriesAll.trans (h : TriesAll job ps w w') (h' : TriesAll job qs w' w'') :
    TriesAll job (ps ++ qs) w w'' := by
  obtain ⟨order, horder, hgoes⟩ := h
  obtain ⟨order', horder', hgoes'⟩ := h'
  refine ⟨order ++ order', horder.append horder', ?_⟩
  rw [List.flatMap_append]
  exact hgoes.trans hgoes'

theorem TriesAll.trans_some (h : TriesAll job ps w w') (h' : TriesSome job qs w' w'') :
    TriesSome job (ps ++ qs) w w'' := by
  obtain ⟨order, horder, hgoes⟩ := h
  obtain ⟨order', horder', hgoes'⟩ := h'
  refine ⟨order ++ order', horder.subperm.append horder', ?_⟩
  rw [List.flatMap_append]
  exact hgoes.trans hgoes'

theorem TriesSome.interrupted_eq (h : TriesSome job ps w w') : w'.interrupted = w.interrupted := by
  obtain ⟨order, -, hgoes⟩ := h
  exact hgoes.interrupted_eq

theorem TriesSome.shares_eq (h : TriesSome job ps w w') :
    ∃ shares, w'.shares = shares ++ w.shares ∧
      shares.length + w.blockFound.toNat = w'.blockFound.toNat := by
  obtain ⟨order, -, hgoes⟩ := h
  exact hgoes.shares_eq

/-- A worker that tries all pairs finds a share just if one of them has it. -/
theorem TriesAll.found_iff {digest : ShareDigest} (h : TriesAll job ps w w')
    (hready : w.encoder.IsReady digest) (hfound : w.blockFound = false) :
    w'.blockFound = true ↔ ∃ pair ∈ ps, job.HasWinner digest pair := by
  obtain ⟨order, horder, hgoes⟩ := h
  rw [(hgoes.found_iff digest hready).2, JobTemplate.exists_wins_iff, hfound]
  simp only [Bool.false_eq_true, false_or, horder.mem_iff]

/-- What is found on the way is one of them all the same. -/
theorem TriesSome.exists_of_found {digest : ShareDigest} (h : TriesSome job ps w w')
    (hready : w.encoder.IsReady digest) (hfound : w.blockFound = false)
    (hfound' : w'.blockFound = true) : ∃ pair ∈ ps, job.HasWinner digest pair := by
  obtain ⟨order, horder, hgoes⟩ := h
  rw [(hgoes.found_iff digest hready).2, JobTemplate.exists_wins_iff, hfound] at hfound'
  obtain ⟨pair, hpair, hwinner⟩ := hfound'.resolve_left Bool.false_ne_true
  exact ⟨pair, horder.subset hpair, hwinner⟩

/-! ## Giving up -/

/-- Between `w` and `w'` the worker looked, and the last look told it to abandon the job: a share
    was found, or somebody interrupted the search. -/
def Abandons (w w' : Worker) : Prop :=
  ∃ n, w.looks ≤ n ∧ w'.looks = n + 1 ∧ (w'.blockFound || w'.interrupted n) = true

theorem GoesThrough.trans_abandons (h : GoesThrough job plan w w') (h' : Abandons w' w'') :
    Abandons w w'' := by
  obtain ⟨n, hlooks, hlast, hseen⟩ := h'
  exact ⟨n, Nat.le_trans h.looks_le hlooks, hlast, hseen⟩

theorem TriesAll.trans_abandons (h : TriesAll job ps w w') (h' : Abandons w' w'') :
    Abandons w w'' := by
  obtain ⟨order, -, hgoes⟩ := h
  exact hgoes.trans_abandons h'

/-! ## Rules for the loops -/

section
open Search

variable {β : Type} {P : Worker → Prop} {S : β → Worker → Prop}

/-- A draw that fails leaves the worker as it was. -/
theorem meets_draw_bind (job : JobTemplate) {α : Type} {sample : Words → Option (α × Words)} {f : α → Search β}
    (hfail : P w)
    (hf : ∀ x w', GoesThrough job [] w w' → (∃ words rest, sample words = some (x, rest)) →
      Meets (f x) w' P S) : Meets (Worker.draw sample >>= f) w P S := by
  have hdraw : Meets (Worker.draw sample) w P fun x w' =>
      GoesThrough job [] w w' ∧ ∃ words rest, sample words = some (x, rest) := by
    unfold Meets
    simp only [Worker.draw]
    cases hsample : sample w.words with
    | none => exact hfail
    | some drawn => exact ⟨.draw job w drawn.2, w.words, drawn.2, hsample⟩
  exact meets_bind hdraw fun x w' h => hf x w' h.1 h.2

theorem meets_drawIndex_bind (job : JobTemplate) {n : Nat} {f : Nat → Search β} (hn : n < EasyBlock.maxCount)
    (hfail : P w) (hf : ∀ r w', GoesThrough job [] w w' → r ≤ n → Meets (f r) w' P S) :
    Meets (Worker.draw (Random.index n) >>= f) w P S := by
  refine meets_draw_bind job hfail ?_
  intro r w' hgoes hdrawn
  obtain ⟨words, rest, hindex⟩ := hdrawn
  exact hf r w' hgoes (Random.index_le (Nat.lt_trans hn (by decide)) hindex)

/-- A look never fails, and a worker that goes on after it has found no share. -/
theorem meets_look_ite (job : JobTemplate) {m m' : Search β}
    (habandon : ∀ w', GoesThrough job [] w w' → Abandons w w' → Meets m w' P S)
    (hstay : ∀ w', GoesThrough job [] w w' → w.blockFound = false → Meets m' w' P S) :
    Meets (do if ← Worker.look then m else m') w P S := by
  have hlook : Meets Worker.look w P fun abandon w' => GoesThrough job [] w w' ∧
      (abandon = true → Abandons w w') ∧ (abandon = false → w.blockFound = false) := by
    refine ⟨.look job w, ?_, ?_⟩
    · exact fun hseen => ⟨w.looks, Nat.le_refl _, rfl, hseen⟩
    · exact fun hseen => (Bool.or_eq_false_iff.mp hseen).1
  -- the answer of the look decides which of the two searches follows
  refine meets_bind hlook ?_
  intro abandon w' h
  obtain ⟨hgoes, hseen, hsearching⟩ := h
  cases abandon with
  | true => exact habandon w' hgoes (hseen rfl)
  | false => exact hstay w' hgoes (hsearching rfl)

end

end Worker
end SoloMiner
