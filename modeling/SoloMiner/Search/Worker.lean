import SoloMiner.Random.Digits
import SoloMiner.Settings.Threads
import SoloMiner.Share.Found

/-! # Workers

    A worker takes a job, pairs its chunk of the easy values with all of them, both in random
    order, and then draws pairs of random operands until it finds a share, a new job appears
    or the miner stops.

    A run is described by what the worker meets: the random words it draws, and the answers it
    gets when it looks whether to abandon the job. The answers are a function of the number of
    looks taken, so that a new job may appear between any two of them. The words are finite;
    a run that needs more of them than there are ends there, with all it has done so far. -/

namespace SoloMiner

/-! ## Runs -/

/-- What a worker does that can be seen from outside. The journal of a worker has these, the
    latest first. -/
inductive WorkerEvent where
  | took (job : JobTemplate)
  /-- Tries all candidates of a pair of operands. -/
  | paired (first second : Int64)
  /-- Counts a hash. -/
  | hashed (c : Candidate)
  | submitted (share : FoundShare)

/-- A worker and what it will meet. The words that it draws and the looks that find an
    interruption are fixed beforehand, so what holds of all workers holds however they come. -/
structure Worker where
  settings : WorkerSettings
  encoder : ShareEncoder
  /-- The last encryption. -/
  output : EncryptedShare
  /-- Was a share of the present job found? -/
  blockFound : Bool
  words : Words
  /-- Would look number `n` find a new job or a stop? -/
  interrupted : Nat → Bool
  looks : Nat
  /-- What the worker has done, the latest first. -/
  journal : List WorkerEvent

/-- The record of a run ends before the run does. -/
inductive RunEnd where
  | outOfWords
  | outOfRounds
  deriving DecidableEq, Repr

/-- Steps of a worker. The worker outlives a run that ends early. -/
abbrev Search : Type → Type := EStateM RunEnd Worker

namespace Worker

def fresh (settings : WorkerSettings) (words : Words) (interrupted : Nat → Bool) : Worker :=
  ⟨settings, .fresh settings.digest, .blank, false, words, interrupted, 0, []⟩

def note (w : Worker) (e : WorkerEvent) : Worker := { w with journal := e :: w.journal }

/-- Number of hashes counted. -/
def hashCount (w : Worker) : Nat :=
  w.journal.countP fun e => match e with
    | .hashed _ => true
    | _ => false

/-- The last share submitted. -/
def lastShare? (w : Worker) : Option FoundShare :=
  w.journal.findSome? fun e => match e with
    | .submitted s => some s
    | _ => none

/-! ## Trying candidates -/

/-- Counts and encrypts a candidate, and submits it if its hash is the indication. Nothing is
    tried any more once a share was found. -/
def tryCandidate (job : JobTemplate) (jobType : JobType) (w : Worker) (c : Candidate) : Worker :=
  if w.blockFound then w
  else
    match w.encoder.encrypt job c w.output with
    | (.error _, encoder, output) => { w.note (.hashed c) with encoder, output }
    | (.ok (), encoder, output) =>
      let w := { w.note (.hashed c) with encoder, output }
      if output.isMatch job.indication then
        { w.note (.submitted (.ofCandidate job jobType c output)) with blockFound := true }
      else w

/-- Tries all candidates of a pair. -/
def tryPair (job : JobTemplate) (jobType : JobType) (w : Worker) (a b : Int64) : Worker :=
  (Candidate.ofPair a b job.minRange job.maxRange).foldl (tryCandidate job jobType)
    (w.note (.paired a b))

/-! ## Meeting the outside -/

/-- Looks whether to abandon the job: a share was found, a new job appeared, or the miner
    stops. -/
def look : Search Bool := fun w =>
  .ok (w.blockFound || w.interrupted w.looks) { w with looks := w.looks + 1 }

/-- Draws from the words. -/
def draw {α : Type} (sample : Words → Option (α × Words)) : Search α := fun w =>
  match sample w.words with
  | some (x, rest) => .ok x { w with words := rest }
  | none => .error .outOfWords w

/-! ## Easy search -/

/-- Pairs `first` with the values at positions below `n`, in random order. A value paired
    trades places with the last one still to come. -/
def easyRow (job : JobTemplate) (first : Int64) : Nat → Array Int64 → Search (Array Int64)
  | 0, easy => pure easy
  | n + 1, easy => do
    let r ← draw (Random.index n)
    modify (tryPair job .easy · first (easy.getD r 0))
    easyRow job first n (easy.swapIfInBounds n r)

/-- What is left of an easy search: the values at positions below `left` of `chunk` have not
    been paired with the values of `easy`. -/
structure EasyRows where
  left : Nat
  chunk : Array Int64
  easy : Array Int64
  deriving DecidableEq, Repr

/-- Pairs each of the values at positions below `n` of `chunk`, in random order, with all easy
    values, and gives what is left when the job is abandoned. -/
def easyRows (job : JobTemplate) : Nat → Array Int64 → Array Int64 → Search EasyRows
  | 0, chunk, easy => pure ⟨0, chunk, easy⟩
  | n + 1, chunk, easy => do
    let r ← draw (Random.index n)
    let easy ← easyRow job (chunk.getD r 0) easy.size easy
    let chunk := chunk.setIfInBounds r (chunk.getD n 0)
    if ← look then pure ⟨n, chunk, easy⟩
    else easyRows job n chunk easy

/-- The easy search of the worker numbered `slot.1` of `slot.2`, before it begins. -/
def EasyRows.ofSlot (job : JobTemplate) (slot : Nat × Nat) : EasyRows :=
  let (start, length) := EasyBlock.chunk job.easyValues.size slot.2 slot.1
  ⟨length, job.easyValues.extract start (start + length), job.easyValues⟩

/-- Does what is left of an easy search. -/
def EasyRows.search (job : JobTemplate) (rows : EasyRows) : Search EasyRows :=
  easyRows job rows.left rows.chunk rows.easy

/-- The easy search of the worker numbered `slot.1` of `slot.2`. -/
def easySearch (job : JobTemplate) (slot : Nat × Nat) : Search Unit :=
  discard ((EasyRows.ofSlot job slot).search job)

/-! ## Random search -/

/-- Redraws between looks while only easy values turn up. -/
def redrawsPerLook : Nat := 64

/-- The sampler that the settings ask for. -/
def sampler (settings : WorkerSettings) : Int64 → Int64 → Words → Option (Int64 × Words) :=
  if settings.digitSampler then Random.byDigits else Random.between

/-- Draws, at most `rounds` times, until the value is not easy; `none` if the job is to be
    abandoned. `attempts` easy values have been drawn so far. -/
def operandFrom (job : JobTemplate) : Nat → Nat → Search (Option Int64)
  | 0, _ => throw .outOfRounds
  | rounds + 1, attempts => do
    let v ← draw (sampler (← get).settings job.minRange job.maxRange)
    if !job.isEasyValue v then
      pure (some v)
    else if (attempts + 1) % redrawsPerLook = 0 then
      if ← look then pure none
      else operandFrom job rounds (attempts + 1)
    else
      operandFrom job rounds (attempts + 1)

def operand (job : JobTemplate) (rounds : Nat) : Search (Option Int64) := operandFrom job rounds 0

/-- Pairs `a` and `b` both ways with the values at positions below `n`, in random order; `none`
    if the job is to be abandoned. -/
def semiRandomRow (job : JobTemplate) (a b : Int64) :
    Nat → Array Int64 → Search (Option (Array Int64))
  | 0, easy => pure (some easy)
  | n + 1, easy => do
    if ← look then pure none
    else
      let r ← draw (Random.index n)
      let e := easy.getD r 0
      modify (tryPair job .semiRandom · a e)
      modify (tryPair job .semiRandom · e a)
      modify (tryPair job .semiRandom · b e)
      modify (tryPair job .semiRandom · e b)
      semiRandomRow job a b n (easy.swapIfInBounds n r)

/-- One round: draws two operands, redrawing less than `redraws` times, and pairs them with
    each other and with all easy values; `none` if the job is to be abandoned. -/
def randomRound (job : JobTemplate) (redraws : Nat) (easy : Array Int64) :
    Search (Option (Array Int64)) := do
  match ← operand job redraws with
  | none => pure none
  | some a =>
    match ← operand job redraws with
    | none => pure none
    | some b =>
      modify (tryPair job .random · a b)
      modify (tryPair job .random · b a)
      semiRandomRow job a b easy.size easy

/-- Round after round, at most `rounds` of them, until the job is to be abandoned. The easy
    values stay in the order in which the last round left them. -/
def randomRounds (job : JobTemplate) : Nat → Array Int64 → Search Unit
  | 0, _ => throw .outOfRounds
  | rounds + 1, easy => do
    if ← look then pure ()
    else
      match ← randomRound job (rounds + 1) easy with
      | none => pure ()
      | some easy => randomRounds job rounds easy

/-! ## Jobs -/

/-- Is there anything to search beyond the easy values? -/
def searchesRandom (settings : WorkerSettings) (job : JobTemplate) : Bool :=
  !settings.easyBlockOnly && !job.easyValuesCoverRange

/-- The search beyond the easy one, if there is anything to search. -/
def mineRandom (job : JobTemplate) (rounds : Nat) : Search Unit := do
  if searchesRandom (← get).settings job then randomRounds job rounds job.easyValues
  else pure ()

/-- Searches a job, with at most `rounds` rounds of the random search. The easy search comes
    first, for a worker that takes part in it. -/
def mine (job : JobTemplate) (rounds : Nat) : Search Unit := do
  match (← get).settings.easySlot with
  | none => mineRandom job rounds
  | some slot =>
    easySearch job slot
    if ← look then pure ()
    else mineRandom job rounds

/-- Takes a job. -/
def take (job : JobTemplate) : Search Unit :=
  modify fun w => { w.note (.took job) with blockFound := false }

/-- Takes and searches jobs one after the other. It ends early if the words or the rounds are
    used up. -/
def run (rounds : Nat) : List JobTemplate → Search Unit
  | [] => pure ()
  | job :: jobs => do
    take job
    mine job rounds
    run rounds jobs

end Worker
end SoloMiner
