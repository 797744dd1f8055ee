import SoloMiner.Proofs.Search.Rules
import SoloMiner.Proofs.Share.Arithmetic
import SoloMiner.Proofs.Share.EncoderReuse

/-! # Records of jobs

    What a worker does on one job is the run of a small automaton, with the flag of the worker
    as its state: while no share was found, hashes are counted, and a sound share may be
    submitted; from then on only pairs go by. Trying a pair is a run of the automaton. -/

namespace SoloMiner

/-! ## Sound shares -/

/-- How a share with operands `a` and `b` counts: by the number of easy values among them. The
    search never asks this, as each of its loops knows what it pairs. -/
def JobTemplate.jobTypeOf (job : JobTemplate) (a b : Int64) : JobType :=
  if a ∈ job.easyValues then
    if b ∈ job.easyValues then .easy else .semiRandom
  else
    if b ∈ job.easyValues then .semiRandom else .random

/-- `out` is what an encoder makes of a candidate. A fresh one stands for all, since used
    encoders make the same of it. -/
def JobTemplate.Encrypts (job : JobTemplate) (digest : ShareDigest) (c : Candidate)
    (out : EncryptedShare) : Prop :=
  ∃ e, (ShareEncoder.fresh digest).encrypt job c .blank = (.ok (), e, out)

/-- Ready encoders make the same of a candidate. -/
theorem JobTemplate.encrypts_iff {job : JobTemplate} {digest : ShareDigest} {e : ShareEncoder}
    (h : e.IsReady digest) (c : Candidate) (out : EncryptedShare) {out' : EncryptedShare} :
    job.Encrypts digest c out' ↔ ∃ e', e.encrypt job c out = (.ok (), e', out') := by
  have hcongr := ShareEncoder.encrypt_congr h (ShareEncoder.isReady_fresh digest) job c out .blank
  unfold Encrypts
  -- only the results count, so the two encryptions need not be looked into
  generalize e.encrypt job c out = used at hcongr ⊢
  generalize (ShareEncoder.fresh digest).encrypt job c .blank = new at hcongr ⊢
  obtain ⟨result, e₁, out₁⟩ := used
  obtain ⟨result', e₂, out₂⟩ := new
  obtain ⟨hresult, hout⟩ := hcongr
  simp only at hresult hout
  constructor
  · intro hnew
    obtain ⟨e', heq⟩ := hnew
    cases heq
    exact ⟨e₁, by rw [hout hresult, hresult]⟩
  · intro hused
    obtain ⟨e', heq⟩ := hused
    cases heq
    exact ⟨e₂, by rw [← hout rfl, hresult]⟩

/-- The calculation that a share states. -/
def FoundShare.candidate (s : FoundShare) : Candidate :=
  ⟨s.first, s.operator, s.second, s.solution⟩

/-- A right answer to a job: operands and result are in the range and the calculation is right,
    it is one of the rules, and share and hash are those of the calculation. -/
structure FoundShare.IsSound (digest : ShareDigest) (job : JobTemplate) (s : FoundShare) :
    Prop where
  first_mem : job.minRange ≤ s.first ∧ s.first ≤ job.maxRange
  second_mem : job.minRange ≤ s.second ∧ s.second ≤ job.maxRange
  operator_mem : s.operator ∈ Operator.rulesFor s.first s.second
  evaluate_eq : s.operator.evaluate s.first s.second = some s.solution
  solution_mem : job.minRange ≤ s.solution ∧ s.solution ≤ job.maxRange
  height_eq : s.height = job.height
  /-- Share and hash are what the encoder makes of the calculation. -/
  encrypts : ∃ out, job.Encrypts digest s.candidate out ∧
    s.encryptedShare = out.shareText ∧ s.hash = out.hashText
  hash_eq : s.hash = job.indication
  jobType_eq : s.jobType = job.jobTypeOf s.first s.second

theorem EncryptedShare.hashText_of_isMatch {out : EncryptedShare} {indication : String}
    (h : out.isMatch indication = true) : out.hashText = indication := by
  have hhash : out.hash = Bytes.ofString indication := eq_of_beq h
  rw [hashText, hhash, Bytes.text?_ofString]
  rfl

/-- What is known of a candidate that is tried for a pair. -/
theorem Candidate.of_mem_ofPair {a b min max : Int64} {c : Candidate}
    (h : c ∈ ofPair a b min max) :
    c.first = a ∧ c.second = b ∧ c.operator ∈ Operator.rulesFor a b ∧
      c.operator.evaluate a b = some c.solution ∧ min ≤ c.solution ∧ c.solution ≤ max := by
  obtain ⟨o, ho, hc⟩ := List.mem_filterMap.mp h
  obtain ⟨solution, hsolution, hmin, hmax, rfl⟩ := ofOperator?_eq_some_iff.mp hc
  exact ⟨rfl, rfl, ho, hsolution, hmin, hmax⟩

/-! ## Records of jobs -/

/-- What a worker may do on a job, the latest first. The flag tells whether a share was found. -/
inductive JobRecord (digest : ShareDigest) (job : JobTemplate) :
    Bool → List WorkerEvent → Prop where
  | start : JobRecord digest job false []
  | paired {found : Bool} {events : List WorkerEvent} (a b : Int64) :
      JobRecord digest job found events → JobRecord digest job found (.paired a b :: events)
  | hashed {events : List WorkerEvent} (c : Candidate) :
      JobRecord digest job false events → JobRecord digest job false (.hashed c :: events)
  | submitted {events : List WorkerEvent} {s : FoundShare} :
      JobRecord digest job false events → s.IsSound digest job →
      JobRecord digest job true (.submitted s :: events)

namespace JobRecord

variable {digest : ShareDigest} {job : JobTemplate} {found : Bool} {events : List WorkerEvent}

theorem took_notMem (h : JobRecord digest job found events) (other : JobTemplate) :
    .took other ∉ events := by
  induction h with
  | start => exact List.not_mem_nil
  | paired a b _ ih => simpa using ih
  | hashed c _ ih => simpa using ih
  | submitted _ _ ih => simpa using ih

/-- Every share in a record is sound, by induction on the record. -/
theorem isSound_of_mem (h : JobRecord digest job found events) {s : FoundShare}
    (hs : .submitted s ∈ events) : s.IsSound digest job := by
  induction h with
  | start => cases hs
  | paired a b _ ih => exact ih (by simpa using hs)
  | hashed c _ ih => exact ih (by simpa using hs)
  | submitted _ hsound ih =>
    rcases List.mem_cons.mp hs with heq | hmem
    · obtain rfl := WorkerEvent.submitted.inj heq
      exact hsound
    · exact ih hmem

/-- The flag is set as soon as a share was submitted. -/
theorem found_of_mem (h : JobRecord digest job found events) {s : FoundShare}
    (hs : .submitted s ∈ events) : found = true := by
  induction h with
  | start => cases hs
  | paired a b _ ih => exact ih (by simpa using hs)
  | hashed c _ ih => exact ih (by simpa using hs)
  | submitted _ _ _ => rfl

/-- Behind a share only pairs go by. -/
theorem paired_of_later (h : JobRecord digest job found events) {later earlier : List WorkerEvent}
    {s : FoundShare} (heq : events = later ++ .submitted s :: earlier) :
    ∀ e ∈ later, ∃ a b, e = .paired a b := by
  induction h generalizing later with
  | start => simp at heq
  | paired a b hrest ih =>
    cases later with
    | nil => simp at heq
    | cons e later =>
      obtain ⟨rfl, hrest'⟩ := List.cons.inj heq
      intro e' he'
      rcases List.mem_cons.mp he' with rfl | hmem
      · exact ⟨a, b, rfl⟩
      · exact ih hrest' e' hmem
  | hashed c hrest ih =>
    cases later with
    | nil => simp at heq
    | cons e later =>
      -- the flag would have been set by the share further back
      obtain ⟨-, hrest'⟩ := List.cons.inj heq
      have := hrest.found_of_mem (s := s) (by simp [hrest'])
      cases this
  | submitted hrest hsound ih =>
    cases later with
    | nil => simp
    | cons e later =>
      obtain ⟨-, hrest'⟩ := List.cons.inj heq
      have := hrest.found_of_mem (s := s) (by simp [hrest'])
      cases this

end JobRecord

/-! ## Steps -/

/-- Fit to be an operand: inside the range, if the range holds anything at all. Of an empty range
    no candidate is made, so that its operands do not matter. -/
def JobTemplate.IsOperand (job : JobTemplate) (a : Int64) : Prop :=
  job.minRange ≤ job.maxRange → job.minRange ≤ a ∧ a ≤ job.maxRange

namespace Worker

/-- The worker has a job, and `older` is its journal up to the moment it took it. What it did
    since then is a record of this job. -/
structure OnJob (digest : ShareDigest) (job : JobTemplate) (older : List WorkerEvent)
    (w : Worker) : Prop where
  encoder_isReady : w.encoder.IsReady digest
  record : ∃ recent, w.journal = recent ++ older ∧ JobRecord digest job w.blockFound recent

variable {digest : ShareDigest} {job : JobTemplate} {older : List WorkerEvent} {w : Worker}

theorem OnJob.note_paired (h : w.OnJob digest job older) (a b : Int64) :
    (w.note (.paired a b)).OnJob digest job older := by
  obtain ⟨recent, hjournal, hrecord⟩ := h.record
  exact ⟨h.encoder_isReady, .paired a b :: recent, by simp [note, hjournal], hrecord.paired a b⟩

/-- A candidate whose hash is the indication makes a sound share. -/
theorem isSound_ofCandidate {a b : Int64} {c : Candidate} {jobType : JobType} {e : ShareEncoder}
    {out : EncryptedShare} (hc : c ∈ Candidate.ofPair a b job.minRange job.maxRange)
    (ha : job.IsOperand a) (hb : job.IsOperand b) (htype : jobType = job.jobTypeOf a b)
    (hencrypt : (ShareEncoder.fresh digest).encrypt job c .blank = (.ok (), e, out))
    (hmatch : out.isMatch job.indication = true) :
    (FoundShare.ofCandidate job jobType c out).IsSound digest job := by
  obtain ⟨rfl, rfl, hoperator, hevaluate, hmin, hmax⟩ := Candidate.of_mem_ofPair hc
  have hrange : job.minRange ≤ job.maxRange := Int64.le_trans hmin hmax
  exact
    { first_mem := ha hrange
      second_mem := hb hrange
      operator_mem := hoperator
      evaluate_eq := hevaluate
      solution_mem := ⟨hmin, hmax⟩
      height_eq := rfl
      encrypts := ⟨out, ⟨e, hencrypt⟩, rfl, rfl⟩
      hash_eq := EncryptedShare.hashText_of_isMatch hmatch
      jobType_eq := htype }

/-- One candidate is one step of the record, or two if it wins. -/
theorem OnJob.tryCandidate (h : w.OnJob digest job older) {a b : Int64} {c : Candidate}
    {jobType : JobType} (hc : c ∈ Candidate.ofPair a b job.minRange job.maxRange)
    (ha : job.IsOperand a) (hb : job.IsOperand b) (htype : jobType = job.jobTypeOf a b) :
    (w.tryCandidate job jobType c).OnJob digest job older := by
  unfold Worker.tryCandidate
  split
  · exact h
  · next hsearching =>
    have hfound : w.blockFound = false := eq_false_of_ne_true hsearching
    obtain ⟨recent, hjournal, hrecord⟩ := h.record
    rw [hfound] at hrecord
    have hready := h.encoder_isReady.encrypt job c w.output
    split
    · next fault e out hres =>
      -- a candidate that cannot be encrypted is counted all the same
      rw [hres] at hready
      refine ⟨hready, .hashed c :: recent, by simp [note, hjournal], ?_⟩
      show JobRecord digest job w.blockFound _
      rw [hfound]
      exact hrecord.hashed c
    · next e out hres =>
      rw [hres] at hready
      split
      · next hmatch =>
        obtain ⟨e', hfresh⟩ := (JobTemplate.encrypts_iff h.encoder_isReady c w.output).mpr ⟨e, hres⟩
        have hsound := isSound_ofCandidate hc ha hb htype hfresh hmatch
        exact ⟨hready, _ :: .hashed c :: recent, by simp [note, hjournal],
          (hrecord.hashed c).submitted hsound⟩
      · refine ⟨hready, .hashed c :: recent, by simp [note, hjournal], ?_⟩
        show JobRecord digest job w.blockFound _
        rw [hfound]
        exact hrecord.hashed c

theorem OnJob.tryPair (h : w.OnJob digest job older) {a b : Int64} {jobType : JobType}
    (ha : job.IsOperand a) (hb : job.IsOperand b) (htype : jobType = job.jobTypeOf a b) :
    (w.tryPair job jobType a b).OnJob digest job older := by
  unfold Worker.tryPair
  refine List.foldlRecOn (motive := fun w : Worker => w.OnJob digest job older) _ _
    (h.note_paired a b) ?_
  intro w hw c hc
  exact hw.tryCandidate hc ha hb htype

end Worker
end SoloMiner
