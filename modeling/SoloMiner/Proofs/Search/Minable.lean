import Mathlib.Logic.Relation
import SoloMiner.Proofs.Job.Packets
import SoloMiner.Proofs.Search.Walk
import SoloMiner.Proofs.Share.Encryption

/-! # Minable jobs

    Two packets that can be read make a job, and the job can be mined: its range is in order,
    its keys fit the cipher, and a worker can encrypt whatever candidate it comes upon.

    A search is a path of small steps, and to be on a path without a failed encryption is an
    invariant of searches (`isKept_isOnPath`). So such a path leads to every point that a worker
    can reach (`Step`). -/

namespace SoloMiner

namespace Worker

open Search

/-! ## Steps without a failed encryption -/

/-- A step of a worker on `jobs`. A candidate that is counted is encrypted, and the worker goes
    by the outcome; there is no step that passes a candidate over. -/
inductive Step (jobs : List JobTemplate) (w : Worker) : Worker → Prop where
  | draw (words : Words) : Step jobs w { w with words := words }
  | look (looks : Nat) : Step jobs w { w with looks := looks }
  | take {job : JobTemplate} (mem : job ∈ jobs) :
      Step jobs w { w.note (.took job) with blockFound := false }
  | pair (a b : Int64) : Step jobs w (w.note (.paired a b))
  | miss {job : JobTemplate} {c : Candidate} {encoder : ShareEncoder} {output : EncryptedShare}
      (mem : job ∈ jobs) (searching : w.blockFound = false)
      (encrypted : w.encoder.encrypt job c w.output = (.ok (), encoder, output))
      (differs : output.isMatch job.indication = false) :
      Step jobs w { w.note (.hashed c) with encoder := encoder, output := output }
  | win {job : JobTemplate} {c : Candidate} {encoder : ShareEncoder} {output : EncryptedShare}
      (jobType : JobType) (mem : job ∈ jobs) (searching : w.blockFound = false)
      (encrypted : w.encoder.encrypt job c w.output = (.ok (), encoder, output))
      (matching : output.isMatch job.indication = true) :
      Step jobs w
        { (w.note (.hashed c)).note (.submitted (.ofCandidate job jobType c output)) with
          encoder := encoder, output := output, blockFound := true }

/-- The worker got here from `first` by such steps, and can encrypt. With a buffer too small for
    a text it could not, whatever the job. -/
structure IsOnPath (jobs : List JobTemplate) (first w : Worker) : Prop where
  path : Relation.ReflTransGen (Step jobs) first w
  encoder_isReady : ∃ digest, w.encoder.IsReady digest

/-- Steps that do not touch the encoder. -/
theorem IsOnPath.step {jobs : List JobTemplate} {first w w' : Worker} (h : IsOnPath jobs first w)
    (hstep : Step jobs w w') (hencoder : w'.encoder = w.encoder) : IsOnPath jobs first w' :=
  ⟨h.path.tail hstep, hencoder ▸ h.encoder_isReady⟩

/-- With keys that fit, a candidate is hashed, and submitted if it wins. None is passed over. -/
theorem IsOnPath.tryCandidate {jobs : List JobTemplate} {first w : Worker}
    (h : IsOnPath jobs first w) {job : JobTemplate} (hjob : job ∈ jobs) (hkeyed : job.IsKeyed)
    (jobType : JobType) (c : Candidate) : IsOnPath jobs first (w.tryCandidate job jobType c) := by
  obtain ⟨digest, hready⟩ := h.encoder_isReady
  have hok := ShareEncoder.encrypt_ok hkeyed hready c w.output
  have hready' := hready.encrypt job c w.output
  unfold Worker.tryCandidate
  split
  · exact h
  · next hsearching =>
    have hsearching' : w.blockFound = false := eq_false_of_ne_true hsearching
    split
    · next heq =>
      -- this is where a candidate would be passed over
      rw [heq] at hok
      cases hok
    · next encoder output heq =>
      rw [heq] at hready'
      split
      · next hmatch => exact ⟨h.path.tail (.win jobType hjob hsearching' heq hmatch), digest, hready'⟩
      · next hmatch =>
        exact ⟨h.path.tail (.miss hjob hsearching' heq (eq_false_of_ne_true hmatch)), digest,
          hready'⟩

theorem IsOnPath.tryPair {jobs : List JobTemplate} {first w : Worker}
    (h : IsOnPath jobs first w) {job : JobTemplate} (hjob : job ∈ jobs) (hkeyed : job.IsKeyed)
    (jobType : JobType) (a b : Int64) : IsOnPath jobs first (w.tryPair job jobType a b) := by
  unfold Worker.tryPair
  refine List.foldlRecOn (motive := IsOnPath jobs first) _ _ (h.step (.pair a b) rfl) ?_
  intro w hw c _
  exact hw.tryCandidate hjob hkeyed jobType c

theorem isKept_isOnPath {jobs : List JobTemplate} {job : JobTemplate} (hjob : job ∈ jobs)
    (hkeyed : job.IsKeyed) (first : Worker) : IsKept job (IsOnPath jobs first) where
  words := fun _ words h => h.step (.draw words) rfl
  looks := fun _ looks h => h.step (.look looks) rfl
  pair := fun _ a b _ _ h => h.tryPair hjob hkeyed _ a b

/-- Wherever a run is cut off, it got there on the path. -/
theorem run_isOnPath {jobs : List JobTemplate} (hkeyed : ∀ job ∈ jobs, job.IsKeyed)
    (laid : ∀ job ∈ jobs, job.IsLaidOut) (rounds : Nat) {first : Worker}
    (hready : ∃ digest, first.encoder.IsReady digest) :
    IsOnPath jobs first (left (run rounds jobs first)) := by
  have hkept := keeps_run (I := IsOnPath jobs first) rounds
    (fun job hjob => isKept_isOnPath hjob (hkeyed job hjob) first) laid
    fun _ _ hjob h => h.step (.take hjob) rfl
  exact left_of_keeps hkept ⟨.refl, hready⟩

end Worker

/-! ## Jobs that were received -/

/-- The template came out of two packets of the node. -/
def JobTemplate.IsReceived (job : JobTemplate) : Prop :=
  ∃ headerPacket methodPacket header method, BlockHeader.parse headerPacket = .ok header ∧
    BlockMethod.parse methodPacket = .ok method ∧ JobTemplate.build header method = .ok job

theorem JobTemplate.IsReceived.isBuilt {job : JobTemplate} (h : job.IsReceived) :
    job.IsBuilt := by
  obtain ⟨-, -, header, method, -, -, hbuild⟩ := h
  exact ⟨header, method, hbuild⟩

theorem JobTemplate.IsReceived.isKeyed {job : JobTemplate} (h : job.IsReceived) : job.IsKeyed := by
  obtain ⟨headerPacket, methodPacket, header, method, hheader, -, hbuild⟩ := h
  obtain ⟨job', hbuild', hkeyed⟩ :=
    exists_keyed_build header method (BlockHeader.isFit_of_parse hheader).password
  rw [hbuild] at hbuild'
  obtain rfl := Except.ok.inj hbuild'
  exact hkeyed

/-- Two packets that can be read always make a job. Its range and its times are not negative,
    its keys fit the cipher, and whatever the operands, an encoder can encrypt a candidate for
    it. A worker on such jobs gets nowhere by a step that passes a candidate over. -/
theorem received_job_is_minable {headerPacket methodPacket : Bytes} {header : BlockHeader}
    {method : BlockMethod} (hheader : BlockHeader.parse headerPacket = .ok header)
    (hmethod : BlockMethod.parse methodPacket = .ok method) :
    ∃ job, JobTemplate.build header method = .ok job ∧
      (0 ≤ job.minRange ∧ job.minRange ≤ job.maxRange ∧ 0 ≤ job.height ∧ 0 ≤ job.timestamp ∧
        job.aesKey.length = job.keySize.keyLength ∧ job.xorKey ≠ []) ∧
      (∀ (e : ShareEncoder) (c : Candidate) (out : EncryptedShare),
        e.text.length = ShareEncoder.textCapacity →
          (e.encrypt job c out).1 = .ok () ∧
            (e.encrypt job c out).2.1.text.length = ShareEncoder.textCapacity) ∧
      ∀ (jobs : List JobTemplate), (∀ other ∈ jobs, other.IsReceived) →
        ∀ settings words interrupted rounds,
          let w := Worker.fresh settings words interrupted
          Relation.ReflTransGen (Worker.Step (job :: jobs)) w
            (Search.left (Worker.run rounds (job :: jobs) w)) := by
  have hfit := BlockHeader.isFit_of_parse hheader
  obtain ⟨job, hbuild, hkeyed⟩ := JobTemplate.exists_keyed_build header method hfit.password
  have hreceived : job.IsReceived :=
    ⟨headerPacket, methodPacket, header, method, hheader, hmethod, hbuild⟩
  refine ⟨job, hbuild, ?_, ?_, ?_⟩
  · obtain ⟨aesKey, aesIv, rfl⟩ := JobTemplate.eq_of_build hbuild
    exact ⟨hfit.minRange, hfit.range, hfit.height, hfit.timestamp, hkeyed.length_aesKey,
      BlockMethod.xorKey_of_parse hmethod⟩
  · intro e c out hlength
    have hready : e.IsReady e.digest := ⟨rfl, hlength⟩
    exact ⟨ShareEncoder.encrypt_ok hkeyed hready c out, (hready.encrypt job c out).length_text⟩
  · intro jobs hjobs settings words interrupted rounds w
    -- every job that the worker takes has its keys, so no encryption fails along its run
    have hall : ∀ other ∈ job :: jobs, other.IsReceived := by
      intro other hother
      rcases List.mem_cons.mp hother with rfl | hother
      · exact hreceived
      · exact hjobs other hother
    have hready : ∃ digest, w.encoder.IsReady digest :=
      ⟨settings.digest, ShareEncoder.isReady_fresh settings.digest⟩
    have hpath := Worker.run_isOnPath (fun other hother => (hall other hother).isKeyed)
      (fun other hother => (hall other hother).isBuilt.isLaidOut) rounds hready
    exact hpath.path

/-- A job with the key size whose register is all that the first read leaves over, and the
    longest calculation. -/
theorem received_job_is_minable_small :
    let headerPacket :=
      Bytes.ofString "SEND-CURRENT-BLOCK-MINING|ID=1&METHOD=m&INDICATION=i&JOB=2;9&KEY=k"
    let methodPacket := Bytes.ofString "SEND-CONTENT-BLOCK-METHOD|1#192#s#x"
    let header : BlockHeader := ⟨1, 0, "m", "i", 0, 2, 9, [107]⟩
    let method : BlockMethod := ⟨1, .bits192, [115], [120]⟩
    (BlockHeader.parse headerPacket = .ok header ∧
        BlockMethod.parse methodPacket = .ok method) ∧
      ∃ job, JobTemplate.build header method = .ok job ∧
        job.aesKey.length = job.keySize.keyLength ∧
        ((ShareEncoder.fresh .sha2).encrypt job
          ⟨Int64.minValue, .mul, Int64.minValue, 0⟩ .blank).1 = .ok () := by
  intro headerPacket methodPacket header method
  have hparsed : BlockHeader.parse headerPacket = .ok header ∧
      BlockMethod.parse methodPacket = .ok method := by
    decide +kernel
  obtain ⟨hheader, hmethod⟩ := hparsed
  obtain ⟨job, hbuild, hfields, hencrypts, -⟩ := received_job_is_minable hheader hmethod
  obtain ⟨-, -, -, -, hkey, -⟩ := hfields
  exact ⟨⟨hheader, hmethod⟩, job, hbuild, hkey, (hencrypts _ _ _ List.length_replicate).1⟩

end SoloMiner
