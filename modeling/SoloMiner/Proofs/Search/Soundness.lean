import SoloMiner.Proofs.Search.Walk

/-! # Soundness of submitted shares

    The journal of a worker divides into the records of the jobs it took. In each of them at
    most one share is submitted, it is a right answer to the job, and behind it no hash is
    counted.

    A search keeps the record of its job going (`OnJob.isKept`): what it pairs are operands of
    the job, and it labels them as what they are. -/

namespace SoloMiner

/-- To keep a record going is an invariant of searches. -/
theorem Worker.OnJob.isKept (digest : ShareDigest) (job : JobTemplate) (older : List WorkerEvent) :
    IsKept job (OnJob digest job older) where
  words := fun _ _ h => ⟨h.encoder_isReady, h.record⟩
  looks := fun _ _ h => ⟨h.encoder_isReady, h.record⟩
  pair := fun _ _ _ ha hb h => h.tryPair ha hb rfl

/-! ## Runs -/

/-- What a journal may say of one job, the earliest event first. -/
structure IsSoundRecord (digest : ShareDigest) (job : JobTemplate) (events : List WorkerEvent) :
    Prop where
  took_notMem : ∀ other, .took other ∉ events
  isSound : ∀ s, .submitted s ∈ events → s.IsSound digest job
  /-- Behind a share no hash is counted, and no other share is submitted. -/
  paired_after : ∀ before s after, events = before ++ .submitted s :: after →
    ∀ e ∈ after, ∃ a b, e = .paired a b

/-- Read from its beginning on, a record that was kept on a job is sound. -/
theorem JobRecord.isSoundRecord {digest : ShareDigest} {job : JobTemplate} {found : Bool}
    {events : List WorkerEvent} (h : JobRecord digest job found events) :
    IsSoundRecord digest job events.reverse := by
  refine ⟨?_, ?_, ?_⟩
  · intro other hmem
    exact h.took_notMem other (List.mem_reverse.mp hmem)
  · intro s hs
    exact h.isSound_of_mem (List.mem_reverse.mp hs)
  · -- the journal has the latest first, so what comes behind the share stands in front of it
    intro before s after heq e he
    have hevents : events = after.reverse ++ .submitted s :: before.reverse := by
      rw [← List.reverse_reverse events, heq]
      simp
    exact h.paired_of_later hevents e (List.mem_reverse.mpr he)

namespace Worker

open Search

/-- `events` are sound records of the first of `jobs`, one behind the other. The jobs behind
    these were not taken before the run ended. -/
def HasRecords (digest : ShareDigest) (jobs : List JobTemplate) (events : List WorkerEvent) :
    Prop :=
  ∃ records : List (JobTemplate × List WorkerEvent),
    events = records.flatMap (fun r => .took r.1 :: r.2) ∧ records.map Prod.fst <+: jobs ∧
      ∀ r ∈ records, IsSoundRecord digest r.1 r.2

theorem hasRecords_nil (digest : ShareDigest) (jobs : List JobTemplate) :
    HasRecords digest jobs [] :=
  ⟨[], rfl, List.nil_prefix, nofun⟩

/-- The record of the job taken first stands in front of the others. -/
theorem HasRecords.cons {digest : ShareDigest} {job : JobTemplate} {jobs : List JobTemplate}
    {record events : List WorkerEvent} (h : HasRecords digest jobs events)
    (hrecord : IsSoundRecord digest job record) :
    HasRecords digest (job :: jobs) (.took job :: record ++ events) := by
  obtain ⟨records, rfl, hprefix, hsound⟩ := h
  refine ⟨(job, record) :: records, by simp, ?_, ?_⟩
  · exact (List.prefix_cons_inj job).mpr hprefix
  · intro r hr
    rcases List.mem_cons.mp hr with rfl | hr
    · exact hrecord
    · exact hsound r hr

/-- A worker that takes a job begins its record. -/
theorem onJob_of_take {digest : ShareDigest} {w : Worker} (h : w.encoder.IsReady digest)
    (job : JobTemplate) : ∃ w', take job w = .ok () w' ∧
      w'.OnJob digest job (.took job :: w.journal) :=
  ⟨_, rfl, h, [], rfl, .start⟩

/-- Jobs that were searched to the end leave the encoder ready for the next one. -/
theorem run_isReady {digest : ShareDigest} {rounds : Nat} {jobs : List JobTemplate}
    (hbuilt : ∀ job ∈ jobs, job.IsBuilt) {w w' : Worker} (hready : w.encoder.IsReady digest)
    (hrun : run rounds jobs w = .ok () w') : w'.encoder.IsReady digest := by
  induction jobs generalizing w with
  | nil =>
    cases hrun
    exact hready
  | cons job jobs ih =>
    obtain ⟨w₁, htake, honjob⟩ := onJob_of_take hready job
    -- however the search ends it leaves the worker on the job, with an encoder that is ready
    have hmine := (OnJob.isKept digest job _).keeps_mine (hbuilt job List.mem_cons_self).isLaidOut
      rounds w₁ honjob
    simp only [run] at hrun
    rw [bind_of_ok htake] at hrun
    obtain ⟨⟨⟩, w₂, hres, hrun⟩ := bind_eq_ok hrun
    rw [hres] at hmine
    exact ih (fun job' hmem => hbuilt job' (List.mem_cons_of_mem _ hmem))
      hmine.1.encoder_isReady hrun

/-- By induction on the jobs: each that is taken begins a record, and the run adds those of the
    others behind it. -/
theorem run_hasRecords {digest : ShareDigest} (rounds : Nat) {jobs : List JobTemplate}
    (hbuilt : ∀ job ∈ jobs, job.IsBuilt) {w : Worker} (hready : w.encoder.IsReady digest) :
    ∃ events, (Search.left (run rounds jobs w)).journal.reverse = w.journal.reverse ++ events ∧
      HasRecords digest jobs events := by
  induction jobs generalizing w with
  | nil => exact ⟨[], by simp [run, Search.left, pure, EStateM.pure], hasRecords_nil digest []⟩
  | cons job jobs ih =>
    obtain ⟨w₁, htake, honjob⟩ := onJob_of_take hready job
    have hmine := (OnJob.isKept digest job _).keeps_mine (hbuilt job List.mem_cons_self).isLaidOut
      rounds w₁ honjob
    simp only [run]
    rw [bind_of_ok htake]
    cases hres : mine job rounds w₁ with
    | ok u w₂ =>
      -- this record is complete, and the rest of the run adds those behind it
      rw [hres] at hmine
      obtain ⟨recent, hjournal, hrecord⟩ := hmine.1.record
      obtain ⟨events, heq, hevents⟩ := ih
        (fun job' hmem => hbuilt job' (List.mem_cons_of_mem _ hmem)) hmine.1.encoder_isReady
      rw [bind_of_ok hres]
      refine ⟨_, ?_, hevents.cons hrecord.isSoundRecord⟩
      rw [heq, hjournal]
      simp
    | error fault w₂ =>
      -- the run ended on this job, whose record is the last one
      rw [hres] at hmine
      obtain ⟨recent, hjournal, hrecord⟩ := hmine.record
      refine ⟨_, ?_, (hasRecords_nil digest jobs).cons hrecord.isSoundRecord⟩
      rw [bind_of_error hres]
      simp [Search.left, hjournal]

/-- The journal of a run, from a fresh worker on, is a sequence of sound records: one for each
    job the worker took, whenever its searches were interrupted and wherever the run ended. -/
theorem run_submits_sound_shares (settings : WorkerSettings) (words : Words)
    (interrupted : Nat → Bool) (rounds : Nat) (jobs : List JobTemplate)
    (hbuilt : ∀ job ∈ jobs, job.IsBuilt) :
    ∃ records : List (JobTemplate × List WorkerEvent),
      (Search.left (run rounds jobs (fresh settings words interrupted))).journal.reverse =
          records.flatMap (fun r => .took r.1 :: r.2) ∧
        records.map Prod.fst <+: jobs ∧
        ∀ r ∈ records, IsSoundRecord settings.digest r.1 r.2 := by
  obtain ⟨events, heq, hevents⟩ := run_hasRecords rounds hbuilt
    (w := fresh settings words interrupted) (ShareEncoder.isReady_fresh settings.digest)
  obtain ⟨records, rfl, hprefix, hsound⟩ := hevents
  exact ⟨records, by simpa [fresh] using heq, hprefix, hsound⟩

/-- A job over the range from two to nine, searched by one worker that is interrupted at its
    fourth look. -/
theorem run_submits_sound_shares_small :
    ∃ job, JobTemplate.build ⟨7, 0, "AES", "", 1, 2, 9, [107]⟩ ⟨0, .bits128, [115], [120]⟩ =
        .ok job ∧
      ∃ records : List (JobTemplate × List WorkerEvent),
        (Search.left (run 2 [job] (fresh ⟨0, 0, .normal, false, false, some (0, 1), .sha3⟩
            (List.replicate 64 0) (· == 3)))).journal.reverse =
          records.flatMap (fun r => .took r.1 :: r.2) ∧
        records.map Prod.fst <+: [job] ∧
        ∀ r ∈ records, IsSoundRecord .sha3 r.1 r.2 := by
  obtain ⟨job, hbuild⟩ := JobTemplate.exists_build ⟨7, 0, "AES", "", 1, 2, 9, [107]⟩
    ⟨0, .bits128, [115], [120]⟩ (by decide)
  refine ⟨job, hbuild, run_submits_sound_shares _ _ _ 2 [job] ?_⟩
  intro job' hmem
  obtain rfl := List.mem_singleton.mp hmem
  exact ⟨_, _, hbuild⟩

end Worker
end SoloMiner
