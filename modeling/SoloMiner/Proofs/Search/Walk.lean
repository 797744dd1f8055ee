import SoloMiner.Proofs.Job.Building
import SoloMiner.Proofs.Job.Chunks
import SoloMiner.Proofs.Random.Bounds
import SoloMiner.Proofs.Search.Record
import SoloMiner.Proofs.Search.Shuffle

/-! # The walk of a search

    All that a search does to a worker is to take words, to look, and to try pairs of operands
    of its job, each under the right label. So what these keep every search keeps, wherever it
    is cut off. The loops are followed once, for any invariant: what they hand to each other is
    known to be easy or not easy, and the easy values to be the same in whatever order.

    The loops are followed by `Keeps`, which asks nothing about how they end. -/

namespace SoloMiner

namespace Worker

open Search

/-- Both samplers keep to the range. -/
theorem sampler_mem (settings : WorkerSettings) {min max v : Int64} {words rest : Words}
    (h : min ≤ max) (hdraw : sampler settings min max words = some (v, rest)) :
    min ≤ v ∧ v ≤ max := by
  unfold sampler at hdraw
  split at hdraw
  · exact Random.byDigits_mem h hdraw
  · exact Random.between_mem h hdraw

/-- Shuffling the easy values makes no others of them. -/
theorem getD_mem_of_perm {job : JobTemplate} {easy : Array Int64} {r : Nat}
    (hperm : easy.toList.Perm job.easyValues.toList) (hr : r < easy.size) :
    easy.getD r 0 ∈ job.easyValues := by
  rw [Shuffle.getD_eq_getElem hr, ← Array.mem_toList_iff, ← hperm.mem_iff, Array.mem_toList_iff]
  exact Array.getElem_mem _

/-- An easy search begins with the whole chunk. -/
theorem EasyRows.ofSlot_eq (job : JobTemplate) (slot : Nat × Nat) :
    EasyRows.ofSlot job slot =
      ⟨(EasyBlock.chunkOf job.easyValues slot.2 slot.1).size,
        EasyBlock.chunkOf job.easyValues slot.2 slot.1, job.easyValues⟩ := by
  rw [EasyBlock.size_chunkOf]
  rfl

/-! ## Invariants -/

/-- Whatever a search for the job does keeps `I`: it takes words, looks, and tries pairs of
    operands of the job as what they are. -/
structure IsKept (job : JobTemplate) (I : Worker → Prop) : Prop where
  words : ∀ w words, I w → I { w with words := words }
  looks : ∀ w looks, I w → I { w with looks := looks }
  pair : ∀ w a b, job.IsOperand a → job.IsOperand b → I w →
    I (w.tryPair job (job.jobTypeOf a b) a b)

namespace IsKept

variable {job : JobTemplate} {I : Worker → Prop} (h : IsKept job I)
include h

/-- An index of a short array is drawn. -/
theorem keeps_drawIndex {n : Nat} (hn : n < EasyBlock.maxCount) :
    Keeps I (draw (Random.index n)) (· ≤ n) := by
  refine keeps_draw h.words ?_
  intro words r rest hdraw
  exact Random.index_le (Nat.lt_trans hn (by decide)) hdraw

theorem keeps_look : Keeps I look fun _ => True :=
  Worker.keeps_look h.looks

theorem keeps_tryPair {a b : Int64} {jobType : JobType} (ha : job.IsOperand a)
    (hb : job.IsOperand b) (htype : jobType = job.jobTypeOf a b) :
    Keeps I (modify (tryPair job jobType · a b)) fun _ => True := by
  subst htype
  exact keeps_modify fun w hw => h.pair w a b ha hb hw

variable (laid : job.IsLaidOut)
include laid

/-! ## Easy search -/

omit h in
theorem isOperand_of_mem {v : Int64} (hv : v ∈ job.easyValues) : job.IsOperand v :=
  fun _ => laid.mem_range v hv

/-- A row pairs easy values, and leaves them in another order. -/
theorem keeps_easyRow {first : Int64} (hfirst : first ∈ job.easyValues) (n : Nat)
    {easy : Array Int64} (hperm : easy.toList.Perm job.easyValues.toList) (hn : n ≤ easy.size) :
    Keeps I (easyRow job first n easy) (·.toList.Perm job.easyValues.toList) := by
  induction n generalizing easy with
  | zero => exact keeps_pure hperm
  | succ n ih =>
    have hsize : easy.size ≤ EasyBlock.maxCount :=
      Nat.le_trans (Nat.le_of_eq hperm.length_eq) laid.size_le
    simp only [easyRow]
    refine keeps_bind (h.keeps_drawIndex (by omega)) fun r hr => ?_
    have hmem := getD_mem_of_perm hperm (show r < easy.size by omega)
    -- both values are easy, which is the kind of job the row counts them under
    have htype : JobType.easy = job.jobTypeOf first (easy.getD r 0) := by
      rw [JobTemplate.jobTypeOf, if_pos hfirst, if_pos hmem]
    refine keeps_bind (h.keeps_tryPair (isOperand_of_mem laid hfirst)
      (isOperand_of_mem laid hmem) htype) fun _ _ => ?_
    exact ih ((Shuffle.swapIfInBounds_perm easy n r).trans hperm) (by simp; omega)

/-- The rows begin with the values at the front of the chunk. -/
theorem keeps_easyRows (n : Nat) {chunk easy : Array Int64} (hn : n ≤ chunk.size)
    (hsize : chunk.size ≤ EasyBlock.maxCount)
    (hchunk : ∀ v ∈ chunk.toList.take n, v ∈ job.easyValues)
    (hperm : easy.toList.Perm job.easyValues.toList) :
    Keeps I (easyRows job n chunk easy) fun _ => True := by
  induction n generalizing chunk easy with
  | zero => exact keeps_pure trivial
  | succ n ih =>
    simp only [easyRows]
    refine keeps_bind (h.keeps_drawIndex (by omega)) fun r hr => ?_
    -- the front holds the value drawn and those left, so the row begins with an easy value
    have hfront := Shuffle.take_setIfInBounds_perm hr hn
    have hfirst := hchunk _ (hfront.mem_iff.mpr List.mem_cons_self)
    refine keeps_bind (h.keeps_easyRow laid hfirst easy.size hperm (Nat.le_refl _))
      fun easy' heasy' => ?_
    refine keeps_bind h.keeps_look fun abandon _ => ?_
    by_cases habandon : abandon = true
    · rw [if_pos habandon]
      exact keeps_pure trivial
    · rw [if_neg habandon]
      refine ih (by simp; omega) (by simpa using hsize) ?_ heasy'
      intro v hv
      exact hchunk v (hfront.mem_iff.mpr (List.mem_cons_of_mem _ hv))

theorem keeps_easySearch (slot : Nat × Nat) :
    Keeps I (easySearch job slot) fun _ => True := by
  have hsize := EasyBlock.size_chunkOf_le job.easyValues slot.2 slot.1
  simp only [easySearch, EasyRows.search, EasyRows.ofSlot_eq]
  refine keeps_bind (h.keeps_easyRows laid _ (Nat.le_refl _) (Nat.le_trans hsize laid.size_le) ?_
    (List.Perm.refl _)) fun _ _ => keeps_pure trivial
  intro v hv
  exact EasyBlock.mem_of_mem_chunkOf (Array.mem_toList_iff.mp (List.mem_of_mem_take hv))

/-! ## Random search -/

/-- What is drawn and not easy is an operand of the job. -/
theorem keeps_operandFrom (rounds attempts : Nat) :
    Keeps I (operandFrom job rounds attempts) fun v? =>
      ∀ v, v? = some v → v ∉ job.easyValues ∧ job.IsOperand v := by
  induction rounds generalizing attempts with
  | zero => exact keeps_throw _
  | succ rounds ih =>
    simp only [operandFrom]
    refine keeps_bind keeps_get fun w _ => ?_
    -- a draw keeps to the range
    have hdraw : Keeps I (draw (sampler w.settings job.minRange job.maxRange))
        job.IsOperand := by
      refine keeps_draw h.words ?_
      intro words v rest hv hrange
      exact sampler_mem w.settings hrange hv
    refine keeps_bind hdraw fun v hv => ?_
    by_cases heasy : job.isEasyValue v = true
    · -- an easy value is drawn again, with a look now and then
      rw [if_neg (by simp [heasy])]
      split
      · refine keeps_bind h.keeps_look fun abandon _ => ?_
        split
        · exact keeps_pure nofun
        · exact ih _
      · exact ih _
    · rw [if_pos (by simp [heasy])]
      refine keeps_pure ?_
      rintro v' heq
      obtain rfl := Option.some.inj heq
      exact ⟨fun hmem => heasy ((laid.isEasyValue_iff _).mpr hmem), hv⟩

/-- An operand that is not easy and an easy one are paired both ways. -/
theorem keeps_tryBothWays {α : Type} {Q : α → Prop} {rest : Search α} {a e : Int64}
    (ha : a ∉ job.easyValues) (haop : job.IsOperand a) (he : e ∈ job.easyValues)
    (hrest : Keeps I rest Q) :
    Keeps I
      (do modify (tryPair job .semiRandom · a e); modify (tryPair job .semiRandom · e a); rest)
      Q := by
  have heop := isOperand_of_mem laid he
  have htype : JobType.semiRandom = job.jobTypeOf a e := by
    rw [JobTemplate.jobTypeOf, if_neg ha, if_pos he]
  have htype' : JobType.semiRandom = job.jobTypeOf e a := by
    rw [JobTemplate.jobTypeOf, if_pos he, if_neg ha]
  refine keeps_bind (h.keeps_tryPair haop heop htype) fun _ _ => ?_
  exact keeps_bind (h.keeps_tryPair heop haop htype') fun _ _ => hrest

/-- A row pairs two operands that are not easy with easy values, and leaves these in another
    order. -/
theorem keeps_semiRandomRow {a b : Int64} (ha : a ∉ job.easyValues) (haop : job.IsOperand a)
    (hb : b ∉ job.easyValues) (hbop : job.IsOperand b) (n : Nat) {easy : Array Int64}
    (hperm : easy.toList.Perm job.easyValues.toList) (hn : n ≤ easy.size) :
    Keeps I (semiRandomRow job a b n easy) fun easy? =>
      ∀ easy', easy? = some easy' → easy'.toList.Perm job.easyValues.toList := by
  induction n generalizing easy with
  | zero =>
    refine keeps_pure ?_
    rintro easy' heq
    obtain rfl := Option.some.inj heq
    exact hperm
  | succ n ih =>
    have hsize : easy.size ≤ EasyBlock.maxCount :=
      Nat.le_trans (Nat.le_of_eq hperm.length_eq) laid.size_le
    simp only [semiRandomRow]
    refine keeps_bind h.keeps_look fun abandon _ => ?_
    split
    · -- a look put an end to it, and no order of the easy values is handed on
      exact keeps_pure nofun
    · refine keeps_bind (h.keeps_drawIndex (by omega)) fun r hr => ?_
      have hmem := getD_mem_of_perm hperm (show r < easy.size by omega)
      refine h.keeps_tryBothWays laid ha haop hmem (h.keeps_tryBothWays laid hb hbop hmem ?_)
      exact ih ((Shuffle.swapIfInBounds_perm easy n r).trans hperm) (by simp; omega)

/-- A round draws two operands and pairs them, with each other and in a row. -/
theorem keeps_randomRound (redraws : Nat) {easy : Array Int64}
    (hperm : easy.toList.Perm job.easyValues.toList) :
    Keeps I (randomRound job redraws easy) fun easy? =>
      ∀ easy', easy? = some easy' → easy'.toList.Perm job.easyValues.toList := by
  unfold randomRound
  refine keeps_bind (h.keeps_operandFrom laid redraws 0) fun a? ha? => ?_
  split
  · exact keeps_pure nofun
  · next a =>
    obtain ⟨ha, haop⟩ := ha? a rfl
    refine keeps_bind (h.keeps_operandFrom laid redraws 0) fun b? hb? => ?_
    split
    · exact keeps_pure nofun
    · next b =>
      obtain ⟨hb, hbop⟩ := hb? b rfl
      -- neither operand is easy, so either order counts as random
      have htype : JobType.random = job.jobTypeOf a b := by
        rw [JobTemplate.jobTypeOf, if_neg ha, if_neg hb]
      have htype' : JobType.random = job.jobTypeOf b a := by
        rw [JobTemplate.jobTypeOf, if_neg hb, if_neg ha]
      refine keeps_bind (h.keeps_tryPair haop hbop htype) fun _ _ => ?_
      refine keeps_bind (h.keeps_tryPair hbop haop htype') fun _ _ => ?_
      exact h.keeps_semiRandomRow laid ha haop hb hbop _ hperm (Nat.le_refl _)

/-- Round follows round, each with the easy values in the order that the last one left. -/
theorem keeps_randomRounds (rounds : Nat) {easy : Array Int64}
    (hperm : easy.toList.Perm job.easyValues.toList) :
    Keeps I (randomRounds job rounds easy) fun _ => True := by
  induction rounds generalizing easy with
  | zero => exact keeps_throw _
  | succ rounds ih =>
    simp only [randomRounds]
    refine keeps_bind h.keeps_look fun abandon _ => ?_
    split
    · exact keeps_pure trivial
    · refine keeps_bind (h.keeps_randomRound laid _ hperm) fun easy? heasy? => ?_
      split
      · exact keeps_pure trivial
      · next easy' => exact ih (heasy? easy' rfl)

/-! ## Jobs -/

theorem keeps_mineRandom (rounds : Nat) :
    Keeps I (mineRandom job rounds) fun _ => True := by
  unfold mineRandom
  refine keeps_bind keeps_get fun w _ => ?_
  split
  · exact h.keeps_randomRounds laid rounds (List.Perm.refl _)
  · exact keeps_pure trivial

/-- However it ends, the whole search for a job keeps the invariant. -/
theorem keeps_mine (rounds : Nat) :
    Keeps I (mine job rounds) fun _ => True := by
  unfold mine
  refine keeps_bind keeps_get fun w _ => ?_
  split
  · exact h.keeps_mineRandom laid rounds
  · -- an easy search comes first, and a look behind it
    next slot _ =>
    refine keeps_bind (h.keeps_easySearch laid slot) fun _ _ => ?_
    refine keeps_bind h.keeps_look fun abandon _ => ?_
    split
    · exact keeps_pure trivial
    · exact h.keeps_mineRandom laid rounds

end IsKept

/-- So does a run, if taking a job keeps it as well. -/
theorem keeps_run {I : Worker → Prop} (rounds : Nat) {jobs : List JobTemplate}
    (h : ∀ job ∈ jobs, IsKept job I) (laid : ∀ job ∈ jobs, job.IsLaidOut)
    (htake : ∀ w, ∀ job ∈ jobs, I w → I { w.note (.took job) with blockFound := false }) :
    Keeps I (run rounds jobs) fun _ => True := by
  induction jobs with
  | nil => exact keeps_pure trivial
  | cons job jobs ih =>
    have hfirst : job ∈ job :: jobs := List.mem_cons_self
    refine keeps_bind (keeps_modify fun w hw => htake w job hfirst hw) fun _ _ => ?_
    refine keeps_bind ((h job hfirst).keeps_mine (laid job hfirst) rounds) fun _ _ => ?_
    refine ih ?_ ?_ ?_
    · exact fun other hmem => h other (List.mem_cons_of_mem job hmem)
    · exact fun other hmem => laid other (List.mem_cons_of_mem job hmem)
    · exact fun w other hmem => htake w other (List.mem_cons_of_mem job hmem)

end Worker
end SoloMiner
