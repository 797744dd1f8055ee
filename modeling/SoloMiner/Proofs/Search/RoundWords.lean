import SoloMiner.Proofs.Job.Building
import SoloMiner.Proofs.Random.DigitDraws
import SoloMiner.Proofs.Search.ZeroWords

/-! # Words that suffice for a round

    The draw of an operand is over with the first value that is not easy, and a round is over
    once both its operands are drawn and every place of its row has had its draw. Whether that
    comes about is a matter of the words alone, unless a look puts an end to it before. Any two
    operands that the sampler can make are drawn with some words. -/

namespace SoloMiner

namespace JobTemplate

/-- Inside the range and not easy. Such values are what the search looks for once it is done with
    the easy ones. -/
def IsRandomOperand (job : JobTemplate) (v : Int64) : Prop :=
  (job.minRange ≤ v ∧ v ≤ job.maxRange) ∧ v ∉ job.easyValues

/-- The first value that is not easy among the next `draws` values that the sampler makes of the
    words, with the words behind it. -/
def firstOperand? (job : JobTemplate) (settings : WorkerSettings) :
    Nat → Words → Option (Int64 × Words)
  | 0, _ => none
  | draws + 1, words =>
    match Worker.sampler settings job.minRange job.maxRange words with
    | none => none
    | some (v, rest) =>
      if v ∈ job.easyValues then job.firstOperand? settings draws rest else some (v, rest)

/-- Words that suffice for a round with the operands `a` and `b`: each is made in at most `draws`
    draws, and behind them there is a word of zeros for each easy value. -/
def SufficeFor (job : JobTemplate) (settings : WorkerSettings) (draws : Nat) (a b : Int64)
    (words : Words) : Prop :=
  ∃ behind rest, job.firstOperand? settings draws words = some (a, behind) ∧
    job.firstOperand? settings draws behind = some (b, rest) ∧
    job.easyValues.size ≤ rest.count 0

end JobTemplate

namespace Worker

open Search

variable {job : JobTemplate} {w : Worker}

/-! ## Operands -/

/-- What the words make is drawn, unless a look puts an end to the draw before. -/
theorem operandFrom_of_first (laid : job.IsLaidOut) {draws : Nat} (attempts : Nat) {v : Int64}
    {rest : Words} (h : job.firstOperand? w.settings draws w.words = some (v, rest)) :
    (∃ looks, operandFrom job draws attempts w = .ok (some v) { w with words := rest, looks }) ∨
      ∃ w', operandFrom job draws attempts w = .ok none w' := by
  induction draws generalizing attempts w with
  | zero => cases h
  | succ draws ih =>
    rw [JobTemplate.firstOperand?] at h
    cases hsample : sampler w.settings job.minRange job.maxRange w.words with
    | none =>
      rw [hsample] at h
      cases h
    | some drawn =>
      obtain ⟨u, behind⟩ := drawn
      rw [hsample] at h
      have hdraw : draw (sampler w.settings job.minRange job.maxRange) w =
          .ok u { w with words := behind } := by
        simp only [draw, hsample]
      have hget : operandFrom job (draws + 1) attempts w = _ :=
        bind_of_ok (m := draw (sampler w.settings job.minRange job.maxRange)) hdraw
      rw [hget]
      by_cases heasy : u ∈ job.easyValues
      · -- an easy value is passed over, with a look now and then
        simp only [if_pos heasy] at h
        have hvalue : job.isEasyValue u = true := (laid.isEasyValue_iff u).mpr heasy
        rw [if_neg (by simp [hvalue])]
        by_cases hcount : (attempts + 1) % redrawsPerLook = 0
        · rw [if_pos hcount, bind_of_ok (show look { w with words := behind } = .ok _ _ from rfl)]
          split
          · exact Or.inr ⟨_, rfl⟩
          · exact ih (attempts + 1) (w := { w with words := behind, looks := w.looks + 1 }) h
        · rw [if_neg hcount]
          exact ih (attempts + 1) (w := { w with words := behind }) h
      · simp only [if_neg heasy, Option.some.injEq, Prod.mk.injEq] at h
        obtain ⟨rfl, rfl⟩ := h
        have hvalue : job.isEasyValue u ≠ true := fun h => heasy ((laid.isEasyValue_iff u).mp h)
        rw [if_pos (by simp [hvalue])]
        exact Or.inl ⟨w.looks, rfl⟩

/-! ## Rows -/

/-- A row ends if there is a word of zeros for each of its places. -/
theorem semiRandomRow_of_count (job : JobTemplate) (a b : Int64) (n : Nat) (easy : Array Int64)
    {w : Worker} (h : n ≤ w.words.count 0) :
    ∃ easy? w', semiRandomRow job a b n easy w = .ok easy? w' := by
  induction n generalizing easy w with
  | zero => exact ⟨some easy, w, rfl⟩
  | succ n ih =>
    simp only [semiRandomRow]
    rw [bind_of_ok (show look w = .ok _ _ from rfl)]
    split
    · exact ⟨_, _, rfl⟩
    · obtain ⟨r, w₁, hdraw, hwords⟩ := draw_of_count (w := { w with looks := w.looks + 1 }) n h
      rw [bind_of_ok hdraw]
      -- no pair that is tried takes a word
      apply ih
      simpa only [tryPair_words] using hwords

/-! ## Words -/

/-- The uniform sampler makes every value of the range, the other one those that are positive
    and no multiple of ten. -/
theorem exists_sampled (settings : WorkerSettings) {min max v : Int64} (hmin : min ≤ v)
    (hmax : v ≤ max) (hdigits : settings.digitSampler = true → 0 < v.toInt ∧ ¬10 ∣ v.toInt) :
    ∃ words, ∀ rest, sampler settings min max (words ++ rest) = some (v, rest) := by
  unfold sampler
  split
  · next hdigit =>
    by_cases hrange : max ≤ min
    · -- a range of one value takes no word
      have hone : min = v := Int64.le_antisymm hmin (Int64.le_trans hmax hrange)
      refine ⟨[], fun rest => ?_⟩
      rw [Random.byDigits, if_pos hrange, hone, List.nil_append]
    · obtain ⟨hpos, hten⟩ := hdigits hdigit
      obtain ⟨words, hhits⟩ := Random.exists_hits hmin hmax hpos hten
      refine ⟨words, fun rest => ?_⟩
      rw [Random.byDigits, if_neg hrange]
      exact Random.digitsWithin_of_hits (hhits rest) 63
  · exact Random.exists_between hmin hmax

theorem firstOperand_of_sampled {settings : WorkerSettings} {v : Int64} {words rest : Words}
    (hv : job.IsRandomOperand v)
    (h : sampler settings job.minRange job.maxRange words = some (v, rest)) (draws : Nat) :
    job.firstOperand? settings (draws + 1) words = some (v, rest) := by
  simp only [JobTemplate.firstOperand?, h, if_neg hv.2]

/-- Two operands that the sampler can make are drawn with some words, whatever stands behind
    them. -/
theorem exists_sufficeFor (settings : WorkerSettings) {a b : Int64} (ha : job.IsRandomOperand a)
    (hb : job.IsRandomOperand b)
    (hdigits : settings.digitSampler = true →
      (0 < a.toInt ∧ ¬10 ∣ a.toInt) ∧ 0 < b.toInt ∧ ¬10 ∣ b.toInt) (draws : Nat) :
    ∃ words, ∀ rest : Words, job.easyValues.size ≤ rest.count 0 →
      job.SufficeFor settings (draws + 1) a b (words ++ rest) := by
  obtain ⟨first, hfirst⟩ :=
    exists_sampled settings ha.1.1 ha.1.2 fun h => (hdigits h).1
  obtain ⟨second, hsecond⟩ :=
    exists_sampled settings hb.1.1 hb.1.2 fun h => (hdigits h).2
  refine ⟨first ++ second, fun rest hrest => ⟨second ++ rest, rest, ?_, ?_, hrest⟩⟩
  · rw [List.append_assoc]
    exact firstOperand_of_sampled ha (hfirst _) draws
  · exact firstOperand_of_sampled hb (hsecond rest) draws

end Worker
end SoloMiner
