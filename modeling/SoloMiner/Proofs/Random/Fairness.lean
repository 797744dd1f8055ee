import Mathlib.Data.Nat.Count
import Mathlib.Data.Nat.Size
import Mathlib.SetTheory.Cardinal.Finite
import SoloMiner.Proofs.Random.Bounds

/-! # Fairness of uniform draws

    A uniform draw takes words until one is accepted. How many words stand for a value is the
    same for all values of the range, so none is favoured, and more words are accepted than
    rejected, so a draw is soon done.

    The mask is made by smearing: after a step the bits that are set are those with a bit of
    the range at most so many places above them, and each step doubles the number of places.
    Once it covers the whole word, the mask has all places up to the highest bit of the range.
    To mask a word is then to take its remainder by a power of two, and remainders are counted
    period by period. -/

namespace SoloMiner.Random

/-! ## Smearing -/

/-- The bits of `m` are those with a bit of `r` less than `n` places above them. -/
def Smears (m r n : Nat) : Prop :=
  ∀ i, m.testBit i = true ↔ ∃ j < n, r.testBit (i + j) = true

theorem smears_self (r : Nat) : Smears r r 1 := by
  intro i
  constructor
  · intro h
    exact ⟨0, Nat.one_pos, h⟩
  · rintro ⟨j, hj, h⟩
    obtain rfl : j = 0 := by omega
    exact h

/-- A step reaches twice as far: the copy that is shifted by `n` brings down the bits of the next
    `n` places. -/
theorem Smears.step {m r : UInt64} {n : UInt64} (hn : n.toNat < 64)
    (h : Smears m.toNat r.toNat n.toNat) :
    Smears (m ||| (m >>> n)).toNat r.toNat (2 * n.toNat) := by
  intro i
  rw [UInt64.toNat_or, UInt64.toNat_shiftRight, Nat.mod_eq_of_lt hn, Nat.testBit_or,
    Nat.testBit_shiftRight, Bool.or_eq_true, h i, h (n.toNat + i)]
  constructor
  · rintro (⟨j, hj, hbit⟩ | ⟨j, hj, hbit⟩)
    · exact ⟨j, by omega, hbit⟩
    · refine ⟨n.toNat + j, by omega, ?_⟩
      rwa [show i + (n.toNat + j) = n.toNat + i + j by omega]
  · rintro ⟨j, hj, hbit⟩
    -- a bit in the upper half is one that the shifted copy brings down
    by_cases hlow : j < n.toNat
    · exact Or.inl ⟨j, hlow, hbit⟩
    · refine Or.inr ⟨j - n.toNat, by omega, ?_⟩
      rwa [show n.toNat + i + (j - n.toNat) = i + j by omega]

theorem smears_maskFor (range : UInt64) : Smears (maskFor range).toNat range.toNat 64 := by
  have h1 := smears_self range.toNat
  have h2 := Smears.step (n := 1) (by decide) h1
  have h4 := Smears.step (n := 2) (by decide) h2
  have h8 := Smears.step (n := 4) (by decide) h4
  have h16 := Smears.step (n := 8) (by decide) h8
  have h32 := Smears.step (n := 16) (by decide) h16
  exact Smears.step (n := 32) (by decide) h32

/-! ## The mask -/

/-- A 64-bit number has a bit at or above a place if it is large enough for it. -/
theorem exists_testBit_iff (range : UInt64) (i : Nat) :
    (∃ j < 64, range.toNat.testBit (i + j) = true) ↔ 2 ^ i ≤ range.toNat := by
  constructor
  · rintro ⟨j, -, hbit⟩
    calc 2 ^ i ≤ 2 ^ (i + j) := Nat.pow_le_pow_right (by decide) (Nat.le_add_right i j)
      _ ≤ range.toNat := Nat.ge_two_pow_of_testBit hbit
  · intro hle
    obtain ⟨k, hk, hbit⟩ := Nat.exists_ge_and_testBit_of_ge_two_pow hle
    -- no 64-bit number has a bit further up
    have hlt : k < 64 := by
      by_contra hge
      have hsmall : range.toNat < 2 ^ k :=
        calc range.toNat < 2 ^ 64 := range.toNat_lt
          _ ≤ 2 ^ k := Nat.pow_le_pow_right (by decide) (by omega)
      rw [Nat.testBit_lt_two_pow hsmall] at hbit
      cases hbit
    exact ⟨k - i, by omega, by rwa [show i + (k - i) = k by omega]⟩

/-- The mask has as many bits as the range, all of them set. -/
theorem toNat_maskFor (range : UInt64) : (maskFor range).toNat = 2 ^ range.toNat.size - 1 := by
  apply Nat.eq_of_testBit_eq
  intro i
  rw [Nat.testBit_two_pow_sub_one, Bool.eq_iff_iff, decide_eq_true_iff,
    smears_maskFor range i, exists_testBit_iff, Nat.lt_size]

/-- The least number of the form `2 ^ k - 1` that is not below `range`: all bits up to the
    highest one of the range, and no others. -/
structure IsLeastMask (range mask : Nat) : Prop where
  form : ∃ k, mask = 2 ^ k - 1
  range_le : range ≤ mask
  least : ∀ k, range ≤ 2 ^ k - 1 → mask ≤ 2 ^ k - 1

/-- A smaller mask of ones would have fewer bits than the range, and not cover it. -/
theorem isLeastMask_maskFor (range : UInt64) :
    IsLeastMask range.toNat (maskFor range).toNat := by
  rw [toNat_maskFor]
  refine ⟨⟨_, rfl⟩, ?_, ?_⟩
  · have hlt := Nat.lt_size_self range.toNat
    omega
  · intro k hk
    have hpos := Nat.two_pow_pos k
    have hsize : range.toNat.size ≤ k := Nat.size_le.mpr (by omega)
    have hpow : 2 ^ range.toNat.size ≤ 2 ^ k := Nat.pow_le_pow_right (by decide) hsize
    omega

/-! ## Masked words -/

variable {min max : Int64}

/-- How many values the mask lets through. The words repeat with this period, and each whole
    period counts every value of the range once. -/
def period (min max : Int64) : Nat := 2 ^ (span min max).toNat.size

theorem period_eq (min max : Int64) : period min max = (maskFor (span min max)).toNat + 1 := by
  have hpos := Nat.two_pow_pos (span min max).toNat.size
  rw [period, toNat_maskFor]
  omega

theorem span_lt_period (min max : Int64) : (span min max).toNat < period min max :=
  Nat.lt_size_self _

/-- The words fall into whole periods. -/
theorem period_mul (min max : Int64) :
    period min max * 2 ^ (64 - (span min max).toNat.size) = 2 ^ 64 := by
  have hsize : (span min max).toNat.size ≤ 64 := Nat.size_le.mpr (span min max).toNat_lt
  rw [period, ← Nat.pow_add, Nat.add_sub_cancel' hsize]

theorem toNat_and_maskFor (min max : Int64) (word : UInt64) :
    (word &&& maskFor (span min max)).toNat = word.toNat % period min max := by
  rw [UInt64.toNat_and, toNat_maskFor, Nat.and_two_pow_sub_one_eq_mod]
  rfl

/-- A word is accepted for its remainder. -/
theorem pick?_isSome_iff (min max : Int64) (word : UInt64) :
    (pick? min max word).isSome ↔ word.toNat % period min max ≤ (span min max).toNat := by
  rw [← toNat_and_maskFor, ← UInt64.le_iff_toNat_le]
  unfold pick?
  by_cases hle : word &&& maskFor (span min max) ≤ span min max <;> simp [hle]

/-- A value of the range is what the words with one certain remainder stand for. -/
theorem pick?_eq_some_iff {v : Int64} (hmin : min ≤ v) (hmax : v ≤ max) (word : UInt64) :
    pick? min max word = some v ↔
      word.toNat % period min max = (v.toInt - min.toInt).toNat := by
  have hrange : min ≤ max := Int64.le_trans hmin hmax
  have hspan := toNat_span hrange
  have hlow : min.toInt ≤ v.toInt := Int64.le_iff_toInt_le.mp hmin
  have hhigh : v.toInt ≤ max.toInt := Int64.le_iff_toInt_le.mp hmax
  rw [← toNat_and_maskFor]
  unfold pick?
  by_cases hle : word &&& maskFor (span min max) ≤ span min max
  · -- the word is accepted, and its remainder is added to the least value
    have hsum := toInt_add_toInt64 hrange hle
    simp only [hle, if_true, Option.some.injEq]
    constructor
    · intro heq
      rw [← heq, hsum]
      omega
    · intro heq
      apply Int64.toInt.inj
      rw [hsum, heq]
      omega
  · -- the remainder exceeds the width, where no value of the range lies
    have hlt := Nat.lt_of_not_le fun hge => hle (UInt64.le_iff_toNat_le.mpr hge)
    simp only [hle, if_false]
    constructor
    · intro heq
      cases heq
    · intro heq
      omega

/-! ## Counting words -/

/-- Words are counted as the numbers below `2 ^ 64`, each of which is one word. -/
theorem card_words (P : Nat → Prop) [DecidablePred P] :
    Nat.card { word : UInt64 // P word.toNat } = Nat.count P (2 ^ 64) := by
  have hinj : Set.InjOn UInt64.ofNat ((Finset.range (2 ^ 64)).filter P) := by
    intro m hm n hn heq
    have hm := Finset.mem_range.mp (Finset.mem_filter.mp hm).1
    have hn := Finset.mem_range.mp (Finset.mem_filter.mp hn).1
    rw [← UInt64.toNat_ofNat_of_lt' hm, heq, UInt64.toNat_ofNat_of_lt' hn]
  rw [Nat.count_eq_card_filter_range, ← Finset.card_image_of_injOn hinj]
  apply Nat.subtype_card
  intro word
  rw [Finset.mem_image]
  constructor
  · rintro ⟨n, hn, rfl⟩
    obtain ⟨hlt, hP⟩ := Finset.mem_filter.mp hn
    rwa [UInt64.toNat_ofNat_of_lt' (Finset.mem_range.mp hlt)]
  · intro hP
    refine ⟨word.toNat, ?_, UInt64.ofNat_toNat⟩
    exact Finset.mem_filter.mpr ⟨Finset.mem_range.mpr word.toNat_lt, hP⟩

/-- What depends on the remainder only is counted period by period. -/
theorem count_mod (P : Nat → Prop) [DecidablePred P] (r q : Nat) :
    Nat.count (fun n => P (n % r)) (r * q) = Nat.count P r * q := by
  induction q with
  | zero => rfl
  | succ q ih =>
    -- one more period has the remainders that the first one has
    have hperiod : Nat.count (fun n => P ((r * q + n) % r)) r = Nat.count P r := by
      rw [Nat.count_eq_card_filter_range, Nat.count_eq_card_filter_range]
      congr 1
      apply Finset.filter_congr
      intro n hn
      rw [Nat.mul_add_mod, Nat.mod_eq_of_lt (Finset.mem_range.mp hn)]
    rw [Nat.mul_succ, Nat.count_add, ih, hperiod, Nat.mul_succ]

/-- Of the words, so many have a remainder that satisfies `P`. -/
theorem card_words_mod (min max : Int64) (P : Nat → Prop) [DecidablePred P] :
    Nat.card { word : UInt64 // P (word.toNat % period min max) } =
      Nat.count P (period min max) * 2 ^ (64 - (span min max).toNat.size) := by
  rw [card_words fun n => P (n % period min max), ← period_mul min max]
  exact count_mod P _ _

theorem count_eq {x n : Nat} (h : x < n) : Nat.count (· = x) n = 1 := by
  rw [Nat.count_eq_card_filter_range, Finset.filter_eq', if_pos (Finset.mem_range.mpr h),
    Finset.card_singleton]

theorem count_le {x n : Nat} (h : x < n) : Nat.count (· ≤ x) n = x + 1 := by
  have hrange : (Finset.range n).filter (· ≤ x) = Finset.range (x + 1) := by
    ext m
    simp only [Finset.mem_filter, Finset.mem_range]
    omega
  rw [Nat.count_eq_card_filter_range, hrange, Finset.card_range]

/-- A value of the range is the value of one word in each period. -/
theorem card_pick? {min max v : Int64} (hmin : min ≤ v) (hmax : v ≤ max) :
    Nat.card { word // pick? min max word = some v } =
      2 ^ (64 - (span min max).toNat.size) := by
  have hspan := toNat_span (Int64.le_trans hmin hmax)
  have hperiod := span_lt_period min max
  have hlow : min.toInt ≤ v.toInt := Int64.le_iff_toInt_le.mp hmin
  have hhigh : v.toInt ≤ max.toInt := Int64.le_iff_toInt_le.mp hmax
  have hlt : (v.toInt - min.toInt).toNat < period min max := by omega
  simp only [pick?_eq_some_iff hmin hmax]
  rw [card_words_mod min max (· = (v.toInt - min.toInt).toNat), count_eq hlt, Nat.one_mul]

/-- In each period as many words are accepted as the range has values. -/
theorem card_accepted (min max : Int64) :
    Nat.card { word // (pick? min max word).isSome } =
      ((span min max).toNat + 1) * 2 ^ (64 - (span min max).toNat.size) := by
  simp only [pick?_isSome_iff]
  rw [card_words_mod min max (· ≤ (span min max).toNat), count_le (span_lt_period min max)]

/-- A range of more than one value fills more than half of a period. -/
theorem period_lt {min max : Int64} (h : min < max) :
    period min max < 2 * ((span min max).toNat + 1) := by
  have hspan := toNat_span (Int64.le_of_lt h)
  have hlt := Int64.lt_iff_toInt_lt.mp h
  have hsize : 0 < (span min max).toNat.size := Nat.size_pos.mpr (by omega)
  -- the highest bit of the range is half of the period
  have hhalf : 2 ^ ((span min max).toNat.size - 1) ≤ (span min max).toNat :=
    Nat.lt_size.mp (by omega)
  have hdouble : period min max = 2 * 2 ^ ((span min max).toNat.size - 1) := by
    rw [period, ← Nat.pow_succ', Nat.succ_eq_add_one, Nat.sub_add_cancel hsize]
  omega

/-! ## Draws -/

/-- A draw gives the value of the first word that is accepted. -/
theorem firstPick_eq_some_iff {min max v : Int64} {ws rest : Words} :
    firstPick min max ws = some (v, rest) ↔
      ∃ rejected word, ws = rejected ++ word :: rest ∧
        (∀ w ∈ rejected, pick? min max w = none) ∧ pick? min max word = some v := by
  constructor
  · intro h
    induction ws with
    | nil => cases h
    | cons w ws ih =>
      unfold firstPick at h
      -- a word that is refused is one in front of the rest, one that is accepted ends the draw
      cases hpick : pick? min max w with
      | none =>
        rw [hpick] at h
        obtain ⟨rejected, word, rfl, hrejected, hword⟩ := ih h
        exact ⟨w :: rejected, word, rfl, List.forall_mem_cons.mpr ⟨hpick, hrejected⟩, hword⟩
      | some x =>
        rw [hpick] at h
        obtain ⟨rfl, rfl⟩ := Prod.mk.inj (Option.some.inj h)
        exact ⟨[], w, rfl, fun _ hmem => absurd hmem List.not_mem_nil, hpick⟩
  · rintro ⟨rejected, word, rfl, hrejected, hword⟩
    induction rejected with
    | nil =>
      show firstPick min max (word :: rest) = _
      simp only [firstPick, hword]
    | cons w rejected ih =>
      obtain ⟨hw, hrest⟩ := List.forall_mem_cons.mp hrejected
      show firstPick min max (w :: (rejected ++ word :: rest)) = _
      simp only [firstPick, hw]
      exact ih hrest

/-- A draw from a range of more than one value takes words until one is accepted. The mask is
    the least that covers the width of the range. An accepted word stands for a value of the
    range, every value of the range is the value of equally many words, and more than half of
    all words are accepted. -/
theorem between_is_fair {min max : Int64} (h : min < max) :
    (∀ ws v rest, between min max ws = some (v, rest) ↔
      ∃ rejected word, ws = rejected ++ word :: rest ∧
        (∀ w ∈ rejected, pick? min max w = none) ∧ pick? min max word = some v) ∧
    ((span min max).toNat : Int) = max.toInt - min.toInt ∧
    IsLeastMask (span min max).toNat (maskFor (span min max)).toNat ∧
    (∀ word, pick? min max word = none ∨
      ∃ v, pick? min max word = some v ∧ min ≤ v ∧ v ≤ max) ∧
    (maskFor (span min max)).toNat + 1 ∣ 2 ^ 64 ∧
    (∀ v, min ≤ v → v ≤ max →
      Nat.card { word // pick? min max word = some v } =
        2 ^ 64 / ((maskFor (span min max)).toNat + 1)) ∧
    2 ^ 64 < 2 * Nat.card { word // (pick? min max word).isSome } := by
  have hrange : min ≤ max := Int64.le_of_lt h
  have hmul := period_mul min max
  rw [← period_eq]
  refine ⟨?_, toNat_span hrange, isLeastMask_maskFor _, ?_, Dvd.intro _ hmul, ?_, ?_⟩
  · intro ws v rest
    rw [between, if_neg (Int64.not_le.mpr h)]
    exact firstPick_eq_some_iff
  · intro word
    cases hpick : pick? min max word with
    | none => exact Or.inl rfl
    | some v => exact Or.inr ⟨v, rfl, pick?_mem hrange hpick⟩
  · intro v hmin hmax
    have hpos : 0 < period min max := Nat.two_pow_pos _
    rw [card_pick? hmin hmax, ← hmul, Nat.mul_div_cancel_left _ hpos]
  · -- as the range fills more than half of each period, its words are more than half of all
    have hpos : 0 < 2 ^ (64 - (span min max).toNat.size) := Nat.two_pow_pos _
    calc 2 ^ 64 = period min max * 2 ^ (64 - (span min max).toNat.size) := hmul.symm
      _ < 2 * ((span min max).toNat + 1) * 2 ^ (64 - (span min max).toNat.size) :=
        Nat.mul_lt_mul_of_pos_right (period_lt h) hpos
      _ = 2 * Nat.card { word // (pick? min max word).isSome } := by
        rw [card_accepted, Nat.mul_assoc]

/-- Over all 64-bit integers every word is accepted, and each value has one word. -/
theorem between_is_fair_widest :
    Int64.minValue < Int64.maxValue ∧
      (maskFor (span Int64.minValue Int64.maxValue)).toNat = 2 ^ 64 - 1 ∧
      Nat.card { word // pick? Int64.minValue Int64.maxValue word = some (-1) } = 1 := by
  have h : Int64.minValue < Int64.maxValue := by decide
  have hmask : (maskFor (span Int64.minValue Int64.maxValue)).toNat = 2 ^ 64 - 1 := by decide
  obtain ⟨-, -, -, -, -, hcard, -⟩ := between_is_fair h
  refine ⟨h, hmask, ?_⟩
  rw [hcard (-1) (by decide) (by decide), hmask]
  rfl

end SoloMiner.Random
