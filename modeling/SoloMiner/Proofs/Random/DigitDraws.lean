import SoloMiner.Proofs.Random.Fairness

/-! # Draws built from digits

    A draw made of digits is a row of tries, each of which makes a number and keeps it if it lies
    in the range. The lowest digit is never zero and the others are free, so what a try can make
    are the numbers that are positive and no multiple of ten, and of those every one that lies in
    the range: it has no fewer digits than the lower end and no more than the upper one, and
    zeros may lead. A range without such a number is left to the uniform draw. -/

namespace SoloMiner.Random

/-! ## Numbers of digits -/

theorem digitCount_pos (n : Nat) : 0 < digitCount n := by
  unfold digitCount
  split <;> omega

/-- The numbers of at most `k` digits are those below the `k`-th power of ten. -/
theorem digitCount_le_iff {n k : Nat} (hk : 0 < k) : digitCount n ≤ k ↔ n < 10 ^ k := by
  fun_induction digitCount n generalizing k with
  -- one digit: every power of ten from the first on is above
  | case1 n hlt =>
    have hten : 10 ^ 1 ≤ 10 ^ k := Nat.pow_le_pow_right (by decide) hk
    constructor <;> intro _ <;> omega
  -- the digits but the last: one power of ten less, unless none is left
  | case2 n hge ih =>
    obtain ⟨k, rfl⟩ : ∃ j, k = j + 1 := ⟨k - 1, by omega⟩
    have hpos := digitCount_pos (n / 10)
    rw [Nat.pow_succ]
    rcases Nat.eq_zero_or_pos k with rfl | hk
    · constructor <;> intro _ <;> omega
    · have hrest := ih hk
      omega

theorem lt_pow_digitCount (n : Nat) : n < 10 ^ digitCount n :=
  (digitCount_le_iff (digitCount_pos n)).mp (Nat.le_refl _)

theorem digitCount_mono {m n : Nat} (h : m ≤ n) : digitCount m ≤ digitCount n :=
  (digitCount_le_iff (digitCount_pos n)).mpr (Nat.lt_of_le_of_lt h (lt_pow_digitCount n))

variable {min max : Int64}

theorem digitsOf_pos (v : Int64) : 0 < digitsOf v := digitCount_pos _

theorem digitsOf_mono {v w : Int64} (h : v ≤ w) : digitsOf v ≤ digitsOf w :=
  digitCount_mono (Int.toNat_le_toNat (Int64.le_iff_toInt_le.mp h))

/-- A 64-bit number has at most nineteen digits. -/
theorem digitsOf_le (v : Int64) : digitsOf v ≤ 19 := by
  have hlt := v.toInt_lt
  exact (digitCount_le_iff (by decide)).mpr (by omega)

theorem toInt_ofNat_digitsOf (v : Int64) : (Int64.ofNat (digitsOf v)).toInt = digitsOf v := by
  have hle := digitsOf_le v
  exact Int64.toInt_ofNat_of_lt (by omega)

/-! ## Digits -/

/-- Every value of a range is drawn with some words: a range of more than one value takes the
    word that is the distance from its least value. -/
theorem exists_between {v : Int64} (hmin : min ≤ v) (hmax : v ≤ max) :
    ∃ ws, ∀ rest, between min max (ws ++ rest) = some (v, rest) := by
  have hlow : min.toInt ≤ v.toInt := Int64.le_iff_toInt_le.mp hmin
  have hhigh : v.toInt ≤ max.toInt := Int64.le_iff_toInt_le.mp hmax
  by_cases hrange : max ≤ min
  · -- a range of one value takes no word
    have hone := Int64.le_iff_toInt_le.mp hrange
    have hv : min = v := Int64.toInt.inj (by omega)
    refine ⟨[], fun rest => ?_⟩
    rw [between, if_pos hrange, hv, List.nil_append]
  · have hspan := toNat_span (Int64.le_trans hmin hmax)
    have hperiod := span_lt_period min max
    have hwidth := (span min max).toNat_lt
    let word := UInt64.ofNat (v.toInt - min.toInt).toNat
    have hword : word.toNat = (v.toInt - min.toInt).toNat :=
      UInt64.toNat_ofNat_of_lt' (show _ < 2 ^ 64 by omega)
    have hpick : pick? min max word = some v := by
      rw [pick?_eq_some_iff hmin hmax, hword]
      exact Nat.mod_eq_of_lt (by omega)
    refine ⟨[word], fun rest => ?_⟩
    show between min max (word :: rest) = some (v, rest)
    simp only [between, if_neg hrange, firstPick, hpick]

/-- The least digit that may stand at a place. -/
theorem toInt_lowest (place : Nat) :
    (if place = 1 then (1 : Int64) else 0).toInt = if place = 1 then 1 else 0 := by
  split <;> rfl

/-- Digits from a place on add a number of so many digits. At the lowest place it does not end
    in zero. -/
theorem exists_of_drawDigits {n place sum r : Nat} {ws rest : Words}
    (h : drawDigits n place sum ws = some (r, rest)) :
    ∃ m < 10 ^ n, r = sum + place * m ∧ (place = 1 → 0 < n → m % 10 ≠ 0) := by
  induction n generalizing place sum ws with
  | zero =>
    obtain ⟨rfl, -⟩ := Prod.mk.inj (Option.some.inj h)
    exact ⟨0, Nat.one_pos, rfl, fun _ hpos => absurd hpos (Nat.lt_irrefl 0)⟩
  | succ n ih =>
    simp only [drawDigits] at h
    split at h
    · cases h
    · next d ws' hdigit =>
      have hrange : (if place = 1 then (1 : Int64) else 0) ≤ 9 := by split <;> decide
      obtain ⟨hlow, hhigh⟩ := between_mem hrange hdigit
      rw [Int64.le_iff_toInt_le, toInt_lowest] at hlow
      have hnine : d.toInt ≤ 9 := Int64.le_iff_toInt_le.mp hhigh
      -- the digits that follow make a number, and this digit stands behind it
      obtain ⟨m, hm, rfl, -⟩ := ih h
      refine ⟨d.toInt.toNat + 10 * m, ?_, ?_, ?_⟩
      · rw [Nat.pow_succ]
        omega
      · rw [Nat.mul_add, ← Nat.mul_assoc, Nat.add_assoc]
      · -- only the lowest digit is drawn from one on
        intro hplace _
        rw [if_pos hplace] at hlow
        omega

/-- Every such number is added with some words. -/
theorem exists_drawDigits {n m : Nat} (place sum : Nat) (hm : m < 10 ^ n)
    (hlowest : place = 1 → 0 < n → m % 10 ≠ 0) :
    ∃ ws, ∀ rest, drawDigits n place sum (ws ++ rest) = some (sum + place * m, rest) := by
  induction n generalizing place sum m with
  | zero =>
    obtain rfl : m = 0 := by simpa using hm
    exact ⟨[], fun rest => rfl⟩
  | succ n ih =>
    -- the last digit of the number is drawn first, and what is left has one digit less
    rw [Nat.pow_succ] at hm
    have hdigit : (Int64.ofNat (m % 10)).toInt = (m % 10 : Nat) :=
      Int64.toInt_ofNat_of_lt (by omega)
    have hlow : (if place = 1 then (1 : Int64) else 0) ≤ Int64.ofNat (m % 10) := by
      rw [Int64.le_iff_toInt_le, toInt_lowest, hdigit]
      by_cases hplace : place = 1
      · have hne := hlowest hplace (Nat.succ_pos n)
        rw [if_pos hplace]
        omega
      · rw [if_neg hplace]
        omega
    have hhigh : Int64.ofNat (m % 10) ≤ 9 := by
      rw [Int64.le_iff_toInt_le, hdigit]
      show ((m % 10 : Nat) : Int) ≤ 9
      omega
    obtain ⟨digit, hdraw⟩ := exists_between hlow hhigh
    have hrest : m / 10 < 10 ^ n := by omega
    obtain ⟨ws, hmore⟩ := ih (place * 10) (sum + place * (m % 10)) hrest
      (fun hplace => by omega)
    refine ⟨digit ++ ws, fun rest => ?_⟩
    have hsum : sum + place * (m % 10) + place * 10 * (m / 10) = sum + place * m := by
      rw [Nat.add_assoc, Nat.mul_assoc, ← Nat.mul_add, Nat.mod_add_div]
    rw [List.append_assoc, drawDigits, hdraw]
    simp only [hdigit, Int.toNat_natCast]
    rw [hmore, hsum]

/-! ## Tries -/

/-- No try makes zero or a multiple of ten: a try draws at least one digit, and the lowest is not
    zero. -/
theorem mod_ten_of_tryDigits (h : min ≤ max) {ws rest : Words} {n : Nat}
    (htry : tryDigits min max ws = some (n, rest)) : n % 10 ≠ 0 := by
  unfold tryDigits at htry
  split at htry
  · cases htry
  · next size ws' hsize =>
    have hends : Int64.ofNat (digitsOf min) ≤ Int64.ofNat (digitsOf max) := by
      rw [Int64.le_iff_toInt_le, toInt_ofNat_digitsOf, toInt_ofNat_digitsOf]
      exact Int.ofNat_le.mpr (digitsOf_mono h)
    have hlow := Int64.le_iff_toInt_le.mp (between_mem hends hsize).1
    rw [toInt_ofNat_digitsOf] at hlow
    have hpos := digitsOf_pos min
    obtain ⟨m, -, rfl, hmod⟩ := exists_of_drawDigits htry
    rw [Nat.zero_add, Nat.one_mul]
    exact hmod rfl (by omega)

/-- A try that makes a value of the range. The number that a try makes has no sign, so only
    values that are not negative are hit. -/
structure Hits (min max : Int64) (ws : Words) (v : Int64) (rest : Words) : Prop where
  made : tryDigits min max ws = some (v.toInt.toNat, rest)
  nonneg : 0 ≤ v
  low : min ≤ v
  high : v ≤ max

/-- Tries in a row that all make a number outside the range. They take the words up to
    `behind`. -/
inductive Misses (min max : Int64) : Nat → Words → Words → Prop where
  | none (ws : Words) : Misses min max 0 ws ws
  | miss {tries n : Nat} {ws rest behind : Words} (made : tryDigits min max ws = some (n, rest))
      (outside : ¬(min.toInt ≤ n ∧ (n : Int) ≤ max.toInt)) (more : Misses min max tries rest behind) :
      Misses min max (tries + 1) ws behind

theorem Hits.lowest {ws rest : Words} {v : Int64} (h : Hits min max ws v rest) :
    0 < v.toInt ∧ ¬10 ∣ v.toInt := by
  have hmod := mod_ten_of_tryDigits (Int64.le_trans h.low h.high) h.made
  have hnonneg : 0 ≤ v.toInt := Int64.le_iff_toInt_le.mp h.nonneg
  omega

/-- Every value of the range that does not end in zero is hit with some words: first its number
    of digits is drawn, which those of the ends of the range admit, and then its digits. -/
theorem exists_hits {v : Int64} (hmin : min ≤ v) (hmax : v ≤ max) (hpos : 0 < v.toInt)
    (hten : ¬10 ∣ v.toInt) : ∃ ws, ∀ rest, Hits min max (ws ++ rest) v rest := by
  have hfewest : Int64.ofNat (digitsOf min) ≤ Int64.ofNat (digitsOf v) := by
    rw [Int64.le_iff_toInt_le, toInt_ofNat_digitsOf, toInt_ofNat_digitsOf]
    exact Int.ofNat_le.mpr (digitsOf_mono hmin)
  have hmost : Int64.ofNat (digitsOf v) ≤ Int64.ofNat (digitsOf max) := by
    rw [Int64.le_iff_toInt_le, toInt_ofNat_digitsOf, toInt_ofNat_digitsOf]
    exact Int.ofNat_le.mpr (digitsOf_mono hmax)
  obtain ⟨count, hcount⟩ := exists_between hfewest hmost
  have hlt : v.toInt.toNat < 10 ^ digitsOf v := lt_pow_digitCount v.toInt.toNat
  obtain ⟨digits, hdigits⟩ := exists_drawDigits 1 0 hlt (fun _ _ => by omega)
  refine ⟨count ++ digits, fun rest => ⟨?_, ?_, hmin, hmax⟩⟩
  · rw [List.append_assoc, tryDigits, hcount]
    simp only [toInt_ofNat_digitsOf, Int.toNat_natCast]
    rw [hdigits, Nat.zero_add, Nat.one_mul]
  · exact Int64.le_iff_toInt_le.mpr (Int.le_of_lt hpos)

/-! ## Rows of tries -/

/-- A hit ends the draw, however many tries are left. -/
theorem digitsWithin_of_hits {ws rest : Words} {v : Int64} (h : Hits min max ws v rest)
    (tries : Nat) : digitsWithin min max (tries + 1) ws = some (v, rest) := by
  have hnonneg : 0 ≤ v.toInt := Int64.le_iff_toInt_le.mp h.nonneg
  have hlow := Int64.le_iff_toInt_le.mp h.low
  have hhigh := Int64.le_iff_toInt_le.mp h.high
  have hlt := v.toInt_lt
  have hvalue : Int64.ofNat v.toInt.toNat = v := by
    apply Int64.toInt.inj
    rw [Int64.toInt_ofNat_of_lt (by omega), Int.toNat_of_nonneg hnonneg]
  have hinside : min.toInt ≤ v.toInt.toNat ∧ (v.toInt.toNat : Int) ≤ max.toInt := by omega
  rw [digitsWithin, h.made]
  simp only [if_pos hinside, hvalue]

/-- A try whose number lies inside the range is a hit. -/
theorem hits_of_inside {ws rest : Words} {n : Nat} (hmade : tryDigits min max ws = some (n, rest))
    (hinside : min.toInt ≤ n ∧ (n : Int) ≤ max.toInt) : Hits min max ws (Int64.ofNat n) rest := by
  have hlt := max.toInt_lt
  have hvalue : (Int64.ofNat n).toInt = n := Int64.toInt_ofNat_of_lt (by omega)
  refine ⟨by rw [hvalue, Int.toNat_natCast, hmade], ?_, ?_, ?_⟩
  · rw [Int64.le_iff_toInt_le, hvalue]
    exact Int.natCast_nonneg n
  · rw [Int64.le_iff_toInt_le, hvalue]
    exact hinside.1
  · rw [Int64.le_iff_toInt_le, hvalue]
    exact hinside.2

/-- Behind some misses a draw goes on with the tries that are left. -/
theorem Misses.digitsWithin {missed : Nat} {ws behind : Words}
    (h : Misses min max missed ws behind) (tries : Nat) :
    Random.digitsWithin min max (missed + tries) ws =
      Random.digitsWithin min max tries behind := by
  induction h with
  | none ws => rw [Nat.zero_add]
  | @miss missed n ws rest behind made outside more ih =>
    rw [Nat.succ_add, Random.digitsWithin, made]
    simp only [if_neg outside]
    exact ih

/-- A draw is a row of misses, and then a hit or, after all tries, a uniform draw. -/
theorem digitsWithin_eq_some_iff {tries : Nat} {ws rest : Words} {v : Int64} :
    digitsWithin min max tries ws = some (v, rest) ↔
      (∃ missed < tries, ∃ behind, Misses min max missed ws behind ∧ Hits min max behind v rest) ∨
        ∃ behind, Misses min max tries ws behind ∧ between min max behind = some (v, rest) := by
  constructor
  · intro h
    induction tries generalizing ws with
    | zero => exact Or.inr ⟨ws, .none ws, h⟩
    | succ tries ih =>
      simp only [digitsWithin] at h
      split at h
      · cases h
      · next n ws' made =>
        -- the number of this try lies inside, and the draw is over, or the try is one miss more
        by_cases hinside : min.toInt ≤ n ∧ (n : Int) ≤ max.toInt
        · rw [if_pos hinside] at h
          obtain ⟨rfl, rfl⟩ := Prod.mk.inj (Option.some.inj h)
          exact Or.inl ⟨0, Nat.succ_pos tries, ws, .none ws, hits_of_inside made hinside⟩
        · rw [if_neg hinside] at h
          rcases ih h with ⟨missed, hlt, behind, hmisses, hhits⟩ | ⟨behind, hmisses, hdraw⟩
          · exact Or.inl
              ⟨missed + 1, Nat.succ_lt_succ hlt, behind, .miss made hinside hmisses, hhits⟩
          · exact Or.inr ⟨behind, .miss made hinside hmisses, hdraw⟩
  · rintro (⟨missed, hlt, behind, hmisses, hhits⟩ | ⟨behind, hmisses, hdraw⟩)
    · -- a try is left behind the misses
      obtain ⟨left, rfl⟩ : ∃ left, tries = missed + (left + 1) := ⟨tries - missed - 1, by omega⟩
      rw [hmisses.digitsWithin]
      exact digitsWithin_of_hits hhits left
    · have htries := hmisses.digitsWithin 0
      rw [Nat.add_zero] at htries
      rw [htries]
      exact hdraw

/-- A digit-wise draw from a range of more than one value is a row of tries that miss, at most
    sixty-four, and then a try that hits or, when all have missed, a uniform draw. What it gives
    lies in the range. What a try hits is positive and no multiple of ten, every such value of
    the range is hit by the first try with some words, and if there is none the draw is
    uniform. -/
theorem byDigits_hits {min max : Int64} (h : min < max) :
    (∀ ws v rest, byDigits min max ws = some (v, rest) ↔
      (∃ missed < 64, ∃ behind, Misses min max missed ws behind ∧ Hits min max behind v rest) ∨
        ∃ behind, Misses min max 64 ws behind ∧ between min max behind = some (v, rest)) ∧
    (∀ ws v rest, byDigits min max ws = some (v, rest) → min ≤ v ∧ v ≤ max) ∧
    (∀ ws v rest, Hits min max ws v rest → 0 < v.toInt ∧ ¬10 ∣ v.toInt) ∧
    (∀ v, min ≤ v → v ≤ max → 0 < v.toInt → ¬10 ∣ v.toInt →
      ∃ ws, ∀ rest, Hits min max (ws ++ rest) v rest ∧
        byDigits min max (ws ++ rest) = some (v, rest)) ∧
    ((∀ v, min ≤ v → v ≤ max → ¬(0 < v.toInt ∧ ¬10 ∣ v.toInt)) →
      ∀ ws v rest, byDigits min max ws = some (v, rest) ↔
        ∃ behind, Misses min max 64 ws behind ∧ between min max behind = some (v, rest)) := by
  have hwithin (ws : Words) : byDigits min max ws = digitsWithin min max 64 ws := by
    rw [byDigits, if_neg (Int64.not_le.mpr h)]
    rfl
  refine ⟨?_, ?_, ?_, ?_, ?_⟩
  · intro ws v rest
    rw [hwithin]
    exact digitsWithin_eq_some_iff
  · intro ws v rest
    exact byDigits_mem (Int64.le_of_lt h)
  · intro ws v rest
    exact Hits.lowest
  · intro v hmin hmax hpos hten
    obtain ⟨ws, hhits⟩ := exists_hits hmin hmax hpos hten
    refine ⟨ws, fun rest => ⟨hhits rest, ?_⟩⟩
    rw [hwithin]
    exact digitsWithin_of_hits (hhits rest) 63
  · -- with nothing to hit, only misses and the uniform draw are left
    intro hnone ws v rest
    rw [hwithin, digitsWithin_eq_some_iff]
    constructor
    · rintro (⟨missed, -, behind, -, hhits⟩ | hdraw)
      · exact absurd hhits.lowest (hnone v hhits.low hhits.high)
      · exact hdraw
    · exact Or.inr

/-- Of the two numbers from ten to eleven a try can make the second one only. -/
theorem byDigits_hits_small :
    (10 : Int64) < 11 ∧ (∃ ws, byDigits 10 11 ws = some (11, [])) ∧
      ¬∃ ws rest, Hits 10 11 ws 10 rest := by
  have h : (10 : Int64) < 11 := by decide
  obtain ⟨-, -, hlowest, hmade, -⟩ := byDigits_hits h
  obtain ⟨ws, hdraws⟩ := hmade 11 (by decide) (by decide) (by decide) (by decide)
  refine ⟨h, ⟨ws, ?_⟩, ?_⟩
  · have hdraw := (hdraws []).2
    rwa [List.append_nil] at hdraw
  · rintro ⟨ws, rest, hhits⟩
    exact absurd (hlowest ws 10 rest hhits).2 (by decide)

end SoloMiner.Random
