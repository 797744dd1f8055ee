import Mathlib.Algebra.Ring.Nat
import SoloMiner.Random.Digits

/-! # Bounds of random draws

    Whatever the words, a draw that gives a value gives one of its range. Sums of 64-bit
    integers wrap around, so the point is that a step no wider than the range does not. -/

namespace SoloMiner.Random

/-- The width of a range, read as a number. -/
theorem toNat_span {min max : Int64} (h : min ≤ max) :
    ((span min max).toNat : Int) = max.toInt - min.toInt := by
  have hle : min.toInt ≤ max.toInt := Int64.le_iff_toInt_le.mp h
  have hmin := min.le_toInt
  have hmax := max.toInt_lt
  have hbv : (span min max).toNat = (max.toBitVec - min.toBitVec).toNat := rfl
  have hM : max.toBitVec.toInt = max.toInt := rfl
  have hm : min.toBitVec.toInt = min.toInt := rfl
  rw [BitVec.toInt_eq_toNat_cond] at hM hm
  -- the difference is taken around the circle, which the order of the bounds undoes
  rw [hbv, BitVec.toNat_sub]
  have h1 := max.toBitVec.isLt
  have h2 := min.toBitVec.isLt
  split at hM <;> split at hm <;> omega

/-- Within the width of a range a step from its lower end does not wrap around. -/
theorem toInt_add_toInt64 {min max : Int64} {value : UInt64} (h : min ≤ max)
    (hv : value ≤ span min max) : (min + value.toInt64).toInt = min.toInt + value.toNat := by
  have hspan := toNat_span h
  have hle : value.toNat ≤ (span min max).toNat := UInt64.le_iff_toNat_le.mp hv
  have hmin := min.le_toInt
  have hmax := max.toInt_lt
  -- the value may look negative as a signed one, but the sum is the same around the circle
  have hvalue : value.toInt64.toInt = (value.toNat : Int).bmod (2 ^ 64) := by
    rw [← Int64.toInt_toBitVec, UInt64.toBitVec_toInt64, BitVec.toInt_eq_toNat_bmod]
    rfl
  rw [Int64.toInt_add, hvalue, Int.add_bmod_bmod]
  exact Int.bmod_eq_of_le (by omega) (by omega)

/-- A word that is accepted stands for a value of the range. -/
theorem pick?_mem {min max v : Int64} {word : UInt64} (h : min ≤ max)
    (hpick : pick? min max word = some v) : min ≤ v ∧ v ≤ max := by
  unfold pick? at hpick
  -- only a word within the width is accepted
  by_cases hle : word &&& maskFor (span min max) ≤ span min max
  · simp only [hle, if_true, Option.some.injEq] at hpick
    have hspan := toNat_span h
    have hlt := UInt64.le_iff_toNat_le.mp hle
    have hsum := toInt_add_toInt64 h hle
    rw [← hpick, Int64.le_iff_toInt_le, Int64.le_iff_toInt_le, hsum]
    omega
  · simp only [hle, if_false] at hpick
    cases hpick

/-- However many words are refused before, the one that is accepted stands for a value of the
    range. -/
theorem firstPick_mem {min max v : Int64} {ws rest : Words} (h : min ≤ max)
    (hd : firstPick min max ws = some (v, rest)) : min ≤ v ∧ v ≤ max := by
  induction ws with
  | nil => cases hd
  | cons w ws ih =>
    simp only [firstPick] at hd
    split at hd
    · next x hx =>
      obtain ⟨rfl, -⟩ := Prod.mk.inj (Option.some.inj hd)
      exact pick?_mem h hx
    · exact ih hd

/-- A uniform draw lies in its range. -/
theorem between_mem {min max v : Int64} {ws rest : Words} (h : min ≤ max)
    (hd : between min max ws = some (v, rest)) : min ≤ v ∧ v ≤ max := by
  unfold between at hd
  split at hd
  · obtain ⟨rfl, -⟩ := Prod.mk.inj (Option.some.inj hd)
    exact ⟨Int64.le_refl _, h⟩
  · exact firstPick_mem h hd

/-- An index drawn up to `max` is at most `max`. -/
theorem index_le {max i : Nat} {ws rest : Words} (h : max < 2 ^ 63)
    (hd : index max ws = some (i, rest)) : i ≤ max := by
  obtain ⟨⟨v, ws'⟩, hv, hi⟩ := Option.map_eq_some_iff.mp hd
  obtain ⟨rfl, -⟩ := Prod.mk.inj hi
  have hmax : (Int64.ofNat max).toInt = max := Int64.toInt_ofNat_of_lt h
  have hzero : (0 : Int64) ≤ Int64.ofNat max := by
    rw [Int64.le_iff_toInt_le, hmax, Int64.toInt_zero]; omega
  have hle := Int64.le_iff_toInt_le.mp (between_mem hzero hv).2
  omega

/-- Every try is held against the range, and the draw that is made when the tries are used up is
    a uniform one. -/
theorem digitsWithin_mem {min max v : Int64} (h : min ≤ max) (tries : Nat) {ws rest : Words}
    (hd : digitsWithin min max tries ws = some (v, rest)) : min ≤ v ∧ v ≤ max := by
  induction tries generalizing ws with
  | zero => exact between_mem h hd
  | succ tries ih =>
    simp only [digitsWithin] at hd
    split at hd
    · cases hd
    · next n ws' _ =>
      split at hd
      · next hn =>
        obtain ⟨rfl, -⟩ := Prod.mk.inj (Option.some.inj hd)
        have hmax := max.toInt_lt
        have hv : (Int64.ofNat n).toInt = n := Int64.toInt_ofNat_of_lt (by omega)
        rw [Int64.le_iff_toInt_le, Int64.le_iff_toInt_le, hv]
        exact hn
      · exact ih hd

/-- A digit-wise draw lies in its range. -/
theorem byDigits_mem {min max v : Int64} {ws rest : Words} (h : min ≤ max)
    (hd : byDigits min max ws = some (v, rest)) : min ≤ v ∧ v ≤ max := by
  unfold byDigits at hd
  split at hd
  · obtain ⟨rfl, -⟩ := Prod.mk.inj (Option.some.inj hd)
    exact ⟨Int64.le_refl _, h⟩
  · exact digitsWithin_mem h _ hd

end SoloMiner.Random
