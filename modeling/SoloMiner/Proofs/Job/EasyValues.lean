import SoloMiner.Job.Template

/-! # Easy values of a job

    The easy values are an ascending list inside the range, whatever whole numbers the
    fractions are cut to. So the binary search of a template decides membership. -/

namespace SoloMiner

namespace EasyBlock

/-! ## Values -/

theorem dropRepeats_sublist (xs : List Int64) : (dropRepeats xs).Sublist xs := by
  fun_induction dropRepeats xs with
  | case1 x rest ih => exact ih.cons _
  | case2 x y rest _ ih => exact ih.cons_cons _
  | case3 xs => exact List.Sublist.refl _

/-- What is left of sorted values ascends strictly. -/
theorem dropRepeats_pairwise_lt {xs : List Int64} (h : xs.Pairwise (· ≤ ·)) :
    (dropRepeats xs).Pairwise (· < ·) := by
  fun_induction dropRepeats xs with
  | case1 x rest ih => exact ih (List.pairwise_cons.mp h).2
  | case2 x y rest hne ih =>
    obtain ⟨hx, hrest⟩ := List.pairwise_cons.mp h
    refine List.pairwise_cons.mpr ⟨?_, ih hrest⟩
    intro v hv
    -- neighbours that stay differ, and all behind them are at least as large
    have hxy : x < y := Int64.lt_iff_le_and_ne.mpr ⟨hx y List.mem_cons_self, hne⟩
    rcases List.mem_cons.mp ((dropRepeats_sublist _).subset hv) with rfl | hv'
    · exact hxy
    · exact Int64.lt_of_lt_of_le hxy ((List.pairwise_cons.mp hrest).1 v hv')
  | case3 xs hshort =>
    -- only lists too short for a comparison are left
    match xs with
    | [] => exact List.Pairwise.nil
    | [x] => exact List.pairwise_singleton _ _
    | x :: y :: rest => exact (hshort x y rest rfl).elim

/-- The order of the integers is total and transitive, so that sorting by it sorts. -/
theorem mergeSort_pairwise_le (xs : List Int64) :
    (xs.mergeSort fun a b => decide (a ≤ b)).Pairwise (· ≤ ·) := by
  have htrans : ∀ a b c : Int64, decide (a ≤ b) = true → decide (b ≤ c) = true →
      decide (a ≤ c) = true := by
    intro a b c hab hbc
    exact decide_eq_true (Int64.le_trans (of_decide_eq_true hab) (of_decide_eq_true hbc))
  have htotal : ∀ a b : Int64, (decide (a ≤ b) || decide (b ≤ a)) = true := by
    intro a b
    simpa using Int64.le_total a b
  exact (List.pairwise_mergeSort htrans htotal xs).imp of_decide_eq_true

theorem valuesAt_pairwise_lt (min max : Int64) (offsets : List Nat) :
    (valuesAt min max offsets).Pairwise (· < ·) :=
  dropRepeats_pairwise_lt (mergeSort_pairwise_le _)

/-- A value is cut back to the end of the range, and no offset leads below its beginning. -/
theorem mem_of_mem_valuesAt {min max v : Int64} {offsets : List Nat} (h : min ≤ max)
    (hv : v ∈ valuesAt min max offsets) : min ≤ v ∧ v ≤ max := by
  have hraw := (dropRepeats_sublist _).subset hv
  rw [List.mem_mergeSort] at hraw
  obtain ⟨n, -, rfl⟩ := List.mem_map.mp hraw
  have hle := Int64.le_iff_toInt_le.mp h
  have hmin := min.le_toInt
  have hmax := max.toInt_lt
  have hcut : (Int64.ofInt (Min.min (min.toInt + n) max.toInt)).toInt =
      Min.min (min.toInt + n) max.toInt := Int64.toInt_ofInt_of_le (by omega) (by omega)
  rw [Int64.le_iff_toInt_le, Int64.le_iff_toInt_le, hcut]
  omega

/-- The value of the `i`-th integer of a range. -/
theorem toInt_ofInt_add {min max : Int64} {i : Nat} (hi : i < (rangeSize min max).toNat) :
    (Int64.ofInt (min.toInt + i)).toInt = min.toInt + i := by
  have hmin := min.le_toInt
  have hmax := max.toInt_lt
  simp only [rangeSize] at hi
  exact Int64.toInt_ofInt_of_le (by omega) (by omega)

/-- The integers of a range, in ascending order. -/
def integers (min max : Int64) : List Int64 :=
  (List.range (rangeSize min max).toNat).map fun (i : Nat) => Int64.ofInt (min.toInt + i)

theorem length_integers (min max : Int64) :
    (integers min max).length = (rangeSize min max).toNat := by
  rw [integers, List.length_map, List.length_range]

theorem integers_pairwise_lt (min max : Int64) : (integers min max).Pairwise (· < ·) := by
  rw [integers, List.pairwise_map]
  refine List.pairwise_lt_range.imp_of_mem ?_
  intro i j hi hj hij
  rw [Int64.lt_iff_toInt_lt, toInt_ofInt_add (List.mem_range.mp hi),
    toInt_ofInt_add (List.mem_range.mp hj)]
  omega

/-- The integers of a range are those between its ends. -/
theorem mem_integers_iff {min max v : Int64} : v ∈ integers min max ↔ min ≤ v ∧ v ≤ max := by
  rw [Int64.le_iff_toInt_le, Int64.le_iff_toInt_le]
  constructor
  · intro hv
    obtain ⟨i, hi, rfl⟩ := List.mem_map.mp hv
    have hi' := List.mem_range.mp hi
    rw [toInt_ofInt_add hi']
    simp only [rangeSize] at hi'
    omega
  · rintro ⟨hmin, hmax⟩
    refine List.mem_map.mpr ⟨(v.toInt - min.toInt).toNat, ?_, ?_⟩
    · rw [List.mem_range, rangeSize]
      omega
    · have hsum : min.toInt + ((v.toInt - min.toInt).toNat : Int) = v.toInt := by omega
      show Int64.ofInt (min.toInt + ((v.toInt - min.toInt).toNat : Int)) = v
      rw [hsum, Int64.ofInt_toInt]

/-- Easy values are in ascending order. -/
theorem valuesBy_pairwise_lt (offset : Nat → Nat) (min max : Int64) :
    (valuesBy offset min max).Pairwise (· < ·) := by
  simp only [valuesBy]
  split
  · exact List.Pairwise.nil
  · split
    · exact integers_pairwise_lt min max
    · exact valuesAt_pairwise_lt _ _ _

/-- Easy values lie in the range. -/
theorem mem_of_mem_valuesBy {offset : Nat → Nat} {min max v : Int64}
    (hv : v ∈ valuesBy offset min max) : min ≤ v ∧ v ≤ max := by
  simp only [valuesBy] at hv
  -- a range with few integers has them all, any other those at the offsets
  split at hv
  · cases hv
  · next hpos =>
    simp only [rangeSize] at hpos
    have hle : min ≤ max := Int64.le_iff_toInt_le.mpr (by omega)
    split at hv
    · exact mem_integers_iff.mp hv
    · exact mem_of_mem_valuesAt hle hv

/-- There are at most 256 easy values. -/
theorem length_valuesBy_le (offset : Nat → Nat) (min max : Int64) :
    (valuesBy offset min max).length ≤ maxCount := by
  simp only [valuesBy]
  split
  · exact Nat.zero_le _
  · split
    · next h => rw [List.length_map, List.length_range]; omega
    · exact Nat.le_trans (dropRepeats_sublist _).length_le (by simp)

end EasyBlock

namespace JobTemplate

/-! ## Search -/

theorem getD_lt_getD {xs : Array Int64} (sorted : xs.toList.Pairwise (· < ·)) {i j : Nat}
    (hij : i < j) (hj : j < xs.size) : xs.getD i 0 < xs.getD j 0 := by
  have h := List.pairwise_iff_getElem.mp sorted i j (by simpa using Nat.lt_trans hij hj)
    (by simpa using hj) hij
  simpa [Array.getD, hj, Nat.lt_trans hij hj] using h

/-- What the search finds is there. -/
theorem exists_of_searchFrom {xs : Array Int64} {v : Int64} {low high : Nat}
    (hhigh : high ≤ xs.size) (h : searchFrom xs v low high = true) :
    ∃ i, low ≤ i ∧ i < high ∧ xs.getD i 0 = v := by
  fun_induction searchFrom xs v low high with
  -- the middle is the value
  | case1 low high hlt mid x heq =>
    have hmid : mid = (low + high) / 2 := rfl
    exact ⟨mid, by omega, by omega, heq⟩
  -- the search goes on behind the middle
  | case2 low high hlt mid x hne hless ih =>
    have hmid : mid = (low + high) / 2 := rfl
    obtain ⟨i, hlow, hhi, hi⟩ := ih hhigh h
    exact ⟨i, by omega, hhi, hi⟩
  -- or in front of it
  | case3 low high hlt mid x hne hless ih =>
    have hmid : mid = (low + high) / 2 := rfl
    obtain ⟨i, hlow, hhi, hi⟩ := ih (by omega) h
    exact ⟨i, hlow, by omega, hi⟩
  | case4 => cases h

/-- What is there between the two positions is found. -/
theorem searchFrom_of_getD {xs : Array Int64} (sorted : xs.toList.Pairwise (· < ·)) {v : Int64}
    {low high i : Nat} (hhigh : high ≤ xs.size) (hlow : low ≤ i) (hi : i < high)
    (hv : xs.getD i 0 = v) : searchFrom xs v low high = true := by
  fun_induction searchFrom xs v low high with
  | case1 => rfl
  | case2 low high hlt mid x hne hless ih =>
    have hmid : mid = (low + high) / 2 := rfl
    -- the value at the middle is too small, so the one sought stands behind it
    have hmi : mid < i := by
      rcases Nat.lt_trichotomy mid i with h | rfl | h
      · exact h
      · exact (hne hv).elim
      · have := getD_lt_getD sorted h (by omega)
        rw [hv] at this
        exact (Int64.lt_asymm this hless).elim
    exact ih hhigh hmi hi
  | case3 low high hlt mid x hne hless ih =>
    have hmid : mid = (low + high) / 2 := rfl
    -- it is too large, so the one sought stands in front of it
    have him : i < mid := by
      rcases Nat.lt_trichotomy i mid with h | rfl | h
      · exact h
      · exact (hne hv).elim
      · have := getD_lt_getD sorted h (by omega)
        rw [hv] at this
        exact (hless this).elim
    exact ih (by omega) hlow him
  | case4 => omega

/-- The binary search decides membership. -/
theorem searchFrom_eq_true_iff {xs : Array Int64} (sorted : xs.toList.Pairwise (· < ·))
    (v : Int64) : searchFrom xs v 0 xs.size = true ↔ v ∈ xs := by
  constructor
  · intro h
    obtain ⟨i, -, hi, hv⟩ := exists_of_searchFrom (Nat.le_refl _) h
    rw [← hv]
    simp [Array.getD, hi]
  · intro h
    obtain ⟨i, hi, hv⟩ := Array.mem_iff_getElem.mp h
    exact searchFrom_of_getD sorted (Nat.le_refl _) (Nat.zero_le i) hi (by simpa [Array.getD, hi])

end JobTemplate
end SoloMiner
