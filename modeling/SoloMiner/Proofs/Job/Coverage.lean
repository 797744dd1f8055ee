import SoloMiner.Proofs.Job.Building

/-! # Coverage of a range

    Where the fractions of a range are cut off does not matter. Whatever whole numbers they are
    cut to, the easy values ascend inside the range, there is at least one and there are no more
    than 256, and a range with no more integers than that is covered whole.

    So the number of easy values tells whether every integer of the range is one of them. -/

namespace SoloMiner

namespace EasyBlock

variable {offset : Nat → Nat} {offsets : List Nat} {min max v : Int64} {xs : List Int64}

/-! ## Layouts -/

/-- One of each run of equal elements is left. -/
theorem mem_dropRepeats_iff : v ∈ dropRepeats xs ↔ v ∈ xs := by
  constructor
  · intro hv
    exact (dropRepeats_sublist xs).subset hv
  · intro hv
    fun_induction dropRepeats xs with
    -- an element that is dropped is the one behind it
    | case1 x rest ih =>
      apply ih
      rcases List.mem_cons.mp hv with rfl | hv
      · exact List.mem_cons_self
      · exact hv
    | case2 x y rest _ ih =>
      rcases List.mem_cons.mp hv with rfl | hv
      · exact List.mem_cons_self
      · exact List.mem_cons_of_mem x (ih hv)
    | case3 xs _ => exact hv

/-- The values at some offsets are those integers, moved back to the end of the range if they
    are behind it. -/
theorem mem_valuesAt_iff :
    v ∈ valuesAt min max offsets ↔
      ∃ n ∈ offsets, Int64.ofInt (Min.min (min.toInt + n) max.toInt) = v := by
  unfold valuesAt
  rw [mem_dropRepeats_iff, List.mem_mergeSort, List.mem_map]

theorem valuesBy_of_small (hpos : 0 < rangeSize min max) (h : rangeSize min max ≤ maxCount) :
    valuesBy offset min max = integers min max := by
  unfold valuesBy
  rw [if_neg (Int.not_le.mpr hpos), if_pos h]
  rfl

theorem valuesBy_of_large (h : maxCount < rangeSize min max) :
    valuesBy offset min max = valuesAt min max ((List.range maxCount).map offset) := by
  have hpos : ¬rangeSize min max ≤ 0 := by omega
  unfold valuesBy
  rw [if_neg hpos, if_neg (Int.not_le.mpr h)]

/-- What is relied on of the values laid out in `[min, max]`. -/
structure IsSpread (min max : Int64) (xs : List Int64) : Prop where
  ne_nil : xs ≠ []
  ascending : xs.Pairwise (· < ·)
  length_le : xs.length ≤ maxCount
  mem_range : ∀ v ∈ xs, min ≤ v ∧ v ≤ max
  /-- A small range is covered. -/
  covers : rangeSize min max ≤ maxCount → ∀ v, min ≤ v → v ≤ max → v ∈ xs

/-- The values that are laid out in a range are a spread of it, wherever the offsets lead. -/
theorem valuesBy_isSpread (offset : Nat → Nat) (h : min ≤ max) :
    IsSpread min max (valuesBy offset min max) := by
  have hpos : 0 < rangeSize min max := by
    have hle := Int64.le_iff_toInt_le.mp h
    unfold rangeSize
    omega
  have hne : valuesBy offset min max ≠ [] := by
    by_cases hsmall : rangeSize min max ≤ maxCount
    · -- the lower end is a value
      have hmin : min ∈ integers min max := mem_integers_iff.mpr ⟨Int64.le_refl min, h⟩
      rw [valuesBy_of_small hpos hsmall]
      exact List.ne_nil_of_mem hmin
    · -- what the first offset leads to is a value
      have hfirst : offset 0 ∈ (List.range maxCount).map offset :=
        List.mem_map_of_mem (List.mem_range.mpr (by decide))
      rw [valuesBy_of_large (Int.not_le.mp hsmall)]
      exact List.ne_nil_of_mem (mem_valuesAt_iff.mpr ⟨offset 0, hfirst, rfl⟩)
  refine ⟨hne, valuesBy_pairwise_lt _ _ _, length_valuesBy_le _ _ _, ?_, ?_⟩
  · intro v hv
    exact mem_of_mem_valuesBy hv
  · intro hsmall v hmin hmax
    rw [valuesBy_of_small hpos hsmall]
    exact mem_integers_iff.mpr ⟨hmin, hmax⟩

end EasyBlock

namespace JobTemplate

variable {job : JobTemplate}

/-! ## Counting -/

/-- As many easy values as integers are all integers of the range. -/
theorem IsLaidOut.mem_of_coversRange (h : job.IsLaidOut) (hcover : job.easyValuesCoverRange = true)
    {v : Int64} (hmin : job.minRange ≤ v) (hmax : v ≤ job.maxRange) : v ∈ job.easyValues := by
  have hsub : job.easyValues.toList ⊆ EasyBlock.integers job.minRange job.maxRange := by
    intro x hx
    exact EasyBlock.mem_integers_iff.mpr (h.mem_range x (Array.mem_toList_iff.mp hx))
  have hlength : (EasyBlock.integers job.minRange job.maxRange).length ≤
      job.easyValues.toList.length := by
    have hcount := of_decide_eq_true hcover
    rw [EasyBlock.length_integers, Array.length_toList]
    omega
  -- as many different values as there are integers, and no others
  have hperm := (List.subperm_of_subset h.nodup hsub).perm_of_length_le hlength
  exact Array.mem_toList_iff.mp (hperm.mem_iff.mpr (EasyBlock.mem_integers_iff.mpr ⟨hmin, hmax⟩))

/-- The number of easy values tells whether they are all of the range. -/
theorem IsLaidOut.coversRange_iff (h : job.IsLaidOut) :
    job.easyValuesCoverRange = true ↔
      ∀ v, job.minRange ≤ v → v ≤ job.maxRange → v ∈ job.easyValues := by
  constructor
  · intro hcover v hmin hmax
    exact h.mem_of_coversRange hcover hmin hmax
  · intro hall
    by_contra hcover
    obtain ⟨v, ⟨hmin, hmax⟩, hnot⟩ := exists_notMem_easyValues (Bool.eq_false_iff.mpr hcover)
    exact hnot (hall v hmin hmax)

/-- Whatever the fractions are cut to, the values laid out in a range are a spread of it. For a
    template with such values, as every template that was built is one, their number tells
    whether they are all of the range, and the binary search tells whether a value is among them. -/
theorem easyValues_spread :
    (∀ (offset : Nat → Nat) (min max : Int64), min ≤ max →
      EasyBlock.IsSpread min max (EasyBlock.valuesBy offset min max)) ∧
    (∀ job : JobTemplate, job.IsBuilt → job.IsSpreadOut) ∧
    ∀ job : JobTemplate, job.IsSpreadOut →
      (job.easyValuesCoverRange = true ↔
        ∀ v, job.minRange ≤ v → v ≤ job.maxRange → v ∈ job.easyValues) ∧
      ∀ v, job.isEasyValue v = true ↔ v ∈ job.easyValues := by
  refine ⟨?_, ?_, ?_⟩
  · intro offset min max h
    exact EasyBlock.valuesBy_isSpread offset h
  · intro job h
    exact h.isSpreadOut
  · intro job h
    exact ⟨h.isLaidOut.coversRange_iff, h.isLaidOut.isEasyValue_iff⟩

/-- All integers as a range, with offsets that coincide in pairs. -/
theorem easyValues_spread_widest :
    EasyBlock.IsSpread Int64.minValue Int64.maxValue
        (EasyBlock.valuesBy (fun i => i / 2) Int64.minValue Int64.maxValue) ∧
      ∃ job, build ⟨7, 0, "AES", "", 1, Int64.minValue, Int64.maxValue, [107]⟩
          ⟨1, .bits128, [115], [120]⟩ = .ok job ∧
        job.IsSpreadOut ∧
        (job.easyValuesCoverRange = true ↔
          ∀ v, job.minRange ≤ v → v ≤ job.maxRange → v ∈ job.easyValues) ∧
        ∀ v, job.isEasyValue v = true ↔ v ∈ job.easyValues := by
  obtain ⟨hspread, hbuilt, hjob⟩ := easyValues_spread
  obtain ⟨job, hbuild⟩ := exists_build ⟨7, 0, "AES", "", 1, Int64.minValue, Int64.maxValue, [107]⟩
    ⟨1, .bits128, [115], [120]⟩ (List.cons_ne_nil 107 [])
  have hout := hbuilt job ⟨_, _, hbuild⟩
  exact ⟨hspread _ _ _ (by decide), job, hbuild, hout, hjob job hout⟩

end JobTemplate
end SoloMiner
