import SoloMiner.Job.EasyBlock

/-! # Chunks

    The chunks of a whole number of items follow each other without a gap, and the last one
    ends where the items end. -/

namespace SoloMiner.EasyBlock

/-- Where chunk `index` begins, for every index up to the number of chunks. The last of these is
    the number of items, where a further chunk would begin. -/
def chunkStart (total chunks index : Nat) : Nat :=
  index * (total / chunks) + Min.min index (total % chunks)

theorem chunk_eq {total chunks index : Nat} (h : index < chunks) :
    chunk total chunks index =
      (chunkStart total chunks index,
        chunkStart total chunks (index + 1) - chunkStart total chunks index) := by
  have hvalid : ¬(chunks = 0 ∨ chunks ≤ index) := by omega
  simp only [chunk, if_neg hvalid, chunkStart, Nat.succ_mul]
  generalize total / chunks = quotient
  generalize total % chunks = remainder
  generalize index * quotient = product
  split
  · congr 1; omega
  · congr 1; omega

theorem chunkStart_mono (total chunks : Nat) {i j : Nat} (h : i ≤ j) :
    chunkStart total chunks i ≤ chunkStart total chunks j := by
  have hmul := Nat.mul_le_mul_right (total / chunks) h
  simp only [chunkStart]
  omega

@[simp] theorem chunkStart_zero (total chunks : Nat) : chunkStart total chunks 0 = 0 := by
  simp [chunkStart]

/-- Behind the last chunk nothing is left. -/
theorem chunkStart_last {total chunks : Nat} (h : 0 < chunks) :
    chunkStart total chunks chunks = total := by
  have hmod := Nat.mod_lt total h
  have hdiv := Nat.div_add_mod total chunks
  simp only [chunkStart]
  rw [Nat.min_eq_right (Nat.le_of_lt hmod), hdiv]

/-- A chunk ends inside the items. -/
theorem chunk_end_le (total chunks index : Nat) :
    (chunk total chunks index).1 + (chunk total chunks index).2 ≤ total := by
  rcases Nat.lt_or_ge index chunks with h | h
  · have hstep := chunkStart_mono total chunks (Nat.le_add_right index 1)
    have hlast := chunkStart_mono total chunks (show index + 1 ≤ chunks from h)
    rw [chunkStart_last (by omega)] at hlast
    rw [chunk_eq h]
    show chunkStart total chunks index +
      (chunkStart total chunks (index + 1) - chunkStart total chunks index) ≤ total
    omega
  · have hvoid : chunks = 0 ∨ chunks ≤ index := Or.inr h
    simp [chunk, if_pos hvoid]

/-! ## Items of the chunks -/

/-- The items of chunk `index`. -/
def chunkOf (xs : Array Int64) (chunks index : Nat) : Array Int64 :=
  xs.extract (chunk xs.size chunks index).1
    ((chunk xs.size chunks index).1 + (chunk xs.size chunks index).2)

theorem toList_chunkOf (xs : Array Int64) (chunks index : Nat) :
    (chunkOf xs chunks index).toList =
      (xs.toList.drop (chunk xs.size chunks index).1).take (chunk xs.size chunks index).2 := by
  rw [chunkOf, Array.toList_extract, List.extract_eq_take_drop, Nat.add_sub_cancel_left]

theorem size_chunkOf (xs : Array Int64) (chunks index : Nat) :
    (chunkOf xs chunks index).size = (chunk xs.size chunks index).2 := by
  have hend := chunk_end_le xs.size chunks index
  rw [chunkOf, Array.size_extract]
  omega

theorem size_chunkOf_le (xs : Array Int64) (chunks index : Nat) :
    (chunkOf xs chunks index).size ≤ xs.size := by
  have hend := chunk_end_le xs.size chunks index
  rw [size_chunkOf]
  omega

theorem mem_of_mem_chunkOf {xs : Array Int64} {chunks index : Nat} {v : Int64}
    (h : v ∈ chunkOf xs chunks index) : v ∈ xs := by
  rw [← Array.mem_toList_iff, toList_chunkOf] at h
  exact Array.mem_toList_iff.mp (List.mem_of_mem_drop (List.mem_of_mem_take h))

end SoloMiner.EasyBlock
