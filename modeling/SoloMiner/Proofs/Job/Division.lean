import Mathlib.Algebra.Order.BigOperators.Group.Finset
import SoloMiner.Proofs.Job.Chunks

/-! # Even division

    What it means to divide items evenly: the pieces follow each other without gap or overlap,
    from the first item to the last, their lengths differ by at most one, and no piece is longer
    than one before it. The chunks of the easy values are such a division, and there is no other.

    The division never meets a number above that of the items. So it is the same in words of any
    width that can hold this number, and no chunk reaches behind the last item. -/

namespace SoloMiner.EasyBlock

variable {total chunks : Nat} {piece piece' : Nat → Nat × Nat}

/-! ## Divisions -/

/-- The pieces below `chunks`, each given by its start and its length, divide `total` items
    evenly. -/
structure DividesEvenly (total chunks : Nat) (piece : Nat → Nat × Nat) : Prop where
  first : (piece 0).1 = 0
  next : ∀ index, index + 1 < chunks →
    (piece (index + 1)).1 = (piece index).1 + (piece index).2
  last : (piece (chunks - 1)).1 + (piece (chunks - 1)).2 = total
  descending : ∀ i j, i ≤ j → j < chunks → (piece j).2 ≤ (piece i).2
  even : ∀ i j, i < chunks → j < chunks → (piece i).2 ≤ (piece j).2 + 1

namespace DividesEvenly

/-- A piece starts where all pieces before it end. -/
theorem start_eq_sum (h : DividesEvenly total chunks piece) {n : Nat} (hn : n < chunks) :
    (piece n).1 = ∑ i ∈ Finset.range n, (piece i).2 := by
  induction n with
  | zero => rw [h.first, Finset.sum_range_zero]
  | succ n ih => rw [h.next n hn, ih (by omega), Finset.sum_range_succ]

theorem total_eq_sum (h : DividesEvenly total chunks piece) (hchunks : 0 < chunks) :
    total = ∑ i ∈ Finset.range chunks, (piece i).2 := by
  obtain ⟨n, rfl⟩ := Nat.exists_eq_add_of_lt hchunks
  have hlast := h.last
  rw [Nat.zero_add, Nat.add_sub_cancel] at hlast
  rw [← hlast, h.start_eq_sum (by omega), Nat.zero_add, Finset.sum_range_succ]

/-- A division with a shorter piece somewhere has no longer piece anywhere. -/
theorem length_le_of_lt (h : DividesEvenly total chunks piece)
    (h' : DividesEvenly total chunks piece') {i : Nat} (hi : i < chunks)
    (hlt : (piece i).2 < (piece' i).2) : ∀ j < chunks, (piece j).2 ≤ (piece' j).2 := by
  intro j hj
  rcases Nat.lt_or_ge j i with hji | hij
  · -- in front the one cannot be longer by two, and the other is no shorter
    have hfront := h'.descending j i (Nat.le_of_lt hji) hi
    have heven := h.even j i hj hi
    omega
  · -- behind it the one is at most as long as there, and the other at most one shorter
    have hbehind := h.descending i j hij hj
    have heven := h'.even i j hi hj
    omega

/-- No piece of one even division is longer than that piece of another. -/
theorem length_le (h : DividesEvenly total chunks piece) (h' : DividesEvenly total chunks piece')
    {i : Nat} (hi : i < chunks) : (piece' i).2 ≤ (piece i).2 := by
  by_contra hnot
  have hlt : (piece i).2 < (piece' i).2 := Nat.lt_of_not_le hnot
  -- then one sum of lengths is smaller than the other, but both are the number of items
  have hsum : ∑ j ∈ Finset.range chunks, (piece j).2 < ∑ j ∈ Finset.range chunks, (piece' j).2 := by
    apply Finset.sum_lt_sum
    · intro j hj
      exact h.length_le_of_lt h' hi hlt j (Finset.mem_range.mp hj)
    · exact ⟨i, Finset.mem_range.mpr hi, hlt⟩
  have hchunks : 0 < chunks := Nat.zero_lt_of_lt hi
  rw [← h.total_eq_sum hchunks, ← h'.total_eq_sum hchunks] at hsum
  exact Nat.lt_irrefl total hsum

/-- There is only one even division: with the lengths, the starts are given too. -/
theorem unique (h : DividesEvenly total chunks piece) (h' : DividesEvenly total chunks piece')
    {index : Nat} (hindex : index < chunks) : piece index = piece' index := by
  have hlength : ∀ i < chunks, (piece i).2 = (piece' i).2 := by
    intro i hi
    exact Nat.le_antisymm (h'.length_le h hi) (h.length_le h' hi)
  apply Prod.ext
  · rw [h.start_eq_sum hindex, h'.start_eq_sum hindex]
    apply Finset.sum_congr rfl
    intro i hi
    exact hlength i (Nat.lt_trans (Finset.mem_range.mp hi) hindex)
  · exact hlength index hindex

/-- A piece ends inside the items. -/
theorem end_le (h : DividesEvenly total chunks piece) {n : Nat} (hn : n < chunks) :
    (piece n).1 + (piece n).2 ≤ total := by
  rw [h.start_eq_sum hn, ← Finset.sum_range_succ, h.total_eq_sum (Nat.zero_lt_of_lt hn)]
  apply Finset.sum_le_sum_of_subset
  exact Finset.range_mono hn

/-- The slices of a list one after the other are the list. -/
theorem flatMap_slices {α : Type} {xs : List α} (h : DividesEvenly xs.length chunks piece)
    (hchunks : 0 < chunks) :
    (List.range chunks).flatMap (fun index => (xs.drop (piece index).1).take (piece index).2) =
      xs := by
  -- by induction, the first slices are the list up to where the last of them ends
  have hfront : ∀ n < chunks,
      (List.range (n + 1)).flatMap
          (fun index => (xs.drop (piece index).1).take (piece index).2) =
        xs.take ((piece n).1 + (piece n).2) := by
    intro n
    induction n with
    | zero =>
      intro _
      rw [List.range_one, List.flatMap_singleton, h.first, List.drop_zero, Nat.zero_add]
    -- the next slice begins where these end
    | succ n ih =>
      intro hn
      rw [List.range_succ, List.flatMap_append, ih (by omega), ← h.next n hn,
        List.flatMap_singleton, List.take_add]
  have hwhole := hfront (chunks - 1) (by omega)
  rwa [Nat.sub_add_cancel hchunks, h.last, List.take_length] at hwhole

/-- The pieces one after the other are all of the items, each of them once. -/
theorem flatMap_items (h : DividesEvenly total chunks piece) (hchunks : 0 < chunks) :
    (List.range chunks).flatMap (fun index => List.range' (piece index).1 (piece index).2) =
      List.range total := by
  -- the slices of the list of all items
  have hslices : DividesEvenly (List.range total).length chunks piece := by
    rwa [List.length_range]
  rw [← hslices.flatMap_slices hchunks]
  apply List.flatMap_congr
  intro index hindex
  have hend := h.end_le (List.mem_range.mp hindex)
  rw [List.range_eq_range', List.drop_range', List.take_range'_of_length_ge (by omega),
    Nat.zero_add, Nat.mul_one]

end DividesEvenly

/-! ## The division into chunks -/

/-- The first chunks are longer by one, as many as items are left over. -/
theorem length_chunk {index : Nat} (h : index < chunks) :
    (chunk total chunks index).2 =
      if index < total % chunks then total / chunks + 1 else total / chunks := by
  have hvalid : ¬(chunks = 0 ∨ chunks ≤ index) := by omega
  rw [chunk, if_neg hvalid]

/-- The chunks divide the items evenly. -/
theorem chunk_dividesEvenly (total : Nat) (h : 0 < chunks) :
    DividesEvenly total chunks (chunk total chunks) where
  first := by
    rw [chunk_eq h]
    exact chunkStart_zero total chunks
  next := by
    intro index hindex
    have hmono := chunkStart_mono total chunks (Nat.le_add_right index 1)
    rw [chunk_eq hindex, chunk_eq (Nat.lt_of_succ_lt hindex)]
    exact (Nat.add_sub_cancel' hmono).symm
  last := by
    have hmono := chunkStart_mono total chunks (Nat.le_add_right (chunks - 1) 1)
    rw [chunk_eq (Nat.sub_one_lt_of_lt h)]
    show chunkStart total chunks (chunks - 1) +
      (chunkStart total chunks (chunks - 1 + 1) - chunkStart total chunks (chunks - 1)) = total
    rw [Nat.add_sub_cancel' hmono, Nat.sub_add_cancel h, chunkStart_last h]
  descending := by
    -- a chunk with an item more stands in front of those without
    intro i j hij hj
    rw [length_chunk hj, length_chunk (Nat.lt_of_le_of_lt hij hj)]
    split
    · next hlong =>
      rw [if_pos (Nat.lt_of_le_of_lt hij hlong)]
    · split
      · exact Nat.le_succ _
      · exact Nat.le_refl _
  even := by
    intro i j hi hj
    rw [length_chunk hi, length_chunk hj]
    split
    · split <;> omega
    · split <;> omega

/-- The chunks one after the other are all of the values. -/
theorem flatMap_chunkOf (xs : Array Int64) (h : 0 < chunks) :
    (List.range chunks).flatMap (fun index => (chunkOf xs chunks index).toList) = xs.toList := by
  have hdivides := chunk_dividesEvenly xs.size h
  rw [← xs.length_toList] at hdivides
  simp only [toList_chunkOf, ← xs.length_toList]
  exact hdivides.flatMap_slices h

/-! ## Bounded words -/

/-- `n`, unless it exceeds `limit`. Computing with it shows which numbers are met on the way to a
    result. -/
def upTo? (limit n : Nat) : Option Nat := if n ≤ limit then some n else none

/-- Start and length of chunk `index`, unless a product or a sum on the way to them, or the end of
    the chunk, exceeds `limit`. -/
def chunkUpTo? (limit total chunks index : Nat) : Option (Nat × Nat) :=
  if chunks = 0 ∨ chunks ≤ index then some (0, 0)
  else do
    let quotient := total / chunks
    let remainder := total % chunks
    let product ← upTo? limit (index * quotient)
    let start ← upTo? limit (product + Min.min index remainder)
    let length ← upTo? limit (if index < remainder then quotient + 1 else quotient)
    let _ ← upTo? limit (start + length)
    pure (start, length)

/-- No product and no sum exceeds the number of items. -/
theorem chunkUpTo?_eq {limit : Nat} (hlimit : total ≤ limit) (chunks index : Nat) :
    chunkUpTo? limit total chunks index = some (chunk total chunks index) := by
  have hupTo : ∀ n ≤ limit, upTo? limit n = some n := fun n hn => if_pos hn
  have hend := chunk_end_le total chunks index
  unfold chunk at hend
  unfold chunkUpTo? chunk
  by_cases hvoid : chunks = 0 ∨ chunks ≤ index
  · rw [if_pos hvoid, if_pos hvoid]
  · rw [if_neg hvoid] at hend
    rw [if_neg hvoid, if_neg hvoid]
    -- what is met on the way is at most where the chunk ends
    simp only at hend ⊢
    rw [hupTo (index * (total / chunks)) (by omega), Option.bind_eq_bind, Option.bind_some,
      hupTo _ (by omega), Option.bind_some, hupTo _ (by omega), Option.bind_some,
      hupTo _ (by omega)]
    rfl

/-! ## All chunks -/

/-- The chunks divide the items evenly, in the only way there is, and together they are all of the
    items. Numbers above that of the items are not met. -/
theorem chunks_divide (total : Nat) {chunks : Nat} (h : 0 < chunks) :
    DividesEvenly total chunks (chunk total chunks) ∧
    (∀ piece, DividesEvenly total chunks piece →
      ∀ index < chunks, piece index = chunk total chunks index) ∧
    (List.range chunks).flatMap (fun index =>
      List.range' (chunk total chunks index).1 (chunk total chunks index).2) = List.range total ∧
    ∀ index, (chunk total chunks index).1 + (chunk total chunks index).2 ≤ total ∧
      ∀ limit, total ≤ limit →
        chunkUpTo? limit total chunks index = some (chunk total chunks index) := by
  have hchunks := chunk_dividesEvenly total h
  refine ⟨hchunks, ?_, hchunks.flatMap_items h, ?_⟩
  · intro piece hpiece index hindex
    exact hpiece.unique hchunks hindex
  · intro index
    refine ⟨chunk_end_le total chunks index, ?_⟩
    intro limit hlimit
    exact chunkUpTo?_eq hlimit chunks index

/-- Of five items in eight chunks the last three chunks have none. -/
theorem chunks_divide_sparse :
    0 < 8 ∧ DividesEvenly 5 8 (chunk 5 8) ∧ chunk 5 8 4 = (4, 1) ∧ chunk 5 8 7 = (5, 0) ∧
      chunkUpTo? 5 5 8 7 = some (5, 0) := by
  obtain ⟨hdivides, -, -, hbounded⟩ := chunks_divide 5 (show 0 < 8 by decide)
  exact ⟨by decide, hdivides, by decide, by decide, (hbounded 7).2 5 (by decide)⟩

end SoloMiner.EasyBlock
