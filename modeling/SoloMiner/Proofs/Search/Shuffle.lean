import Mathlib.Data.List.Perm.Basic

/-! # Draws without replacement

    The values still to be drawn stand at the front of an array. The one drawn leaves the front
    in one of two ways: it trades places with the last value of the front, or that value is
    written over it. Either way the values drawn, together with those left, are those that the
    front held before. -/

namespace SoloMiner.Shuffle

variable {r n : Nat}

theorem getD_eq_getElem {xs : Array Int64} {i : Nat} (h : i < xs.size) :
    xs.getD i 0 = xs[i] := by
  simp [Array.getD, h]

/-- The front may be all there is. -/
theorem take_size (xs : Array Int64) : xs.toList.take xs.size = xs.toList :=
  List.take_of_length_le (Nat.le_of_eq xs.length_toList)

/-- A value that trades places stays in the array. -/
theorem swapIfInBounds_perm (xs : Array Int64) (i j : Nat) :
    (xs.swapIfInBounds i j).toList.Perm xs.toList := by
  rw [Array.swapIfInBounds_def]
  split
  · split
    · exact (Array.swap_perm _ _).toList
    · exact List.Perm.refl _
  · exact List.Perm.refl _

/-- The last value of the front takes the place of the one drawn. -/
theorem take_set_perm {xs : List Int64} (hr : r ≤ n) (hn : n < xs.length) :
    (xs.take (n + 1)).Perm (xs[r] :: (xs.set r xs[n]).take n) := by
  have hfront : (xs.take (n + 1)).Perm (xs[n] :: xs.take n) := by
    rw [← List.take_append_getElem hn]
    exact List.perm_append_singleton _ _
  refine hfront.trans ?_
  rw [List.take_set]
  rcases Nat.lt_or_eq_of_le hr with hlt | rfl
  · have hlen : r < (xs.take n).length := by simp; omega
    have hset := List.set_perm_cons_eraseIdx hlen xs[n]
    have herase := List.getElem_cons_eraseIdx_perm hlen
    rw [List.getElem_take] at herase
    -- both sides are the two values in front of what else the front holds
    refine (herase.symm.cons _).trans ?_
    exact (List.Perm.swap _ _ _).trans (hset.symm.cons _)
  · rw [List.set_eq_of_length_le (List.length_take_le _ _)]

/-- What is left when the one drawn is written over. -/
theorem take_setIfInBounds_perm {xs : Array Int64} (hr : r ≤ n) (hn : n < xs.size) :
    (xs.toList.take (n + 1)).Perm
      (xs.getD r 0 :: (xs.setIfInBounds r (xs.getD n 0)).toList.take n) := by
  rw [getD_eq_getElem hn, getD_eq_getElem (Nat.lt_of_le_of_lt hr hn), Array.toList_setIfInBounds]
  exact take_set_perm hr hn

/-- What is left when the one drawn trades places. -/
theorem take_swapIfInBounds_perm {xs : Array Int64} (hr : r ≤ n) (hn : n < xs.size) :
    (xs.toList.take (n + 1)).Perm
      (xs.getD r 0 :: (xs.swapIfInBounds n r).toList.take n) := by
  have hr' : r < xs.size := Nat.lt_of_le_of_lt hr hn
  have hswap : (xs.swapIfInBounds n r).toList.take n = (xs.toList.set r xs[n]).take n := by
    rw [Array.swapIfInBounds_def, dif_pos hn, dif_pos hr', Array.swap_def, Array.toList_set,
      Array.toList_set, List.take_set, List.take_set, List.take_set]
    -- the value that goes behind the front is not seen there
    rw [List.set_eq_of_length_le (List.length_take_le n xs.toList)]
  rw [hswap, getD_eq_getElem hr']
  exact take_set_perm hr hn

end SoloMiner.Shuffle
