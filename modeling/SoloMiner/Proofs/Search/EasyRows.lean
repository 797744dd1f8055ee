import Mathlib.Data.List.ProdSigma
import SoloMiner.Proofs.Search.Soundness
import SoloMiner.Proofs.Search.Trail

/-! # The pairs of an easy search

    The argument follows the values still to be drawn. What a loop has left stands at the front
    of an array, a draw moves one value from the front to what was tried, and the front of the
    first loop is the chunk of the worker. So whatever the words, an easy search that comes to
    its end has tried all pairs of the chunk with the easy values, or a look told it to stop. -/

namespace SoloMiner.Worker

open Search

variable {digest : ShareDigest} {job : JobTemplate} {w w' : Worker}

/-! ## Rows -/

/-- A row pairs `first` with the values at the front of `easy`. -/
theorem meets_easyRow (job : JobTemplate) (first : Int64) {n : Nat} {easy : Array Int64}
    (w : Worker) (hn : n ≤ easy.size) (hsize : easy.size ≤ EasyBlock.maxCount) :
    Meets (easyRow job first n easy) w
      (TriesSome job ((easy.toList.take n).map (first, ·)) w) fun easy' w' =>
        easy'.toList.Perm easy.toList ∧
          TriesAll job ((easy.toList.take n).map (first, ·)) w w' := by
  induction n generalizing easy w with
  | zero => exact meets_pure ⟨List.Perm.refl _, (GoesThrough.refl job w).triesAll⟩
  | succ n ih =>
    simp only [Worker.easyRow]
    refine meets_drawIndex_bind job (by omega) ((GoesThrough.refl job w).triesSome _) ?_
    intro r w₁ hdraw hr
    have hswap := Shuffle.swapIfInBounds_perm easy n r
    have htried := hdraw.triesAll.trans
      (triesAll_tryPair job .easy w₁ first (easy.getD r 0))
    -- the pair drawn and those left are the pairs that the front held
    have hfront := ((Shuffle.take_swapIfInBounds_perm hr hn).map (first, ·)).symm
    refine meets_modify_bind ((ih _ (by simp; omega) (by simpa using hsize)).imp ?_ ?_)
    · intro w' hsome
      exact (htried.trans_some hsome).mono hfront.subperm
    · intro easy' w' hrest
      obtain ⟨hperm, hall⟩ := hrest
      exact ⟨hperm.trans hswap, (htried.trans hall).perm hfront⟩

/-- The row of one value and the rows of the others make all rows. -/
theorem row_append_rows_perm {v : Int64} {front others row values : List Int64}
    (hfront : front.Perm (v :: others)) (hrow : row.Perm values) :
    (row.map (v, ·) ++ others ×ˢ values).Perm (front ×ˢ values) := by
  have hrows : (v :: others) ×ˢ values = values.map (v, ·) ++ others ×ˢ values :=
    List.product_cons v others values
  refine ((hrow.map (v, ·)).append_right _).trans ?_
  rw [← hrows]
  exact (hfront.product_right values).symm

/-- The rows pair the values at the front of `chunk` with all `values`, unless one of the looks
    between them puts an end to it. -/
theorem meets_easyRows (job : JobTemplate) {values : List Int64} {n : Nat}
    {chunk easy : Array Int64} (w : Worker) (hn : n ≤ chunk.size)
    (hchunk : chunk.size ≤ EasyBlock.maxCount) (heasy : easy.size ≤ EasyBlock.maxCount)
    (hperm : easy.toList.Perm values) :
    Meets (easyRows job n chunk easy) w
      (TriesSome job (chunk.toList.take n ×ˢ values) w) fun _ w' =>
        TriesAll job (chunk.toList.take n ×ˢ values) w w' ∨
          TriesSome job (chunk.toList.take n ×ˢ values) w w' ∧ Abandons w w' := by
  induction n generalizing chunk easy w with
  | zero => exact meets_pure (.inl (GoesThrough.refl job w).triesAll)
  | succ n ih =>
    simp only [Worker.easyRows]
    refine meets_drawIndex_bind job (by omega) ((GoesThrough.refl job w).triesSome _) ?_
    intro r w₁ hdraw hr
    -- the value drawn leaves the front of the chunk, and its row is made of all values
    have hall := row_append_rows_perm (Shuffle.take_setIfInBounds_perm hr hn) hperm
    have hfirst := (List.sublist_append_left _ _).subperm.trans hall.subperm
    have hrow := meets_easyRow job (chunk.getD r 0) w₁ (Nat.le_refl _) heasy
    rw [Shuffle.take_size] at hrow
    refine meets_bind (hrow.imp ?_ fun _ _ h => h) ?_
    · intro w' hsome
      exact (hdraw.triesAll.trans_some hsome).mono hfirst
    intro easy' w₂ htried
    obtain ⟨hperm', htried⟩ := htried
    have htried := hdraw.triesAll.trans htried
    refine meets_look_ite job ?_ ?_
    · intro w₃ hlook hend
      refine meets_pure (.inr ⟨?_, htried.trans_abandons hend⟩)
      exact (htried.trans_some (hlook.triesSome [])).mono (by simpa using hfirst)
    · intro w₃ hlook _
      have htried := htried.trans hlook.triesAll
      rw [List.nil_append, List.append_nil] at htried
      have hsize' : easy'.size ≤ EasyBlock.maxCount :=
        Nat.le_trans (Nat.le_of_eq hperm'.length_eq) heasy
      refine (ih w₃ (by simp; omega) (by simpa using hchunk) hsize' (hperm'.trans hperm)).imp ?_ ?_
      · intro w' hsome
        exact (htried.trans_some hsome).mono hall.subperm
      · intro rows w' hrest
        rcases hrest with hrest | ⟨hrest, hend⟩
        · exact .inl ((htried.trans hrest).perm hall)
        · exact .inr ⟨(htried.trans_some hrest).mono hall.subperm, htried.trans_abandons hend⟩

/-- The pairs that fall to the worker numbered `slot.1` of `slot.2`: those with a first value
    from its chunk of the easy values, and any easy value as the second. -/
def pairsOfSlot (job : JobTemplate) (slot : Nat × Nat) : List (Int64 × Int64) :=
  (EasyBlock.chunkOf job.easyValues slot.2 slot.1).toList ×ˢ job.easyValues.toList

/-- An easy search that comes to its end has tried all its pairs, or was abandoned. -/
theorem easySearch_tries (laid : job.IsLaidOut) {slot : Nat × Nat}
    (hsearch : easySearch job slot w = .ok () w') :
    TriesAll job (pairsOfSlot job slot) w w' ∨
      TriesSome job (pairsOfSlot job slot) w w' ∧ Abandons w w' := by
  obtain ⟨rows, w₁, hrows, hend⟩ := bind_eq_ok hsearch
  cases hend
  rw [EasyRows.search, EasyRows.ofSlot_eq] at hrows
  have hsize := EasyBlock.size_chunkOf_le job.easyValues slot.2 slot.1
  have htries := (meets_easyRows job w (Nat.le_refl _) (Nat.le_trans hsize laid.size_le)
    laid.size_le (List.Perm.refl _)).of_ok hrows
  rwa [Shuffle.take_size] at htries

/-! ## Left alone -/

/-- A worker that goes on searching: it found no share, and its looks find nothing. -/
structure IsUndisturbed (digest : ShareDigest) (w : Worker) : Prop where
  encoder_isReady : w.encoder.IsReady digest
  blockFound_eq : w.blockFound = false
  quiet : ∀ n, w.looks ≤ n → w.interrupted n = false

/-- An undisturbed worker gives up for a share only. -/
theorem IsUndisturbed.easySearch_tries (h : w.IsUndisturbed digest) (laid : job.IsLaidOut)
    {slot : Nat × Nat} (hsearch : easySearch job slot w = .ok () w') :
    TriesSome job (pairsOfSlot job slot) w w' ∧
      (w'.blockFound = false → TriesAll job (pairsOfSlot job slot) w w') := by
  rcases Worker.easySearch_tries laid hsearch with hall | ⟨hsome, n, hlooks, -, hseen⟩
  · exact ⟨hall.triesSome, fun _ => hall⟩
  · refine ⟨hsome, fun hfound => ?_⟩
    rw [hsome.interrupted_eq, h.quiet n hlooks, hfound] at hseen
    cases hseen

end SoloMiner.Worker
