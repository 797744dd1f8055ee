import SoloMiner.Proofs.Search.Rules

/-! # Words that suffice

    A draw rejects no word of zeros, so it is over with the first one at the latest. An easy
    search ends if there are enough of them among the words: one for each value it draws. -/

namespace SoloMiner.Worker

/-- A draw uses up at most one word of zeros. -/
theorem firstPick_of_count (max : Int64) {k : Nat} {ws : Words} (h : k + 1 ≤ ws.count 0) :
    ∃ v rest, Random.firstPick 0 max ws = some (v, rest) ∧ k ≤ rest.count 0 := by
  induction ws with
  | nil => simp at h
  | cons word ws ih =>
    by_cases hzero : word = 0
    · subst hzero
      have hpick : Random.pick? 0 max 0 = some 0 := by simp [Random.pick?]
      refine ⟨0, ws, by simp only [Random.firstPick, hpick], ?_⟩
      simpa using h
    · -- another word may be accepted too, and all zeros are left
      have hrest : k + 1 ≤ ws.count 0 := by rwa [List.count_cons_of_ne hzero] at h
      simp only [Random.firstPick]
      split
      · next v hpick => exact ⟨v, ws, rfl, Nat.le_of_succ_le hrest⟩
      · exact ih hrest

theorem index_of_count (n : Nat) {k : Nat} {ws : Words} (h : k + 1 ≤ ws.count 0) :
    ∃ r rest, Random.index n ws = some (r, rest) ∧ k ≤ rest.count 0 := by
  by_cases hn : Int64.ofNat n ≤ 0
  · exact ⟨0, ws, by simp [Random.index, Random.between, hn], Nat.le_of_succ_le h⟩
  · obtain ⟨v, rest, hpick, hrest⟩ := firstPick_of_count (Int64.ofNat n) h
    exact ⟨v.toInt.toNat, rest, by simp [Random.index, Random.between, hn, hpick], hrest⟩

theorem draw_of_count (n : Nat) {k : Nat} {w : Worker} (h : k + 1 ≤ w.words.count 0) :
    ∃ r w', draw (Random.index n) w = .ok r w' ∧ k ≤ w'.words.count 0 := by
  obtain ⟨r, rest, hindex, hrest⟩ := index_of_count n h
  refine ⟨r, { w with words := rest }, ?_, hrest⟩
  simp only [draw, hindex]

/-- To try a pair takes no words, whatever comes of its candidates. -/
theorem tryPair_words (job : JobTemplate) (jobType : JobType) (w : Worker) (a b : Int64) :
    (w.tryPair job jobType a b).words = w.words := by
  unfold tryPair
  refine List.foldlRecOn (motive := fun w' : Worker => w'.words = w.words) _ _ rfl ?_
  intro w' hw' c _
  rw [← hw']
  unfold tryCandidate
  split
  · rfl
  · split
    · rfl
    · split <;> rfl

/-- A row of `n` pairs ends if there are `n` words of zeros, and it leaves the others. -/
theorem easyRow_of_count (job : JobTemplate) (first : Int64) (n : Nat) {k : Nat}
    (easy : Array Int64) {w : Worker} (h : k + n ≤ w.words.count 0) :
    ∃ easy' w', easyRow job first n easy w = .ok easy' w' ∧ easy'.size = easy.size ∧
      k ≤ w'.words.count 0 := by
  induction n generalizing easy w with
  | zero => exact ⟨easy, w, rfl, rfl, h⟩
  | succ n ih =>
    obtain ⟨r, w₁, hdraw, hw₁⟩ := draw_of_count (k := k + n) n h
    have hw₂ : k + n ≤ (w₁.tryPair job .easy first (easy.getD r 0)).words.count 0 := by
      rwa [tryPair_words]
    obtain ⟨easy', w', hrow, hsize, hw'⟩ := ih (easy.swapIfInBounds n r) hw₂
    refine ⟨easy', w', ?_, by simpa using hsize, hw'⟩
    simp only [easyRow]
    rw [Search.bind_of_ok hdraw]
    exact hrow

/-- Rows end if there is a word of zeros for the value of each and for each of its pairs. -/
theorem easyRows_of_count (job : JobTemplate) (n : Nat) (chunk easy : Array Int64)
    {w : Worker} (h : n * (easy.size + 1) ≤ w.words.count 0) :
    ∃ left w', easyRows job n chunk easy w = .ok left w' := by
  induction n generalizing chunk easy w with
  | zero => exact ⟨⟨0, chunk, easy⟩, w, rfl⟩
  | succ n ih =>
    -- one word goes to the value drawn, and one to each pair of its row
    rw [Nat.succ_mul] at h
    obtain ⟨r, w₁, hdraw, hw₁⟩ := draw_of_count (k := n * (easy.size + 1) + easy.size) n h
    obtain ⟨easy', w₂, hrow, hsize, hw₂⟩ :=
      easyRow_of_count job (chunk.getD r 0) easy.size easy hw₁
    simp only [easyRows]
    rw [Search.bind_of_ok hdraw, Search.bind_of_ok hrow]
    rw [Search.bind_of_ok (show look w₂ = .ok _ _ from rfl)]
    by_cases habandon : (w₂.blockFound || w₂.interrupted w₂.looks) = true
    · rw [if_pos habandon]
      exact ⟨_, _, rfl⟩
    · rw [if_neg habandon]
      apply ih
      rwa [hsize]

/-- An easy search of `n` rows ends if there are `n * (easy.size + 1)` words of zeros. -/
theorem easySearch_of_count (job : JobTemplate) (slot : Nat × Nat) {w : Worker}
    (h : (EasyRows.ofSlot job slot).left * (job.easyValues.size + 1) ≤ w.words.count 0) :
    ∃ w', easySearch job slot w = .ok () w' := by
  obtain ⟨left, w', hrows⟩ := easyRows_of_count job (EasyRows.ofSlot job slot).left
    (EasyRows.ofSlot job slot).chunk job.easyValues h
  exact ⟨w', Search.bind_of_ok hrows⟩

end SoloMiner.Worker
