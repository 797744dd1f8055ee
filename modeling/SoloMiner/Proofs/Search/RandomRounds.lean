import SoloMiner.Proofs.Search.RoundWords
import SoloMiner.Proofs.Search.Trail
import SoloMiner.Proofs.Search.Walk

/-! # Rounds of the random search

    The random search is entered only where it has something to draw: the range then holds more
    integers than there are easy values, so one of them is not easy. Each of its rounds draws
    two operands that are not easy and pairs them with each other and with all easy values,
    each of them once in whatever order earlier rounds left behind. It comes to its end whenever
    the words suffice, and for any operands that the sampler can make there are words that do. -/

namespace SoloMiner

namespace JobTemplate

/-- What two operands are paired with an easy value to. -/
def semiPairs (a b e : Int64) : List (Int64 × Int64) := [(a, e), (e, a), (b, e), (e, b)]

/-- The pairs of a round with operands `a` and `b`: these with each other, and each of them with
    every easy value, always in both orders. -/
def roundPairs (job : JobTemplate) (a b : Int64) : List (Int64 × Int64) :=
  (a, b) :: (b, a) :: job.easyValues.toList.flatMap (semiPairs a b)

/-- The pairs of some round, in whatever order. -/
def IsRound (job : JobTemplate) (pairs : List (Int64 × Int64)) : Prop :=
  ∃ a b, job.IsRandomOperand a ∧ job.IsRandomOperand b ∧ pairs.Perm (job.roundPairs a b)

theorem isRound_roundPairs {job : JobTemplate} {a b : Int64} (ha : job.IsRandomOperand a)
    (hb : job.IsRandomOperand b) : job.IsRound (job.roundPairs a b) :=
  ⟨a, b, ha, hb, List.Perm.refl _⟩

/-- What may have been tried of a round that was cut off. Before both operands are drawn this is
    nothing, and after that any of its pairs. -/
def IsPartOfRound (job : JobTemplate) (pairs : List (Int64 × Int64)) : Prop :=
  pairs = [] ∨ ∃ round, job.IsRound round ∧ pairs.Subperm round

end JobTemplate

namespace Worker

open Search JobTemplate

variable {job : JobTemplate} {w w' w'' : Worker}

/-! ## Operands -/

/-- What a draw comes to: a random operand, or nothing because a look said to give up. -/
def Draws (job : JobTemplate) (w w' : Worker) : Option Int64 → Prop
  | some v => job.IsRandomOperand v
  | none => Abandons w w'

theorem Draws.behind {plan : List WorkerEvent} {v? : Option Int64} (h' : Draws job w' w'' v?)
    (h : GoesThrough job plan w w') : Draws job w w'' v? := by
  cases v? with
  | some v => exact h'
  | none => exact h.trans_abandons h'

/-- A draw gives a value of the range that is not easy, or a look says to give up. Nothing is
    tried on the way. -/
theorem meets_operandFrom (laid : job.IsLaidOut) (hrange : job.minRange ≤ job.maxRange)
    (rounds attempts : Nat) (w : Worker) :
    Meets (operandFrom job rounds attempts) w (GoesThrough job [] w) fun v? w' =>
      GoesThrough job [] w w' ∧ Draws job w w' v? := by
  induction rounds generalizing attempts w with
  | zero => exact meets_throw (.refl job w)
  | succ rounds ih =>
    -- whatever goes by before the next draw, that draw is one of the worker it began with
    have hagain : ∀ {w₁}, GoesThrough job [] w w₁ →
        Meets (operandFrom job rounds (attempts + 1)) w₁ (GoesThrough job [] w) fun v? w' =>
          GoesThrough job [] w w' ∧ Draws job w w' v? := by
      intro w₁ hgoes
      refine (ih (attempts + 1) w₁).imp (fun _ h => hgoes.trans h) ?_
      intro v? w' hrest
      exact ⟨hgoes.trans hrest.1, hrest.2.behind hgoes⟩
    simp only [operandFrom]
    refine meets_get_bind (meets_draw_bind job (.refl job w) ?_)
    intro v w₁ hdraw hdrawn
    obtain ⟨words, rest, hv⟩ := hdrawn
    by_cases heasy : job.isEasyValue v = true
    · -- an easy value is drawn again, with a look now and then
      rw [if_neg (by simp [heasy])]
      by_cases hcount : (attempts + 1) % redrawsPerLook = 0
      · rw [if_pos hcount]
        refine meets_look_ite job ?_ ?_
        · intro w₂ hlook hend
          exact meets_pure ⟨hdraw.trans hlook, hdraw.trans_abandons hend⟩
        · intro w₂ hlook _
          exact hagain (hdraw.trans hlook)
      · rw [if_neg hcount]
        exact hagain hdraw
    · -- the binary search has not found it, so it is not there
      rw [if_pos (by simp [heasy])]
      refine meets_pure ⟨hdraw, sampler_mem _ hrange hv, ?_⟩
      exact fun hmem => heasy ((laid.isEasyValue_iff v).mpr hmem)

/-! ## Rounds -/

/-- The row pairs both operands with the values at the front of `easy`. -/
theorem meets_semiRandomRow (job : JobTemplate) (a b : Int64) {n : Nat} {easy : Array Int64}
    (w : Worker) (hn : n ≤ easy.size) (hsize : easy.size ≤ EasyBlock.maxCount) :
    Meets (semiRandomRow job a b n easy) w
      (TriesSome job ((easy.toList.take n).flatMap (semiPairs a b)) w) fun easy? w' =>
        match easy? with
        | some easy' => easy'.toList.Perm easy.toList ∧
          TriesAll job ((easy.toList.take n).flatMap (semiPairs a b)) w w'
        | none => TriesSome job ((easy.toList.take n).flatMap (semiPairs a b)) w w' ∧
          Abandons w w' := by
  induction n generalizing easy w with
  | zero => exact meets_pure ⟨List.Perm.refl _, (GoesThrough.refl job w).triesAll⟩
  | succ n ih =>
    simp only [semiRandomRow]
    refine meets_look_ite job ?_ ?_
    · intro w₁ hlook hend
      exact meets_pure ⟨hlook.triesSome _, hend⟩
    · -- a value is drawn, and the operands are paired with it both ways
      intro w₁ hlook _
      refine meets_drawIndex_bind job (by omega) (hlook.triesSome _) ?_
      intro r w₂ hdraw hr
      have htried : TriesAll job (semiPairs a b (easy.getD r 0)) w _ :=
        ((((hlook.trans hdraw).triesAll.trans (triesAll_tryPair job .semiRandom w₂ a _)).trans
          (triesAll_tryPair job .semiRandom _ _ a)).trans
          (triesAll_tryPair job .semiRandom _ b _)).trans
          (triesAll_tryPair job .semiRandom _ _ b)
      have hswap := Shuffle.swapIfInBounds_perm easy n r
      -- the pairs of the value drawn and of those left are the pairs of the front
      have hfront := ((Shuffle.take_swapIfInBounds_perm hr hn).flatMap_right (semiPairs a b)).symm
      refine meets_modify_bind (meets_modify_bind (meets_modify_bind (meets_modify_bind ?_)))
      refine (ih _ (by simp; omega) (by simpa using hsize)).imp ?_ ?_
      · intro w' hsome
        exact (htried.trans_some hsome).mono hfront.subperm
      · intro easy? w' hrest
        cases easy? with
        | some easy' =>
          obtain ⟨hperm, hall⟩ := hrest
          exact ⟨hperm.trans hswap, (htried.trans hall).perm hfront⟩
        | none =>
          obtain ⟨hsome, hend⟩ := hrest
          exact ⟨(htried.trans_some hsome).mono hfront.subperm, htried.trans_abandons hend⟩

/-- Part of a round was tried, and nothing else. A round that is cut off leaves no more than
    this. -/
def TriesPart (job : JobTemplate) (w w' : Worker) : Prop :=
  ∃ part, job.IsPartOfRound part ∧ GoesThrough job (part.flatMap job.attempt) w w'

theorem GoesThrough.triesPart (h : GoesThrough job [] w w') : TriesPart job w w' :=
  ⟨[], .inl rfl, h⟩

theorem GoesThrough.trans_part (h : GoesThrough job [] w w') (h' : TriesPart job w' w'') :
    TriesPart job w w'' := by
  obtain ⟨part, hpart, hgoes⟩ := h'
  exact ⟨part, hpart, h.trans hgoes⟩

theorem TriesSome.triesPart {round : List (Int64 × Int64)} (h : TriesSome job round w w')
    (hround : job.IsRound round) : TriesPart job w w' := by
  obtain ⟨order, horder, hgoes⟩ := h
  exact ⟨order, .inr ⟨round, hround, horder⟩, hgoes⟩

/-- Two operands are paired with each other and with all easy values, unless a look says to
    give up. -/
theorem meets_pairOperands (laid : job.IsLaidOut) (a b : Int64) {easy : Array Int64}
    (hperm : easy.toList.Perm job.easyValues.toList) (w : Worker) :
    Meets (do
        modify (tryPair job .random · a b)
        modify (tryPair job .random · b a)
        semiRandomRow job a b easy.size easy) w
      (TriesSome job (job.roundPairs a b) w) fun easy? w' =>
        match easy? with
        | some easy' => easy'.toList.Perm job.easyValues.toList ∧
          TriesAll job (job.roundPairs a b) w w'
        | none => TriesSome job (job.roundPairs a b) w w' ∧ Abandons w w' := by
  have htried : TriesAll job [(a, b), (b, a)] w _ :=
    (triesAll_tryPair job .random w a b).trans (triesAll_tryPair job .random _ b a)
  have hsize : easy.size ≤ EasyBlock.maxCount :=
    Nat.le_trans (Nat.le_of_eq hperm.length_eq) laid.size_le
  have hall : ([(a, b), (b, a)] ++ easy.toList.flatMap (semiPairs a b)).Perm
      (job.roundPairs a b) :=
    ((hperm.flatMap_right (semiPairs a b)).cons _).cons _
  -- the row is made of all easy values, in the order they happen to be in
  have hrow := meets_semiRandomRow job a b ((w.tryPair job .random a b).tryPair job .random b a)
    (Nat.le_refl _) hsize
  rw [Shuffle.take_size] at hrow
  refine meets_modify_bind (meets_modify_bind (hrow.imp ?_ ?_))
  · intro w' hsome
    exact (htried.trans_some hsome).mono hall.subperm
  · intro easy? w' hrest
    cases easy? with
    | some easy' =>
      obtain ⟨hperm', hrest⟩ := hrest
      exact ⟨hperm'.trans hperm, (htried.trans hrest).perm hall⟩
    | none =>
      obtain ⟨hsome, hend⟩ := hrest
      exact ⟨(htried.trans_some hsome).mono hall.subperm, htried.trans_abandons hend⟩

/-- A round tries all its pairs, unless a look says to give up. -/
theorem meets_randomRound (laid : job.IsLaidOut) (hrange : job.minRange ≤ job.maxRange)
    (redraws : Nat) {easy : Array Int64} (hperm : easy.toList.Perm job.easyValues.toList)
    (w : Worker) :
    Meets (randomRound job redraws easy) w (TriesPart job w) fun easy? w' =>
      match easy? with
      | some easy' => easy'.toList.Perm job.easyValues.toList ∧
        ∃ round, job.IsRound round ∧ GoesThrough job (round.flatMap job.attempt) w w'
      | none => TriesPart job w w' ∧ Abandons w w' := by
  simp only [randomRound]
  -- nothing is tried before both operands are drawn
  refine meets_bind ((meets_operandFrom laid hrange redraws 0 w).imp
    (fun _ h => h.triesPart) fun _ _ h => h) ?_
  rintro (_ | a) w₁ ⟨hdraw, ha⟩
  · exact meets_pure ⟨hdraw.triesPart, ha⟩
  refine meets_bind ((meets_operandFrom laid hrange redraws 0 w₁).imp
    (fun _ h => (hdraw.trans h).triesPart) fun _ _ h => h) ?_
  rintro (_ | b) w₂ ⟨hdraw', hb⟩
  · exact meets_pure ⟨(hdraw.trans hdraw').triesPart, hdraw.trans_abandons hb⟩
  -- both operands are drawn, and what follows tries the pairs of their round
  have hround := isRound_roundPairs ha hb
  have hdraws := hdraw.trans hdraw'
  refine (meets_pairOperands laid a b hperm w₂).imp ?_ ?_
  · intro w' hsome
    exact hdraws.trans_part (hsome.triesPart hround)
  · intro easy? w' hrest
    cases easy? with
    | some easy' =>
      obtain ⟨hperm', order, horder, hgoes⟩ := hrest
      exact ⟨hperm', order, ⟨a, b, ha, hb, horder⟩, hdraws.trans hgoes⟩
    | none =>
      obtain ⟨hsome, hend⟩ := hrest
      exact ⟨hdraws.trans_part (hsome.triesPart hround), hdraws.trans_abandons hend⟩

/-- Words that suffice for a round with `a` and `b` bring it to its end, unless a look says to
    give up before. -/
theorem randomRound_of_suffice (laid : job.IsLaidOut) (hrange : job.minRange ≤ job.maxRange)
    {redraws : Nat} {a b : Int64} {easy : Array Int64}
    (hperm : easy.toList.Perm job.easyValues.toList)
    (h : job.SufficeFor w.settings redraws a b w.words) :
    ∃ easy? w', randomRound job redraws easy w = .ok easy? w' ∧
      match easy? with
      | some easy' => easy'.toList.Perm job.easyValues.toList ∧
        TriesAll job (job.roundPairs a b) w w'
      | none => Abandons w w' := by
  obtain ⟨behind, rest, hfirst, hsecond, hzeros⟩ := h
  simp only [randomRound]
  rcases operandFrom_of_first laid 0 hfirst with ⟨looks, ha⟩ | ⟨w', hnone⟩
  · have hdraw := ((meets_operandFrom laid hrange redraws 0 w).of_ok ha).1
    rw [operand, bind_of_ok ha]
    -- the second draw goes on with the words behind the first
    rcases operandFrom_of_first (w := { w with words := behind, looks }) laid 0 hsecond with
      ⟨looks', hb⟩ | ⟨w', hnone⟩
    · have hdraw' := ((meets_operandFrom laid hrange redraws 0 _).of_ok hb).1
      have hwords : easy.size ≤ rest.count 0 := Nat.le_trans (Nat.le_of_eq hperm.length_eq) hzeros
      simp only
      rw [bind_of_ok hb]
      obtain ⟨easy?, w', hrow⟩ := semiRandomRow_of_count job a b easy.size easy
        (w := (tryPair job .random { w with words := rest, looks := looks' } a b).tryPair
          job .random b a) (by simpa only [tryPair_words] using hwords)
      have hpaired := (meets_pairOperands laid a b hperm
        { w with words := rest, looks := looks' }).of_ok hrow
      refine ⟨easy?, w', hrow, ?_⟩
      cases easy? with
      | some easy' =>
        obtain ⟨hperm', order, horder, hgoes⟩ := hpaired
        exact ⟨hperm', order, horder, (hdraw.trans hdraw').trans hgoes⟩
      | none => exact (hdraw.trans hdraw').trans_abandons hpaired.2
    · -- a look put an end to the second draw
      have hend := ((meets_operandFrom laid hrange redraws 0 _).of_ok hnone).2
      simp only
      rw [bind_of_ok hnone]
      exact ⟨none, w', rfl, hdraw.trans_abandons hend⟩
  · -- or to the first
    have hend := ((meets_operandFrom laid hrange redraws 0 w).of_ok hnone).2
    rw [operand, bind_of_ok hnone]
    exact ⟨none, w', rfl, hend⟩

/-! ## Runs -/

/-- From `w` to `w'` complete rounds follow each other, and the last one may be cut off. -/
structure HasRounds (job : JobTemplate) (rounds : List (List (Int64 × Int64)))
    (last : List (Int64 × Int64)) (w w' : Worker) : Prop where
  isRound : ∀ round ∈ rounds, job.IsRound round
  isPart : job.IsPartOfRound last
  /-- Nothing else is tried. -/
  pairs_eq : w'.pairs = (rounds.flatten ++ last).reverse ++ w.pairs
  /-- In the complete rounds each pair is tried to the last candidate. -/
  journal_suffix : (rounds.flatten.flatMap job.attempt).reverse ++ w.journal <:+ w'.journal
  /-- It is in the last one too, as far as that goes, unless it finds a share. -/
  journal_eq : w'.blockFound = false →
    w'.journal = ((rounds.flatten ++ last).flatMap job.attempt).reverse ++ w.journal

theorem TriesPart.hasRounds (h : TriesPart job w w') :
    ∃ rounds last, HasRounds job rounds last w w' := by
  obtain ⟨last, hpart, hgoes⟩ := h
  refine ⟨[], last, nofun, hpart, ?_, hgoes.journal_suffix, ?_⟩
  · rw [hgoes.pairs_eq, WorkerEvent.pairsOf_flatMap_attempt]
    rfl
  · intro hfound
    exact (hgoes.journal_eq hfound).2

/-- A round that finds no share goes in front of the rounds that follow. -/
theorem HasRounds.cons {round last : List (Int64 × Int64)} {rounds : List (List (Int64 × Int64))}
    (hround : job.IsRound round) (hgoes : GoesThrough job (round.flatMap job.attempt) w w')
    (hfound : w'.blockFound = false) (h : HasRounds job rounds last w' w'') :
    HasRounds job (round :: rounds) last w w'' := by
  obtain ⟨-, hjournal⟩ := hgoes.journal_eq hfound
  constructor
  case isRound =>
    intro r hr
    rcases List.mem_cons.mp hr with rfl | hr
    · exact hround
    · exact h.isRound r hr
  case isPart => exact h.isPart
  case pairs_eq =>
    rw [h.pairs_eq, hgoes.pairs_eq, WorkerEvent.pairsOf_flatMap_attempt]
    simp
  case journal_suffix =>
    have hsuffix := h.journal_suffix
    rw [hjournal] at hsuffix
    simpa using hsuffix
  case journal_eq =>
    intro hfound'
    rw [h.journal_eq hfound', hjournal]
    simp

/-- Where a share was found no round begins. -/
theorem meets_randomRounds_of_found (job : JobTemplate) (rounds : Nat) (easy : Array Int64)
    {w : Worker} (hfound : w.blockFound = true) :
    Meets (randomRounds job rounds easy) w (GoesThrough job [] w) fun _ w' =>
      GoesThrough job [] w w' ∧ Abandons w w' := by
  cases rounds with
  | zero => exact meets_throw (.refl job w)
  | succ rounds =>
    simp only [randomRounds]
    refine meets_look_ite job ?_ ?_
    · intro w₁ hlook hend
      exact meets_pure ⟨hlook, hend⟩
    · intro w₁ _ hsearching
      rw [hsearching] at hfound
      cases hfound

/-- Round follows round until a look says to give up. -/
theorem meets_randomRounds (laid : job.IsLaidOut) (hrange : job.minRange ≤ job.maxRange)
    (rounds : Nat) {easy : Array Int64} (hperm : easy.toList.Perm job.easyValues.toList)
    (w : Worker) :
    Meets (randomRounds job rounds easy) w (fun w' => ∃ tried last, HasRounds job tried last w w')
      fun _ w' => (∃ tried last, HasRounds job tried last w w') ∧ Abandons w w' := by
  induction rounds generalizing easy w with
  | zero => exact meets_throw (GoesThrough.refl job w).triesPart.hasRounds
  | succ rounds ih =>
    simp only [randomRounds]
    refine meets_look_ite job ?_ ?_
    · intro w₁ hlook hend
      exact meets_pure ⟨hlook.triesPart.hasRounds, hend⟩
    · intro w₁ hlook _
      refine meets_bind ((meets_randomRound laid hrange (rounds + 1) hperm w₁).imp
        (fun _ hpart => (hlook.trans_part hpart).hasRounds) fun _ _ h => h) ?_
      rintro (_ | easy') w₂ hend
      · obtain ⟨hpart, hend⟩ := hend
        exact meets_pure ⟨(hlook.trans_part hpart).hasRounds, hlook.trans_abandons hend⟩
      · obtain ⟨hperm', round, hround, hgoes⟩ := hend
        have hgoes := hlook.trans hgoes
        cases hfound : w₂.blockFound with
        | false =>
          refine (ih hperm' w₂).imp ?_ ?_
          · rintro w' ⟨tried, last, hrest⟩
            exact ⟨_, _, hrest.cons hround hgoes hfound⟩
          · rintro - w' ⟨⟨tried, last, hrest⟩, hend⟩
            exact ⟨⟨_, _, hrest.cons hround hgoes hfound⟩, hgoes.trans_abandons hend⟩
        | true =>
          -- the round that found the share is the last one
          have hpart : ∀ {w'}, GoesThrough job [] w₂ w' → TriesPart job w w' := by
            intro w' hrest
            refine ⟨round, .inr ⟨round, hround, List.Subperm.refl _⟩, ?_⟩
            simpa using hgoes.trans hrest
          refine (meets_randomRounds_of_found job rounds easy' hfound).imp ?_ ?_
          · exact fun w' hrest => (hpart hrest).hasRounds
          · rintro - w' ⟨hrest, hend⟩
            exact ⟨(hpart hrest).hasRounds, hgoes.trans_abandons hend⟩

/-- If the words suffice for the first round, a search that nothing disturbs completes it, or
    finds a share. -/
theorem randomRounds_of_suffice (laid : job.IsLaidOut) (hrange : job.minRange ≤ job.maxRange)
    {rounds : Nat} {a b : Int64} {easy : Array Int64} (ha : job.IsRandomOperand a)
    (hb : job.IsRandomOperand b) (hperm : easy.toList.Perm job.easyValues.toList)
    (hsearching : w.blockFound = false) (hquiet : ∀ n, w.looks ≤ n → w.interrupted n = false)
    (h : job.SufficeFor w.settings (rounds + 1) a b w.words) :
    let w' := left (randomRounds job (rounds + 1) easy w)
    w'.blockFound = true ∨ ∃ round tried last, round.Perm (job.roundPairs a b) ∧
      HasRounds job (round :: tried) last w w' := by
  intro w'
  let looked : Worker := { w with looks := w.looks + 1 }
  have hunseen : (w.blockFound || w.interrupted w.looks) = false := by
    rw [hsearching, hquiet w.looks (Nat.le_refl _)]
    rfl
  have hlook : look w = .ok false looked := congrArg (EStateM.Result.ok · looked) hunseen
  obtain ⟨easy?, w₁, hround, hends⟩ := randomRound_of_suffice (w := looked) laid hrange hperm h
  have hgoes : GoesThrough job [] w looked := .look job w
  have hrun : randomRounds job (rounds + 1) easy w =
      match easy? with
      | none => .ok () w₁
      | some easy' => randomRounds job rounds easy' w₁ := by
    simp only [randomRounds]
    rw [bind_of_ok hlook]
    simp only [Bool.false_eq_true, if_false]
    rw [bind_of_ok hround]
    cases easy? <;> rfl
  cases easy? with
  | none =>
    -- nothing but a share makes a look say to give up
    obtain ⟨n, hlooks, -, hseen⟩ := hgoes.trans_abandons hends
    have hpart := ((meets_randomRound laid hrange (rounds + 1) hperm looked).of_ok hround).1
    obtain ⟨part, -, hpart⟩ := hpart
    have hinterrupted : w₁.interrupted n = false := by
      rw [hpart.interrupted_eq]
      exact hquiet n hlooks
    have hw' : w' = w₁ := by
      show left (randomRounds job (rounds + 1) easy w) = w₁
      rw [hrun]
      rfl
    rw [hinterrupted, Bool.or_false, ← hw'] at hseen
    exact Or.inl hseen
  | some easy' =>
    obtain ⟨hperm', order, horder, hpaired⟩ := hends
    have hpaired := hgoes.trans hpaired
    have hw' : w' = left (randomRounds job rounds easy' w₁) := congrArg left hrun
    cases hfound : w₁.blockFound with
    | false =>
      have hrest := Meets.left ((meets_randomRounds laid hrange rounds hperm' w₁).imp
        (fun _ h => h) fun _ _ h => h.1)
      rw [← hw'] at hrest
      obtain ⟨tried, last, hrest⟩ := hrest
      exact Or.inr ⟨order, tried, last, horder,
        hrest.cons ⟨a, b, ha, hb, horder⟩ hpaired hfound⟩
    | true =>
      -- a share that was found stays found
      have hrest := Meets.left ((meets_randomRounds_of_found job rounds easy' hfound).imp
        (fun _ h => h) fun _ _ h => h.1)
      rw [← hw'] at hrest
      refine Or.inl ?_
      cases hlater : w'.blockFound with
      | true => rfl
      | false =>
        rw [(hrest.journal_eq hlater).1] at hfound
        cases hfound

/-! ## Entering the search -/

/-- Searches a job among its easy values only. This is what remains of a search if there is
    nothing else in the range. -/
def mineEasy (job : JobTemplate) : Search Unit := do
  match (← get).settings.easySlot with
  | none => pure ()
  | some slot =>
    easySearch job slot
    discard look

/-- If the easy values are all there is, nothing else is searched. -/
theorem mine_of_cover (hcover : job.easyValuesCoverRange = true) (rounds : Nat) :
    mine job rounds = mineEasy job := by
  have hnone : mineRandom job rounds = pure () := by
    funext w
    simp [mineRandom, searchesRandom, hcover]
  simp only [mine, mineEasy, hnone, ite_self]
  rfl

end Worker

open Worker Search

/-- Where no candidate wins, a search finds no share. -/
theorem Worker.isKept_unfound {job : JobTemplate} {digest : ShareDigest}
    (h : (Bytes.ofString job.indication).length ≠ ShareDigest.textLength) :
    IsKept job fun w => w.encoder.IsReady digest ∧ w.blockFound = false where
  words := fun _ _ hw => hw
  looks := fun _ _ hw => hw
  pair := by
    rintro w a b - - ⟨hready, hfound⟩
    obtain ⟨hready', hiff⟩ :=
      (GoesThrough.tryPair job (job.jobTypeOf a b) w a b).found_iff digest hready
    refine ⟨hready', Bool.eq_false_iff.mpr fun hfound' => ?_⟩
    rcases hiff.mp hfound' with hbefore | ⟨c, -, hwins⟩
    · rw [hfound] at hbefore
      cases hbefore
    · exact JobTemplate.not_wins_of_length h digest c hwins

/-- Whatever the sampler and the words: the random search is entered only if there is a random
    operand. Then each draw gives one, or says to give up because a look did. A round that is
    neither given up nor finds a share tries the pairs of a round, each to its last candidate,
    however the easy values are ordered, and a search is made of such rounds up to the last
    one, which a look put an end to.

    A draw comes to its end if a value that is not easy is among those that the words make, and
    that is the one it gives. A round comes to its end if the words suffice for it, and its
    pairs are then those of the operands that they make; so does the first round of a search
    that nothing disturbs. For any two operands that the sampler can make there are such
    words. -/
theorem randomSearch_tries_rounds {job : JobTemplate} (hbuilt : job.IsBuilt) :
    ((¬∃ v, job.IsRandomOperand v) → ∀ rounds, mine job rounds = mineEasy job) ∧
    ((∃ v, job.IsRandomOperand v) → ∀ w,
      (∀ redraws v? w', operand job redraws w = .ok v? w' → Draws job w w' v?) ∧
      (∀ redraws v rest, job.firstOperand? w.settings redraws w.words = some (v, rest) →
        (∃ w', operand job redraws w = .ok (some v) w' ∧ w'.words = rest) ∨
          ∃ w', operand job redraws w = .ok none w') ∧
      ∀ easy : Array Int64, easy.toList.Perm job.easyValues.toList →
        (∀ redraws easy? w', randomRound job redraws easy w = .ok easy? w' →
          ¬Abandons w w' → w'.blockFound = false →
          ∃ round, job.IsRound round ∧
            w'.journal = (round.flatMap job.attempt).reverse ++ w.journal) ∧
        (∀ redraws a b, job.SufficeFor w.settings redraws a b w.words →
          ∃ easy? w', randomRound job redraws easy w = .ok easy? w' ∧
            (¬Abandons w w' → w'.blockFound = false →
              ∃ round : List (Int64 × Int64), round.Perm (job.roundPairs a b) ∧
                w'.journal = (round.flatMap job.attempt).reverse ++ w.journal)) ∧
        ∀ rounds,
          (∃ tried last, HasRounds job tried last w (left (randomRounds job rounds easy w))) ∧
          (∀ w', randomRounds job rounds easy w = .ok () w' → Abandons w w') ∧
          (w.blockFound = false → (∀ n, w.looks ≤ n → w.interrupted n = false) →
            ∀ a b, job.IsRandomOperand a → job.IsRandomOperand b →
              job.SufficeFor w.settings (rounds + 1) a b w.words →
              let w' := left (randomRounds job (rounds + 1) easy w)
              w'.blockFound = true ∨ ∃ round tried last, round.Perm (job.roundPairs a b) ∧
                HasRounds job (round :: tried) last w w')) ∧
    ∀ (settings : WorkerSettings) (a b : Int64), job.IsRandomOperand a → job.IsRandomOperand b →
      (settings.digitSampler = true →
        (0 < a.toInt ∧ ¬10 ∣ a.toInt) ∧ 0 < b.toInt ∧ ¬10 ∣ b.toInt) →
      ∀ draws, ∃ words, ∀ rest : Words, job.easyValues.size ≤ rest.count 0 →
        job.SufficeFor settings (draws + 1) a b (words ++ rest) := by
  have laid := hbuilt.isLaidOut
  refine ⟨?_, ?_, ?_⟩
  · -- if all values are easy, no random search is entered
    intro hnone rounds
    refine mine_of_cover ?_ rounds
    rw [← Bool.not_eq_false]
    exact fun hcover => hnone (JobTemplate.exists_notMem_easyValues hcover)
  · rintro ⟨v, ⟨hmin, hmax⟩, -⟩ w
    have hrange := Int64.le_trans hmin hmax
    refine ⟨?_, ?_, fun easy hperm => ⟨?_, ?_, fun rounds => ⟨?_, ?_, ?_⟩⟩⟩
    · exact fun redraws v? w' hok => ((meets_operandFrom laid hrange redraws 0 w).of_ok hok).2
    · intro redraws v rest hfirst
      rcases operandFrom_of_first laid 0 hfirst with ⟨looks, hdrawn⟩ | hnone
      · exact Or.inl ⟨_, hdrawn, rfl⟩
      · exact Or.inr hnone
    · -- a round that a look ended is one that the worker abandoned
      intro redraws easy? w' hok hkept hfound
      have hround := (meets_randomRound laid hrange redraws hperm w).of_ok hok
      cases easy? with
      | some easy' =>
        obtain ⟨-, round, hround, hgoes⟩ := hround
        exact ⟨round, hround, (hgoes.journal_eq hfound).2⟩
      | none => exact (hkept hround.2).elim
    · intro redraws a b hwords
      obtain ⟨easy?, w', hok, hround⟩ := randomRound_of_suffice laid hrange hperm hwords
      refine ⟨easy?, w', hok, ?_⟩
      intro hkept hfound
      cases easy? with
      | some easy' =>
        obtain ⟨-, order, horder, hgoes⟩ := hround
        exact ⟨order, horder, (hgoes.journal_eq hfound).2⟩
      | none => exact (hkept hround).elim
    · have hrounds := meets_randomRounds laid hrange rounds hperm w
      exact Meets.left (hrounds.imp (fun _ h => h) fun _ _ h => h.1)
    · have hrounds := meets_randomRounds laid hrange rounds hperm w
      exact fun w' hok => (hrounds.of_ok hok).2
    · intro hsearching hquiet a b ha hb hwords
      exact randomRounds_of_suffice laid hrange ha hb hperm hsearching hquiet hwords
  · intro settings a b ha hb hdigits draws
    exact exists_sufficeFor settings ha hb hdigits draws

/-- A range that is easy from end to end; and one that is not, with words that bring the first
    round of a search to its end. As no hash is as short as the indication, the whole round is
    tried. -/
theorem randomSearch_tries_rounds_small :
    ∃ narrow wide,
      JobTemplate.build ⟨7, 0, "AES", "", 1, 2, 9, [107]⟩ ⟨0, .bits128, [115], [120]⟩ =
        .ok narrow ∧
      JobTemplate.build ⟨7, 0, "AES", "", 1, 2, 1000, [107]⟩ ⟨0, .bits128, [115], [120]⟩ =
        .ok wide ∧
      ((¬∃ v, narrow.IsRandomOperand v) ∧ ∀ rounds, mine narrow rounds = mineEasy narrow) ∧
      ∃ v words, wide.IsRandomOperand v ∧
        let w := fresh ⟨0, 0, .normal, false, false, none, .sha3⟩ words fun _ => false
        (∃ easy? w', randomRound wide 1 wide.easyValues w = .ok easy? w') ∧
          ∃ round tried last, round.Perm (wide.roundPairs v v) ∧
            HasRounds wide (round :: tried) last w
              (left (randomRounds wide 1 wide.easyValues w)) := by
  obtain ⟨narrow, hnarrow⟩ := JobTemplate.exists_build ⟨7, 0, "AES", "", 1, 2, 9, [107]⟩
    ⟨0, .bits128, [115], [120]⟩ (by decide)
  obtain ⟨wide, hwide⟩ := JobTemplate.exists_build ⟨7, 0, "AES", "", 1, 2, 1000, [107]⟩
    ⟨0, .bits128, [115], [120]⟩ (by decide)
  have hnone : ¬∃ v, narrow.IsRandomOperand v := by
    rintro ⟨v, hrange, hnot⟩
    obtain ⟨aesKey, aesIv, rfl⟩ := JobTemplate.eq_of_build hnarrow
    exact hnot (List.mem_toArray.mpr (EasyBlock.mem_integers_iff.mpr hrange))
  have laid : wide.IsLaidOut := JobTemplate.IsBuilt.isLaidOut ⟨_, _, hwide⟩
  have hsome : ∃ v, wide.IsRandomOperand v := by
    apply JobTemplate.exists_notMem_easyValues
    -- there are 999 integers in the range, and at most 256 easy values
    have hsize : wide.easyValues.size ≤ EasyBlock.maxCount := laid.size_le
    obtain ⟨aesKey, aesIv, rfl⟩ := JobTemplate.eq_of_build hwide
    have hrange : EasyBlock.rangeSize 2 1000 = 999 := by decide
    simp only [JobTemplate.easyValuesCoverRange, decide_eq_false_iff_not, hrange]
    simp only [EasyBlock.maxCount] at hsize
    omega
  obtain ⟨v, hv⟩ := hsome
  obtain ⟨-, hsearch, hwords⟩ := randomSearch_tries_rounds ⟨_, _, hwide⟩
  obtain ⟨front, hfront⟩ := hwords ⟨0, 0, .normal, false, false, none, .sha3⟩ v v hv hv nofun 0
  let words := front ++ List.replicate EasyBlock.maxCount 0
  let w := fresh ⟨0, 0, .normal, false, false, none, .sha3⟩ words fun _ => false
  have hsuffice : wide.SufficeFor w.settings 1 v v w.words :=
    hfront _ (by rw [List.count_replicate_self]; exact laid.size_le)
  obtain ⟨-, -, heasy⟩ := hsearch ⟨v, hv⟩ w
  obtain ⟨-, hround, hrounds⟩ := heasy wide.easyValues (List.Perm.refl _)
  obtain ⟨-, -, hfirst⟩ := hrounds 0
  -- the search ends as it began, without a share
  have hlength : (Bytes.ofString wide.indication).length ≠ ShareDigest.textLength := by
    have hempty : wide.indication = "" := by
      obtain ⟨aesKey, aesIv, rfl⟩ := JobTemplate.eq_of_build hwide
      rfl
    rw [hempty]
    decide
  have hkept : IsKept wide fun w => w.encoder.IsReady .sha3 ∧ w.blockFound = false :=
    isKept_unfound hlength
  have hkeeps := hkept.keeps_randomRounds laid 1 (List.Perm.refl _)
  have hunfound := (left_of_keeps hkeeps (w := w) ⟨ShareEncoder.isReady_fresh .sha3, rfl⟩).2
  refine ⟨narrow, wide, hnarrow, hwide, ⟨hnone, ?_⟩, v, words, hv, ?_, ?_⟩
  · exact (randomSearch_tries_rounds ⟨_, _, hnarrow⟩).1 hnone
  · obtain ⟨easy?, w', hok, -⟩ := hround 1 v v hsuffice
    exact ⟨easy?, w', hok⟩
  · have hquiet : ∀ n, w.looks ≤ n → w.interrupted n = false := fun _ _ => rfl
    rcases hfirst rfl hquiet v v hv hv hsuffice with hfound | hround
    · rw [hunfound] at hfound
      cases hfound
    · exact hround

end SoloMiner
