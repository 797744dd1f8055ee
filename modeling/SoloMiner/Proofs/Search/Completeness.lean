import SoloMiner.Proofs.Search.EasyRows
import SoloMiner.Proofs.Search.ZeroWords
import SoloMiner.Proofs.Share.Encryption
import SoloMiner.Proofs.Text.Bits

/-! # What an easy search finds

    An easy search that is left alone submits one share if a candidate of its pairs wins, and
    none otherwise. What it finds is among the pairs it tried, and as long as it finds nothing
    it tries them all.

    Jobs with a winner exist, and any candidate can be it: the hash of a candidate does not
    depend on the indication of the job, so it may be made the indication. -/

namespace SoloMiner

open Worker

/-- Whatever words are drawn, an easy search that is left alone submits one share if some
    candidate of its pairs wins, and none if there is no such candidate. It comes to its end
    if there are words enough that no draw rejects. -/
theorem easySearch_submits_what_exists {job : JobTemplate} (hbuilt : job.IsBuilt)
    (slot : Nat × Nat) {digest : ShareDigest} {w : Worker} (h : w.IsUndisturbed digest) :
    (∀ w', easySearch job slot w = .ok () w' →
      ((∃ pair ∈ pairsOfSlot job slot, job.HasWinner digest pair) →
          ∃ share, w'.shares = share :: w.shares) ∧
        ((¬∃ pair ∈ pairsOfSlot job slot, job.HasWinner digest pair) →
          w'.shares = w.shares)) ∧
      ((EasyRows.ofSlot job slot).left * (job.easyValues.size + 1) ≤ w.words.count 0 →
        ∃ w', easySearch job slot w = .ok () w') := by
  refine ⟨?_, easySearch_of_count job slot⟩
  intro w' hsearch
  obtain ⟨hsome, hall⟩ := h.easySearch_tries hbuilt.isLaidOut hsearch
  obtain ⟨shares, hshares, hcount⟩ := hsome.shares_eq
  rw [h.blockFound_eq, Bool.toNat_false, Nat.add_zero] at hcount
  cases hfound : w'.blockFound with
  -- the flag stands for one share, and it was raised by a winner among the pairs
  | true =>
    rw [hfound, Bool.toNat_true] at hcount
    obtain ⟨share, rfl⟩ := List.length_eq_one_iff.mp hcount
    have hwinner := hsome.exists_of_found h.encoder_isReady h.blockFound_eq hfound
    exact ⟨fun _ => ⟨share, hshares⟩, fun hnone => (hnone hwinner).elim⟩
  -- no share was added, and no candidate won
  | false =>
    rw [hfound, Bool.toNat_false] at hcount
    rw [List.eq_nil_of_length_eq_zero hcount] at hshares
    refine ⟨fun hwinner => ?_, fun _ => hshares⟩
    -- all pairs were tried, so the winner would have been found
    have := ((hall hfound).found_iff h.encoder_isReady h.blockFound_eq).mpr hwinner
    rw [hfound] at this
    cases this

/-! ## Planted shares -/

/-- Hexadecimal digits are text. -/
theorem MaskedHex.ofString_pair (b : UInt8) :
    Bytes.ofString (String.ofList
      [Char.ofNat (digit (b >>> 4)).toNat, Char.ofNat (digit (b &&& 15)).toNat]) = pair b :=
  Bits.forall_byte (P := fun b => Bytes.ofString (String.ofList
    [Char.ofNat (digit (b >>> 4)).toNat, Char.ofNat (digit (b &&& 15)).toNat]) = pair b)
    (by decide +kernel) b

theorem MaskedHex.exists_plain_text (bs : Bytes) : ∃ s, Bytes.ofString s = plain bs := by
  induction bs with
  | nil => exact ⟨"", rfl⟩
  | cons b bs ih =>
    obtain ⟨s, hs⟩ := ih
    refine ⟨String.ofList [Char.ofNat (digit (b >>> 4)).toNat,
      Char.ofNat (digit (b &&& 15)).toNat] ++ s, ?_⟩
    rw [plain, List.flatMap_cons, ← MaskedHex.ofString_pair, ← plain, ← hs]
    simp [Bytes.ofString]

/-- The cipher takes no notice of the indication, neither in the rounds nor in what they start
    from. -/
theorem ShareEncoder.encrypt_indication (job : JobTemplate) (indication : String)
    (e : ShareEncoder) (c : Candidate) (out : EncryptedShare) :
    e.encrypt { job with indication } c out = e.encrypt job c out := by
  have hrounds : ∀ n e, rounds { job with indication } n e = rounds job n e := by
    intro n
    induction n with
    | zero => exact fun _ => rfl
    | succ n ih =>
      intro e
      simp only [rounds, ih]
      rfl
  simp only [encrypt, hrounds]

namespace JobTemplate

/-- A template takes its indication over from the header, and nothing else depends on it. -/
theorem build_indication (header : BlockHeader) (method : BlockMethod) (indication : String) :
    build { header with indication } method =
      (build header method).map fun job => { job with indication } := by
  simp only [build, bind, Except.bind]
  split
  · rfl
  · split
    · rfl
    · split
      · rfl
      · rfl

/-- Every candidate wins some job: the one whose indication is the hash that the encoder makes of
    it. -/
theorem exists_planted (header : BlockHeader) (method : BlockMethod)
    (h : header.password ≠ []) (digest : ShareDigest) (c : Candidate) :
    ∃ indication job, build { header with indication } method = .ok job ∧ job.Wins digest c := by
  obtain ⟨job, hbuild, hkeyed⟩ := exists_keyed_build header method h
  have hok := ShareEncoder.encrypt_ok hkeyed (ShareEncoder.isReady_fresh digest) c .blank
  generalize hres : (ShareEncoder.fresh digest).encrypt job c .blank = res at hok
  obtain ⟨result, e, out⟩ := res
  obtain rfl : result = .ok () := hok
  obtain ⟨d, bs, hhash⟩ := ShareEncoder.exists_hash_eq hres
  -- the hash is text, so a header can name it
  obtain ⟨indication, hindication⟩ := MaskedHex.exists_plain_text (d.digest bs)
  refine ⟨indication, { job with indication }, ?_, out, ⟨e, ?_⟩, ?_⟩
  · rw [build_indication, hbuild]
    rfl
  · rw [ShareEncoder.encrypt_indication]
    exact hres
  · rw [EncryptedShare.isMatch, hhash, hindication]
    exact beq_self_eq_true _

end JobTemplate

/-- A job over the range from one to six, in which three plus two wins, searched by one worker. -/
theorem easySearch_submits_what_exists_small :
    ∃ indication job, JobTemplate.build ⟨7, 0, "AES", indication, 1, 1, 6, [107]⟩
        ⟨0, .bits128, [115], [120]⟩ = .ok job ∧
      (∃ pair ∈ pairsOfSlot job (0, 1), job.HasWinner .sha3 pair) ∧
      ∃ w' share, easySearch job (0, 1) (fresh ⟨0, 0, .normal, false, false, some (0, 1), .sha3⟩
          (List.replicate 42 0) fun _ => false) = .ok () w' ∧ w'.shares = [share] := by
  obtain ⟨indication, job, hbuild, hwins⟩ := JobTemplate.exists_planted
    ⟨7, 0, "AES", "", 1, 1, 6, [107]⟩ ⟨0, .bits128, [115], [120]⟩ (by decide) .sha3 ⟨3, .add, 2, 5⟩
  have hbuilt : job.IsBuilt := ⟨_, _, hbuild⟩
  obtain ⟨hmin, hmax⟩ : job.minRange = 1 ∧ job.maxRange = 6 := by
    obtain ⟨aesKey, aesIv, heq⟩ := JobTemplate.eq_of_build hbuild
    rw [heq]
    exact ⟨rfl, rfl⟩
  have heasy : job.easyValues = #[1, 2, 3, 4, 5, 6] := by
    rw [hbuilt.easyValues_eq, hmin, hmax]
    decide
  have hwinner : ∃ pair ∈ pairsOfSlot job (0, 1), job.HasWinner .sha3 pair := by
    refine ⟨(3, 2), ?_, ⟨3, .add, 2, 5⟩, ?_, hwins⟩
    · rw [pairsOfSlot, heasy]
      decide
    · rw [hmin, hmax]
      decide
  have hfresh : IsUndisturbed .sha3 (fresh ⟨0, 0, .normal, false, false, some (0, 1), .sha3⟩
      (List.replicate 42 0) fun _ => false) :=
    ⟨ShareEncoder.isReady_fresh .sha3, rfl, fun _ _ => rfl⟩
  obtain ⟨hends, hwords⟩ := easySearch_submits_what_exists hbuilt (0, 1) hfresh
  obtain ⟨w', hsearch⟩ := hwords (by rw [EasyRows.ofSlot_eq, heasy]; decide)
  obtain ⟨share, hshare⟩ := (hends w' hsearch).1 hwinner
  exact ⟨indication, job, hbuild, hwinner, w', share, hsearch, hshare⟩

end SoloMiner
