import SoloMiner.Proofs.Job.Building
import SoloMiner.Proofs.Share.EncoderReuse

/-! # Encryption of shares

    Only a key of the wrong length can stop an encryption, and it stops it in the first round.
    With the keys of a template that was built every round goes through. -/

namespace SoloMiner.ShareEncoder

/-- Rounds go through under a key that has the length its size asks for. -/
theorem exists_stageAfter {job : JobTemplate} (hiv : job.aesIv.length = Block.size)
    (hkey : job.aesKey.length = job.keySize.keyLength) (n : Nat) (stage : Bytes) :
    ∃ text, stageAfter job n stage = .ok text := by
  induction n generalizing stage with
  | zero => exact ⟨stage, rfl⟩
  | succ n ih =>
    rcases Chaining.encrypt_cases job.keySize job.aesKey stage hiv with ⟨-, cs, hcs⟩ | ⟨hnot, -⟩
    · simp only [stageAfter, hcs]
      exact ih _
    · exact absurd hkey hnot

theorem digestInput_cases {job : JobTemplate} (hiv : job.aesIv.length = Block.size)
    (c : Candidate) :
    (job.aesKey.length = job.keySize.keyLength ∧ ∃ input, digestInput job c = .ok input) ∨
      (job.aesKey.length ≠ job.keySize.keyLength ∧
        digestInput job c = .error .invalidLength) := by
  by_cases hkey : job.aesKey.length = job.keySize.keyLength
  · left
    exact ⟨hkey, exists_stageAfter hiv hkey _ _⟩
  · right
    -- there is at least one round, so the key is looked at
    rcases Chaining.encrypt_cases job.keySize job.aesKey
      (MaskedHex.encode (c.shareText job.timestamp) job.xorKey false) hiv with ⟨h, -⟩ | ⟨-, hcs⟩
    · exact absurd h hkey
    · refine ⟨hkey, ?_⟩
      simp only [digestInput, stageAfter, hcs]

/-- An encoder with a buffer of the right size encrypts every candidate. -/
theorem encrypt_ok {job : JobTemplate} (hjob : job.IsKeyed) {digest : ShareDigest}
    {e : ShareEncoder} (hready : e.IsReady digest) (c : Candidate) (out : EncryptedShare) :
    (e.encrypt job c out).1 = .ok () := by
  obtain ⟨e', -, heq⟩ := hready.encrypt_eq job c out
  obtain ⟨input, hinput⟩ := exists_stageAfter hjob.length_aesIv hjob.length_aesKey
    (job.rounds.toNat + 1) (MaskedHex.encode (c.shareText job.timestamp) job.xorKey false)
  rw [heq, digestInput, hinput]

end SoloMiner.ShareEncoder
