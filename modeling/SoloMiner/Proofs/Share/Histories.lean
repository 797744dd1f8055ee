import SoloMiner.Proofs.Encoding.MaskedHex
import SoloMiner.Proofs.Share.Encryption

/-! # Histories of encoders

    Whatever an encoder was used for before, encryptions that failed included, it encrypts the
    next candidate as a fresh encoder does. -/

namespace SoloMiner

/-- One use of an encoder, with what stood in the place of its result. Jobs may differ from one
    use to the next, and need not be fit for the cipher. -/
structure EncoderCall where
  job : JobTemplate
  candidate : Candidate
  out : EncryptedShare

namespace ShareEncoder

/-- The encoder behind one use. -/
def perform (e : ShareEncoder) (call : EncoderCall) : ShareEncoder :=
  (e.encrypt call.job call.candidate call.out).2.1

/-- An encoder behind all its uses, the first one first. -/
def used (digest : ShareDigest) (calls : List EncoderCall) : ShareEncoder :=
  calls.foldl perform (fresh digest)

theorem IsReady.perform {digest : ShareDigest} {e : ShareEncoder} (h : e.IsReady digest)
    (call : EncoderCall) : (e.perform call).IsReady digest :=
  h.encrypt call.job call.candidate call.out

/-- By induction on the calls, as each leaves the encoder ready. -/
theorem isReady_used (digest : ShareDigest) (calls : List EncoderCall) :
    (used digest calls).IsReady digest := by
  have hrun : ∀ e : ShareEncoder, e.IsReady digest →
      (calls.foldl ShareEncoder.perform e).IsReady digest := by
    induction calls with
    | nil =>
      intro e h
      exact h
    | cons call calls ih =>
      intro e h
      rw [List.foldl_cons]
      exact ih (e.perform call) (h.perform call)
  exact hrun (fresh digest) (isReady_fresh digest)

/-! ## Digests -/

/-- Two digests in upper-case hexadecimal, the second that of the first. The first one is
    submitted as the share and the second one as its hash. -/
structure IsDigested (digest : ShareDigest) (out : EncryptedShare) : Prop where
  length_share : out.share.length = 128
  share_isUpperHex : MaskedHex.IsUpperHex out.share
  length_hash : out.hash.length = 128
  hash_isUpperHex : MaskedHex.IsUpperHex out.hash
  hash_eq : out.hash = digest.text out.share

theorem isDigested_digested (digest : ShareDigest) (input : Bytes) :
    IsDigested digest (digested digest input) :=
  ⟨digest.length_text _, MaskedHex.isUpperHex_plain _, digest.length_text _,
    MaskedHex.isUpperHex_plain _, rfl⟩

/-! ## The next call -/

/-- After any history the next call has the result of a fresh encoder. It is refused, for its
    key, just when the key has not the length that its size asks for, and then the share and
    hash that stood there are still there. Otherwise they are the two digests, whatever stood
    there. -/
theorem used_encrypts_as_fresh (digest : ShareDigest) (calls : List EncoderCall)
    (job : JobTemplate) (hiv : job.aesIv.length = Block.size) (c : Candidate)
    (out : EncryptedShare) :
    ∃ result e e' out', (used digest calls).encrypt job c out = (result, e, out') ∧
      (fresh digest).encrypt job c out = (result, e', out') ∧
      ((job.aesKey.length ≠ job.keySize.keyLength ∧ result = .error .invalidLength ∧
          out' = out) ∨
        (job.aesKey.length = job.keySize.keyLength ∧ result = .ok () ∧
          IsDigested digest out' ∧
          ∀ other, ((fresh digest).encrypt job c other).2.2 = out')) := by
  obtain ⟨e, -, hused⟩ := (isReady_used digest calls).encrypt_eq job c out
  obtain ⟨e', -, hfresh⟩ := (isReady_fresh digest).encrypt_eq job c out
  -- the key has the length that its size asks for, or it is refused by both encoders
  rcases digestInput_cases hiv c with ⟨hkey, input, hinput⟩ | ⟨hkey, hinput⟩
  · rw [hinput] at hused hfresh
    refine ⟨.ok (), _, _, digested digest input, hused, hfresh, Or.inr ⟨hkey, rfl, ?_, ?_⟩⟩
    · exact isDigested_digested digest input
    · intro other
      obtain ⟨e'', -, hother⟩ := (isReady_fresh digest).encrypt_eq job c other
      rw [hother, hinput]
  · rw [hinput] at hused hfresh
    exact ⟨.error .invalidLength, _, _, out, hused, hfresh, Or.inl ⟨hkey, rfl, rfl⟩⟩

/-- A call with a short key in between, and another with the right one behind it. -/
theorem used_encrypts_as_fresh_small :
    ∃ job refused : JobTemplate, job.aesIv.length = Block.size ∧
      refused.aesKey.length ≠ refused.keySize.keyLength ∧
      ∃ e e' out', (used .sha3 [⟨refused, ⟨1, .add, 2, 3⟩, .blank⟩]).encrypt job
          ⟨3, .add, 2, 5⟩ .blank = (.ok (), e, out') ∧
        (fresh .sha3).encrypt job ⟨3, .add, 2, 5⟩ .blank = (.ok (), e', out') ∧
        IsDigested .sha3 out' := by
  have hshort : ([1] : Bytes).length ≠ AesKeySize.bits128.keyLength := by decide
  have hkey : (List.replicate 16 (7 : UInt8)).length = AesKeySize.bits128.keyLength := by decide
  have hiv : (List.replicate 16 (0 : UInt8)).length = Block.size := by decide
  obtain ⟨result, e, e', out', hused, hfresh, ⟨hnot, -⟩ | ⟨-, rfl, hdigested, -⟩⟩ :=
    used_encrypts_as_fresh .sha3
      [⟨⟨7, 0, "AES", "", 1, 1, 6, [120], .bits128, [1], List.replicate 16 0, 2, #[]⟩,
        ⟨1, .add, 2, 3⟩, .blank⟩]
      ⟨7, 0, "AES", "", 1, 1, 6, [120], .bits128, List.replicate 16 7, List.replicate 16 0, 2,
        #[]⟩ hiv ⟨3, .add, 2, 5⟩ .blank
  · exact absurd hkey hnot
  · exact ⟨_, _, hiv, hshort, e, e', out', hused, hfresh, hdigested⟩

end ShareEncoder
end SoloMiner
