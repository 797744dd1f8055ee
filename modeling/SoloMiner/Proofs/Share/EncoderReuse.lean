import SoloMiner.Proofs.Cipher.Chaining
import SoloMiner.Proofs.Text.Numerals
import SoloMiner.Share.Found

/-! # Reuse of encoders

    An encoder keeps its buffers from one candidate to the next. What a candidate is encrypted
    to is a function of the job and the candidate alone, for each buffer is written over before
    it is read, as far as it is read. Two things stay as they are: the digest function, and the
    size of the text buffer, which no share text exceeds. -/

namespace SoloMiner

theorem ShareDigest.length_text (d : ShareDigest) (bs : Bytes) :
    (d.text bs).length = textLength := by
  cases d <;> rfl

/-! ## Share texts -/

theorem Operator.utf8Size_symbol (o : Operator) : o.symbol.utf8Size = 1 := by
  cases o <;> rfl

/-- The longest operands and the longest timestamp fill the buffer to its last byte. -/
theorem Candidate.length_shareText_le (c : Candidate) (timestamp : Int64) :
    (c.shareText timestamp).length ≤ ShareEncoder.textCapacity := by
  have hblank : " ".utf8ByteSize = 1 := rfl
  have hsymbol : (String.singleton c.operator.symbol).utf8ByteSize = 1 := by
    rw [String.utf8ByteSize_singleton, Operator.utf8Size_symbol]
  have hfirst := Decimal.utf8ByteSize_text_le c.first
  have hsecond := Decimal.utf8ByteSize_text_le c.second
  have htime := Decimal.utf8ByteSize_text_le timestamp
  rw [shareText, Bytes.length_ofString, calculationText, ShareEncoder.textCapacity]
  simp only [String.utf8ByteSize_append, hblank, hsymbol]
  omega

namespace ShareEncoder

/-! ## Buffers -/

theorem overwrite?_of_le {buffer bs : Bytes} (h : bs.length ≤ buffer.length) :
    overwrite? buffer bs = some (bs ++ buffer.drop bs.length) :=
  if_pos h

theorem length_resize (buffer : Bytes) (n : Nat) : (resize buffer n).length = n := by
  rw [resize, List.length_append, List.length_take, List.length_replicate]
  omega

/-- The buffers hold what an encryption needs, and the digest function is `digest`. What is left
    in them from earlier uses is not restricted. -/
structure IsReady (digest : ShareDigest) (e : ShareEncoder) : Prop where
  digest_eq : e.digest = digest
  length_text : e.text.length = textCapacity

theorem isReady_fresh (digest : ShareDigest) : (fresh digest).IsReady digest :=
  ⟨rfl, List.length_replicate⟩

/-! ## Rounds -/

/-- The ciphertext takes up the whole buffer, and nothing of what it held is left. -/
theorem sealStage_of_ok {job : JobTemplate} {e : ShareEncoder} {cs : Bytes}
    (h : Chaining.encrypt job.keySize job.aesKey job.aesIv e.stage = .ok cs) :
    sealStage job e = (.ok (), { e with sealedText := cs }) := by
  have hroom : cs.length ≤ (resize e.sealedText
      (e.stage.length + Padding.lengthFor e.stage.length)).length := by
    rw [length_resize, Chaining.length_of_encrypt h]
  simp only [sealStage, h, overwrite?_of_le hroom, List.take_left]

/-- A refused key leaves the stage and the text as they were. -/
theorem sealStage_of_error {job : JobTemplate} {e : ShareEncoder} {fault : CryptoError}
    (h : Chaining.encrypt job.keySize job.aesKey job.aesIv e.stage = .error fault) :
    ∃ room, sealStage job e = (.error fault, { e with sealedText := room }) := by
  simp only [sealStage, h]
  exact ⟨_, rfl⟩

/-- What rounds `n - 1` down to `0` make of a stage. It is the encoder without its buffers, and
    an encoder that is ready agrees with it. -/
def stageAfter (job : JobTemplate) : Nat → Bytes → Except CryptoError Bytes
  | 0, stage => .ok stage
  | n + 1, stage =>
    match Chaining.encrypt job.keySize job.aesKey job.aesIv stage with
    | .error fault => .error fault
    | .ok cs => stageAfter job n (MaskedHex.encode cs (roundKey job n) true)

/-- Rounds do to an encoder what they do to its stage. -/
theorem rounds_eq (job : JobTemplate) (n : Nat) (e : ShareEncoder) :
    ∃ e', e'.digest = e.digest ∧ e'.text = e.text ∧
      rounds job n e = match stageAfter job n e.stage with
        | .error fault => (.error fault, e')
        | .ok stage => (.ok (), { e' with stage }) := by
  induction n generalizing e with
  | zero => exact ⟨e, rfl, rfl, rfl⟩
  | succ n ih =>
    cases hseal : Chaining.encrypt job.keySize job.aesKey job.aesIv e.stage with
    -- the key is refused in this round, and only the room for the ciphertext has changed
    | error fault =>
      obtain ⟨room, hroom⟩ := sealStage_of_error hseal
      refine ⟨{ e with sealedText := room }, rfl, rfl, ?_⟩
      simp only [rounds, stageAfter, hroom, hseal]
    -- the masked ciphertext is the stage of the next round
    | ok cs =>
      obtain ⟨e', hdigest, htext, hrest⟩ :=
        ih { e with sealedText := cs, stage := MaskedHex.encode cs (roundKey job n) true }
      refine ⟨e', hdigest, htext, ?_⟩
      simp only [rounds, stageAfter, sealStage_of_ok hseal, hseal]
      exact hrest

/-! ## Encryption -/

/-- The text that is digested, or why there is none. It depends on the job and the candidate, and
    on no encoder. -/
def digestInput (job : JobTemplate) (c : Candidate) : Except CryptoError Bytes :=
  stageAfter job (job.rounds.toNat + 1)
    (MaskedHex.encode (c.shareText job.timestamp) job.xorKey false)

/-- The two digests of a text. -/
def digested (digest : ShareDigest) (input : Bytes) : EncryptedShare :=
  ⟨digest.text input, digest.text (digest.text input)⟩

/-- An encoder that is ready digests what job and candidate determine, or refuses the key and
    gives `out` back. It stays ready. -/
theorem IsReady.encrypt_eq {digest : ShareDigest} {e : ShareEncoder} (h : e.IsReady digest)
    (job : JobTemplate) (c : Candidate) (out : EncryptedShare) :
    ∃ e', e'.IsReady digest ∧ e.encrypt job c out = match digestInput job c with
      | .error fault => (.error fault, e', out)
      | .ok input => (.ok (), { e' with stage := input }, digested digest input) := by
  have hfits : (c.shareText job.timestamp).length ≤ e.text.length := by
    rw [h.length_text]
    exact c.length_shareText_le job.timestamp
  have hbuffer := overwrite?_of_le hfits
  generalize htext : c.shareText job.timestamp ++ e.text.drop (c.shareText job.timestamp).length =
    buffer at hbuffer
  -- the text that was just written stands in front, and what the buffer held before is cut off
  have htake : buffer.take (c.shareText job.timestamp).length = c.shareText job.timestamp := by
    rw [← htext, List.take_left]
  have hlength : buffer.length = textCapacity := by
    rw [← htext, List.length_append, List.length_drop, ← h.length_text]
    omega
  obtain ⟨e', hdigest, htext', hrounds⟩ := rounds_eq job (job.rounds.toNat + 1)
    { e with
      text := buffer
      stage := MaskedHex.encode (c.shareText job.timestamp) job.xorKey false }
  refine ⟨e', ⟨hdigest.trans h.digest_eq, by rw [htext', hlength]⟩, ?_⟩
  simp only [encrypt, hbuffer, htake, hrounds]
  unfold digestInput
  cases stageAfter job (job.rounds.toNat + 1)
      (MaskedHex.encode (c.shareText job.timestamp) job.xorKey false) with
  | error fault => rfl
  | ok input =>
    have hdigest' : e'.digest = digest := hdigest.trans h.digest_eq
    simp only [digested, hdigest']

/-- An encoder stays ready, whatever it encrypts. -/
theorem IsReady.encrypt {digest : ShareDigest} {e : ShareEncoder} (h : e.IsReady digest)
    (job : JobTemplate) (c : Candidate) (out : EncryptedShare) :
    (e.encrypt job c out).2.1.IsReady digest := by
  obtain ⟨e', hready, heq⟩ := h.encrypt_eq job c out
  rw [heq]
  cases digestInput job c with
  | error fault => exact hready
  | ok input => exact ⟨hready.digest_eq, hready.length_text⟩

/-- Two encoders with one digest function encrypt a candidate alike, whatever they encrypted
    before. -/
theorem encrypt_congr {digest : ShareDigest} {e e' : ShareEncoder} (h : e.IsReady digest)
    (h' : e'.IsReady digest) (job : JobTemplate) (c : Candidate) (out out' : EncryptedShare) :
    (e.encrypt job c out).1 = (e'.encrypt job c out').1 ∧
      ((e.encrypt job c out).1 = .ok () →
        (e.encrypt job c out).2.2 = (e'.encrypt job c out').2.2) := by
  obtain ⟨e₁, -, heq⟩ := h.encrypt_eq job c out
  obtain ⟨e₁', -, heq'⟩ := h'.encrypt_eq job c out'
  rw [heq, heq']
  cases digestInput job c with
  | error fault => exact ⟨rfl, nofun⟩
  | ok input => exact ⟨rfl, fun _ => rfl⟩

/-- The hash of a share that is encrypted is the text of a digest. -/
theorem exists_hash_eq {e e' : ShareEncoder} {job : JobTemplate} {c : Candidate}
    {out out' : EncryptedShare} (h : e.encrypt job c out = (.ok (), e', out')) :
    ∃ (d : ShareDigest) (bs : Bytes), out'.hash = d.text bs := by
  simp only [encrypt] at h
  split at h
  · cases h
  · split at h
    · cases h
    · cases h
      exact ⟨_, _, rfl⟩

/-- What is encrypted has a hash of full length. -/
theorem length_hash_of_encrypt {e e' : ShareEncoder} {job : JobTemplate} {c : Candidate}
    {out out' : EncryptedShare} (h : e.encrypt job c out = (.ok (), e', out')) :
    out'.hash.length = ShareDigest.textLength := by
  obtain ⟨d, bs, hhash⟩ := exists_hash_eq h
  rw [hhash, ShareDigest.length_text]

end ShareEncoder
end SoloMiner
