import SoloMiner.Cipher.Transport

/-! # Round trip of the transport cipher

    Decryption undoes encryption, whatever the block function: both sides shift the same
    ciphertext bytes into their registers, so both combine each byte with the same value. -/

namespace SoloMiner

/-! ## Padding -/

namespace Padding

theorem lengthFor_mem (len : Nat) : 0 < lengthFor len ∧ lengthFor len ≤ Block.size := by
  have hmod := Nat.mod_lt len (show 0 < Block.size by decide)
  simp only [lengthFor]
  omega

theorem length_pad (bs : Bytes) : (pad bs).length = 16 * (bs.length / 16 + 1) := by
  rw [pad, List.length_append, List.length_replicate]
  simp only [lengthFor, Block.size]
  omega

/-- Up to sixteen bytes that all hold their number are taken off, whatever stands in front. -/
theorem unpad_marks {n : Nat} (hpos : 0 < n) (hle : n ≤ 16) (bs : Bytes) :
    unpad (bs ++ List.replicate n (UInt8.ofNat n)) = .ok bs := by
  -- the last byte says how many are to be taken off
  have hlast : (bs ++ List.replicate n (UInt8.ofNat n)).getLast? = some (UInt8.ofNat n) := by
    rw [List.getLast?_append, List.getLast?_replicate, if_neg (Nat.ne_of_gt hpos)]
    rfl
  have hmark : (UInt8.ofNat n).toNat = n := by
    rw [UInt8.toNat_ofNat']
    omega
  have hlength : (bs ++ List.replicate n (UInt8.ofNat n)).length - n = bs.length := by
    rw [List.length_append, List.length_replicate]
    omega
  -- that is neither none, nor more than a block or than there are bytes
  have hvalid : ¬(n = 0 ∨ Block.size < n ∨
      (bs ++ List.replicate n (UInt8.ofNat n)).length < n) := by
    rw [List.length_append, List.length_replicate]
    simp only [Block.size]
    omega
  -- and all of them hold the same number
  have hmarks : ((bs ++ List.replicate n (UInt8.ofNat n)).drop bs.length).all
      (· == UInt8.ofNat n) = true := by
    rw [List.drop_left]
    simp
  have hunpadded : unpaddedLength (bs ++ List.replicate n (UInt8.ofNat n)) = .ok bs.length := by
    simp only [unpaddedLength, hlast, hmark, if_neg hvalid, hlength, hmarks, if_true]
  rw [unpad, hunpadded]
  show Except.ok ((bs ++ List.replicate n (UInt8.ofNat n)).take bs.length) = _
  rw [List.take_left]

/-- Padding is taken off again. -/
theorem unpad_pad (bs : Bytes) : unpad (pad bs) = .ok bs := by
  obtain ⟨hpos, hle⟩ := lengthFor_mem bs.length
  exact unpad_marks hpos hle bs

end Padding

/-! ## Feedback -/

namespace Feedback

variable (f : Block → Block)

/-- What was encrypted before stays in front, and does not matter for what follows. -/
theorem encryptFrom_eq (reg : Block) (acc bs : Bytes) :
    encryptFrom f reg acc bs = acc.reverse ++ encrypt f reg bs := by
  unfold encrypt
  -- each byte goes in front of the accumulator, so that has to vary
  induction bs generalizing reg acc with
  | nil => simp [encryptFrom]
  | cons p ps ih =>
    simp only [encryptFrom]
    rw [ih, ih _ [_]]
    simp

theorem decryptFrom_eq (reg : Block) (acc cs : Bytes) :
    decryptFrom f reg acc cs = acc.reverse ++ decrypt f reg cs := by
  unfold decrypt
  induction cs generalizing reg acc with
  | nil => simp [decryptFrom]
  | cons c cs ih =>
    simp only [decryptFrom]
    rw [ih, ih _ [_]]
    simp

theorem encrypt_cons (reg : Block) (p : UInt8) (ps : Bytes) :
    encrypt f reg (p :: ps) =
      (p ^^^ (f reg).b0) :: encrypt f (reg.shiftIn (p ^^^ (f reg).b0)) ps :=
  encryptFrom_eq f _ [_] ps

theorem decrypt_cons (reg : Block) (c : UInt8) (cs : Bytes) :
    decrypt f reg (c :: cs) = (c ^^^ (f reg).b0) :: decrypt f (reg.shiftIn c) cs :=
  decryptFrom_eq f _ [_] cs

theorem length_encrypt (reg : Block) (bs : Bytes) : (encrypt f reg bs).length = bs.length := by
  induction bs generalizing reg with
  | nil => rfl
  | cons p ps ih => rw [encrypt_cons, List.length_cons, List.length_cons, ih]

theorem decrypt_encrypt (reg : Block) (bs : Bytes) : decrypt f reg (encrypt f reg bs) = bs := by
  induction bs generalizing reg with
  | nil => rfl
  | cons p ps ih =>
    have hbyte : p ^^^ (f reg).b0 ^^^ (f reg).b0 = p := by
      rw [UInt8.xor_assoc, UInt8.xor_self, UInt8.xor_zero]
    rw [encrypt_cons, decrypt_cons, ih, hbyte]

theorem encrypt_decrypt (reg : Block) (cs : Bytes) : encrypt f reg (decrypt f reg cs) = cs := by
  induction cs generalizing reg with
  | nil => rfl
  | cons c cs ih =>
    have hbyte : c ^^^ (f reg).b0 ^^^ (f reg).b0 = c := by
      rw [UInt8.xor_assoc, UInt8.xor_self, UInt8.xor_zero]
    rw [decrypt_cons, encrypt_cons, hbyte, ih]

end Feedback

/-! ## Packets -/

namespace TransportCipher

theorem length_encrypt (t : TransportCipher) (payload : Bytes) :
    (t.encrypt payload).length = 16 * (payload.length / 16 + 1) := by
  rw [encrypt, Feedback.length_encrypt, Padding.length_pad]

/-- A payload is decrypted to what was encrypted. -/
theorem decrypt_encrypt (t : TransportCipher) (payload : Bytes) :
    t.decrypt (t.encrypt payload) = .ok payload := by
  rw [decrypt, encrypt, Feedback.decrypt_encrypt, Padding.unpad_pad]

end TransportCipher
end SoloMiner
