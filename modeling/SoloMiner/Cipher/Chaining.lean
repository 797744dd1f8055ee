import SoloMiner.Cipher.Aes
import SoloMiner.Cipher.Padding

/-! # Cipher block chaining

    The mode CBC with padding, encryption direction only: every plaintext block is combined
    with the ciphertext block before it. The block function is a parameter of `encryptWith`;
    `encrypt` uses AES with a key of a declared size. -/

namespace SoloMiner

/-- Key sizes accepted for share encryption. -/
inductive AesKeySize where
  | bits128
  | bits192
  | bits256
  deriving DecidableEq, Repr

namespace AesKeySize

def ofBits (bits : Nat) : Except CryptoError AesKeySize :=
  if bits = 128 then .ok .bits128
  else if bits = 192 then .ok .bits192
  else if bits = 256 then .ok .bits256
  else .error (.unsupportedKeySize bits)

/-- Number of key bytes. -/
def keyLength : AesKeySize → Nat
  | .bits128 => 16
  | .bits192 => 24
  | .bits256 => 32

def bits (size : AesKeySize) : Nat := size.keyLength * 8

end AesKeySize

namespace Chaining

/-- Chains `n` blocks of `bs` after the ciphertext block `prev`, in front of the ciphertext
    blocks `acc`, the latest first. -/
def blocksFrom (f : Block → Block) : Nat → Block → List Block → Bytes → List Block
  | 0, _, acc, _ => acc.reverse
  | n + 1, prev, acc, bs =>
    match Block.take? bs with
    | none => acc.reverse
    | some (b, rest) =>
      let c := f (prev.xor b)
      blocksFrom f n c (c :: acc) rest

/-- Pads and encrypts `bs` with block function `f`. -/
def encryptWith (f : Block → Block) (iv : Block) (bs : Bytes) : Bytes :=
  let plain := Padding.pad bs
  (blocksFrom f (plain.length / Block.size) iv [] plain).flatMap Block.toBytes

/-- Pads and encrypts `bs` under a key that must have the declared size. Key and register are
    checked before anything is encrypted. -/
def encrypt (size : AesKeySize) (key iv bs : Bytes) : Except CryptoError Bytes :=
  if key.length = size.keyLength then
    match Block.ofBytes? iv with
    | some start =>
      let schedule := Aes.Schedule.ofKey key
      .ok (encryptWith schedule.encrypt start bs)
    | none => .error .invalidLength
  else .error .invalidLength

end Chaining
end SoloMiner
