import SoloMiner.Cipher.Block
import SoloMiner.Cipher.Fault

/-! # Padding to whole blocks

    The rule of PKCS #7: between one and sixteen bytes are appended, each holding their
    number, so that the length becomes a multiple of the block size. -/

namespace SoloMiner.Padding

/-- Number of bytes appended to `len` bytes. -/
def lengthFor (len : Nat) : Nat := Block.size - len % Block.size

def pad (bs : Bytes) : Bytes :=
  bs ++ List.replicate (lengthFor bs.length) (UInt8.ofNat (lengthFor bs.length))

/-- The length left when the padding is taken off, if the padding is well formed: up to a block
    of bytes at the end, each of which is their number. -/
def unpaddedLength (bs : Bytes) : Except CryptoError Nat :=
  match bs.getLast? with
  | none => .error .invalidPadding
  | some mark =>
    let n := mark.toNat
    if n = 0 ∨ Block.size < n ∨ bs.length < n then .error .invalidPadding
    else if (bs.drop (bs.length - n)).all (· == mark) then .ok (bs.length - n)
    else .error .invalidPadding

def unpad (bs : Bytes) : Except CryptoError Bytes :=
  (unpaddedLength bs).map fun n => bs.take n

end SoloMiner.Padding
