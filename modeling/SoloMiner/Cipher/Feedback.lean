import SoloMiner.Cipher.Block

/-! # Byte-wide cipher feedback

    The stream mode CFB-8. Each byte is combined with the first byte of the encrypted shift
    register, and the ciphertext byte is then shifted in, on both sides alike. The block
    function is a parameter. -/

namespace SoloMiner.Feedback

/-- Encrypts `bs` from register `reg`, in front of the bytes `acc`, the latest first. Each byte
    that is made is shifted into the register, from which the next one is made. -/
def encryptFrom (f : Block → Block) (reg : Block) (acc : Bytes) : Bytes → Bytes
  | [] => acc.reverse
  | p :: ps =>
    let c := p ^^^ (f reg).b0
    encryptFrom f (reg.shiftIn c) (c :: acc) ps

/-- Decrypts `bs` from register `reg`, in front of the bytes `acc`, the latest first. -/
def decryptFrom (f : Block → Block) (reg : Block) (acc : Bytes) : Bytes → Bytes
  | [] => acc.reverse
  | c :: cs => decryptFrom f (reg.shiftIn c) ((c ^^^ (f reg).b0) :: acc) cs

def encrypt (f : Block → Block) (iv : Block) (bs : Bytes) : Bytes := encryptFrom f iv [] bs

def decrypt (f : Block → Block) (iv : Block) (bs : Bytes) : Bytes := decryptFrom f iv [] bs

end SoloMiner.Feedback
