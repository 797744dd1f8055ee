import SoloMiner.Cipher.Aes
import SoloMiner.Cipher.Feedback
import SoloMiner.Cipher.KeyStream
import SoloMiner.Cipher.Padding
import SoloMiner.Encoding.MaskedHex

/-! # Transport cipher

    Protects the packets of one connection: padding, then byte-wide cipher feedback from an
    initial register that is the same for every packet. Key and register come from the
    certificate that opens the connection. -/

namespace SoloMiner

/-- A keyed block function and the register every packet starts from. -/
structure TransportCipher where
  encryptBlock : Block → Block
  iv : Block

namespace TransportCipher

/-- Number of key bytes. -/
def keyLength : Nat := 32

/-- The AES-256 cipher of a key. -/
def ofKey (key : Bytes) (iv : Block) : TransportCipher :=
  let schedule := Aes.Schedule.ofKey key
  ⟨schedule.encrypt, iv⟩

def encrypt (t : TransportCipher) (payload : Bytes) : Bytes :=
  Feedback.encrypt t.encryptBlock t.iv (Padding.pad payload)

def decrypt (t : TransportCipher) (cs : Bytes) : Except CryptoError Bytes :=
  Padding.unpad (Feedback.decrypt t.encryptBlock t.iv cs)

/-- The salt that goes with a certificate: its first eight bytes in hexadecimal. -/
def saltOf (certificate : Bytes) : Bytes := MaskedHex.plain (certificate.take 8)

/-- The cipher of a connection opened with `certificate`. Key and register are read from one key
    stream, with the certificate as the password and a salt made from its first bytes. -/
def ofCertificate (certificate : Bytes) : Except CryptoError TransportCipher := do
  let s ← KeyStream.start certificate (saltOf certificate) KeyStream.standardIterations
  let (key, s) := s.read keyLength
  let key ← key
  let iv ← (s.read Block.size).1
  match Block.ofBytes? iv with
  | some iv => pure (ofKey key iv)
  | none => throw .invalidLength

/-- What a debug print shows: nothing of the key. -/
def debugText (_ : TransportCipher) : String := "TransportCipher \x7b .. \x7d"

end TransportCipher
end SoloMiner
