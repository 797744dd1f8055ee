import SoloMiner.Digest.Sha3
import SoloMiner.Digest.Sha512
import SoloMiner.Encoding.MaskedHex

/-! # Digests of shares

    The fingerprint of an encrypted share is a 512-bit digest in upper-case hexadecimal. -/

namespace SoloMiner

/-- The digest functions a miner can be set to. -/
inductive ShareDigest where
  | sha3
  | sha2
  deriving DecidableEq, Repr

namespace ShareDigest

/-- The digest used when nothing is configured. -/
def standard : ShareDigest := .sha3

def all : List ShareDigest := [.sha3, .sha2]

/-- The name in the configuration and in log lines. -/
def name : ShareDigest → String
  | .sha3 => "sha3-512"
  | .sha2 => "sha2-512"

def ofName? (s : String) : Option ShareDigest := all.find? fun d => d.name == s

/-- The 64-byte digest. -/
def digest : ShareDigest → Bytes → Bytes
  | .sha3 => Sha3.digest
  | .sha2 => Sha512.digest

/-- Number of characters in a digest's text. -/
def textLength : Nat := 128

/-- The digest as upper-case hexadecimal text. -/
def text (d : ShareDigest) (bs : Bytes) : Bytes := MaskedHex.plain (d.digest bs)

end ShareDigest
end SoloMiner
