/-! # Faults of the cryptographic functions -/

namespace SoloMiner

/-- Why a key, cipher or encoding function refused its input. -/
inductive CryptoError where
  | emptyPassword
  | noIterations
  /-- All thousand numbered blocks of a key stream were used. -/
  | exhausted
  /-- A read needed more bytes than the group it began in can give it. -/
  | leftoverOverrun
  | invalidLength
  | unsupportedKeySize (bits : Nat)
  | invalidPadding
  | emptyXorKey
  | base64
  deriving DecidableEq, Repr

/-- What the user is told. -/
def CryptoError.message : CryptoError → String
  | .emptyPassword => "key derivation needs a non-empty password"
  | .noIterations => "key derivation needs at least one iteration"
  | .exhausted => "key derivation stream exhausted"
  | .leftoverOverrun => "key derivation read past the leftover buffer"
  | .invalidLength => "invalid key or iv length"
  | .unsupportedKeySize bits => s!"unsupported AES key size: {bits} bits"
  | .invalidPadding => "invalid PKCS7 padding"
  | .emptyXorKey => "XOR key is empty"
  | .base64 => "base64 decode failed"

end SoloMiner
