import SoloMiner.Digest.Share
import SoloMiner.Job.Template
import SoloMiner.Share.Calculation

/-! # Share encryption

    A candidate is written as text with the job's timestamp, masked, and sent through the
    rounds of the job's cipher, each followed by a turn into dashed hexadecimal. The digest of
    the outcome is the share, and the digest of the share is the hash that the node compares
    with the job's indication.

    An encoder keeps its buffers from one candidate to the next. Whatever they held before is
    overwritten, so no result depends on it. -/

namespace SoloMiner

/-- Two digests in upper-case hexadecimal. -/
structure EncryptedShare where
  share : Bytes
  hash : Bytes
  deriving DecidableEq, Repr

namespace EncryptedShare

def blank : EncryptedShare :=
  ⟨List.replicate ShareDigest.textLength 0, List.replicate ShareDigest.textLength 0⟩

/-- Is `indication` the hash? -/
def isMatch (s : EncryptedShare) (indication : String) : Bool :=
  s.hash == Bytes.ofString indication

def shareText (s : EncryptedShare) : String := (s.share.text?).getD ""

def hashText (s : EncryptedShare) : String := (s.hash.text?).getD ""

end EncryptedShare

/-! ## Share text -/

/-- The text that is encrypted. -/
def Candidate.shareText (c : Candidate) (timestamp : Int64) : Bytes :=
  Bytes.ofString (c.calculationText ++ " " ++ Decimal.text timestamp.toInt)

/-! ## Encoder -/

/-- A digest function and the buffers of the encryption. They are kept from one candidate to the
    next, so that none is set up anew. -/
structure ShareEncoder where
  digest : ShareDigest
  /-- Holds the share text at its front. -/
  text : Bytes
  /-- Holds the hexadecimal text between rounds. -/
  stage : Bytes
  /-- Holds the ciphertext of a round. -/
  sealedText : Bytes
  deriving DecidableEq, Repr

namespace ShareEncoder

/-- Number of bytes in the text buffer. -/
def textCapacity : Nat := 64

def fresh (digest : ShareDigest) : ShareEncoder :=
  ⟨digest, List.replicate textCapacity 0, [], []⟩

/-- Writes `bs` over the front of `buffer`, if it fits. -/
def overwrite? (buffer bs : Bytes) : Option Bytes :=
  if bs.length ≤ buffer.length then some (bs ++ buffer.drop bs.length) else none

/-- Brings `buffer` to `n` bytes. What it held stays in front, and zeros fill it up. -/
def resize (buffer : Bytes) (n : Nat) : Bytes :=
  buffer.take n ++ List.replicate (n - buffer.length) 0

/-- Encrypts the stage. The buffer for ciphertexts is brought to the length of the padded stage,
    written over, and cut to what was written. -/
def sealStage (job : JobTemplate) (e : ShareEncoder) : Except CryptoError Unit × ShareEncoder :=
  let room := resize e.sealedText (e.stage.length + Padding.lengthFor e.stage.length)
  match Chaining.encrypt job.keySize job.aesKey job.aesIv e.stage with
  | .error fault => (.error fault, { e with sealedText := room })
  | .ok cs =>
    match overwrite? room cs with
    | none => (.error .invalidPadding, { e with sealedText := room })
    | some written => (.ok (), { e with sealedText := written.take cs.length })

/-- The mask key of round `n`. -/
def roundKey (job : JobTemplate) (n : Nat) : Bytes := if n = 1 then job.xorKey else []

/-- Runs rounds `n - 1` down to `0`. A refused key ends the run, and what the rounds before have
    left stays in the buffers. -/
def rounds (job : JobTemplate) : Nat → ShareEncoder → Except CryptoError Unit × ShareEncoder
  | 0, e => (.ok (), e)
  | n + 1, e =>
    match sealStage job e with
    | (.error fault, e) => (.error fault, e)
    | (.ok (), e) =>
      rounds job n { e with stage := MaskedHex.encode e.sealedText (roundKey job n) true }

/-- Encrypts a candidate. On failure `out` is given back unchanged, so that the share of an
    earlier candidate still stands there. -/
def encrypt (e : ShareEncoder) (job : JobTemplate) (c : Candidate) (out : EncryptedShare) :
    Except CryptoError Unit × ShareEncoder × EncryptedShare :=
  let text := c.shareText job.timestamp
  match overwrite? e.text text with
  | none => (.error .invalidLength, e, out)
  | some buffer =>
    let masked := MaskedHex.encode (buffer.take text.length) job.xorKey false
    match rounds job (job.rounds.toNat + 1) { e with text := buffer, stage := masked } with
    | (.error fault, e) => (.error fault, e, out)
    | (.ok (), e) =>
      let share := e.digest.text e.stage
      (.ok (), e, ⟨share, e.digest.text share⟩)

end ShareEncoder
end SoloMiner
