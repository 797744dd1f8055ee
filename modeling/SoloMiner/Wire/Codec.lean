import SoloMiner.Cipher.Transport
import SoloMiner.Encoding.Base64
import SoloMiner.Wire.Fault

/-! # Frames

    After the certificate every packet travels as a frame: the encrypted payload in base64,
    and an end mark that base64 never contains. A frame has at most 65536 bytes, the mark
    included.

    The decoder works on the bytes received and not consumed yet. It remembers how many of
    them it has searched for the mark, so that no byte is searched twice. -/

namespace SoloMiner

/-- What is written to the node. Only the certificate at the beginning of a connection goes out
    as it is. -/
inductive Frame where
  /-- Goes out as it is. -/
  | plain (payload : Bytes)
  | encrypted (payload : Bytes)
  deriving DecidableEq, Repr

/-- The cipher of a connection and the state of its decoder. -/
structure PacketCodec where
  cipher : TransportCipher
  /-- Number of buffered bytes known to hold no end mark. -/
  searched : Nat

namespace PacketCodec

/-- The end mark. -/
def endMark : UInt8 := 42

/-- The largest size of a frame, mark included. -/
def maxFrameLength : Nat := 65536

def start (cipher : TransportCipher) : PacketCodec := ⟨cipher, 0⟩

/-! ## Encoding -/

/-- The frame that carries `payload`. -/
def frameOf (cipher : TransportCipher) (payload : Bytes) : Bytes :=
  Base64.encode (cipher.encrypt payload) ++ [endMark]

/-- The bytes of a frame. -/
def encode (c : PacketCodec) : Frame → Bytes
  | .plain payload => payload
  | .encrypted payload => frameOf c.cipher payload

/-! ## Decoding -/

/-- The payload of a frame whose mark has been taken off. -/
def payloadOf (cipher : TransportCipher) (body : Bytes) : Except NetworkError Bytes :=
  match Base64.decode? body with
  | none => .error (.crypto .base64)
  | some cs => (cipher.decrypt cs).mapError .crypto

/-- Position of the first mark at or behind a position. -/
def markFrom? (position : Nat) (buffer : Bytes) : Option Nat :=
  ((buffer.drop position).idxOf? endMark).map (position + ·)

/-- Takes the next frame off the front of the buffer, if it is complete. A frame with a bad
    body is consumed; one that is too long stays. -/
def decode (c : PacketCodec) (buffer : Bytes) :
    Except NetworkError (Option Bytes) × PacketCodec × Bytes :=
  match markFrom? c.searched buffer with
  | none =>
    if maxFrameLength ≤ buffer.length then
      (.error (.framing (.noEndMark maxFrameLength)), c, buffer)
    else (.ok none, { c with searched := buffer.length }, buffer)
  | some mark =>
    let c := { c with searched := 0 }
    if maxFrameLength < mark + 1 then (.error (.framing (.tooLarge (mark + 1))), c, buffer)
    else ((payloadOf c.cipher (buffer.take mark)).map some, c, buffer.drop (mark + 1))

/-- `decode` at the end of the stream, where bytes that make no frame are an error. If there are
    none of them either, the stream has just ended. -/
def decodeEnd (c : PacketCodec) (buffer : Bytes) :
    Except NetworkError (Option Bytes) × PacketCodec × Bytes :=
  match c.decode buffer with
  | (.ok none, c, rest) =>
    if rest.isEmpty then (.ok none, c, rest)
    else (.error (.framing (.cutOff rest.length)), c, rest)
  | outcome => outcome

end PacketCodec
end SoloMiner
