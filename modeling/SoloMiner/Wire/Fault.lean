import SoloMiner.Cipher.Fault
import SoloMiner.Text.Decimal

/-! # Faults of a connection -/

namespace SoloMiner

/-- Why a connection ended, in the user's words. -/
inductive DisconnectReason where
  | connectionFailed
  | connectionTimeout
  | packetHandlerError
  | packetHandlerTimeout
  | loginFailed
  /-- The owner asked for it. -/
  | requested
  deriving DecidableEq, Repr

def DisconnectReason.text : DisconnectReason → String
  | .connectionFailed => "Connection failed"
  | .connectionTimeout => "Connection timeout"
  | .packetHandlerError => "Packet handler error"
  | .packetHandlerTimeout => "Packet handler timeout"
  | .loginFailed => "Login failed"
  | .requested => "None"

/-- What is wrong with the frames received. -/
inductive FramingFault where
  /-- The longest frame allowed went by without an end mark. -/
  | noEndMark (limit : Nat)
  | tooLarge (size : Nat)
  /-- The stream ended with `size` bytes of a frame. -/
  | cutOff (size : Nat)
  /-- A fault that a frame source describes itself. -/
  | described (text : String)
  deriving DecidableEq, Repr

def FramingFault.message : FramingFault → String
  | .noEndMark limit => s!"no end marker within {Decimal.text limit} bytes"
  | .tooLarge size => s!"frame too large: {Decimal.text size} bytes"
  | .cutOff size => s!"stream ended inside a frame ({Decimal.text size} bytes without end marker)"
  | .described text => text

/-- What can go wrong with a connection, or with opening one. Each of them has a reason that the
    owner is told. -/
inductive NetworkError where
  | connect
  | connectTimeout
  | io
  | framing (fault : FramingFault)
  | crypto (cause : CryptoError)
  | timeout
  | connectionClosed
  | loginRejected
  | invalidUrl (url : String)
  deriving DecidableEq, Repr

namespace NetworkError

def message : NetworkError → String
  | .connect => "connection failed"
  | .connectTimeout => "connection timed out"
  | .io => "I/O error"
  | .framing fault => "framing error: " ++ fault.message
  | .crypto cause => "packet decode failed: " ++ cause.message
  | .timeout => "request timed out"
  | .connectionClosed => "connection closed by node"
  | .loginRejected => "login rejected by node"
  | .invalidUrl url => "invalid pool URL: " ++ url

/-- The reason given when the fault ends a connection. Several faults have one reason, so the
    owner cannot tell all of them apart. -/
def reason : NetworkError → DisconnectReason
  | .connect | .invalidUrl _ => .connectionFailed
  | .connectTimeout => .connectionTimeout
  | .timeout => .packetHandlerTimeout
  | .loginRejected => .loginFailed
  | .io | .framing _ | .crypto _ | .connectionClosed => .packetHandlerError

end NetworkError
end SoloMiner
