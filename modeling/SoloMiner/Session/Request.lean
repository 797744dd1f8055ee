import SoloMiner.Job.Header
import SoloMiner.Share.Found
import SoloMiner.Wire.Packet

/-! # Requests of a session

    A session logs in and then asks for jobs: for the header of the block being mined, and
    for the method of a header that it does not know. Shares are submitted as they are found,
    and the owner of the connection may send packets of its own. -/

namespace SoloMiner

/-- What the reply to a request is for. It goes with the request from the queue on, and decides
    how the reply is read. -/
inductive Expectation where
  /-- The answer to a login. -/
  | login
  /-- The header of the block being mined. -/
  | header
  /-- The method of the block with a header. -/
  | method (header : BlockHeader)
  /-- The verdict on a share. -/
  | verdict (height : Int64) (jobType : JobType)
  /-- A reply that the sender of the request judges. -/
  | custom (judge : Bytes → Except NetworkError Unit)

/-- Does the request ask for a job? -/
def Expectation.isPoll : Expectation → Bool
  | .header | .method _ => true
  | _ => false

/-- A packet of a session. -/
abbrev SessionPacket : Type := OutboundPacket Expectation

namespace SessionPacket

/-! ## Packets -/

def loginLead : String := "MINER"
def headerQuery : String := "RECEIVE-ASK-CURRENT-BLOCK-MINING"
def methodLead : String := "RECEIVE-ASK-CONTENT-BLOCK-METHOD"

def textRequest (text : String) (e : Expectation) : SessionPacket :=
  .request (Bytes.ofString text) e

def login (wallet : String) : SessionPacket :=
  textRequest (loginLead ++ "|" ++ wallet) .login

def headerRequest : SessionPacket := textRequest headerQuery .header

def methodRequest (header : BlockHeader) : SessionPacket :=
  textRequest (methodLead ++ "|" ++ header.method) (.method header)

def submission (share : FoundShare) (userAgent : String) : SessionPacket :=
  textRequest (share.submission userAgent) (.verdict share.height share.jobType)

/-- Does the packet ask for a job? -/
def isPoll (p : SessionPacket) : Bool := (p.handler.map Expectation.isPoll).getD false

end SessionPacket

/-! ## Offers -/

/-- A packet of the owner's own. Its handler judges the reply. -/
abbrev OwnPacket : Type := OutboundPacket (Bytes → Except NetworkError Unit)

/-- What the owner of a connection may ask it to send. -/
inductive Offer where
  | own (p : OwnPacket)
  | share (s : FoundShare) (userAgent : String)

/-- The packet that carries out an offer. -/
def Offer.packet : Offer → SessionPacket
  | .own p => ⟨p.payload, p.encrypted, p.handler.map .custom⟩
  | .share s userAgent => .submission s userAgent

end SoloMiner
