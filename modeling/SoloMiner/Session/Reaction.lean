import SoloMiner.Clock.Duration
import SoloMiner.Job.Template
import SoloMiner.Session.Request
import SoloMiner.Share.Status

/-! # Reactions to replies

    Every reply to a login or to a job request makes the session ask for the next thing, so
    that exactly one job request is under way at any time. A header is followed up only if its
    indication is not that of the last job. A reply that cannot be read is as good as none. -/

namespace SoloMiner

/-- What the owner of a connection learns. An attempt to connect has one event that tells of its
    end, and no other behind that. -/
inductive NetworkEvent where
  /-- The login was accepted. -/
  | ready
  /-- A connection ended, or could not be opened. -/
  | disconnected (reason : DisconnectReason)
  | newJob (job : JobTemplate)
  /-- The node's verdict on a share. -/
  | shareResult (height : Int64) (jobType : JobType) (status : ShareStatus) (roundTrip : Duration)
  deriving DecidableEq, Repr

/-- What a reply brings about. It says what to tell the owner and what to ask the node for next. -/
structure Reaction where
  /-- Why the reply made no job, if it should have. -/
  rejected : Option TemplateError
  events : List NetworkEvent
  /-- The indication of the last job from now on. -/
  lastIndication : Option String
  /-- The next request. -/
  followUp : Option SessionPacket

namespace Reaction

/-- Changes nothing. -/
def quiet (last : Option String) : Reaction := ⟨none, [], last, none⟩

/-- Only sends a packet. -/
def send (last : Option String) (p : SessionPacket) : Reaction := ⟨none, [], last, some p⟩

end Reaction

namespace Expectation

/-- The answer to a login that was accepted. -/
def loginAccepted : Bytes := Bytes.ofString "SEND-LOGIN-ACCEPTED"

def reactToLogin (last : Option String) (reply : Bytes) : Except NetworkError Reaction :=
  if reply = loginAccepted then .ok ⟨none, [.ready], last, some .headerRequest⟩
  else .error .loginRejected

def reactToHeader (last : Option String) (reply : Bytes) : Reaction :=
  match BlockHeader.parse reply with
  | .error _ => .send last .headerRequest
  | .ok h =>
    if last = some h.indication then .send last .headerRequest
    else .send last (.methodRequest h)

def reactToMethod (h : BlockHeader) (last : Option String) (reply : Bytes) : Reaction :=
  match (BlockMethod.parse reply).bind (JobTemplate.build h) with
  | .error e => ⟨some e, [], last, some .headerRequest⟩
  | .ok job => ⟨none, [.newJob job], some job.indication, some .headerRequest⟩

def reactToVerdict (height : Int64) (jobType : JobType) (last : Option String) (reply : Bytes)
    (roundTrip : Duration) : Reaction :=
  match ShareStatus.ofReply? reply with
  | none => .quiet last
  | some status => ⟨none, [.shareResult height jobType status roundTrip], last, none⟩

/-- What a reply brings about, or why it ends the connection. `last` is the indication of the
    last job, and `roundTrip` the time since the request. -/
def react (e : Expectation) (last : Option String) (reply : Bytes) (roundTrip : Duration) :
    Except NetworkError Reaction :=
  match e with
  | .login => reactToLogin last reply
  | .header => .ok (reactToHeader last reply)
  | .method h => .ok (reactToMethod h last reply)
  | .verdict height jobType => .ok (reactToVerdict height jobType last reply roundTrip)
  | .custom judge => (judge reply).map fun () => .quiet last

end Expectation
end SoloMiner
