import SoloMiner.Session.Connection

/-! # Network

    The owner of at most one connection. A new one can be opened once the last has ended.

    To connect and to disconnect are calls that are carried out one at a time. To disconnect
    takes until the connection has ended, its queue flushed. A call made meanwhile waits, and
    those that wait get their turn in the order in which they were made. -/

namespace SoloMiner

/-- What an owner may call for. -/
inductive Network.Call where
  /-- To open a connection unless there is one. `attempt` is the certificate drawn for it, or
      why the node could not be reached. -/
  | connect (attempt : Except NetworkError Bytes)
  /-- To end the connection if there is one. -/
  | disconnect

/-- Settings, the connection if there is one, and what has been called for meanwhile. -/
structure Network where
  settings : NetworkSettings
  link : Link
  /-- The calls that wait for their turn, the earliest first. -/
  waiting : List Network.Call

namespace Network

def start (settings : NetworkSettings) : Network := ⟨settings, .down none, []⟩

def isConnected (n : Network) : Bool := n.link.isOpen

/-- The indication of the last job. -/
def lastIndication (n : Network) : Option String := n.link.lastIndication

/-- Passes an action on to the connection. -/
def pass (n : Network) (a : Connection.Action) : Network × List Effect :=
  let (link, effects) := n.link.step a
  ({ n with link }, effects)

/-! ## Packets -/

/-- Asks the connection to send something and says whether it will. -/
def send (n : Network) (o : Offer) : Bool × Network := (n.isConnected, (n.pass (.send o)).1)

/-- Submits a share and says whether it will be sent. -/
def submit (n : Network) (share : FoundShare) : Bool × Network :=
  n.send (.share share n.settings.userAgent)

/-! ## Calls -/

/-- The cipher that goes with an attempt to connect, and the certificate it is made from. An
    attempt fails if the node was not reached, or if no key can be made. -/
def cipherOf (attempt : Except NetworkError Bytes) :
    Except NetworkError (TransportCipher × Bytes) :=
  match attempt with
  | .error e => .error e
  | .ok certificate =>
    ((TransportCipher.ofCertificate certificate).mapError .crypto).map (·, certificate)

/-- Opens a connection unless there is one. What is left of the last job is handed on from one
    connection to the next. -/
def openLink (n : Network) (attempt : Except NetworkError Bytes) :
    Except NetworkError Unit × Network × List Effect :=
  match n.link with
  | .up _ => (.ok (), n, [])
  | .down last =>
    match cipherOf attempt with
    | .error e => (.error e, n, [.emitted (.disconnected e.reason)])
    | .ok (cipher, certificate) =>
      (.ok (), { n with link := .up (.start n.settings cipher certificate last) },
        .opened :: (Connection.handshake n.settings certificate).map .accepted)

/-- Carries out a call whose turn it is. -/
def carryOut (n : Network) : Call → Network × List Effect
  | .connect attempt => (n.openLink attempt).2
  | .disconnect => n.pass .disconnect

/-- Would a call be carried out at once? Not while a connection is being ended, nor before the
    calls that wait already. -/
def isFree (n : Network) : Bool := n.waiting.isEmpty && !n.link.isEnding

/-- Puts a call behind those that wait. -/
def defer (n : Network) (c : Call) : Network := { n with waiting := n.waiting ++ [c] }

/-- Makes a call: carries it out, or has it wait. -/
def call (n : Network) (c : Call) : Network × List Effect :=
  if n.isFree then n.carryOut c else (n.defer c, [])

/-- Connects and says how that turned out, unless it has to wait. -/
def connect (n : Network) (attempt : Except NetworkError Bytes) :
    Option (Except NetworkError Unit) × Network × List Effect :=
  (if n.isFree then some (n.openLink attempt).1 else none, n.call (.connect attempt))

/-- Disconnects and says whether there is anything to wait for. -/
def disconnect (n : Network) : Bool × Network :=
  (!n.isFree || n.link.isUp, (n.call .disconnect).1)

/-- The call that has waited longest gets its turn, unless a connection is being ended. -/
def resume (n : Network) : Network × List Effect :=
  match n.waiting with
  | [] => (n, [])
  | c :: rest => if n.link.isEnding then (n, []) else { n with waiting := rest }.carryOut c

/-! ## Runs -/

/-- What may happen to a network. -/
inductive Action where
  /-- Its owner makes a call. -/
  | call (c : Call)
  /-- Its owner asks it to send something. -/
  | send (o : Offer)
  | occur (o : Connection.Occurrence)
  /-- A call that waits gets its turn. -/
  | resume

def step (n : Network) : Action → Network × List Effect
  | .call c => n.call c
  | .send o => n.pass (.send o)
  | .occur o => n.pass (.occur o)
  | .resume => n.resume

/-- Actions one after the other, and what they do in all. -/
def run : Network → List Action → Network × List Effect
  | n, [] => (n, [])
  | n, a :: rest =>
    let (n, effects) := n.step a
    let (n, more) := n.run rest
    (n, effects ++ more)

/-- Can the connection do nothing by itself? -/
def isWaiting (n : Network) : Bool :=
  match n.link with
  | .up c => (c.proceed? .zero).isNone
  | .down _ => true

/-- The connection takes at most `steps` steps, until it has to wait. A step that has nothing to
    wait for is taken at once. -/
def proceed (roundTrip : Duration) : Nat → Network → Network × List Effect
  | 0, n => (n, [])
  | steps + 1, n =>
    if n.isWaiting then (n, [])
    else
      let (n, effects) := n.pass (.occur (.proceed roundTrip))
      let (n, more) := proceed roundTrip steps n
      (n, effects ++ more)

/-- Enough steps for all that is queued and received. -/
def pendingSteps (n : Network) : Nat :=
  match n.link with
  | .up c => 4 * (c.received.length + c.queue.packets.length) + 8
  | .down _ => 0

/-- The connection goes on until it has to wait. -/
def settle (n : Network) (roundTrip : Duration) : Network × List Effect :=
  n.proceed roundTrip n.pendingSteps

end Network
end SoloMiner
