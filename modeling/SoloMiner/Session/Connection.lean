import SoloMiner.Session.Reaction
import SoloMiner.Settings.Miner

/-! # Connections

    A connection executes the packets of its queue one at a time: it writes the packet and, if
    it is a request, waits for exactly one reply before it goes on. When the owner asks for the
    end, the exchange under way is completed; then the queue closes, what it holds is executed,
    and the connection ends. Any fault ends the connection at once.

    What happens to a connection comes as actions, between which any time may pass. Each action
    has effects, which together are the trace of a run. -/

namespace SoloMiner

/-- A connection that is up, also while it is being closed. It writes one packet at a time and
    waits for the reply before it writes the next. -/
structure Connection where
  codec : PacketCodec
  /-- Bytes received and not consumed. -/
  received : Bytes
  /-- Has the node closed its side? -/
  hungUp : Bool
  queue : PacketQueue Expectation
  /-- What the reply waited for is for. -/
  awaiting : Option Expectation
  /-- Has the owner asked for the end? -/
  ending : Bool
  /-- The indication of the last job. -/
  lastIndication : Option String

/-- What a node may be connected by. Nothing outlives a connection but the indication of the
    last job. -/
inductive Link where
  | down (lastIndication : Option String)
  | up (connection : Connection)

/-- What is done in one step. From the effects of a run all that its owner and the node get to
    see can be read off. -/
inductive Effect where
  /-- A connection was opened. -/
  | opened
  /-- The queue took a packet. -/
  | accepted (p : SessionPacket)
  /-- A packet was turned away. -/
  | refused (p : SessionPacket)
  /-- A packet was written, as these bytes. -/
  | wrote (p : SessionPacket) (bytes : Bytes)
  /-- A reply was handed to the request it answers. -/
  | answered (e : Expectation) (reply : Bytes)
  /-- A method made no job. -/
  | rejected (e : TemplateError)
  | emitted (event : NetworkEvent)

namespace Effect

def event? : Effect → Option NetworkEvent
  | .emitted event => some event
  | _ => none

def written? : Effect → Option SessionPacket
  | .wrote p _ => some p
  | _ => none

/-- The fate of a packet offered to the queue. -/
def ofOffer (accepted : Bool) (p : SessionPacket) : Effect :=
  if accepted then .accepted p else .refused p

end Effect

namespace Connection

/-! ## Start and end -/

/-- The packets every connection starts with. -/
def handshake (settings : NetworkSettings) (certificate : Bytes) : List SessionPacket :=
  [.plain certificate, .login settings.wallet]

/-- A connection just opened. -/
def start (settings : NetworkSettings) (cipher : TransportCipher) (certificate : Bytes)
    (lastIndication : Option String) : Connection :=
  ⟨.start cipher, [], false, ⟨handshake settings certificate, true⟩, none, false, lastIndication⟩

/-- Are the packets of the closed queue being executed? -/
def isFlushing (c : Connection) : Bool := !c.queue.accepting

def finish (c : Connection) (reason : DisconnectReason) : Link × List Effect :=
  (.down c.lastIndication, [.emitted (.disconnected reason)])

/-- Ends the connection by a fault. Once the owner's wish is being carried out, that is the
    reason given. -/
def fail (c : Connection) (e : NetworkError) : Link × List Effect :=
  c.finish (if c.isFlushing then .requested else e.reason)

/-! ## Packets -/

/-- Offers a packet to the queue and says whether it was accepted. -/
def offer (c : Connection) (p : SessionPacket) : Bool × Connection :=
  let (accepted, queue) := c.queue.send p
  (accepted, { c with queue })

/-- The next reply, or the fault that is found in its place, if the bytes received show either.
    When the node has closed its side, bytes that make no frame are a fault. -/
def nextReply? (c : Connection) : Option (Except NetworkError Bytes × PacketCodec × Bytes) :=
  let (outcome, codec, rest) :=
    if c.hungUp then c.codec.decodeEnd c.received else c.codec.decode c.received
  match outcome with
  | .ok (some reply) => some (.ok reply, codec, rest)
  | .error e => some (.error e, codec, rest)
  | .ok none => if c.hungUp then some (.error .connectionClosed, codec, rest) else none

/-- Hands a reply to the request that waits for it. What it brings about may end the connection,
    or send the next request. -/
def answer (c : Connection) (e : Expectation) (reply : Bytes) (roundTrip : Duration) :
    Link × List Effect :=
  match e.react c.lastIndication reply roundTrip with
  | .error fault =>
    let (link, effects) := c.fail fault
    (link, .answered e reply :: effects)
  | .ok reaction =>
    let c := { c with awaiting := none, lastIndication := reaction.lastIndication }
    let effects := .answered e reply ::
      (reaction.rejected.toList.map .rejected ++ reaction.events.map .emitted)
    match reaction.followUp with
    | none => (.up c, effects)
    | some p =>
      let (accepted, c) := c.offer p
      (.up c, effects ++ [.ofOffer accepted p])

/-- Is closing the queue the next thing to do? -/
def beginsFlush (c : Connection) : Bool := c.ending && c.queue.accepting

/-- Between two packets: closes the queue, writes the next packet, or ends. The packets in a
    closed queue are still written, and no others are taken. -/
def takePacket? (c : Connection) : Option (Link × List Effect) :=
  if c.beginsFlush then some (.up { c with queue := c.queue.close }, [])
  else
    match c.queue.receive with
    | (.packet p, queue) =>
      some (.up { c with queue, awaiting := p.handler }, [.wrote p (c.codec.encode p.frame)])
    | (.empty, _) => none
    | (.disconnected, _) => some (c.finish .requested)

/-- The next step of the connection itself, unless it has to wait. A reply handed over came
    `roundTrip` after its request. -/
def proceed? (c : Connection) (roundTrip : Duration) : Option (Link × List Effect) :=
  match c.awaiting with
  | none => c.takePacket?
  | some e =>
    match c.nextReply? with
    | none => none
    | some (.error fault, codec, received) => some ({ c with codec, received }.fail fault)
    | some (.ok reply, codec, received) =>
      some ({ c with codec, received }.answer e reply roundTrip)

/-- A fault from outside ends the exchange under way, or the one that would begin. A connection
    that has nothing to do takes no notice of it. -/
def interrupt (c : Connection) (fault : NetworkError) : Link × List Effect :=
  let isBusy := match c.awaiting with
    | some _ => c.nextReply?.isNone
    | none => !c.beginsFlush && !c.queue.packets.isEmpty
  if isBusy then c.fail fault else (.up c, [])

/-! ## Actions -/

/-- What may happen to a connection without its owner's doing. -/
inductive Occurrence where
  | arrive (bytes : Bytes)
  /-- The node closes its side. -/
  | hangUp
  /-- An exchange takes longer than allowed. -/
  | expire
  /-- The system reports a fault. -/
  | breakDown
  /-- The connection takes its next step, unless it has to wait. -/
  | proceed (roundTrip : Duration)

def occur (c : Connection) : Occurrence → Link × List Effect
  | .arrive bytes => (.up (if c.hungUp then c else { c with received := c.received ++ bytes }), [])
  | .hangUp => (.up { c with hungUp := true }, [])
  | .expire => c.interrupt .timeout
  | .breakDown => c.interrupt .io
  | .proceed roundTrip => (c.proceed? roundTrip).getD (.up c, [])

/-- What may happen to a connection. -/
inductive Action where
  /-- Its owner asks it to send something. -/
  | send (o : Offer)
  /-- Its owner asks for the end. -/
  | disconnect
  | occur (o : Occurrence)

def step (c : Connection) : Action → Link × List Effect
  | .send o =>
    let (accepted, c) := c.offer o.packet
    (.up c, [.ofOffer accepted o.packet])
  | .disconnect => (.up { c with ending := true }, [])
  | .occur o => c.occur o

end Connection

namespace Link

/-- An action on whatever there is. Without a connection all packets are turned away. -/
def step : Link → Connection.Action → Link × List Effect
  | .up c, a => c.step a
  | .down last, .send o => (.down last, [.refused o.packet])
  | .down last, _ => (.down last, [])

/-- Actions one after the other, and what they do in all. When the connection has ended, the rest
    find it down. -/
def run : Link → List Connection.Action → Link × List Effect
  | l, [] => (l, [])
  | l, a :: rest =>
    let (l, effects) := l.step a
    let (l, more) := l.run rest
    (l, effects ++ more)

/-- Is there a connection? -/
def isUp : Link → Bool
  | .up _ => true
  | .down _ => false

/-- Is there a connection whose end the owner has asked for? -/
def isEnding : Link → Bool
  | .up c => c.ending
  | .down _ => false

/-- Does a connection take packets? -/
def isOpen : Link → Bool
  | .up c => c.queue.accepting
  | .down _ => false

def lastIndication : Link → Option String
  | .up c => c.lastIndication
  | .down last => last

end Link
end SoloMiner
