import SoloMiner.Wire.Codec

/-! # Outbound packets

    A packet waits in a queue until the connection writes it. A packet with a handler is a
    request: exactly one reply is read for it and given to the handler. The type of handlers
    is a parameter. -/

namespace SoloMiner

/-- A packet on its way to the node. Without a handler no reply is waited for. -/
structure OutboundPacket (Handler : Type) where
  payload : Bytes
  encrypted : Bool
  /-- Takes the reply, if one is expected. -/
  handler : Option Handler
  deriving DecidableEq, Repr

namespace OutboundPacket

variable {Handler : Type}

/-- A packet in the clear, without reply. -/
def plain (payload : Bytes) : OutboundPacket Handler := ⟨payload, false, none⟩

/-- An encrypted packet without reply. -/
def sealed (payload : Bytes) : OutboundPacket Handler := ⟨payload, true, none⟩

/-- An encrypted packet whose reply goes to `handler`. -/
def request (payload : Bytes) (handler : Handler) : OutboundPacket Handler :=
  ⟨payload, true, some handler⟩

def frame (p : OutboundPacket Handler) : Frame :=
  if p.encrypted then .encrypted p.payload else .plain p.payload

/-- What a debug print shows: nothing of the payload. -/
def debugText (p : OutboundPacket Handler) : String :=
  let yesNo (b : Bool) : String := if b then "true" else "false"
  s!"OutboundPacket \x7b len: {Decimal.text p.payload.length}, " ++
    s!"encrypted: {yesNo p.encrypted}, expects_reply: {yesNo p.handler.isSome} \x7d"

end OutboundPacket

/-! ## Queue -/

/-- Packets in the order they were accepted. A closed queue accepts no more but still gives
    out what it holds. -/
structure PacketQueue (Handler : Type) where
  packets : List (OutboundPacket Handler)
  accepting : Bool
  deriving DecidableEq, Repr

namespace PacketQueue

variable {Handler : Type}

def empty : PacketQueue Handler := ⟨[], true⟩

/-- Offers a packet and says whether it was accepted. -/
def send (q : PacketQueue Handler) (p : OutboundPacket Handler) : Bool × PacketQueue Handler :=
  if q.accepting then (true, { q with packets := q.packets ++ [p] }) else (false, q)

def close (q : PacketQueue Handler) : PacketQueue Handler := { q with accepting := false }

/-- What a reader of the queue finds. A closed queue still gives out what is in it. -/
inductive Received (Handler : Type) where
  | packet (p : OutboundPacket Handler)
  | empty
  /-- Closed, and all packets given out. -/
  | disconnected
  deriving DecidableEq, Repr

/-- Takes the oldest packet. -/
def receive (q : PacketQueue Handler) : Received Handler × PacketQueue Handler :=
  match q.packets with
  | p :: ps => (.packet p, { q with packets := ps })
  | [] => (if q.accepting then .empty else .disconnected, q)

end PacketQueue
end SoloMiner
