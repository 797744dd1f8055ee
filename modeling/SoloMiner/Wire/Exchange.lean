import SoloMiner.Wire.Packet

/-! # Exchanges over a byte stream

    An exchange writes one packet and, if it is a request, waits for the next frame of the
    node's byte stream and hands it to the handler. Here the whole stream is given in
    advance: the bytes the node will have sent, and whether it then closes its side. A request
    that neither a frame nor the end of the stream answers times out.

    Bytes are received as space for them allows, and the decoder is asked again each time. How
    they are divided shows only in the wording of the fault of a frame that is too long. -/

namespace SoloMiner

/-! ## Space for received bytes -/

/-- The space that received bytes are kept in. -/
structure ReceiveSpace where
  size : Nat
  /-- Number of consumed bytes that still take up space in front of those held. -/
  consumed : Nat
  deriving DecidableEq, Repr

namespace ReceiveSpace

def initial : ReceiveSpace := ⟨8192, 0⟩

/-- Makes room for a byte behind the `held` bytes. Full space is cleared of the consumed bytes
    if they are at least as many as those held; otherwise it doubles. -/
def makeRoom (s : ReceiveSpace) (held : Nat) : ReceiveSpace :=
  if s.consumed + held < s.size then s
  else if held < s.size ∧ held ≤ s.consumed then { s with consumed := 0 }
  else { s with size := max (2 * s.size) (s.consumed + held + 1) }

/-- How many bytes fit in behind the `held` ones. -/
def room (s : ReceiveSpace) (held : Nat) : Nat := s.size - (s.consumed + held)

theorem room_makeRoom_pos (s : ReceiveSpace) (held : Nat) : 0 < (s.makeRoom held).room held := by
  unfold makeRoom room
  split
  · omega
  · split <;> simp only [] <;> omega

end ReceiveSpace

/-! ## Streams -/

/-- One end of a byte stream. What the node will send is fixed beforehand, and `incoming` is the
    part of it that is still to come. -/
structure Stream where
  codec : PacketCodec
  /-- Bytes received and not consumed. -/
  buffer : Bytes
  space : ReceiveSpace
  /-- Bytes the node has sent that have not been received. -/
  incoming : Bytes
  /-- Does the node close its side behind `incoming`? -/
  closes : Bool
  /-- All bytes written so far. -/
  written : Bytes

namespace Stream

def start (cipher : TransportCipher) (incoming : Bytes) (closes : Bool) : Stream :=
  ⟨.start cipher, [], .initial, incoming, closes, []⟩

/-! ## Receiving -/

/-- Receives as many of the bytes sent as there is room for. The others stay where they are until
    there is room again. -/
def receive (s : Stream) : Stream :=
  let space := s.space.makeRoom s.buffer.length
  let count := space.room s.buffer.length
  { s with
    space
    buffer := s.buffer ++ s.incoming.take count
    incoming := s.incoming.drop count }

theorem length_incoming_receive_lt {s : Stream} (h : s.incoming ≠ []) :
    s.receive.incoming.length < s.incoming.length := by
  have room := s.space.room_makeRoom_pos s.buffer.length
  have held := List.length_pos_iff.2 h
  simp only [receive, List.length_drop]
  omega

/-- The stream after a decoding that left the decoder as `codec` and `rest` unconsumed. -/
def consume (s : Stream) (codec : PacketCodec) (rest : Bytes) : Stream :=
  let consumed := s.space.consumed + (s.buffer.length - rest.length)
  { s with codec, buffer := rest, space := { s.space with consumed } }

/-- What is left when a decoding found no complete frame and nothing more was sent. A node that
    keeps its side open lets the request time out. -/
def endOfStream (s : Stream) : Except NetworkError Bytes × Stream :=
  if s.closes then
    match s.codec.decodeEnd s.buffer with
    | (.ok (some payload), codec, rest) => (.ok payload, s.consume codec rest)
    | (.ok none, codec, rest) => (.error .connectionClosed, s.consume codec rest)
    | (.error e, codec, rest) => (.error e, s.consume codec rest)
  else (.error .timeout, s)

/-- The next payload: from the buffer if it holds a frame, else after receiving more. Every round
    receives at least one byte, so this comes to an end. -/
def next (s : Stream) : Except NetworkError Bytes × Stream :=
  match s.codec.decode s.buffer with
  | (.ok (some payload), codec, rest) => (.ok payload, s.consume codec rest)
  | (.error e, codec, rest) => (.error e, s.consume codec rest)
  | (.ok none, codec, rest) =>
    if _ : s.incoming = [] then (s.consume codec rest).endOfStream
    else (s.consume codec rest).receive.next
termination_by s.incoming.length
decreasing_by exact length_incoming_receive_lt (s := s.consume codec rest) ‹_›

/-! ## Executing packets -/

variable {Handler : Type}

def write (s : Stream) (p : OutboundPacket Handler) : Stream :=
  { s with written := s.written ++ s.codec.encode p.frame }

/-- Writes a packet, and reads and hands over its reply if one is expected. Also gives the
    reply. -/
def execute (handle : Handler → Bytes → Except NetworkError Unit) (s : Stream)
    (p : OutboundPacket Handler) : Except NetworkError Unit × Option Bytes × Stream :=
  let s := s.write p
  match p.handler with
  | none => (.ok (), none, s)
  | some handler =>
    match s.next with
    | (.error e, s) => (.error e, none, s)
    | (.ok reply, s) => (handle handler reply, some reply, s)

/-- Executes packets in order until one fails. Gives the outcome and reply of each packet
    executed. -/
def executeAll (handle : Handler → Bytes → Except NetworkError Unit) (s : Stream) :
    List (OutboundPacket Handler) →
      List (Except NetworkError Unit × Option Bytes) × Stream
  | [] => ([], s)
  | p :: ps =>
    match s.execute handle p with
    | (.ok (), reply, s) =>
      let (rest, s) := executeAll handle s ps
      ((.ok (), reply) :: rest, s)
    | (.error e, reply, s) => ([(.error e, reply)], s)

end Stream
end SoloMiner
