import SoloMiner.Proofs.Wire.Chunking
import SoloMiner.Proofs.Wire.Rescanning
import SoloMiner.Wire.Exchange

/-! # Answers over a byte stream

    Packets are executed one after the other until one fails. The requests among them are
    answered by the frames of the stream, the first by the first and so on; packets without a
    handler take nothing from the stream. What a request is given, or why it fails, can be read
    off the stream as a whole: it does not matter how the bytes are received, nor what earlier
    exchanges have left in the buffer.

    A call on the stream is followed by what it leaves unread. An exchange takes the frame in
    front off that, or fails; a run is the exchanges one behind the other. -/

namespace SoloMiner

open PacketCodec

/-! ## What a stream has for a request -/

/-- Why no request can be answered from bytes without a mark. Too many of them are a fault at
    once; fewer are one when the node closes its side, or when the time is up. -/
def faultOfRest (closes : Bool) (rest : Bytes) : NetworkError :=
  if maxFrameLength ≤ rest.length then .framing (.noEndMark maxFrameLength)
  else if closes then
    if rest.isEmpty then .connectionClosed else .framing (.cutOff rest.length)
  else .timeout

/-- What a stream has for the request that `k` answered requests precede: the payload of frame
    `k`, or what stands in its way. -/
def replyAt (cipher : TransportCipher) (stream : Bytes) (closes : Bool) (k : Nat) :
    Except NetworkError Bytes :=
  match (bodies stream)[k]? with
  | some body =>
    if maxFrameLength < body.length + 1 then .error (.framing (.tooLarge (body.length + 1)))
    else payloadOf cipher body
  | none => .error (faultOfRest closes (cut stream).2)

/-- The reply, where all faults of frames count as the same. -/
def coarseReply (reply : Except NetworkError Bytes) : Except NetworkError Bytes :=
  reply.mapError NetworkError.coarse

section

variable (cipher : TransportCipher) (closes : Bool)

theorem replyAt_of_notMem {stream : Bytes} (h : endMark ∉ stream) :
    replyAt cipher stream closes 0 = .error (faultOfRest closes stream) := by
  simp [replyAt, bodies, cut_of_notMem h]

theorem replyAt_of_mark {body : Bytes} (h : endMark ∉ body) (rest : Bytes) :
    replyAt cipher (body ++ endMark :: rest) closes 0 =
      if maxFrameLength < body.length + 1 then .error (.framing (.tooLarge (body.length + 1)))
      else payloadOf cipher body := by
  simp [replyAt, bodies, cut_of_mark h]

/-- Behind frames that were taken off the stream goes on. -/
theorem replyAt_joined {heads : List Bytes} (h : ∀ body ∈ heads, endMark ∉ body) (rest : Bytes)
    (k : Nat) : replyAt cipher (joined heads ++ rest) closes (heads.length + k) =
      replyAt cipher rest closes k := by
  have hcut := cut_joined h rest
  have hbodies : (bodies (joined heads ++ rest))[heads.length + k]? = (bodies rest)[k]? := by
    rw [bodies_joined h, List.getElem?_append_right (Nat.le_add_right _ _), Nat.add_sub_cancel_left]
  unfold replyAt
  rw [hbodies, hcut]

/-- With no room left for a mark, it no longer matters whether one comes: a frame that is closed
    too late and a buffer without a mark are refused alike, but for the text. -/
theorem coarseReply_of_long {buffer : Bytes} (h : endMark ∉ buffer)
    (hlong : maxFrameLength ≤ buffer.length) (more : Bytes) :
    coarseReply (replyAt cipher (buffer ++ more) closes 0) =
      .error (.framing (.described "")) := by
  by_cases hmore : endMark ∈ more
  · -- a mark that comes now closes a frame that is too long
    obtain ⟨body, rest, rfl, hbody⟩ := List.eq_append_cons_of_mem hmore
    have hwhole : endMark ∉ buffer ++ body := by simp [h, hbody]
    have hlength : maxFrameLength < (buffer ++ body).length + 1 := by
      rw [List.length_append]
      omega
    rw [← List.append_assoc, replyAt_of_mark cipher closes hwhole, if_pos hlength]
    rfl
  · -- without one the rest is too long by itself
    have hwhole : endMark ∉ buffer ++ more := by simp [h, hmore]
    have hlength : maxFrameLength ≤ (buffer ++ more).length := by
      rw [List.length_append]
      omega
    rw [replyAt_of_notMem cipher closes hwhole, faultOfRest, if_pos hlength]
    rfl

end

/-! ## Receiving a frame -/

namespace Stream

/-- The bytes of the node that were not consumed. -/
def unread (s : Stream) : Bytes := s.buffer ++ s.incoming

/-- The stream of a connection with this cipher, to a node that closes its side or not. Its
    decoder has missed no mark. -/
structure IsOpen (cipher : TransportCipher) (closes : Bool) (s : Stream) : Prop where
  cipher_eq : s.codec.cipher = cipher
  closes_eq : s.closes = closes
  isSearched : s.codec.IsSearched s.buffer

variable {cipher : TransportCipher} {closes : Bool} {s : Stream}

/-- A request was given `reply`, and left the stream as `s'`: it has taken at most the frame in
    front, and has taken it if it was answered. -/
structure Replies (cipher : TransportCipher) (closes : Bool) (s : Stream)
    (reply : Except NetworkError Bytes) (s' : Stream) : Prop where
  isOpen : s'.IsOpen cipher closes
  written_eq : s'.written = s.written
  reply_eq : coarseReply reply = coarseReply (replyAt cipher s.unread closes 0)
  taken : ∃ heads : List Bytes, s.unread = joined heads ++ s'.unread ∧
    (∀ body ∈ heads, endMark ∉ body) ∧ heads.length ≤ 1 ∧
    ∀ payload, reply = .ok payload → heads.length = 1

/-- The stream behind a call of the decoder. -/
theorem IsOpen.consume (h : s.IsOpen cipher closes) {codec : PacketCodec} {rest : Bytes}
    (hcipher : codec.cipher = s.codec.cipher) (hsearched : codec.IsSearched rest) :
    (s.consume codec rest).IsOpen cipher closes :=
  ⟨hcipher.trans h.cipher_eq, h.closes_eq, hsearched⟩

theorem unread_receive (s : Stream) : s.receive.unread = s.unread := by
  simp [unread, receive, List.append_assoc]

theorem IsOpen.receive (h : s.IsOpen cipher closes) : s.receive.IsOpen cipher closes :=
  ⟨h.cipher_eq, h.closes_eq, h.isSearched.append _⟩

/-- A fault that leaves all bytes unread. -/
theorem Replies.of_fault {e : NetworkError} {s' : Stream} (hopen : s'.IsOpen cipher closes)
    (hwritten : s'.written = s.written)
    (hreply : coarseReply (.error e) = coarseReply (replyAt cipher s.unread closes 0))
    (hunread : s.unread = s'.unread) : Replies cipher closes s (.error e) s' :=
  ⟨hopen, hwritten, hreply, [], hunread, nofun, Nat.zero_le 1, nofun⟩

/-- The frame in front is taken, whatever comes of it. -/
theorem Replies.of_frame {reply : Except NetworkError Bytes} {s' : Stream} {body : Bytes}
    (hopen : s'.IsOpen cipher closes) (hwritten : s'.written = s.written)
    (hbody : endMark ∉ body) (hunread : s.unread = body ++ endMark :: s'.unread)
    (hreply : reply = replyAt cipher s.unread closes 0) : Replies cipher closes s reply s' := by
  refine ⟨hopen, hwritten, congrArg coarseReply hreply, [body], ?_, ?_, Nat.le_refl 1, ?_⟩
  · rw [hunread]
    simp [joined]
  · intro body' hmem
    rw [List.mem_singleton.mp hmem]
    exact hbody
  · exact fun _ _ => rfl

/-! ### By what the decoder finds -/

theorem next_of_ok {payload rest : Bytes} {codec : PacketCodec}
    (h : s.codec.decode s.buffer = (.ok (some payload), codec, rest)) :
    s.next = (.ok payload, s.consume codec rest) := by
  rw [next]
  simp only [h]

theorem next_of_error {e : NetworkError} {rest : Bytes} {codec : PacketCodec}
    (h : s.codec.decode s.buffer = (.error e, codec, rest)) :
    s.next = (.error e, s.consume codec rest) := by
  rw [next]
  simp only [h]

theorem next_of_waiting {rest : Bytes} {codec : PacketCodec}
    (h : s.codec.decode s.buffer = (.ok none, codec, rest)) :
    s.next =
      if s.incoming = [] then (s.consume codec rest).endOfStream
      else (s.consume codec rest).receive.next := by
  rw [next]
  simp only [h]
  rfl

/-- A mark in the buffer closes the frame that the request is given. What was not received yet
    does not matter for it. -/
theorem IsOpen.next_of_mark (h : s.IsOpen cipher closes) (hmark : endMark ∈ s.buffer) :
    ∃ reply s', s.next = (reply, s') ∧ Replies cipher closes s reply s' := by
  obtain ⟨body, rest, hbuffer, hbody⟩ := List.eq_append_cons_of_mem hmark
  have hunread : s.unread = body ++ endMark :: (rest ++ s.incoming) := by
    rw [unread, hbuffer, List.append_assoc, List.cons_append]
  have hreply := replyAt_of_mark cipher closes hbody (rest ++ s.incoming)
  rw [← hunread] at hreply
  obtain ⟨codec, hdecode, hcipher, hsearched⟩ := h.isSearched.decode
  -- the decoder agrees with a scan from the front, so it stops at this mark too
  have hscan := scan_of_mark s.codec.cipher hbody rest
  rw [← hbuffer, h.cipher_eq] at hscan
  rw [h.cipher_eq] at hdecode hsearched
  -- the frame is refused for its length, and then it stays unread, or it is consumed, whether its
  -- body is good or bad
  by_cases hlong : maxFrameLength < body.length + 1
  · rw [if_pos hlong] at hscan hreply
    rw [hscan] at hdecode hsearched
    refine ⟨_, _, next_of_error hdecode, ?_⟩
    exact .of_fault (h.consume hcipher hsearched) rfl (congrArg coarseReply hreply.symm) rfl
  · rw [if_neg hlong] at hscan hreply
    rw [hscan] at hdecode hsearched
    cases hpayload : payloadOf cipher body with
    | error e =>
      rw [hpayload] at hdecode hreply
      refine ⟨_, _, next_of_error hdecode, ?_⟩
      exact .of_frame (h.consume hcipher hsearched) rfl hbody hunread hreply.symm
    | ok payload =>
      rw [hpayload] at hdecode hreply
      refine ⟨_, _, next_of_ok hdecode, ?_⟩
      exact .of_frame (h.consume hcipher hsearched) rfl hbody hunread hreply.symm

/-- Nothing more comes, and what is left holds no frame. -/
theorem IsOpen.endOfStream (h : s.IsOpen cipher closes) (hincoming : s.incoming = [])
    (hmark : endMark ∉ s.buffer) (hroom : ¬maxFrameLength ≤ s.buffer.length) :
    ∃ reply s', s.endOfStream = (reply, s') ∧ Replies cipher closes s reply s' := by
  have hunread : s.unread = s.buffer := by
    rw [unread, hincoming, List.append_nil]
  have hreply : replyAt cipher s.unread closes 0 = .error (if closes then
      if s.buffer.isEmpty then .connectionClosed else .framing (.cutOff s.buffer.length)
      else .timeout) := by
    rw [hunread, replyAt_of_notMem cipher closes hmark, faultOfRest, if_neg hroom]
  obtain ⟨codec, hdecode, hcipher, hsearched⟩ := h.isSearched.decodeEnd
  have hscan : scanEnd s.codec.cipher s.buffer =
      if s.buffer.isEmpty then (.ok none, s.buffer)
      else (.error (.framing (.cutOff s.buffer.length)), s.buffer) := by
    simp only [scanEnd, scan_of_notMem s.codec.cipher hmark, if_neg hroom]
  rw [hscan] at hdecode hsearched
  unfold Stream.endOfStream
  rw [h.closes_eq]
  -- an open stream leaves the request waiting; a closed one tells whether it was cut off
  cases closes with
  | false => exact ⟨_, _, rfl, .of_fault h rfl (congrArg coarseReply hreply.symm) rfl⟩
  | true =>
    -- nothing left is the end of the stream, something left was cut off
    by_cases hempty : s.buffer.isEmpty = true
    · rw [if_pos hempty] at hdecode hsearched
      simp only [hempty, if_true] at hreply
      simp only [if_true, hdecode]
      exact ⟨_, _, rfl, .of_fault (h.consume hcipher hsearched) rfl
        (congrArg coarseReply hreply.symm) rfl⟩
    · rw [if_neg hempty] at hdecode hsearched
      simp only [hempty, if_true, Bool.false_eq_true, if_false] at hreply
      simp only [if_true, hdecode]
      exact ⟨_, _, rfl, .of_fault (h.consume hcipher hsearched) rfl
        (congrArg coarseReply hreply.symm) rfl⟩

/-- A request is given what the stream has for it. -/
theorem IsOpen.next (h : s.IsOpen cipher closes) :
    ∃ reply s', s.next = (reply, s') ∧ Replies cipher closes s reply s' := by
  -- the measure is what was not received, for the decoder is called again with more each time
  induction hlength : s.incoming.length using Nat.strongRecOn generalizing s with
  | ind n ih =>
    by_cases hmark : endMark ∈ s.buffer
    · -- the frame is there
      exact h.next_of_mark hmark
    · obtain ⟨codec, hdecode, hcipher, hsearched⟩ := h.isSearched.decode
      have hscan := scan_of_notMem s.codec.cipher hmark
      by_cases hfull : maxFrameLength ≤ s.buffer.length
      · -- so much without a mark is refused as it is
        rw [if_pos hfull] at hscan
        rw [hscan] at hdecode hsearched
        have hreply := coarseReply_of_long cipher closes hmark hfull s.incoming
        exact ⟨_, _, next_of_error hdecode,
          .of_fault (h.consume hcipher hsearched) rfl hreply.symm rfl⟩
      · rw [if_neg hfull] at hscan
        rw [hscan] at hdecode hsearched
        have hwaiting : (s.consume codec s.buffer).IsOpen cipher closes :=
          h.consume hcipher hsearched
        rw [next_of_waiting hdecode]
        -- there is room: more is received, or the stream is at its end
        by_cases hincoming : s.incoming = []
        · rw [if_pos hincoming]
          obtain ⟨reply, s', hend, hreplies⟩ := hwaiting.endOfStream hincoming hmark hfull
          exact ⟨reply, s', hend, hreplies.isOpen, hreplies.written_eq, hreplies.reply_eq,
            hreplies.taken⟩
        · rw [if_neg hincoming]
          have hless : (s.consume codec s.buffer).receive.incoming.length < n :=
            hlength ▸ length_incoming_receive_lt (s := s.consume codec s.buffer) hincoming
          obtain ⟨reply, s', hnext, hreplies⟩ := ih _ hless hwaiting.receive rfl
          have hunread : (s.consume codec s.buffer).receive.unread = s.unread :=
            unread_receive _
          refine ⟨reply, s', hnext, hreplies.isOpen, hreplies.written_eq, ?_, ?_⟩
          · rw [← hunread]
            exact hreplies.reply_eq
          · rw [← hunread]
            exact hreplies.taken

/-! ## Executing a packet -/

variable {Handler : Type} {handle : Handler → Bytes → Except NetworkError Unit}
  {p : OutboundPacket Handler} {outcome : Except NetworkError Unit × Option Bytes}

/-- Number of packets that expect a reply. -/
def requests (packets : List (OutboundPacket Handler)) : Nat :=
  packets.countP (·.handler.isSome)

/-- Number of replies that were handed over. -/
def replies (outcomes : List (Except NetworkError Unit × Option Bytes)) : Nat :=
  outcomes.countP (·.2.isSome)

/-- Outcome and reply of a packet, if the stream has `reply` for a request. A packet without a
    handler waits for no reply, and cannot fail. -/
def outcomeOf (handle : Handler → Bytes → Except NetworkError Unit) (p : OutboundPacket Handler)
    (reply : Except NetworkError Bytes) : Except NetworkError Unit × Option Bytes :=
  match p.handler with
  | none => (.ok (), none)
  | some handler =>
    match reply with
    | .error e => (.error e, none)
    | .ok payload => (handle handler payload, some payload)

/-- The bytes that a packet is written as. -/
def bytesOf (cipher : TransportCipher) (p : OutboundPacket Handler) : Bytes :=
  (PacketCodec.start cipher).encode p.frame

/-- A packet was executed, and left the stream as `s'`. -/
structure Executes (handle : Handler → Bytes → Except NetworkError Unit) (cipher : TransportCipher)
    (closes : Bool) (s : Stream) (p : OutboundPacket Handler)
    (outcome : Except NetworkError Unit × Option Bytes) (s' : Stream) : Prop where
  isOpen : s'.IsOpen cipher closes
  written_eq : s'.written = s.written ++ bytesOf cipher p
  outcome_eq : ∃ reply, coarseReply reply = coarseReply (replyAt cipher s.unread closes 0) ∧
    outcome = outcomeOf handle p reply
  taken : ∃ heads : List Bytes, s.unread = joined heads ++ s'.unread ∧
    (∀ body ∈ heads, endMark ∉ body) ∧
    replies [outcome] ≤ heads.length ∧ heads.length ≤ requests [p] ∧
    (outcome.1 = .ok () → heads.length = requests [p])

theorem IsOpen.write (h : s.IsOpen cipher closes) (p : OutboundPacket Handler) :
    (s.write p).IsOpen cipher closes ∧ (s.write p).written = s.written ++ bytesOf cipher p := by
  refine ⟨⟨h.cipher_eq, h.closes_eq, h.isSearched⟩, ?_⟩
  rw [Stream.write, bytesOf]
  cases p.frame with
  | plain payload => rfl
  | encrypted payload =>
    rw [PacketCodec.encode, PacketCodec.encode, h.cipher_eq]
    rfl

/-- A packet is written, and a request is given what the stream has for it. -/
theorem IsOpen.execute (h : s.IsOpen cipher closes)
    (handle : Handler → Bytes → Except NetworkError Unit) (p : OutboundPacket Handler) :
    ∃ outcome s', s.execute handle p = (outcome.1, outcome.2, s') ∧
      Executes handle cipher closes s p outcome s' := by
  obtain ⟨hopen, hwritten⟩ := h.write p
  unfold Stream.execute
  cases hhandler : p.handler with
  | none =>
    -- nothing is read
    have hcount : requests [p] = 0 := by simp [requests, hhandler]
    refine ⟨(.ok (), none), s.write p, rfl, hopen, hwritten, ?_, [], rfl, nofun, ?_⟩
    · exact ⟨_, rfl, by simp [outcomeOf, hhandler]⟩
    · simp [replies, hcount]
  | some handler =>
    have hcount : requests [p] = 1 := by simp [requests, hhandler]
    obtain ⟨reply, s', hnext, hreplies⟩ := hopen.next
    obtain ⟨heads, hunread, hmarks, hle, htaken⟩ := hreplies.taken
    have hwritten' : s'.written = s.written ++ bytesOf cipher p :=
      hreplies.written_eq.trans hwritten
    simp only [hnext]
    -- a fault in place of the reply is the outcome; a reply is handed on, and the handler decides
    cases reply with
    | error e =>
      refine ⟨(.error e, none), s', rfl, hreplies.isOpen, hwritten', ?_, heads, hunread, hmarks, ?_⟩
      · exact ⟨.error e, hreplies.reply_eq, by simp [outcomeOf, hhandler]⟩
      · simp [replies, hcount, hle]
    | ok payload =>
      have hone := htaken payload rfl
      refine ⟨(handle handler payload, some payload), s', rfl, hreplies.isOpen, hwritten', ?_,
        heads, hunread, hmarks, ?_⟩
      · exact ⟨.ok payload, hreplies.reply_eq, by simp [outcomeOf, hhandler]⟩
      · simp [replies, hcount, hone]

/-! ## Executing packets one after the other -/

/-- What is on record of packets that were executed until one failed, on a stream that had
    `incoming` to be read: their outcomes, the bytes written, and what was left unread. -/
structure IsRecord (handle : Handler → Bytes → Except NetworkError Unit) (cipher : TransportCipher)
    (closes : Bool) (incoming : Bytes) (packets : List (OutboundPacket Handler))
    (outcomes : List (Except NetworkError Unit × Option Bytes)) (written left : Bytes) :
    Prop where
  /-- A request comes out by the frame whose number is that of the requests before it. -/
  outcome_eq : ∀ i outcome, outcomes[i]? = some outcome → ∃ p reply, packets[i]? = some p ∧
    coarseReply reply =
      coarseReply (replyAt cipher incoming closes (requests (packets.take i))) ∧
    outcome = outcomeOf handle p reply
  /-- Behind a failure nothing is executed. -/
  ok_of_lt : ∀ i outcome, outcomes[i]? = some outcome → i + 1 < outcomes.length →
    outcome.1 = .ok ()
  /-- Packets are left over only behind a failure. -/
  fails_of_lt : outcomes.length < packets.length → ∃ outcome, outcomes.getLast? = some outcome ∧
    outcome.1 ≠ .ok ()
  written_eq : written = (packets.take outcomes.length).flatMap (bytesOf cipher)
  /-- Whole frames are taken: one for each reply, and at most one for each request. -/
  taken : ∃ heads : List Bytes, incoming = joined heads ++ left ∧
    (∀ body ∈ heads, endMark ∉ body) ∧ replies outcomes ≤ heads.length ∧
    heads.length ≤ requests (packets.take outcomes.length)

namespace IsRecord

variable {incoming written left : Bytes} {packets : List (OutboundPacket Handler)}
  {outcomes : List (Except NetworkError Unit × Option Bytes)}

theorem nil (incoming : Bytes) :
    IsRecord handle cipher closes incoming [] [] [] incoming :=
  ⟨nofun, nofun, nofun, rfl, [], rfl, nofun, Nat.le_refl 0, Nat.le_refl 0⟩

/-- The run ends with a packet that fails. -/
theorem last {s' : Stream} (h : Executes handle cipher closes s p outcome s')
    (hfails : outcome.1 ≠ .ok ()) (packets : List (OutboundPacket Handler)) :
    IsRecord handle cipher closes s.unread (p :: packets) [outcome] (bytesOf cipher p)
      s'.unread := by
  obtain ⟨reply, hreply, houtcome⟩ := h.outcome_eq
  obtain ⟨heads, hunread, hmarks, hreplies, hrequests, -⟩ := h.taken
  refine ⟨?_, ?_, ?_, ?_, heads, hunread, hmarks, hreplies, hrequests⟩
  · intro i outcome' hi
    -- there is one outcome, and it is the last
    cases i with
    | zero =>
      obtain rfl := Option.some.inj hi
      exact ⟨p, reply, rfl, hreply, houtcome⟩
    | succ i => cases hi
  · intro i outcome' hi hlt
    exact absurd hlt (by simp)
  · exact fun _ => ⟨outcome, rfl, hfails⟩
  · simp

/-- A packet that does not fail comes before the others. -/
theorem cons {s' : Stream} (hfirst : Executes handle cipher closes s p outcome s')
    (hok : outcome.1 = .ok ())
    (h : IsRecord handle cipher closes s'.unread packets outcomes written left) :
    IsRecord handle cipher closes s.unread (p :: packets) (outcome :: outcomes)
      (bytesOf cipher p ++ written) left := by
  obtain ⟨reply, hreply, houtcome⟩ := hfirst.outcome_eq
  obtain ⟨heads, hunread, hmarks, hreplies, -, hcount⟩ := hfirst.taken
  have hone : heads.length = requests [p] := hcount hok
  -- the frames taken so far are as many as the requests so far, so later requests count on from
  -- there
  have hrequests : ∀ ps : List (OutboundPacket Handler),
      requests (p :: ps) = heads.length + requests ps := by
    intro ps
    rw [hone, requests, requests, requests, ← List.countP_append]
    rfl
  refine ⟨?_, ?_, ?_, ?_, ?_⟩
  · intro i outcome' hi
    cases i with
    | zero =>
      obtain rfl := Option.some.inj hi
      exact ⟨p, reply, rfl, hreply, houtcome⟩
    | succ i =>
      obtain ⟨p', reply', hp', hreply', houtcome'⟩ := h.outcome_eq i outcome' hi
      refine ⟨p', reply', hp', ?_, houtcome'⟩
      -- behind the frames that are gone the stream goes on as `s'.unread`
      rw [List.take_succ_cons, hrequests, hunread, replyAt_joined cipher closes hmarks]
      exact hreply'
  · intro i outcome' hi hlt
    cases i with
    | zero =>
      obtain rfl := Option.some.inj hi
      exact hok
    | succ i => exact h.ok_of_lt i outcome' hi (Nat.lt_of_succ_lt_succ hlt)
  · intro hlt
    obtain ⟨outcome', hlast, hfails⟩ := h.fails_of_lt (Nat.lt_of_succ_lt_succ hlt)
    refine ⟨outcome', ?_, hfails⟩
    rw [List.getLast?_cons, hlast]
    rfl
  · rw [List.length_cons, List.take_succ_cons, List.flatMap_cons, ← h.written_eq]
  · obtain ⟨heads', hunread', hmarks', hreplies', hrequests'⟩ := h.taken
    refine ⟨heads ++ heads', ?_, ?_, ?_, ?_⟩
    · rw [hunread, hunread', joined, joined, joined, List.flatMap_append, List.append_assoc]
    · intro body hmem
      rcases List.mem_append.mp hmem with hmem | hmem
      · exact hmarks body hmem
      · exact hmarks' body hmem
    · -- the replies and the requests of the first packet come on top of those of the others
      have hsum : replies (outcome :: outcomes) = replies [outcome] + replies outcomes := by
        rw [replies, replies, replies, ← List.countP_append]
        rfl
      rw [hsum, List.length_append]
      omega
    · rw [List.length_cons, List.take_succ_cons, hrequests, List.length_append]
      omega

end IsRecord

/-- A run is put together from its packets: the record of the first one, and that of the rest
    over what the first has left of the stream. -/
theorem IsOpen.executeAll (h : s.IsOpen cipher closes)
    (handle : Handler → Bytes → Except NetworkError Unit)
    (packets : List (OutboundPacket Handler)) :
    ∃ outcomes s' written, s.executeAll handle packets = (outcomes, s') ∧
      s'.written = s.written ++ written ∧
      IsRecord handle cipher closes s.unread packets outcomes written s'.unread := by
  induction packets generalizing s with
  | nil => exact ⟨[], s, [], rfl, (List.append_nil _).symm, .nil s.unread⟩
  | cons p packets ih =>
    obtain ⟨⟨result, reply⟩, s₁, hexecute, hfirst⟩ := h.execute handle p
    simp only [Stream.executeAll, hexecute]
    -- a packet that fails ends the run
    cases result with
    | error e =>
      exact ⟨_, s₁, _, rfl, hfirst.written_eq, .last hfirst nofun packets⟩
    | ok u =>
      obtain ⟨outcomes, s', written, hrest, hwritten, hrecord⟩ := ih hfirst.isOpen
      simp only [hrest]
      refine ⟨_, s', _, rfl, ?_, hrecord.cons hfirst rfl⟩
      rw [hwritten, hfirst.written_eq, List.append_assoc]

/-! ## Main statement -/

/-- The second request meets a frame with a bad body. -/
example :
    ((start ⟨id, .zero⟩ (frameOf ⟨id, .zero⟩ [1, 2] ++ [33, endMark]) true).executeAll
        (fun (_ : Unit) _ => .ok ())
        [.request [7] (), .sealed [8], .request [9] (), .sealed [10]]).1 =
      [(.ok (), some [1, 2]), (.ok (), none), (.error (.crypto .base64), none)] := by
  decide +kernel

end Stream
end SoloMiner
