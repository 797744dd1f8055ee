import SoloMiner.Proofs.Session.Traces
import SoloMiner.Proofs.Wire.Frames
import SoloMiner.Proofs.Wire.RoundTrip

/-! # Bytes from the node

    What a connection does with the bytes that arrive: they are the frames of the replies that
    were handed over, in order, and behind them the bytes received and not consumed. -/

namespace SoloMiner
namespace Connection

/-! ## Arrivals -/

def Action.isHangUp : Action → Bool
  | .occur .hangUp => true
  | _ => false

/-- The bytes that an action brings from the node. -/
def Action.bytes : Action → Bytes
  | .occur (.arrive bytes) => bytes
  | _ => []

/-- All that arrives from the node before it closes its side. What an action claims to bring
    behind that is not received. -/
def arrived : List Action → Bytes
  | [] => []
  | a :: rest => if a.isHangUp then [] else a.bytes ++ arrived rest

/-- Bytes that arrive at the end of a run count if the node has not closed its side before. -/
theorem arrived_concat (actions : List Action) (a : Action) :
    arrived (actions ++ [a]) =
      arrived actions ++ if actions.any Action.isHangUp then [] else a.bytes := by
  -- to hang up brings no bytes of its own
  have hhangUp : ∀ a : Action, a.isHangUp = true → a.bytes = [] := by
    intro a ha
    cases a with
    | send o => rfl
    | disconnect => rfl
    | occur o => cases o <;> first | rfl | cases ha
  -- the recursion is on the first action, so the last one is reached by induction
  induction actions with
  | nil =>
    cases ha : a.isHangUp with
    | true => simp [arrived, ha, hhangUp a ha]
    | false => simp [arrived, ha]
  | cons first rest ih =>
    cases hfirst : first.isHangUp with
    | true => simp [arrived, hfirst]
    | false => simp [arrived, hfirst, ih]

/-! ## Replies -/

open PacketCodec

/-- The reply that is found next is that of the frame in front. -/
theorem exists_frame_of_nextReply {c : Connection} {reply rest : Bytes} {codec : PacketCodec}
    (hsearched : c.codec.IsSearched c.received)
    (h : c.nextReply? = some (.ok reply, codec, rest)) :
    ∃ body, endMark ∉ body ∧ c.received = body ++ endMark :: rest ∧
      payloadOf c.codec.cipher body = .ok reply ∧ codec = .start c.codec.cipher := by
  unfold nextReply? at h
  split at h
  rename_i outcome codec' rest' hdecode
  split at h
  · cases h
    -- either call of the decoder gives only the frame in front
    by_cases hhungUp : c.hungUp = true
    · rw [if_pos hhungUp] at hdecode
      exact exists_frame_of_decodeEnd hsearched hdecode
    · rw [if_neg hhungUp] at hdecode
      exact exists_frame_of_decode hsearched hdecode
  · cases h
  · split at h <;> cases h

/-- A reply is waited for only while no frame is complete. -/
theorem notMem_of_nextReply_eq_none {c : Connection} (hsearched : c.codec.IsSearched c.received)
    (h : c.nextReply? = none) : endMark ∉ c.received := by
  unfold nextReply? at h
  split at h
  rename_i outcome codec' rest' hdecode
  split at h
  · cases h
  · cases h
  · -- at the end of the stream there is always an outcome, so the stream is still open
    by_cases hhungUp : c.hungUp = true
    · rw [if_pos hhungUp] at h
      cases h
    · rw [if_neg hhungUp] at hdecode
      exact notMem_of_decode hsearched hdecode

/-- A frame that arrived in full is the next reply. -/
theorem nextReply_of_frame {c : Connection} {cipher : TransportCipher} {reply rest : Bytes}
    (hcodec : c.codec = .start cipher) (hhungUp : c.hungUp = false)
    (hreceived : c.received = frameOf cipher reply ++ rest)
    (hlength : reply.length ≤ maxPayloadLength) :
    c.nextReply? = some (.ok reply, .start cipher, rest) := by
  -- a reply within the bound has a frame within the bound
  have hfits := (length_bodyOf_lt_iff cipher reply).mpr hlength
  have hdecode : c.codec.decode c.received = (.ok (some reply), .start cipher, rest) := by
    rw [hcodec, hreceived, frameOf_eq, decode_of_mark (endMark_notMem_bodyOf _ _)
      (isSearched_start _ _), if_neg (Nat.not_lt.mpr hfits)]
    show ((payloadOf cipher _).map some, _, _) = _
    rw [payloadOf_bodyOf]
    rfl
  rw [nextReply?, hhungUp, if_neg Bool.false_ne_true, hdecode]

/-- What arrived are the frames of the replies handed over, and the bytes received. So no byte is
    lost, and none is read twice. -/
structure Receives (cipher : TransportCipher) (actions : List Action) (replies : List Bytes)
    (c : Connection) : Prop where
  cipher_eq : c.codec.cipher = cipher
  isSearched : c.codec.IsSearched c.received
  hungUp_eq : c.hungUp = actions.any Action.isHangUp
  frames : ∃ bs, (∀ body ∈ bs, endMark ∉ body) ∧ arrived actions = joined bs ++ c.received ∧
    bs.map (payloadOf cipher) = replies.map .ok

namespace Receives

variable {cipher : TransportCipher} {actions : List Action} {replies : List Bytes}
  {c c' : Connection}

theorem start (settings : NetworkSettings) (cipher : TransportCipher) (certificate : Bytes)
    (last : Option String) :
    Receives cipher [] [] (Connection.start settings cipher certificate last) :=
  ⟨rfl, isSearched_start _ _, rfl, [], nofun, rfl, rfl⟩

/-- Only the bytes and the decoder matter. -/
theorem congr (h : Receives cipher actions replies c) {a : Action} (ha : a.isHangUp = false)
    (hbytes : a.bytes = []) (hcodec : c'.codec = c.codec) (hreceived : c'.received = c.received)
    (hhungUp : c'.hungUp = c.hungUp) : Receives cipher (actions ++ [a]) replies c' := by
  obtain ⟨bs, hbs, harrived, hreplies⟩ := h.frames
  refine ⟨hcodec ▸ h.cipher_eq, ?_, ?_, bs, hbs, ?_, hreplies⟩
  · rw [hcodec, hreceived]
    exact h.isSearched
  · rw [hhungUp, h.hungUp_eq]
    simp [ha]
  · rw [arrived_concat, hbytes, ite_self, List.append_nil, harrived, hreceived]

/-- Bytes that arrive are put behind those received, unless the node had closed its side. -/
theorem arrive (h : Receives cipher actions replies c) (bytes : Bytes) :
    Receives cipher (actions ++ [.occur (.arrive bytes)]) replies
      (if c.hungUp then c else { c with received := c.received ++ bytes }) := by
  obtain ⟨bs, hbs, harrived, hreplies⟩ := h.frames
  have hany : (actions ++ [Action.occur (.arrive bytes)]).any Action.isHangUp =
      actions.any Action.isHangUp := by
    simp [Action.isHangUp]
  have hmore := arrived_concat actions (.occur (.arrive bytes))
  rw [← h.hungUp_eq, harrived] at hmore
  by_cases hhungUp : c.hungUp = true
  · rw [if_pos hhungUp] at hmore ⊢
    refine ⟨h.cipher_eq, h.isSearched, hany ▸ h.hungUp_eq, bs, hbs, ?_, hreplies⟩
    rw [hmore, List.append_nil]
  · rw [if_neg hhungUp] at hmore ⊢
    refine ⟨h.cipher_eq, h.isSearched.append bytes, hany ▸ h.hungUp_eq, bs, hbs, ?_, hreplies⟩
    rw [hmore, List.append_assoc]
    rfl

theorem hangUp (h : Receives cipher actions replies c) :
    Receives cipher (actions ++ [.occur .hangUp]) replies { c with hungUp := true } := by
  obtain ⟨bs, hbs, harrived, hreplies⟩ := h.frames
  refine ⟨h.cipher_eq, h.isSearched, ?_, bs, hbs, ?_, hreplies⟩
  · simp [Action.isHangUp]
  · rw [arrived_concat, harrived]
    simp [Action.bytes]

/-- A reply is taken off the front of what was received. -/
theorem take (h : Receives cipher actions replies c) {reply rest : Bytes} {codec : PacketCodec}
    (hreply : c.nextReply? = some (.ok reply, codec, rest)) (roundTrip : Duration) :
    Receives cipher (actions ++ [.occur (.proceed roundTrip)]) (replies ++ [reply])
      { c with codec, received := rest } := by
  obtain ⟨bs, hbs, harrived, hreplies⟩ := h.frames
  obtain ⟨body, hbody, hreceived, hpayload, rfl⟩ := exists_frame_of_nextReply h.isSearched hreply
  refine ⟨h.cipher_eq, isSearched_start _ _, ?_, bs ++ [body], ?_, ?_, ?_⟩
  · rw [h.hungUp_eq]
    simp [Action.isHangUp]
  · intro body' hmem
    rcases List.mem_append.mp hmem with hmem | hmem
    · exact hbs body' hmem
    · rw [List.mem_singleton.mp hmem]
      exact hbody
  · -- nothing arrived, and the frame has moved from the bytes received to those taken
    rw [arrived_concat, joined_concat, ← hreceived, harrived]
    simp [Action.bytes]
  · rw [h.cipher_eq] at hpayload
    simp [hreplies, hpayload]

/-- Every step that leaves the connection up keeps the bytes in order. -/
theorem step (h : Receives cipher actions replies c) {a : Action} {effects : List Effect}
    (hstep : c.StepsTo a (.up c') effects) :
    Receives cipher (actions ++ [a]) (replies ++ (Trace.answers effects).map Prod.snd) c' := by
  have hnothing : replies ++ (Trace.answers []).map Prod.snd = replies := List.append_nil _
  cases hstep with
  | arrive bytes =>
    rw [hnothing]
    exact h.arrive bytes
  | hangUp =>
    rw [hnothing]
    exact h.hangUp
  | send o =>
    rw [Trace.answers_offer, List.map_nil, List.append_nil]
    exact h.congr rfl rfl rfl rfl rfl
  | disconnect | wait | close =>
    rw [hnothing]
    exact h.congr rfl rfl rfl rfl rfl
  | write idle flush packets =>
    show Receives cipher _ (replies ++ []) _
    rw [List.append_nil]
    exact h.congr rfl rfl rfl rfl rfl
  | withstand fault =>
    rw [hnothing]
    rcases fault with rfl | rfl
    · exact h.congr rfl rfl rfl rfl rfl
    · exact h.congr rfl rfl rfl rfl rfl
  | @answer roundTrip e reply rest codec reaction awaiting replied reacted =>
    -- the follow-up changes neither the bytes nor the decoder
    have htaken := h.take replied roundTrip
    rw [Trace.answers_answer, follow_eq]
    exact ⟨htaken.cipher_eq, htaken.isSearched, htaken.hungUp_eq, htaken.frames⟩

/-- The replies handed over are the first frames that arrived. -/
theorem replies_prefix (h : Receives cipher actions replies c) :
    replies.map .ok <+: (bodies (arrived actions)).map (payloadOf cipher) := by
  obtain ⟨bs, hbs, harrived, hreplies⟩ := h.frames
  rw [harrived, bodies_joined hbs, List.map_append, hreplies]
  exact List.prefix_append _ _

/-- If no further frame is complete, every frame was handed over. -/
theorem length_replies (h : Receives cipher actions replies c) (hmark : endMark ∉ c.received) :
    replies.length = (bodies (arrived actions)).length := by
  obtain ⟨bs, hbs, harrived, hreplies⟩ := h.frames
  have hcount := congrArg List.length hreplies
  have hnone : bodies c.received = [] := by rw [bodies, cut_of_notMem hmark]
  rw [harrived, bodies_joined hbs, hnone, List.append_nil]
  rw [List.length_map, List.length_map] at hcount
  exact hcount.symm

end Receives

end Connection

/-! ## Exchanges -/

namespace Link

open PacketCodec

/-- A request whose reply is there takes two steps: it is written, and the reply is handed
    over. -/
theorem run_exchange {c : Connection} {cipher : TransportCipher} {p : SessionPacket}
    {ps : List SessionPacket} {e : Expectation} {reply rest : Bytes} {roundTrip : Duration}
    {reaction : Reaction} (hidle : c.awaiting = none) (hflush : c.beginsFlush = false)
    (hpackets : c.queue.packets = p :: ps) (hhandler : p.handler = some e)
    (hcodec : c.codec = .start cipher) (hhungUp : c.hungUp = false)
    (hreceived : c.received = frameOf cipher reply ++ rest)
    (hlength : reply.length ≤ maxPayloadLength)
    (hreact : e.react c.lastIndication reply roundTrip = .ok reaction) :
    (Link.up c).run [.occur (.proceed roundTrip), .occur (.proceed roundTrip)] =
      (.up (Connection.follow { c with received := rest, queue := { c.queue with packets := ps } }
        reaction),
        .wrote p (c.codec.encode p.frame) :: .answered e reply :: c.followEffects reaction) := by
  -- in between, the reply is waited for
  let waiting : Connection :=
    { c with queue := { c.queue with packets := ps }, awaiting := p.handler }
  have hwrite : c.proceed? roundTrip = some (.up waiting, [.wrote p (c.codec.encode p.frame)]) := by
    simp only [Connection.proceed?, hidle, Connection.takePacket?, hflush, Bool.false_eq_true,
      if_false, PacketQueue.receive, hpackets, waiting]
  have hreply : waiting.nextReply? = some (.ok reply, c.codec, rest) := by
    rw [hcodec]
    exact Connection.nextReply_of_frame hcodec hhungUp hreceived hlength
  have hanswer : waiting.proceed? roundTrip =
      some ({ waiting with codec := c.codec, received := rest }.answer e reply roundTrip) := by
    have hwaits : waiting.awaiting = some e := hhandler
    simp only [Connection.proceed?, hwaits, hreply]
  have hfollow := Connection.answer_of_react
    (c := { waiting with codec := c.codec, received := rest }) (e := e) hreact
  -- both are put into the run
  have hfirst : (Link.up c).step (.occur (.proceed roundTrip)) =
      (.up waiting, [.wrote p (c.codec.encode p.frame)]) := by
    show (c.proceed? roundTrip).getD _ = _
    rw [hwrite]
    rfl
  have hsecond : (Link.up waiting).step (.occur (.proceed roundTrip)) =
      { waiting with codec := c.codec, received := rest }.answer e reply roundTrip := by
    show (waiting.proceed? roundTrip).getD _ = _
    rw [hanswer]
    rfl
  simp only [run, hfirst, hsecond, hfollow, List.append_nil]
  rfl

end Link
end SoloMiner
