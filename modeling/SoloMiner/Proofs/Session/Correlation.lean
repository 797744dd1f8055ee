import SoloMiner.Proofs.Session.Arrivals

/-! # Replies and the requests they answer

    A reply does not say which request it answers: that is known by order alone. The first
    frame that arrives answers the first request that was accepted, the second frame the
    second, and so on, wherever the frames are cut and however early they come.

    Two invariants of a connection carry this. What arrived is the frames of the replies handed
    over, with the bytes received behind them (`Receives`); what was accepted is what was
    written, with the queue behind it, and all requests written were answered but the one that
    waits (`Serves`). -/

namespace SoloMiner

/-! ## What a run brings -/

namespace Link

/-- The share that an action submits, if it is taken. A link that is closed or being closed turns
    it away. -/
def takesShare (l : Link) : Connection.Action → List FoundShare
  | .send (.share s _) => if l.isOpen then [s] else []
  | _ => []

/-- The shares that were taken, in the order in which they were submitted. -/
def submitted : Link → List Connection.Action → List FoundShare
  | _, [] => []
  | l, a :: rest => l.takesShare a ++ (l.step a).1.submitted rest

theorem submitted_concat (l : Link) (actions : List Connection.Action) (a : Connection.Action) :
    l.submitted (actions ++ [a]) = l.submitted actions ++ (l.run actions).1.takesShare a := by
  induction actions generalizing l with
  | nil => simp [submitted, run]
  | cons first rest ih => simp [submitted, run, ih]

end Link

/-! ## What handlers make of replies -/

/-- Whenever the reply comes, the handler takes it without a fault. Neither the last job nor the
    time that went by makes a difference to that. -/
def Expectation.Accepts (e : Expectation) (reply : Bytes) : Prop :=
  ∀ last roundTrip, ∃ reaction, e.react last reply roundTrip = .ok reaction

/-- The height and kind of the share whose verdict is waited for. -/
def Expectation.share? : Expectation → Option (Int64 × JobType)
  | .verdict height jobType => some (height, jobType)
  | _ => none

def NetworkEvent.shareResult? : NetworkEvent → Option (Int64 × JobType × ShareStatus)
  | .shareResult height jobType status _ => some (height, jobType, status)
  | _ => none

/-- The verdict that a reply passes on a share, if it was asked for one. A reply that says
    something else passes none. -/
def verdict? (answer : Expectation × Bytes) : Option (Int64 × JobType × ShareStatus) :=
  answer.1.share?.bind fun (height, jobType) =>
    (ShareStatus.ofReply? answer.2).map (height, jobType, ·)

namespace Trace

/-- The share results that were emitted. -/
def shareResults (trace : List Effect) : List (Int64 × JobType × ShareStatus) :=
  (events trace).filterMap NetworkEvent.shareResult?

/-- The replies to submissions. -/
def verdictReplies (trace : List Effect) : List Bytes :=
  (answers trace).filterMap fun a => a.1.share?.map fun _ => a.2

end Trace

namespace Expectation

/-- Whether a handler succeeds depends on request and reply alone, not on the last job and not on
    the time. -/
theorem accepts_of_react {e : Expectation} {last : Option String} {reply : Bytes}
    {roundTrip : Duration} {reaction : Reaction}
    (h : e.react last reply roundTrip = .ok reaction) : e.Accepts reply := by
  intro last' roundTrip'
  cases reactsTo_react h with
  | login accepted => exact ⟨_, if_pos accepted⟩
  | noHeader | oldHeader | newHeader | noJob | job | noVerdict | verdict => exact ⟨_, rfl⟩
  | custom accepted =>
    rw [react, accepted]
    exact ⟨_, rfl⟩

/-- A share result is emitted for a verdict, and for nothing else. -/
theorem shareResults_of_react {e : Expectation} {last : Option String} {reply : Bytes}
    {roundTrip : Duration} {reaction : Reaction}
    (h : e.react last reply roundTrip = .ok reaction) :
    reaction.events.filterMap NetworkEvent.shareResult? = (verdict? (e, reply)).toList := by
  cases reactsTo_react h with
  | login | noHeader | oldHeader | newHeader | noJob | job | custom => rfl
  | noVerdict none => simp [verdict?, share?, none, Reaction.quiet]
  | verdict passed => simp [verdict?, share?, passed, NetworkEvent.shareResult?]

/-- No verdict makes a handler fail. -/
theorem verdict?_of_react_error {e : Expectation} {last : Option String} {reply : Bytes}
    {roundTrip : Duration} {fault : NetworkError}
    (h : e.react last reply roundTrip = .error fault) : verdict? (e, reply) = none := by
  cases e with
  | verdict height jobType => cases h
  | login | header | method | custom => rfl

/-- A follow-up asks for a job and not for a verdict. -/
theorem share?_followUp {e : Expectation} {last : Option String} {reply : Bytes}
    {roundTrip : Duration} {reaction : Reaction}
    (h : e.react last reply roundTrip = .ok reaction) :
    reaction.followUp.toList.filterMap (fun p => p.handler.bind share?) = [] := by
  cases reactsTo_react h with
  | _ => rfl

end Expectation

namespace Connection

/-! ## Packets -/

/-- What was accepted was written or is queued; what was written was answered or waits. This is
    the invariant of a connection that is up. -/
structure Serves (handshake : List SessionPacket) (trace : List Effect) (c : Connection) :
    Prop where
  accepted_eq : handshake ++ Trace.accepted trace = Trace.written trace ++ c.queue.packets
  answers_eq : (Trace.answers trace).map Prod.fst ++ c.awaiting.toList =
    (Trace.written trace).filterMap (·.handler)
  accepts : ∀ answer ∈ Trace.answers trace, answer.1.Accepts answer.2

namespace Serves

variable {handshake : List SessionPacket} {trace effects : List Effect} {c c' : Connection}

theorem start (settings : NetworkSettings) (cipher : TransportCipher) (certificate : Bytes)
    (last : Option String) :
    Serves (Connection.handshake settings certificate) []
      (Connection.start settings cipher certificate last) :=
  ⟨rfl, rfl, nofun⟩

/-- Nothing is written, and what waits is answered or goes on waiting. -/
theorem extend (h : Serves handshake trace c) (hwritten : Trace.written effects = [])
    (hpackets : c'.queue.packets = c.queue.packets ++ Trace.accepted effects)
    (hanswers : (Trace.answers effects).map Prod.fst ++ c'.awaiting.toList = c.awaiting.toList)
    (haccepts : ∀ answer ∈ Trace.answers effects, answer.1.Accepts answer.2) :
    Serves handshake (trace ++ effects) c' := by
  -- packets accepted, requests answered, and that none was answered by a fault
  refine ⟨?_, ?_, ?_⟩
  · rw [Trace.accepted_append, Trace.written_append, hwritten, hpackets, List.append_nil,
      ← List.append_assoc, h.accepted_eq, List.append_assoc]
  · rw [Trace.answers_append, Trace.written_append, hwritten, List.append_nil, List.map_append,
      List.append_assoc, hanswers]
    exact h.answers_eq
  · intro answer hmem
    rw [Trace.answers_append] at hmem
    rcases List.mem_append.mp hmem with hold | hnew
    · exact h.accepts answer hold
    · exact haccepts answer hnew

/-- Only the packets matter. -/
theorem quiet (h : Serves handshake trace c) (hpackets : c'.queue.packets = c.queue.packets)
    (hawaiting : c'.awaiting = c.awaiting) : Serves handshake (trace ++ []) c' := by
  refine h.extend rfl ?_ ?_ nofun
  · rw [hpackets]
    exact (List.append_nil _).symm
  · rw [hawaiting]
    rfl

theorem offer (h : Serves handshake trace c) (p : SessionPacket) :
    Serves handshake (trace ++ [.ofOffer c.queue.accepting p]) (c.offer p).2 := by
  obtain ⟨haccepted, hwritten, hanswers, -⟩ := Trace.views_offer c.queue.accepting p
  refine h.extend hwritten ?_ ?_ ?_
  · rw [haccepted, packets_offer]
  · rw [hanswers]
    rfl
  · rw [hanswers]
    exact nofun

/-- A packet leaves the queue for the packets written, and its request for the one that waits. -/
theorem write (h : Serves handshake trace c) {p : SessionPacket} {ps : List SessionPacket}
    (idle : c.awaiting = none) (packets : c.queue.packets = p :: ps) (bytes : Bytes) :
    Serves handshake (trace ++ [.wrote p bytes])
      { c with queue := { c.queue with packets := ps }, awaiting := p.handler } := by
  have hviews : Trace.accepted [.wrote p bytes] = [] ∧ Trace.written [.wrote p bytes] = [p] ∧
      Trace.answers [.wrote p bytes] = [] := ⟨rfl, rfl, rfl⟩
  obtain ⟨haccepted, hwritten, hanswers⟩ := hviews
  have hanswers_eq := h.answers_eq
  rw [idle, Option.toList_none, List.append_nil] at hanswers_eq
  -- the packet leaves the queue, and its request waits if it has one
  refine ⟨?_, ?_, ?_⟩
  · rw [Trace.accepted_append, Trace.written_append, haccepted, hwritten, List.append_nil,
      h.accepted_eq, packets]
    simp
  · rw [Trace.answers_append, Trace.written_append, hanswers, hwritten, List.append_nil,
      hanswers_eq, List.filterMap_append]
    cases hhandler : p.handler with
    | none => simp [hhandler]
    | some e => simp [hhandler]
  · rw [Trace.answers_append, hanswers, List.append_nil]
    exact h.accepts

/-- The request that waits is answered, and its follow-up is queued. -/
theorem answer (h : Serves handshake trace c) {e : Expectation} {reply : Bytes}
    {roundTrip : Duration} {reaction : Reaction} (hawaiting : c.awaiting = some e)
    (hreact : e.react c.lastIndication reply roundTrip = .ok reaction) :
    Serves handshake (trace ++ .answered e reply :: c.followEffects reaction)
      (c.follow reaction) := by
  have hwritten : Trace.written (.answered e reply :: c.followEffects reaction) = [] :=
    (Trace.views_followEffects c reaction).2.1
  refine h.extend hwritten ?_ ?_ ?_
  · rw [Trace.accepted_answer, packets_follow]
  · rw [Trace.answers_answer, hawaiting, follow_eq]
    rfl
  · rw [Trace.answers_answer]
    intro answer hmem
    rw [List.mem_singleton.mp hmem]
    exact Expectation.accepts_of_react hreact

/-- Every step that leaves the connection up keeps the packets in order. -/
theorem step (h : Serves handshake trace c) {a : Action} (hstep : c.StepsTo a (.up c') effects) :
    Serves handshake (trace ++ effects) c' := by
  cases hstep with
  | arrive bytes =>
    rw [arrive_eq]
    exact h.quiet rfl rfl
  | hangUp | disconnect | withstand | wait | close => exact h.quiet rfl rfl
  | send o => exact h.offer o.packet
  | write idle flush packets => exact h.write idle packets _
  | @answer roundTrip e reply rest codec reaction awaiting replied reacted =>
    -- taking the reply off the bytes received changes no packet
    have hc : Serves handshake trace { c with codec, received := rest } :=
      ⟨h.accepted_eq, h.answers_eq, h.accepts⟩
    exact hc.answer awaiting reacted

/-- The requests that were answered are the first that were accepted. -/
theorem requests_prefix (h : Serves handshake trace c) :
    (Trace.answers trace).map Prod.fst ++ c.awaiting.toList <+:
      (handshake ++ Trace.accepted trace).filterMap (·.handler) := by
  rw [h.answers_eq, h.accepted_eq, List.filterMap_append]
  exact List.prefix_append _ _

/-- With nothing queued and nothing waiting, every request was answered. -/
theorem length_answers (h : Serves handshake trace c) (hawaiting : c.awaiting = none)
    (hpackets : c.queue.packets = []) :
    (Trace.answers trace).length =
      ((handshake ++ Trace.accepted trace).filterMap (·.handler)).length := by
  have hanswers := congrArg List.length h.answers_eq
  rw [h.accepted_eq, hpackets, List.append_nil, ← hanswers, hawaiting]
  simp

end Serves
end Connection

/-! ## Runs -/

namespace Connection

/-- What is written, and what is handed over, has its turn. -/
structure InTurn (handshake : List SessionPacket) (before : List Effect) (effect : Effect) :
    Prop where
  /-- All packets accepted before it were written, and all their replies were taken. -/
  write : ∀ p bytes, effect = .wrote p bytes →
    Trace.written before ++ [p] <+: handshake ++ Trace.accepted before ∧
      (Trace.answers before).map Prod.fst = (Trace.written before).filterMap (·.handler) ∧
      ∀ answer ∈ Trace.answers before, answer.1.Accepts answer.2
  /-- Its request was the last to be written, and the only one without a reply. -/
  answer : ∀ e reply, effect = .answered e reply →
    (Trace.answers before).map Prod.fst ++ [e] = (Trace.written before).filterMap (·.handler)

theorem inTurn_of_quiet {handshake : List SessionPacket} {effects : List Effect}
    (hanswers : Trace.answers effects = []) (hwritten : Trace.written effects = []) :
    ∀ effect ∈ effects, ∀ before, InTurn handshake before effect := by
  intro effect hmem before
  refine ⟨?_, ?_⟩
  · rintro p bytes rfl
    exact absurd hmem (Trace.notMem_of_written hwritten p bytes)
  · rintro e reply rfl
    exact absurd hmem (Trace.notMem_of_answers hanswers e reply)

/-- What remains true when the connection has ended. -/
structure Correlates (cipher : TransportCipher) (handshake : List SessionPacket)
    (actions : List Action) (trace : List Effect) : Prop where
  requests_prefix : (Trace.answers trace).map Prod.fst <+:
    (handshake ++ Trace.accepted trace).filterMap (·.handler)
  frames_prefix : (Trace.answers trace).map (fun answer => .ok answer.2) <+:
    (PacketCodec.bodies (arrived actions)).map (PacketCodec.payloadOf cipher)
  inTurn : Trace.Along (InTurn handshake) trace
  results : Trace.shareResults trace = (Trace.answers trace).filterMap verdict?

namespace Correlates

variable {cipher : TransportCipher} {handshake : List SessionPacket} {actions : List Action}
  {trace effects : List Effect}

theorem start (cipher : TransportCipher) (handshake : List SessionPacket) :
    Correlates cipher handshake [] [] :=
  ⟨List.nil_prefix, List.nil_prefix, Trace.along_nil, rfl⟩

/-- A step that hands over no reply. -/
theorem extend (h : Correlates cipher handshake actions trace) (a : Action)
    (hanswers : Trace.answers effects = []) (hresults : Trace.shareResults effects = [])
    (hinTurn : Trace.Along (InTurn handshake) (trace ++ effects)) :
    Correlates cipher handshake (actions ++ [a]) (trace ++ effects) := by
  refine ⟨?_, ?_, hinTurn, ?_⟩
  · rw [Trace.answers_append, hanswers, List.append_nil, Trace.accepted_append,
      ← List.append_assoc, List.filterMap_append]
    exact h.requests_prefix.trans (List.prefix_append _ _)
  · -- what arrives later is behind the frames of the replies
    rw [Trace.answers_append, hanswers, List.append_nil, arrived_concat]
    exact h.frames_prefix.trans ((PacketCodec.bodies_prefix_append _ _).map _)
  · rw [Trace.answers_append, hanswers, List.append_nil, ← h.results]
    show (Trace.events (trace ++ effects)).filterMap _ = _
    rw [Trace.events_append, List.filterMap_append]
    exact (congrArg (Trace.shareResults trace ++ ·) hresults).trans (List.append_nil _)

/-- A step that neither hands over a reply nor writes. -/
theorem quiet (h : Correlates cipher handshake actions trace) (a : Action)
    (hanswers : Trace.answers effects = []) (hwritten : Trace.written effects = [])
    (hresults : Trace.shareResults effects = []) :
    Correlates cipher handshake (actions ++ [a]) (trace ++ effects) :=
  h.extend a hanswers hresults (h.inTurn.append_of_forall (inTurn_of_quiet hanswers hwritten))

/-- The reply goes to the request that waits, whatever comes of it. -/
theorem answer (h : Correlates cipher handshake actions trace) {c : Connection}
    (hreceives : Receives cipher actions ((Trace.answers trace).map Prod.snd) c)
    (hserves : Serves handshake trace c) {e : Expectation} {reply rest : Bytes}
    {codec : PacketCodec} {roundTrip : Duration} (hawaiting : c.awaiting = some e)
    (hreply : c.nextReply? = some (.ok reply, codec, rest)) (hanswers : Trace.answers effects = [])
    (hwritten : Trace.written effects = [])
    (hresults : Trace.shareResults effects = (verdict? (e, reply)).toList) :
    Correlates cipher handshake (actions ++ [.occur (.proceed roundTrip)])
      (trace ++ .answered e reply :: effects) := by
  have hview : Trace.answers (.answered e reply :: effects) = [(e, reply)] := by
    rw [Trace.answers_answered, hanswers]
  have hrequests := hserves.requests_prefix
  have htaken := hreceives.take hreply roundTrip
  have hframes := htaken.replies_prefix
  refine ⟨?_, ?_, ?_, ?_⟩
  · -- the request that waits is the next that was accepted
    rw [hawaiting] at hrequests
    rw [Trace.answers_append, hview, List.map_append, Trace.accepted_append, ← List.append_assoc,
      List.filterMap_append]
    exact hrequests.trans (List.prefix_append _ _)
  · -- and the frame is the next that arrived
    rw [List.map_append, List.map_map] at hframes
    rw [Trace.answers_append, hview, List.map_append]
    exact hframes
  · -- the reply itself has its turn, and what follows is neither written nor handed over
    have hturn : InTurn handshake trace (.answered e reply) := by
      refine ⟨nofun, ?_⟩
      rintro e' reply' ⟨⟩
      rw [← hserves.answers_eq, hawaiting]
      rfl
    rw [List.append_cons]
    exact (h.inTurn.concat hturn).append_of_forall (inTurn_of_quiet hanswers hwritten)
  · rw [Trace.answers_append, hview, List.filterMap_append, ← h.results]
    show (Trace.events (trace ++ .answered e reply :: effects)).filterMap _ = _
    rw [Trace.events_append, List.filterMap_append]
    refine congrArg (Trace.shareResults trace ++ ·) (Eq.trans hresults ?_)
    cases hverdict : verdict? (e, reply) <;> simp [hverdict]

end Correlates

variable {cipher : TransportCipher} {handshake : List SessionPacket} {actions : List Action}
  {trace effects : List Effect} {c : Connection} {a : Action} {link : Link}

/-- Every step of a connection keeps the order of replies. -/
theorem Correlates.step (h : Correlates cipher handshake actions trace)
    (hreceives : Receives cipher actions ((Trace.answers trace).map Prod.snd) c)
    (hserves : Serves handshake trace c) (hstep : c.StepsTo a link effects) :
    Correlates cipher handshake (actions ++ [a]) (trace ++ effects) := by
  cases hstep with
  | arrive | hangUp | disconnect | withstand | wait | close => exact h.quiet _ rfl rfl rfl
  | send o =>
    obtain ⟨-, hwritten, hanswers, hevents⟩ := Trace.views_offer c.queue.accepting o.packet
    exact h.quiet _ hanswers hwritten (congrArg (List.filterMap _) hevents)
  | write idle flush packets =>
    refine h.extend _ rfl rfl (h.inTurn.concat ⟨?_, nofun⟩)
    rintro p bytes ⟨⟩
    refine ⟨?_, ?_, hserves.accepts⟩
    · rw [hserves.accepted_eq, packets]
      simp
    · rw [← hserves.answers_eq, idle]
      exact (List.append_nil _).symm
  | @answer roundTrip e reply rest codec reaction awaiting replied reacted =>
    obtain ⟨-, hwritten, hanswers, hevents⟩ := Trace.views_followEffects c reaction
    refine h.answer hreceives hserves awaiting replied hanswers hwritten ?_
    show (Trace.events (c.followEffects reaction)).filterMap _ = _
    rw [hevents]
    exact Expectation.shareResults_of_react reacted
  | @reject roundTrip e reply rest codec fault awaiting replied reacted =>
    -- the handler that fails got its reply all the same
    refine h.answer hreceives hserves awaiting replied rfl rfl ?_
    rw [Expectation.verdict?_of_react_error reacted]
    rfl
  | fail | complete => exact h.quiet _ rfl rfl rfl

/-! ## Connections that wait -/

/-- A connection waits for a packet with nothing queued, or for a reply with no frame complete. -/
theorem waits_of_proceed_eq_none {c : Connection} {roundTrip : Duration}
    (hsearched : c.codec.IsSearched c.received) (h : c.proceed? roundTrip = none) :
    (c.awaiting = none ∧ c.queue.packets = []) ∨
      (∃ e, c.awaiting = some e) ∧ PacketCodec.endMark ∉ c.received := by
  unfold proceed? at h
  cases hawaiting : c.awaiting with
  | none =>
    simp only [hawaiting] at h
    refine Or.inl ⟨rfl, ?_⟩
    unfold takePacket? at h
    -- a flush would begin, a packet would be written, a closed queue would end the connection
    by_cases hflush : c.beginsFlush = true
    · rw [if_pos hflush] at h
      cases h
    · rw [if_neg hflush] at h
      unfold PacketQueue.receive at h
      cases hpackets : c.queue.packets with
      | nil => rfl
      | cons p ps =>
        rw [hpackets] at h
        cases h
  | some e =>
    simp only [hawaiting] at h
    refine Or.inr ⟨⟨e, rfl⟩, ?_⟩
    -- a reply or a fault in its place would be a step
    rcases hreply : c.nextReply? with _ | ⟨fault | reply, codec, received⟩
    · exact notMem_of_nextReply_eq_none hsearched hreply
    · simp [hreply] at h
    · simp [hreply] at h

/-- A connection that waits has handed over every reply that it could. -/
theorem length_answers_of_waits (hreceives : Receives cipher actions
      ((Trace.answers trace).map Prod.snd) c) (hserves : Serves handshake trace c)
    {roundTrip : Duration} (h : c.proceed? roundTrip = none) :
    (Trace.answers trace).length =
      min ((handshake ++ Trace.accepted trace).filterMap (·.handler)).length
        (PacketCodec.bodies (arrived actions)).length := by
  have hrequests := hserves.requests_prefix.length_le
  have hframes := hreceives.replies_prefix.length_le
  rw [List.length_append, List.length_map] at hrequests
  rw [List.length_map, List.length_map, List.length_map] at hframes
  -- whatever the connection waits for, one of the two sides is used up
  rcases waits_of_proceed_eq_none hreceives.isSearched h with ⟨hidle, hpackets⟩ | ⟨-, hmark⟩
  · have hall := hserves.length_answers hidle hpackets
    omega
  · have hall := hreceives.length_replies hmark
    rw [List.length_map] at hall
    omega

end Connection

/-! ## Shares -/

/-- The verdicts on shares, in the order in which the shares were submitted. The first reply is
    to the first share, and so on. -/
def verdicts (shares : List FoundShare) (replies : List Bytes) :
    List (Int64 × JobType × ShareStatus) :=
  (shares.zip replies).filterMap fun (share, reply) =>
    (ShareStatus.ofReply? reply).map (share.height, share.jobType, ·)

/-- If verdicts are asked for in the order of the shares, they are passed in that order. -/
theorem verdicts_of_answers {answers : List (Expectation × Bytes)} {shares : List FoundShare}
    (h : (answers.map Prod.fst).filterMap Expectation.share? <+:
      shares.map fun share => (share.height, share.jobType)) :
    verdicts shares (answers.filterMap fun a => a.1.share?.map fun _ => a.2) =
      answers.filterMap verdict? := by
  -- only the answer to a submission takes a share off the list
  induction answers generalizing shares with
  | nil => simp [verdicts]
  | cons answer answers ih =>
    obtain ⟨e, reply⟩ := answer
    rw [List.map_cons, List.filterMap_cons] at h
    cases hshare : e.share? with
    | none =>
      simp only [hshare] at h
      have hverdict : verdict? (e, reply) = none := by simp [verdict?, hshare]
      rw [List.filterMap_cons, List.filterMap_cons, hverdict]
      simpa [hshare] using ih h
    | some key =>
      simp only [hshare] at h
      cases shares with
      | nil => simp at h
      | cons share shares =>
        rw [List.map_cons, List.cons_prefix_cons] at h
        obtain ⟨rfl, hrest⟩ := h
        have hverdict : verdict? (e, reply) =
            (ShareStatus.ofReply? reply).map (share.height, share.jobType, ·) := by
          simp [verdict?, hshare]
        have hrest' := ih hrest
        unfold verdicts at hrest' ⊢
        rw [List.filterMap_cons (f := verdict?), hverdict, ← hrest']
        simp only [List.filterMap_cons, hshare, Option.map_some, List.zip_cons_cons]

namespace Link

/-- A verdict is asked for every share that is taken, and for nothing else: neither the handshake
    nor a follow-up asks for one. -/
theorem filterMap_share?_accepted (settings : NetworkSettings) (cipher : TransportCipher)
    (certificate : Bytes) (last : Option String) (actions : List Connection.Action) :
    (Trace.accepted ((Link.up (.start settings cipher certificate last)).run actions).2).filterMap
        (fun p => p.handler.bind Expectation.share?) =
      ((Link.up (.start settings cipher certificate last)).submitted actions).map
        fun share => (share.height, share.jobType) := by
  let l := Link.up (.start settings cipher certificate last)
  refine run_concat_induction (l := l) (P := fun actions trace _ =>
    (Trace.accepted trace).filterMap (fun p => p.handler.bind Expectation.share?) =
      (l.submitted actions).map fun share => (share.height, share.jobType)) rfl ?_ actions
  intro actions trace effects l₁ l₂ a hrun h hstep
  rw [submitted_concat, hrun, Trace.accepted_append, List.filterMap_append, h, List.map_append]
  congr 1
  cases hstep with
  | refuse last o => cases o <;> rfl
  | rest last a => rcases a with ⟨_ | _⟩ | _ | _ <;> rfl
  | @act c a link effects step =>
    cases step with
    | send o =>
      rw [Trace.accepted_offer]
      cases o with
      | own p =>
        -- the judge of an own packet is no verdict
        obtain ⟨payload, encrypted, handler⟩ := p
        cases c.queue.accepting <;> cases handler <;> rfl
      | share s userAgent =>
        show _ = (if c.queue.accepting then [s] else []).map _
        cases c.queue.accepting <;> rfl
    | @answer roundTrip e reply rest codec reaction awaiting replied reacted =>
      show (Trace.accepted _).filterMap _ = []
      rw [Trace.accepted_answer]
      split
      · exact Expectation.share?_followUp reacted
      · rfl
    | _ => rfl

/-- The invariants hold of every run, those of a connection as long as it is up. They go
    together, since each step uses what the others tell of the connection before it. -/
theorem run_correlates (settings : NetworkSettings) (cipher : TransportCipher)
    (certificate : Bytes) (last : Option String) (actions : List Connection.Action) :
    let l := (Link.up (.start settings cipher certificate last)).run actions
    let handshake := Connection.handshake settings certificate
    Connection.Correlates cipher handshake actions l.2 ∧
      ∀ c, l.1 = .up c →
        Connection.Receives cipher actions ((Trace.answers l.2).map Prod.snd) c ∧
          Connection.Serves handshake l.2 c := by
  let handshake := Connection.handshake settings certificate
  refine run_concat_induction (P := fun actions trace l =>
    Connection.Correlates cipher handshake actions trace ∧
      ∀ c, l = .up c → Connection.Receives cipher actions ((Trace.answers trace).map Prod.snd) c ∧
        Connection.Serves handshake trace c) ?_ ?_ actions
  · refine ⟨.start cipher handshake, ?_⟩
    rintro c ⟨⟩
    exact ⟨.start settings cipher certificate last, .start settings cipher certificate last⟩
  · intro actions trace effects l₁ l₂ a hrun h hstep
    cases hstep with
    | refuse | rest =>
      refine ⟨h.1.quiet _ rfl rfl rfl, ?_⟩
      intro c hlink
      cases hlink
    | @act c a link effects step =>
      obtain ⟨hreceives, hserves⟩ := h.2 c rfl
      refine ⟨h.1.step hreceives hserves step, ?_⟩
      rintro c' rfl
      rw [Trace.answers_append, List.map_append]
      exact ⟨hreceives.step step, hserves.step step⟩

/-- The replies of the node are matched with the requests by order alone. The frames that arrive
    are handed to the requests in the order in which these were accepted, one frame to one
    request, as far as there are both; and a packet is written only when all that were accepted
    before it were written and had their replies taken. So the verdicts on shares are passed on
    with the shares that they are about, in the order of submission. -/
theorem run_answers_in_order (settings : NetworkSettings) (cipher : TransportCipher)
    (certificate : Bytes) (last : Option String) (actions : List Connection.Action) :
    let l := Link.up (.start settings cipher certificate last)
    let trace := (l.run actions).2
    let handshake := Connection.handshake settings certificate
    let requests := (handshake ++ Trace.accepted trace).filterMap (·.handler)
    let frames := PacketCodec.bodies (Connection.arrived actions)
    ((Trace.answers trace).map Prod.fst <+: requests ∧
        (Trace.answers trace).map (fun answer => .ok answer.2) <+:
          frames.map (PacketCodec.payloadOf cipher)) ∧
      (∀ c roundTrip, (l.run actions).1 = .up c → c.proceed? roundTrip = none →
        (Trace.answers trace).length = min requests.length frames.length) ∧
      Trace.Along (Connection.InTurn handshake) trace ∧
      requests.filterMap Expectation.share? =
        (l.submitted actions).map (fun share => (share.height, share.jobType)) ∧
      Trace.shareResults trace = verdicts (l.submitted actions) (Trace.verdictReplies trace) := by
  intro l trace handshake requests frames
  obtain ⟨hcorrelates, hup⟩ := run_correlates settings cipher certificate last actions
  -- the handshake asks for no verdict, so the shares among the requests are those submitted
  have hshares : requests.filterMap Expectation.share? =
      (l.submitted actions).map fun share => (share.height, share.jobType) := by
    rw [← filterMap_share?_accepted settings cipher certificate last actions,
      List.filterMap_filterMap, List.filterMap_append]
    rfl
  refine ⟨⟨hcorrelates.requests_prefix, hcorrelates.frames_prefix⟩, ?_, hcorrelates.inTurn,
    hshares, ?_⟩
  · intro c roundTrip hlink hwaits
    obtain ⟨hreceives, hserves⟩ := hup c hlink
    exact Connection.length_answers_of_waits hreceives hserves hwaits
  · rw [hcorrelates.results]
    refine (verdicts_of_answers ?_).symm
    rw [← hshares]
    exact hcorrelates.requests_prefix.filterMap _

/-- A share submitted before the login, with its verdict there before it is asked for. -/
theorem run_answers_in_order_small :
    let l := Link.up (.start ⟨⟨"", 0⟩, "", "", 0⟩ ⟨id, .zero⟩ [] none)
    let frames := [Expectation.loginAccepted, Bytes.ofString "SEND-JOB-STATUS|UNLOCK"].flatMap
      (PacketCodec.frameOf ⟨id, .zero⟩)
    let actions := .occur (.arrive frames) ::
      .send (.share ⟨5, .random, 1, .add, 2, 3, "", ""⟩ "") ::
      List.replicate 6 (.occur (.proceed .zero))
    ∃ c, (l.run actions).1 = .up c ∧ c.proceed? .zero = none ∧
      (Trace.answers (l.run actions).2).length = 2 ∧
      Trace.shareResults (l.run actions).2 = [(5, .random, .accepted)] := by
  intro l frames actions
  have hfacts : (l.run actions).1.isOpen = true ∧
      (⟨⟨⟨"", 0⟩, "", "", 0⟩, (l.run actions).1, []⟩ : Network).isWaiting = true ∧
      (Connection.handshake ⟨⟨"", 0⟩, "", "", 0⟩ [] ++
        Trace.accepted (l.run actions).2).countP (·.handler.isSome) = 3 ∧
      (PacketCodec.bodies (Connection.arrived actions)).length = 2 ∧
      verdicts (l.submitted actions) (Trace.verdictReplies (l.run actions).2) =
        [(5, .random, .accepted)] := by
    decide +kernel
  obtain ⟨hopen, hwaits, hrequests, hframes, hverdicts⟩ := hfacts
  obtain ⟨-, hlength, -, -, hresults⟩ :=
    run_answers_in_order ⟨⟨"", 0⟩, "", "", 0⟩ ⟨id, .zero⟩ [] none actions
  cases hlink : (l.run actions).1 with
  | down last =>
    rw [hlink] at hopen
    cases hopen
  | up c =>
    rw [hlink] at hwaits
    have hnone : c.proceed? .zero = none := Option.isNone_iff_eq_none.mp hwaits
    refine ⟨c, rfl, hnone, ?_, hresults.trans hverdicts⟩
    have hcount := hlength c .zero hlink hnone
    rw [hframes, List.length_filterMap_eq_countP, hrequests] at hcount
    exact hcount

end Link
end SoloMiner
