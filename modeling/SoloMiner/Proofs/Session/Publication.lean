import Mathlib.Data.List.Chain
import SoloMiner.Proofs.Job.Building
import SoloMiner.Proofs.Session.Arrivals
import SoloMiner.Proofs.Session.Polling

/-! # Publication of jobs

    A header makes the session ask for its method, and the method makes the job. Whether the
    header is new is decided one exchange earlier than its indication is remembered. That this
    never publishes a job twice in a row is due to the single poll: while a method is asked for,
    nothing else can change what is remembered. -/

namespace SoloMiner

/-! ## Reactions -/

def NetworkEvent.newJob? : NetworkEvent → Option JobTemplate
  | .newJob job => some job
  | _ => none

theorem SessionPacket.methodRequest_inj {h h' : BlockHeader}
    (heq : SessionPacket.methodRequest h = .methodRequest h') : h = h' := by
  have hhandler := congrArg OutboundPacket.handler heq
  cases hhandler
  rfl

namespace Expectation

/-- The reply was to bring a header or a method, and no job comes of it. The session asks for a
    job again, and nothing is published. -/
def Spoils (reply : Bytes) : Expectation → Prop
  | .header => ∃ fault, BlockHeader.parse reply = .error fault
  | .method h => ∃ fault, (BlockMethod.parse reply).bind (JobTemplate.build h) = .error fault
  | _ => False

/-- A reply of which no job can be made publishes nothing and is not remembered, and the header
    is asked for again. -/
theorem react_of_spoils {e : Expectation} {reply : Bytes} (h : e.Spoils reply)
    (last : Option String) (roundTrip : Duration) :
    ∃ rejected, e.react last reply roundTrip = .ok ⟨rejected, [], last, some .headerRequest⟩ := by
  cases e with
  | login | verdict | custom => cases h
  | header =>
    obtain ⟨fault, hfault⟩ := h
    refine ⟨none, ?_⟩
    rw [react, reactToHeader, hfault]
    rfl
  | method h' =>
    obtain ⟨fault, hfault⟩ := h
    refine ⟨some fault, ?_⟩
    rw [react, reactToMethod, hfault]

/-- A job is made of a method, and nothing else changes what is remembered. -/
theorem jobs_of_react {e : Expectation} {last : Option String} {reply : Bytes}
    {roundTrip : Duration} {reaction : Reaction}
    (h : e.react last reply roundTrip = .ok reaction) :
    (reaction.events.filterMap NetworkEvent.newJob? = [] ∧ reaction.lastIndication = last) ∨
      ∃ h m job, e = .method h ∧ BlockMethod.parse reply = .ok m ∧
        JobTemplate.build h m = .ok job ∧
        reaction = ⟨none, [.newJob job], some job.indication, some .headerRequest⟩ := by
  cases reactsTo_react h with
  | job parsed built => exact Or.inr ⟨_, _, _, rfl, parsed, built, rfl⟩
  | _ => exact Or.inl ⟨rfl, rfl⟩

/-- A method is asked for when its header is known, and new. -/
theorem method_of_react {e : Expectation} {last : Option String} {reply : Bytes}
    {roundTrip : Duration} {reaction : Reaction} {header : BlockHeader}
    (h : e.react last reply roundTrip = .ok reaction)
    (hfollowUp : reaction.followUp = some (.methodRequest header)) :
    e = .header ∧ BlockHeader.parse reply = .ok header ∧ last ≠ some header.indication ∧
      reaction = .send last (.methodRequest header) := by
  cases reactsTo_react h with
  | newHeader parsed new =>
    obtain rfl := SessionPacket.methodRequest_inj (Option.some.inj hfollowUp)
    exact ⟨rfl, parsed, new, rfl⟩
  | _ => cases hfollowUp

end Expectation

/-! ## What a trace tells of jobs -/

/-- Does the effect concern the polls of a connection? -/
def Effect.concernsPolls : Effect → Bool
  | .opened => true
  | .accepted p => SessionPacket.isPoll p
  | .wrote p _ => SessionPacket.isPoll p
  | .answered e _ => e.isPoll
  | .refused _ | .rejected _ | .emitted _ => false

namespace Trace

/-- The jobs that were published. -/
def jobs (trace : List Effect) : List JobTemplate :=
  (events trace).filterMap NetworkEvent.newJob?

@[simp] theorem jobs_append (trace more : List Effect) :
    jobs (trace ++ more) = jobs trace ++ jobs more := by
  rw [jobs, events_append, List.filterMap_append]
  rfl

/-- A header came, and its method was asked for at once. Since then there was, of all that
    concerns polls, just `since`. -/
def Asked (header : BlockHeader) (since trace : List Effect) : Prop :=
  ∃ earlier reply later,
    trace = earlier ++ .answered .header reply :: .accepted (.methodRequest header) :: later ∧
    BlockHeader.parse reply = .ok header ∧ later.filter Effect.concernsPolls = since

theorem Asked.append {header : BlockHeader} {since trace : List Effect}
    (h : Asked header since trace) (effects : List Effect) :
    Asked header (since ++ effects.filter Effect.concernsPolls) (trace ++ effects) := by
  obtain ⟨earlier, reply, later, rfl, hparse, rfl⟩ := h
  refine ⟨earlier, reply, later ++ effects, ?_, hparse, List.filter_append _ _⟩
  simp

/-- The job was built of a header and a method. The header came in a reply that made the session
    ask for the method of that header; nothing else was polled until the reply to this very
    request brought the method. -/
def HasOrigin (job : JobTemplate) (before : List Effect) : Prop :=
  ∃ earlier headerReply header request bytes between methodReply method,
    before = earlier ++ .answered .header headerReply :: .accepted request :: between ++
      [.answered (.method header) methodReply] ∧
    between.filter Effect.concernsPolls = [.wrote request bytes] ∧
    request.payload =
      Bytes.ofString ("RECEIVE-ASK-CONTENT-BLOCK-METHOD|" ++ header.method) ∧
    request.handler = some (.method header) ∧
    BlockHeader.parse headerReply = .ok header ∧ BlockMethod.parse methodReply = .ok method ∧
    JobTemplate.build header method = .ok job

/-- What is remembered is the last job; no job has the indication of the one before it; and
    every job has its origin. -/
structure Publishes (trace : List Effect) (last : Option String) : Prop where
  last_eq : last = (jobs trace).getLast?.map (·.indication)
  differs : (jobs trace).IsChain fun job next => job.indication ≠ next.indication
  origins : Along (fun before effect => ∀ job, effect = .emitted (.newJob job) →
    HasOrigin job before) trace

theorem publishes_nil : Publishes [] none := ⟨rfl, .nil, along_nil⟩

theorem newJob_notMem {effects : List Effect} (h : jobs effects = []) (job : JobTemplate) :
    .emitted (.newJob job) ∉ effects := by
  intro hmem
  have hevent : .newJob job ∈ events effects := List.mem_filterMap.mpr ⟨_, hmem, rfl⟩
  have hjob : job ∈ jobs effects := List.mem_filterMap.mpr ⟨_, hevent, rfl⟩
  rw [h] at hjob
  cases hjob

theorem Publishes.quiet {trace effects : List Effect} {last : Option String}
    (h : Publishes trace last) (hjobs : jobs effects = []) : Publishes (trace ++ effects) last := by
  have hall : jobs (trace ++ effects) = jobs trace := by
    rw [jobs_append, hjobs, List.append_nil]
  refine ⟨?_, ?_, h.origins.append_of_forall ?_⟩
  · rw [hall]
    exact h.last_eq
  · rw [hall]
    exact h.differs
  · intro effect hmem before job heffect
    exact absurd (heffect ▸ hmem) (newJob_notMem hjobs job)

/-- A job that differs from the last is published. -/
theorem Publishes.publish {trace : List Effect} {last : Option String} (h : Publishes trace last)
    {effect : Effect} {job : JobTemplate} {after : List Effect} (hnew : last ≠ some job.indication)
    (hjobs : jobs [effect] = []) (horigin : HasOrigin job (trace ++ [effect]))
    (hafter : jobs after = []) :
    Publishes (trace ++ effect :: .emitted (.newJob job) :: after) (some job.indication) := by
  -- the trace up to the job, the job, and the rest, each with its own part of the invariant
  have hsplit : trace ++ effect :: .emitted (.newJob job) :: after =
      trace ++ [effect] ++ [.emitted (.newJob job)] ++ after := by
    simp
  have hjob : jobs [.emitted (.newJob job)] = [job] := rfl
  have hold := h.quiet hjobs
  rw [hsplit]
  refine Publishes.quiet ⟨?_, ?_, hold.origins.concat ?_⟩ hafter
  · rw [jobs_append, hjob, List.getLast?_concat]
    rfl
  · rw [jobs_append, hjob]
    refine hold.differs.append (.singleton job) ?_
    -- what was remembered is the indication of the job before
    intro previous hprevious next hnext heq
    cases hnext
    rw [hold.last_eq, hprevious] at hnew
    exact hnew (congrArg some heq)
  · rintro job' ⟨⟩
    exact horigin

end Trace

/-! ## Polls of a connection -/

namespace Connection

open Trace

/-- While a method is asked for, its header remains new, and nothing else concerns polls but that
    the request was written. -/
structure Asks (trace : List Effect) (c : Connection) : Prop where
  queued : ∀ header, SessionPacket.methodRequest header ∈ c.queue.packets →
    c.lastIndication ≠ some header.indication ∧ Asked header [] trace
  awaited : ∀ header, c.awaiting = some (.method header) →
    c.lastIndication ≠ some header.indication ∧
      ∃ bytes, Asked header [.wrote (.methodRequest header) bytes] trace

namespace Asks

variable {trace effects since : List Effect} {c c' : Connection}

/-- A step that concerns no poll. -/
theorem quiet (h : Asks trace c)
    (hqueued : ∀ header, SessionPacket.methodRequest header ∈ c'.queue.packets →
      SessionPacket.methodRequest header ∈ c.queue.packets)
    (hawaited : ∀ header, c'.awaiting = some (.method header) →
      c.awaiting = some (.method header))
    (hlast : c'.lastIndication = c.lastIndication)
    (heffects : effects.filter Effect.concernsPolls = []) : Asks (trace ++ effects) c' := by
  -- what was asked for is still asked for: nothing that concerns a poll has come between
  refine ⟨fun header hmem => ?_, fun header hawaiting => ?_⟩
  · obtain ⟨hnew, hasked⟩ := h.queued header (hqueued header hmem)
    have hmore := hasked.append effects
    rw [heffects] at hmore
    exact ⟨hlast ▸ hnew, hmore⟩
  · obtain ⟨hnew, bytes, hasked⟩ := h.awaited header (hawaited header hawaiting)
    have hmore := hasked.append effects
    rw [heffects] at hmore
    exact ⟨hlast ▸ hnew, bytes, hmore⟩

theorem start (settings : NetworkSettings) (cipher : TransportCipher) (certificate : Bytes)
    (last : Option String) (trace : List Effect) :
    Asks trace (Connection.start settings cipher certificate last) := by
  refine ⟨fun header hmem => ?_, nofun⟩
  rcases List.mem_cons.mp hmem with heq | hmem
  · cases congrArg OutboundPacket.handler heq
  · cases congrArg OutboundPacket.handler (List.mem_singleton.mp hmem)

end Asks

/-- While a request waits that has the turn, no method request is queued. -/
theorem OnePoll.methodRequest_notMem {since : List Effect} {c : Connection} (h : OnePoll since c)
    {e : Expectation} (hawaiting : c.awaiting = some e) (he : e.hasTurn = true)
    (header : BlockHeader) : SessionPacket.methodRequest header ∉ c.queue.packets := by
  intro hmem
  have hturns := h.turns_le
  rw [expectations_of_awaiting hawaiting, List.countP_cons, if_pos he] at hturns
  have hmethod : .method header ∈ c.queue.packets.filterMap (·.handler) :=
    List.mem_filterMap.mpr ⟨_, hmem, rfl⟩
  have hcount := List.countP_pos_iff.mpr ⟨_, hmethod, (rfl : Expectation.hasTurn (.method header) = true)⟩
  omega

/-- A reaction that sends nothing concerns no poll. -/
theorem filter_followEffects {c : Connection} {reaction : Reaction}
    (h : reaction.followUp = none) :
    (c.followEffects reaction).filter Effect.concernsPolls = [] := by
  rw [List.filter_eq_nil_iff]
  intro effect hmem
  rw [followEffects, h, Option.toList_none, List.map_nil, List.append_nil] at hmem
  rcases List.mem_append.mp hmem with hmem | hmem
  · obtain ⟨fault, -, rfl⟩ := List.mem_map.mp hmem
    exact Bool.false_ne_true
  · obtain ⟨event, -, rfl⟩ := List.mem_map.mp hmem
    exact Bool.false_ne_true

namespace Asks

variable {trace effects since : List Effect} {c c' : Connection}

theorem send (h : Asks trace c) (o : Offer) :
    Asks (trace ++ [.ofOffer c.queue.accepting o.packet]) (c.offer o.packet).2 := by
  have hpoll := isPoll_offer o
  refine h.quiet ?_ (fun header hawaiting => hawaiting) rfl ?_
  · intro header hmem
    rcases mem_packets_offer hmem with hmem | heq
    · exact hmem
    · rw [← heq] at hpoll
      cases hpoll
  · cases c.queue.accepting <;> simp [Effect.ofOffer, Effect.concernsPolls, hpoll]

/-- A method request that is written has its reply still to come. -/
theorem write (h : Asks trace c) (hone : OnePoll since c) {p : SessionPacket}
    {ps : List SessionPacket} (packets : c.queue.packets = p :: ps) (bytes : Bytes)
    {since' : List Effect} (hone' : OnePoll since'
      { c with queue := { c.queue with packets := ps }, awaiting := p.handler }) :
    Asks (trace ++ [.wrote p bytes])
      { c with queue := { c.queue with packets := ps }, awaiting := p.handler } := by
  have hmem : p ∈ c.queue.packets := by
    rw [packets]
    exact List.mem_cons_self
  by_cases hpoll : SessionPacket.isPoll p = true
  · -- the poll leaves the queue, in which there was no other
    have hrequest := hone.jobRequests p hmem hpoll
    refine ⟨fun header hqueued => ?_, fun header hawaiting => ?_⟩
    · obtain ⟨e, he, hturn⟩ := hrequest.handler
      have hhas : e.hasTurn = true := Bool.or_eq_true_iff.mpr (Or.inr hturn)
      exact absurd hqueued (hone'.methodRequest_notMem he hhas header)
    · rcases hrequest with rfl | ⟨header', rfl⟩
      · cases hawaiting
      · cases hawaiting
        obtain ⟨hnew, hasked⟩ := h.queued header hmem
        exact ⟨hnew, bytes, hasked.append [.wrote _ bytes]⟩
  · -- any other packet leaves the requests for methods as they are
    refine h.quiet (fun header hqueued => ?_) (fun header hawaiting => ?_) rfl ?_
    · rw [packets]
      exact List.mem_cons_of_mem _ hqueued
    · -- a packet that is no poll asks for no method
      have hmethod : p.handler = some (.method header) := hawaiting
      rw [SessionPacket.isPoll, hmethod] at hpoll
      exact absurd rfl hpoll
    · simp [Effect.concernsPolls, hpoll]

/-- An answer to a request with the turn puts its follow-up into the queue, which can be the
    request for a method; any other answer leaves the requests for methods as they are. -/
theorem answer (h : Asks trace c) (hone : OnePoll since c) {e : Expectation} {reply : Bytes}
    {roundTrip : Duration} {reaction : Reaction} (hawaiting : c.awaiting = some e)
    (hreact : e.react c.lastIndication reply roundTrip = .ok reaction) :
    Asks (trace ++ .answered e reply :: c.followEffects reaction) (c.follow reaction) := by
  have hidle : (c.follow reaction).awaiting = none := by rw [follow_eq]
  cases he : e.hasTurn with
  | true =>
    -- only the follow-up can be a method request
    refine ⟨fun header hmem => ?_, fun header hmethod => ?_⟩
    · -- no method was asked for before, since the request answered had the only turn
      have hold := hone.methodRequest_notMem hawaiting he header
      rw [packets_follow] at hmem
      rcases List.mem_append.mp hmem with hmem | hmem
      · exact absurd hmem hold
      · cases hopen : c.queue.accepting with
        | false =>
          rw [hopen] at hmem
          cases hmem
        | true =>
          rw [hopen, if_pos rfl, Option.mem_toList] at hmem
          obtain ⟨rfl, hparse, hnew, rfl⟩ := Expectation.method_of_react hreact hmem
          refine ⟨?_, trace, reply, [], ?_, hparse, rfl⟩
          · rw [follow_eq]
            exact hnew
          · simp [followEffects, Reaction.send, hopen, Effect.ofOffer]
    · rw [hidle] at hmethod
      cases hmethod
  | false =>
    -- without the turn there is no follow-up
    have hpasses := Expectation.passesTurn_react hreact
    have hnone := hpasses.followUp_of_not_hasTurn he
    refine h.quiet (fun header hmem => ?_) (fun header hmethod => ?_) ?_ ?_
    · rcases mem_packets_follow hmem with hmem | hfollowUp
      · exact hmem
      · rw [hnone] at hfollowUp
        cases hfollowUp
    · rw [hidle] at hmethod
      cases hmethod
    · rw [follow_eq]
      rcases Expectation.jobs_of_react hreact with ⟨-, hlast⟩ | ⟨header, m, job, rfl, -⟩
      · exact hlast
      · cases he
    · have hpoll : e.isPoll = false := (Bool.or_eq_false_iff.mp he).2
      rw [List.filter_cons_of_neg (by simp [Effect.concernsPolls, hpoll])]
      exact filter_followEffects hnone

/-- Every step that leaves the connection up keeps the invariant. -/
theorem step (h : Asks trace c) (hone : OnePoll since c) {a : Action}
    (hstep : c.StepsTo a (.up c') effects) : Asks (trace ++ effects) c' := by
  have hone' := hone.step hstep
  cases hstep with
  | arrive bytes =>
    rw [arrive_eq]
    exact h.quiet (fun header hmem => hmem) (fun header hmethod => hmethod) rfl rfl
  | hangUp | disconnect | withstand | wait | close =>
    exact h.quiet (fun header hmem => hmem) (fun header hmethod => hmethod) rfl rfl
  | send o => exact h.send o
  | write idle flush packets => exact h.write hone packets _ hone'
  | @answer roundTrip e reply received codec reaction awaiting replied reacted =>
    -- taking the reply off the bytes received changes no request
    have hc : Asks trace { c with codec, received } := ⟨h.queued, h.awaited⟩
    have hone : OnePoll since { c with codec, received } :=
      ⟨hone.turns_le, hone.turns_of_accepting, hone.ready_iff, hone.jobRequests⟩
    exact hc.answer hone awaiting reacted

end Asks

/-! ## Steps -/

variable {trace effects : List Effect} {c : Connection} {a : Action} {link : Link}

/-- A job is published as soon as its method comes. It differs from the last one, because its
    header did when the method was asked for, and nothing was published since. -/
theorem publishes_answer (h : Publishes trace c.lastIndication) (hasks : Asks trace c)
    {e : Expectation} {reply : Bytes} {roundTrip : Duration} {reaction : Reaction}
    (hawaiting : c.awaiting = some e)
    (hreact : e.react c.lastIndication reply roundTrip = .ok reaction) :
    Publishes (trace ++ .answered e reply :: c.followEffects reaction)
      reaction.lastIndication := by
  rcases Expectation.jobs_of_react hreact with
    ⟨hjobs, hlast⟩ | ⟨header, m, job, rfl, hparse, hbuild, rfl⟩
  · -- most replies publish nothing
    rw [hlast]
    refine h.quiet ?_
    rw [jobs, events_answer]
    exact hjobs
  · -- a method was asked for, with a header that is known from the trace
    obtain ⟨hnew, bytes, earlier, headerReply, later, rfl, hheader, hlater⟩ :=
      hasks.awaited header hawaiting
    obtain ⟨aesKey, aesIv, hjob⟩ := JobTemplate.eq_of_build hbuild
    have hindication : job.indication = header.indication := by rw [hjob]
    have hoffer : jobs [.ofOffer c.queue.accepting .headerRequest] = [] := by
      rw [jobs, events_offer]
      rfl
    refine h.publish (hindication ▸ hnew) rfl ?_ hoffer
    exact ⟨earlier, headerReply, header, .methodRequest header, bytes, later, reply, m, rfl, hlater,
      rfl, rfl, hheader, hparse, hbuild⟩

/-- Every step of a connection keeps what is remembered in accord with what was published. -/
theorem publishes_step (h : Publishes trace c.lastIndication) (hasks : Asks trace c)
    (hstep : c.StepsTo a link effects) : Publishes (trace ++ effects) link.lastIndication := by
  cases hstep with
  | arrive bytes =>
    rw [arrive_eq]
    exact h.quiet rfl
  | hangUp | disconnect | withstand | wait | close | write | reject | fail | complete =>
    exact h.quiet rfl
  | send o =>
    refine h.quiet ?_
    rw [jobs, events_offer]
    rfl
  | @answer roundTrip e reply received codec reaction awaiting replied reacted =>
    rw [follow_eq]
    exact publishes_answer h hasks awaiting reacted

end Connection

/-! ## Replies that make no job -/

/-- A reply that spoils a poll only makes the session ask for the header again. -/
theorem Connection.StepsTo.of_spoils {c : Connection} {a : Connection.Action} {link : Link}
    {effects : List Effect} (h : c.StepsTo a link effects) {e : Expectation} {reply : Bytes}
    (hmem : .answered e reply ∈ effects) (hspoils : e.Spoils reply) :
    link.lastIndication = c.lastIndication ∧ link.isOpen = c.queue.accepting ∧
      Trace.jobs effects = [] ∧
      Trace.accepted effects = if c.queue.accepting then [.headerRequest] else [] := by
  have hanswer : (e, reply) ∈ Trace.answers effects := List.mem_filterMap.mpr ⟨_, hmem, rfl⟩
  -- only an answer hands over a reply, and a reply that spoils a poll fails no handler
  cases h with
  | arrive | hangUp | disconnect | withstand | wait | close | write | fail | complete =>
    cases hanswer
  | send o =>
    rw [Trace.answers_offer] at hanswer
    cases hanswer
  | @answer roundTrip e' reply' received codec reaction awaiting replied reacted =>
    rw [Trace.answers_answer] at hanswer
    cases List.mem_singleton.mp hanswer
    obtain ⟨rejected, hreact⟩ :=
      Expectation.react_of_spoils hspoils c.lastIndication roundTrip
    rw [hreact] at reacted
    cases reacted
    refine ⟨?_, Connection.accepting_follow _ _, ?_, Trace.accepted_answer c _ _ _⟩
    · rw [Connection.follow_eq]
      rfl
    · rw [Trace.jobs, Trace.events_answer]
      rfl
  | @reject roundTrip e' reply' received codec fault awaiting replied reacted =>
    cases List.mem_singleton.mp hanswer
    obtain ⟨rejected, hreact⟩ :=
      Expectation.react_of_spoils hspoils c.lastIndication roundTrip
    rw [hreact] at reacted
    cases reacted

/-! ## Replies that make a job -/

/-- A new header and its method take four steps, at the end of which the job is published and the
    next header asked for. -/
theorem Link.run_job {c : Connection} {cipher : TransportCipher} {headerReply methodReply : Bytes}
    {rest : Bytes} {header : BlockHeader} {m : BlockMethod} {job : JobTemplate}
    (hidle : c.awaiting = none) (hending : c.ending = false)
    (hqueue : c.queue = ⟨[SessionPacket.headerRequest], true⟩)
    (hcodec : c.codec = .start cipher) (hhungUp : c.hungUp = false)
    (hreceived : c.received = PacketCodec.frameOf cipher headerReply ++
      (PacketCodec.frameOf cipher methodReply ++ rest))
    (hheaderLength : headerReply.length ≤ PacketCodec.maxPayloadLength)
    (hmethodLength : methodReply.length ≤ PacketCodec.maxPayloadLength)
    (hheader : BlockHeader.parse headerReply = .ok header)
    (hnew : c.lastIndication ≠ some header.indication)
    (hmethod : BlockMethod.parse methodReply = .ok m)
    (hjob : JobTemplate.build header m = .ok job) (roundTrip : Duration) :
    ∃ before, (Link.up c).run (List.replicate 4 (.occur (.proceed roundTrip))) =
      (.up { c with received := rest, lastIndication := some job.indication },
        before ++ [.emitted (.newJob job), .accepted .headerRequest]) := by
  obtain ⟨codec, received, hungUp, queue, awaiting, ending, last⟩ := c
  obtain rfl : awaiting = none := hidle
  obtain rfl : ending = false := hending
  obtain rfl : queue = ⟨[SessionPacket.headerRequest], true⟩ := hqueue
  -- what comes of the two replies
  have hheaderReact : Expectation.header.react last headerReply roundTrip =
      .ok (.send last (.methodRequest header)) := by
    rw [Expectation.react, Expectation.reactToHeader, hheader]
    exact congrArg Except.ok (if_neg hnew)
  have hmethodReact : (Expectation.method header).react last methodReply roundTrip =
      .ok ⟨none, [.newJob job], some job.indication, some .headerRequest⟩ := by
    have hbuilt : (BlockMethod.parse methodReply).bind (JobTemplate.build header) = .ok job := by
      rw [hmethod]
      exact hjob
    rw [Expectation.react, Expectation.reactToMethod, hbuilt]
  -- one exchange for the header and one for the method
  let two : List Connection.Action :=
    [.occur (.proceed roundTrip), .occur (.proceed roundTrip)]
  let asking : Connection := ⟨codec, PacketCodec.frameOf cipher methodReply ++ rest, hungUp,
    ⟨[SessionPacket.methodRequest header], true⟩, none, false, last⟩
  have hheaderRun := Link.run_exchange
    (c := ⟨codec, received, hungUp, ⟨[SessionPacket.headerRequest], true⟩, none, false, last⟩)
    rfl rfl rfl rfl hcodec hhungUp hreceived hheaderLength hheaderReact
  have hmethodRun := Link.run_exchange (c := asking) rfl rfl rfl rfl hcodec hhungUp rfl
    hmethodLength hmethodReact
  obtain ⟨first, hfirst⟩ : ∃ first, (Link.up ⟨codec, received, hungUp,
      ⟨[SessionPacket.headerRequest], true⟩, none, false, last⟩).run two = (.up asking, first) :=
    ⟨_, hheaderRun⟩
  obtain ⟨second, hsecond⟩ : ∃ second, (Link.up asking).run two =
      (.up ⟨codec, rest, hungUp, ⟨[SessionPacket.headerRequest], true⟩, none, false,
        some job.indication⟩, second ++ [.emitted (.newJob job), .accepted .headerRequest]) :=
    ⟨[_, _], hmethodRun⟩
  refine ⟨first ++ second, ?_⟩
  show (Link.up _).run (two ++ two) = _
  rw [Link.run_append, hfirst, hsecond, List.append_assoc]

/-! ## Runs -/

namespace Network

open Trace

/-- Only a connection hands over replies. -/
theorem StepsTo.of_spoils {n : Network} {a : Action} {link : Link} {effects : List Effect}
    (h : n.StepsTo a link effects) {e : Expectation} {reply : Bytes}
    (hmem : .answered e reply ∈ effects) (hspoils : e.Spoils reply) :
    link.lastIndication = n.lastIndication ∧ link.isOpen = n.isConnected ∧
      jobs effects = [] ∧
      accepted effects = if n.isConnected then [.headerRequest] else [] := by
  have hanswer : (e, reply) ∈ answers effects := List.mem_filterMap.mpr ⟨_, hmem, rfl⟩
  cases h with
  | keep | fail | connect => cases hanswer
  | pass unattempted step =>
    rw [Network.lastIndication, isConnected]
    generalize n.link = l at step ⊢
    cases step with
    | refuse | rest => cases hanswer
    | act step => exact step.of_spoils hmem hspoils

/-- The invariants hold of every run, those of a connection as long as it is up. -/
theorem run_publishes (settings : NetworkSettings) (actions : List Action) :
    let n := (Network.start settings).run actions
    Publishes n.2 n.1.lastIndication ∧
      ∀ c, n.1.link = .up c → c.Asks n.2 ∧ ∃ since, c.OnePoll since := by
  refine run_concat_induction (P := fun trace link => Publishes trace link.lastIndication ∧
    ∀ c, link = .up c → c.Asks trace ∧ ∃ since, c.OnePoll since) ?_ ?_ actions
  · refine ⟨publishes_nil, ?_⟩
    rintro c ⟨⟩
  · intro trace effects n link a h hstep
    cases hstep with
    | keep =>
      rw [List.append_nil]
      exact h
    | fail turn down failed =>
      rw [down] at h
      refine ⟨h.1.quiet rfl, ?_⟩
      rintro c ⟨⟩
    | connect turn down made =>
      -- what is remembered outlives the connection, a request under way does not
      rw [down] at h
      refine ⟨h.1.quiet rfl, ?_⟩
      rintro c ⟨⟩
      exact ⟨.start _ _ _ _ _, [], Connection.onePoll_start _ _ _ _⟩
    | pass unattempted step =>
      generalize n.link = l at h step
      -- without a connection nothing is published, with one its own invariants carry the step
      cases step with
      | refuse | rest =>
        refine ⟨h.1.quiet rfl, ?_⟩
        rintro c ⟨⟩
      | @act c a link effects step =>
        obtain ⟨hasks, since, hone⟩ := h.2 c rfl
        refine ⟨Connection.publishes_step h.1 hasks step, ?_⟩
        rintro c' rfl
        exact ⟨hasks.step hone step, _, hone.step step⟩

/-- Over any number of connections, and whatever the replies are: no job is published with the
    indication of the job before it; every job is built of a header and of the method that was
    asked for with that header; a reply of which no job can be made changes nothing, and the
    header is asked for again; and what is remembered is the indication of the last job. -/
theorem run_publishes_new_jobs (settings : NetworkSettings) (actions : List Action) :
    let n := ((Network.start settings).run actions).1
    let trace := ((Network.start settings).run actions).2
    ((jobs trace).IsChain fun job next => job.indication ≠ next.indication) ∧
      (∀ before job after, trace = before ++ .emitted (.newJob job) :: after →
        HasOrigin job before) ∧
      (∀ a e reply, .answered e reply ∈ (n.step a).2 → e.Spoils reply →
        (n.step a).1.lastIndication = n.lastIndication ∧
          (n.step a).1.isConnected = n.isConnected ∧ jobs (n.step a).2 = [] ∧
          accepted (n.step a).2 = if n.isConnected then [.headerRequest] else []) ∧
      n.lastIndication = (jobs trace).getLast?.map (·.indication) := by
  intro n trace
  obtain ⟨hpublishes, -⟩ := run_publishes settings actions
  refine ⟨hpublishes.differs, ?_, ?_, hpublishes.last_eq⟩
  · intro before job after htrace
    exact hpublishes.origins before _ after htrace job rfl
  · intro a e reply hmem hspoils
    exact (n.stepsTo_step a).of_spoils hmem hspoils

/-- A connection that logs in and gets its first job. -/
theorem run_publishes_new_jobs_small :
    ∃ actions before job after,
      ((start ⟨⟨"", 0⟩, "", "", 0⟩).run actions).2 = before ++ .emitted (.newJob job) :: after ∧
      HasOrigin job before ∧
      ((start ⟨⟨"", 0⟩, "", "", 0⟩).run actions).1.lastIndication = some job.indication := by
  let settings : NetworkSettings := ⟨⟨"", 0⟩, "", "", 0⟩
  let proceed : Connection.Action := .occur (.proceed .zero)
  let headerReply := Bytes.ofString "SEND-CURRENT-BLOCK-MINING|ID=1&METHOD=m&INDICATION=i&JOB=2;9&KEY=k"
  let methodReply := Bytes.ofString "SEND-CONTENT-BLOCK-METHOD|1#128#s#x"
  let header : BlockHeader := ⟨1, 0, "m", "i", 0, 2, 9, [107]⟩
  let m : BlockMethod := ⟨1, .bits128, [115], [120]⟩
  have hparsed : BlockHeader.parse headerReply = .ok header ∧ BlockMethod.parse methodReply = .ok m ∧
      headerReply.length ≤ PacketCodec.maxPayloadLength ∧
      methodReply.length ≤ PacketCodec.maxPayloadLength ∧
      Expectation.loginAccepted.length ≤ PacketCodec.maxPayloadLength ∧
      (cipherOf (.ok [1])).isOk = true := by
    decide +kernel
  obtain ⟨hheader, hmethod, hheaderLength, hmethodLength, hloginLength, hmade⟩ := hparsed
  obtain ⟨job, hjob⟩ := JobTemplate.exists_build header m (by decide)
  -- the frames are made by the cipher of the connection, whatever it is
  cases hcipher : cipherOf (.ok [1]) with
  | error e =>
    rw [hcipher] at hmade
    cases hmade
  | ok made =>
    obtain ⟨cipher, certificate⟩ := made
    let frames := PacketCodec.frameOf cipher Expectation.loginAccepted ++
      (PacketCodec.frameOf cipher headerReply ++ (PacketCodec.frameOf cipher methodReply ++ []))
    have hconnect : (start settings).step (.call (.connect (.ok [1]))) =
        (⟨settings, .up (.start settings cipher certificate none), []⟩,
          .opened :: (Connection.handshake settings certificate).map .accepted) :=
      congrArg Prod.snd (openLink_of_made (n := start settings) rfl hcipher)
    have hlogin : Expectation.login.react none Expectation.loginAccepted .zero =
        .ok ⟨none, [.ready], none, some .headerRequest⟩ := by
      rw [Expectation.react, Expectation.reactToLogin, if_pos rfl]
    let c₁ : Connection := ⟨.start cipher, frames, false, ⟨[SessionPacket.login ""], true⟩, none,
      false, none⟩
    let c₂ : Connection := ⟨.start cipher, PacketCodec.frameOf cipher headerReply ++
      (PacketCodec.frameOf cipher methodReply ++ []), false,
      ⟨[SessionPacket.headerRequest], true⟩, none, false, none⟩
    have hready := Link.run_exchange (c := c₁) rfl rfl rfl rfl rfl rfl rfl hloginLength hlogin
    obtain ⟨first, hfirst⟩ : ∃ first, (Link.up (.start settings cipher certificate none)).run
        [.occur (.arrive frames), proceed] = (.up c₁, first) := ⟨_, rfl⟩
    obtain ⟨second, hsecond⟩ : ∃ second, (Link.up c₁).run [proceed, proceed] = (.up c₂, second) :=
      ⟨_, hready⟩
    obtain ⟨third, hthird⟩ := Link.run_job (c := c₂) rfl rfl rfl rfl rfl rfl hheaderLength
      hmethodLength hheader (Option.some_ne_none _).symm hmethod hjob .zero
    let passed : List Connection.Occurrence := .arrive frames :: List.replicate 7 (.proceed .zero)
    obtain ⟨before, hpassed⟩ : ∃ before, (Link.up (.start settings cipher certificate none)).run
        (passed.map .occur) = (.up { c₂ with received := [], lastIndication := some job.indication },
          before ++ [.emitted (.newJob job), .accepted .headerRequest]) := by
      refine ⟨first ++ (second ++ third), ?_⟩
      show (Link.up _).run ([.occur (.arrive frames), proceed] ++ ([proceed, proceed] ++
        List.replicate 4 proceed)) = _
      simp only [Link.run_append, hfirst, hsecond, proceed, hthird, List.append_assoc]
    let opening := .opened :: (Connection.handshake settings certificate).map .accepted ++ before
    have hrun : (start settings).run (.call (.connect (.ok [1])) :: passed.map .occur) =
        (⟨settings, .up { c₂ with received := [], lastIndication := some job.indication }, []⟩,
          opening ++ .emitted (.newJob job) :: [.accepted .headerRequest]) := by
      simp only [run, hconnect, run_occur, hpassed, opening, List.append_assoc]
    have htrace := congrArg Prod.snd hrun
    obtain ⟨-, horigins, -, -⟩ :=
      run_publishes_new_jobs settings (.call (.connect (.ok [1])) :: passed.map .occur)
    refine ⟨_, opening, job, _, htrace, horigins _ _ _ htrace, ?_⟩
    rw [hrun]
    rfl

end Network
end SoloMiner
