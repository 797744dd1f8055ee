import SoloMiner.Proofs.Session.Steps

/-! # One poll

    A session asks for its login, and from then on for jobs. The login request, and later the
    one request for a job, has the turn: its reply passes the turn on to the next request.
    The turn is never doubled, and only a closed queue loses it. -/

namespace SoloMiner

/-! ## Turns -/

def Expectation.isLogin : Expectation → Bool
  | .login => true
  | _ => false

/-- Does the reply to the request make the session ask for the next thing? While a session takes
    packets there is just one such request, from the login on. -/
def Expectation.hasTurn (e : Expectation) : Bool := e.isLogin || e.isPoll

/-- The two packets that ask for a job. -/
def SessionPacket.IsJobRequest (p : SessionPacket) : Prop :=
  p = .headerRequest ∨ ∃ h, p = .methodRequest h

theorem SessionPacket.IsJobRequest.handler {p : SessionPacket} (h : p.IsJobRequest) :
    ∃ e, p.handler = some e ∧ e.isPoll = true := by
  rcases h with rfl | ⟨header, rfl⟩
  · exact ⟨.header, rfl, rfl⟩
  · exact ⟨.method header, rfl, rfl⟩

theorem Expectation.isLogin_of_isPoll {e : Expectation} (h : e.isPoll = true) :
    e.isLogin = false := by
  cases e with
  | header | method => rfl
  | login | verdict | custom => cases h

/-- The login request is no poll, so the turns are counted apart. -/
theorem countP_hasTurn (es : List Expectation) :
    es.countP Expectation.hasTurn =
      es.countP Expectation.isLogin + es.countP Expectation.isPoll := by
  induction es with
  | nil => rfl
  | cons e es ih =>
    rw [List.countP_cons, List.countP_cons, List.countP_cons, ih]
    cases e <;> simp [Expectation.hasTurn, Expectation.isLogin, Expectation.isPoll] <;> omega

/-- What an owner sends has no turn. -/
theorem hasTurn_offer {o : Offer} {e : Expectation} (h : o.packet.handler = some e) :
    e.hasTurn = false := by
  cases o with
  | own p =>
    obtain ⟨judge, -, rfl⟩ := Option.map_eq_some_iff.mp h
    rfl
  | share s userAgent =>
    cases h
    rfl

theorem countP_hasTurn_offer (o : Offer) :
    o.packet.handler.toList.countP Expectation.hasTurn = 0 := by
  rw [List.countP_eq_zero]
  intro e he
  simp [hasTurn_offer (Option.mem_toList.mp he)]

theorem isPoll_offer (o : Offer) : SessionPacket.isPoll o.packet = false := by
  unfold SessionPacket.isPoll
  cases h : o.packet.handler with
  | none => rfl
  | some e => exact (Bool.or_eq_false_iff.mp (hasTurn_offer h)).2

/-! ## Reactions -/

/-- The reaction passes the turn of `e` on, if `e` has it. This is why there is never a second
    poll. -/
structure Reaction.PassesTurn (e : Expectation) (reaction : Reaction) : Prop where
  /-- Only a login makes the connection ready. -/
  ready_iff : .ready ∈ reaction.events ↔ e.isLogin = true
  followUp_of_hasTurn : e.hasTurn = true → ∃ p, reaction.followUp = some p ∧ p.IsJobRequest
  followUp_of_not_hasTurn : e.hasTurn = false → reaction.followUp = none

namespace Reaction

theorem passesTurn_of_isPoll {e : Expectation} (he : e.isPoll = true) {reaction : Reaction}
    {p : SessionPacket} (hready : .ready ∉ reaction.events) (hnext : reaction.followUp = some p)
    (hp : p.IsJobRequest) : reaction.PassesTurn e where
  ready_iff := by simp [hready, e.isLogin_of_isPoll he]
  followUp_of_hasTurn := fun _ => ⟨p, hnext, hp⟩
  followUp_of_not_hasTurn := by simp [Expectation.hasTurn, he]

theorem passesTurn_of_not_hasTurn {e : Expectation} (he : e.hasTurn = false)
    {reaction : Reaction} (hready : .ready ∉ reaction.events) (hnext : reaction.followUp = none) :
    reaction.PassesTurn e where
  ready_iff := by
    have hlogin : e.isLogin = false := (Bool.or_eq_false_iff.mp he).1
    simp [hready, hlogin]
  followUp_of_hasTurn := by simp [he]
  followUp_of_not_hasTurn := fun _ => hnext

end Reaction

namespace Expectation

/-- Every reply that does not end the connection passes the turn on: a poll is followed by the
    next poll, a login by the first one, and nothing else by any. -/
theorem passesTurn_react {e : Expectation} {last : Option String} {reply : Bytes}
    {roundTrip : Duration} {reaction : Reaction}
    (h : e.react last reply roundTrip = .ok reaction) : reaction.PassesTurn e := by
  cases reactsTo_react h with
  | login => exact ⟨by simp [isLogin], fun _ => ⟨_, rfl, Or.inl rfl⟩, fun h => by cases h⟩
  | noHeader | oldHeader | noJob =>
    exact Reaction.passesTurn_of_isPoll rfl List.not_mem_nil rfl (Or.inl rfl)
  | newHeader => exact Reaction.passesTurn_of_isPoll rfl List.not_mem_nil rfl (Or.inr ⟨_, rfl⟩)
  | job => exact Reaction.passesTurn_of_isPoll rfl (by simp) rfl (Or.inl rfl)
  | noVerdict | custom => exact Reaction.passesTurn_of_not_hasTurn rfl List.not_mem_nil rfl
  | verdict => exact Reaction.passesTurn_of_not_hasTurn rfl (by simp) rfl

end Expectation

/-! ## Effects -/

namespace Effect

theorem ready_ne_ofOffer (accepted : Bool) (p : SessionPacket) :
    .emitted .ready ≠ ofOffer accepted p := by
  cases accepted with
  | true => exact fun h => by cases h
  | false => exact fun h => by cases h

end Effect

namespace Connection

theorem ready_mem_followEffects {c : Connection} {reaction : Reaction} :
    .emitted .ready ∈ c.followEffects reaction ↔ .ready ∈ reaction.events := by
  have hoffer : Effect.emitted .ready ∉
      reaction.followUp.toList.map (Effect.ofOffer c.queue.accepting) := by
    intro h
    obtain ⟨p, -, hp⟩ := List.mem_map.mp h
    exact Effect.ready_ne_ofOffer _ p hp.symm
  simp [followEffects, hoffer]

theorem ready_mem_answer {c : Connection} {e : Expectation} {reaction : Reaction}
    (hpasses : reaction.PassesTurn e) {trace : List Effect} {reply : Bytes} :
    .emitted .ready ∈ trace ++ .answered e reply :: c.followEffects reaction ↔
      .emitted .ready ∈ trace ∨ e.isLogin = true := by
  rw [← hpasses.ready_iff, ← ready_mem_followEffects (c := c)]
  simp

/-! ## The invariant -/

/-- The polls of a connection: the requests for a job that are queued or wait for their reply.
    Submissions of shares do not count. -/
def polls (c : Connection) : Nat :=
  c.queue.packets.countP SessionPacket.isPoll + c.awaiting.toList.countP Expectation.isPoll

theorem countP_isPoll_expectations (c : Connection) :
    c.expectations.countP Expectation.isPoll = c.polls := by
  have hpackets : (c.queue.packets.filterMap (·.handler)).countP Expectation.isPoll =
      c.queue.packets.countP SessionPacket.isPoll := by
    rw [List.countP_filterMap]
    rfl
  rw [expectations, List.countP_append, hpackets, polls, Nat.add_comm]

/-- At most one request has the turn. It is the login until the connection is ready. -/
structure OnePoll (trace : List Effect) (c : Connection) : Prop where
  turns_le : c.expectations.countP Expectation.hasTurn ≤ 1
  turns_of_accepting : c.queue.accepting = true → c.expectations.countP Expectation.hasTurn = 1
  ready_iff : .emitted .ready ∈ trace ↔ c.expectations.countP Expectation.isLogin = 0
  jobRequests : ∀ p ∈ c.queue.packets, SessionPacket.isPoll p = true → SessionPacket.IsJobRequest p

/-- In the beginning the login request has the turn, and there is no poll. -/
theorem onePoll_start (settings : NetworkSettings) (cipher : TransportCipher)
    (certificate : Bytes) (last : Option String) :
    OnePoll [] (start settings cipher certificate last) := by
  have hexpectations : (start settings cipher certificate last).expectations = [.login] := rfl
  refine ⟨?_, ?_, ?_, ?_⟩
  · rw [hexpectations]
    decide
  · intro _
    rw [hexpectations]
    rfl
  · rw [hexpectations]
    simp [Expectation.isLogin]
  · intro p hp hpoll
    simp only [start, handshake, List.mem_cons, List.not_mem_nil, or_false] at hp
    rcases hp with rfl | rfl
    · cases hpoll
    · cases hpoll

namespace OnePoll

variable {trace effects : List Effect} {c c' : Connection}

/-- Only the requests under way matter, and closing the queue does no harm. -/
theorem congr (h : OnePoll trace c) (hexpectations : c'.expectations = c.expectations)
    (haccepting : c'.queue.accepting = true → c.queue.accepting = true)
    (hpackets : ∀ p ∈ c'.queue.packets, p ∈ c.queue.packets)
    (heffects : .emitted .ready ∉ effects) : OnePoll (trace ++ effects) c' where
  turns_le := by
    rw [hexpectations]
    exact h.turns_le
  turns_of_accepting := fun hopen => by
    rw [hexpectations]
    exact h.turns_of_accepting (haccepting hopen)
  ready_iff := by
    rw [hexpectations, List.mem_append, or_iff_left heffects]
    exact h.ready_iff
  jobRequests := fun p hp => h.jobRequests p (hpackets p hp)

theorem quiet (h : OnePoll trace c) (hqueue : c'.queue = c.queue)
    (hawaiting : c'.awaiting = c.awaiting) : OnePoll (trace ++ []) c' := by
  refine h.congr ?_ ?_ ?_ List.not_mem_nil
  · rw [expectations, expectations, hqueue, hawaiting]
  · rw [hqueue]
    exact id
  · rw [hqueue]
    exact fun p hp => hp

/-- What an owner offers has no turn, so the turns are counted as before, whether the queue takes
    it or not. -/
theorem send (h : OnePoll trace c) (o : Offer) :
    OnePoll (trace ++ [.ofOffer c.queue.accepting o.packet]) (c.offer o.packet).2 := by
  have heffects : Effect.emitted .ready ∉ [Effect.ofOffer c.queue.accepting o.packet] := by
    rw [List.mem_singleton]
    exact Effect.ready_ne_ofOffer _ _
  -- a closed queue changes nothing
  cases haccepting : c.queue.accepting with
  | false =>
    rw [offer_of_closed haccepting]
    rw [haccepting] at heffects
    exact h.congr rfl id (fun p hp => hp) heffects
  | true =>
    rw [haccepting] at heffects
    have hturns := countP_hasTurn_offer o
    have hsplit := countP_hasTurn o.packet.handler.toList
    have hexpectations : (c.offer o.packet).2.expectations =
        c.expectations ++ o.packet.handler.toList := by
      rw [expectations_offer, haccepting, if_pos rfl]
    refine ⟨?_, fun _ => ?_, ?_, ?_⟩
    · rw [hexpectations, List.countP_append, hturns]
      exact h.turns_le
    · rw [hexpectations, List.countP_append, hturns]
      exact h.turns_of_accepting haccepting
    · rw [hexpectations, List.countP_append, List.mem_append, or_iff_left heffects, h.ready_iff]
      omega
    · intro p hp hpoll
      rw [offer_of_accepting haccepting] at hp
      rcases List.mem_append.mp hp with hp | hp
      · exact h.jobRequests p hp hpoll
      · rw [List.mem_singleton.mp hp] at hpoll
        rw [isPoll_offer] at hpoll
        cases hpoll

/-- `e` has the only turn, and its follow-up gets it if the queue is open. -/
theorem answer_of_hasTurn (h : OnePoll trace c) {e : Expectation} {reply : Bytes}
    {reaction : Reaction} (hawaiting : c.awaiting = some e) (hpasses : reaction.PassesTurn e)
    (he : e.hasTurn = true) :
    OnePoll (trace ++ .answered e reply :: c.followEffects reaction) (c.follow reaction) := by
  obtain ⟨p, hp, hrequest⟩ := hpasses.followUp_of_hasTurn he
  obtain ⟨e', he', hpoll⟩ := hrequest.handler
  have hturns := h.turns_le
  have hlogins := h.ready_iff
  have hsplit := countP_hasTurn (c.queue.packets.filterMap (·.handler))
  rw [expectations_of_awaiting hawaiting, List.countP_cons] at hturns hlogins
  rw [if_pos he] at hturns
  have hnext : (c.follow reaction).expectations =
      c.queue.packets.filterMap (·.handler) ++ if c.queue.accepting then [e'] else [] := by
    rw [expectations_follow, hp, Option.bind_some, he', Option.toList_some]
  -- nothing else has the turn, so only the follow-up is counted
  have hturns' : (c.follow reaction).expectations.countP Expectation.hasTurn =
      if c.queue.accepting then 1 else 0 := by
    rw [hnext, List.countP_append, show List.countP _ (List.filterMap _ _) = 0 by omega]
    cases c.queue.accepting with
    | true => simp [Expectation.hasTurn, hpoll]
    | false => rfl
  have hlogins' : (c.follow reaction).expectations.countP Expectation.isLogin = 0 := by
    rw [hnext, List.countP_append, show List.countP _ (List.filterMap _ _) = 0 by omega]
    cases c.queue.accepting with
    | true => simp [e'.isLogin_of_isPoll hpoll]
    | false => rfl
  refine ⟨?_, fun haccepting => ?_, ?_, ?_⟩
  · rw [hturns']
    split <;> decide
  · rw [accepting_follow] at haccepting
    rw [hturns', if_pos haccepting]
  · rw [ready_mem_answer hpasses, hlogins, hlogins']
    refine iff_of_true ?_ rfl
    by_cases hlogin : e.isLogin = true
    · exact Or.inr hlogin
    · rw [if_neg hlogin]
      left
      omega
  · intro q hq hqpoll
    rcases mem_packets_follow hq with hq | hq
    · exact h.jobRequests q hq hqpoll
    · rw [hp] at hq
      cases hq
      exact hrequest

/-- Nothing follows, and the turn is where it was. -/
theorem answer_of_not_hasTurn (h : OnePoll trace c) {e : Expectation} {reply : Bytes}
    {reaction : Reaction} (hawaiting : c.awaiting = some e) (hpasses : reaction.PassesTurn e)
    (he : e.hasTurn = false) :
    OnePoll (trace ++ .answered e reply :: c.followEffects reaction) (c.follow reaction) := by
  have hp := hpasses.followUp_of_not_hasTurn he
  have hlogin : e.isLogin = false := (Bool.or_eq_false_iff.mp he).1
  have hturns := h.turns_le
  have hopen := h.turns_of_accepting
  have hlogins := h.ready_iff
  rw [expectations_of_awaiting hawaiting, List.countP_cons] at hturns hopen hlogins
  -- the request answered is gone, and none has come in its place
  have hnext : (c.follow reaction).expectations = c.queue.packets.filterMap (·.handler) := by
    rw [expectations_follow, hp]
    simp
  refine ⟨?_, fun haccepting => ?_, ?_, ?_⟩
  · rw [hnext]
    omega
  · rw [accepting_follow] at haccepting
    rw [hnext]
    simpa [he] using hopen haccepting
  · rw [ready_mem_answer hpasses, hnext]
    simpa [hlogin] using hlogins
  · intro q hq
    rcases mem_packets_follow hq with hq | hq
    · exact h.jobRequests q hq
    · rw [hp] at hq
      cases hq

/-- Every step that leaves the connection up keeps the invariant. Only an answer moves the turn:
    to the follow-up, if the request had it. -/
theorem step (h : OnePoll trace c) {a : Action} (hstep : c.StepsTo a (.up c') effects) :
    OnePoll (trace ++ effects) c' := by
  cases hstep with
  | arrive bytes =>
    rw [arrive_eq]
    exact h.quiet rfl rfl
  | hangUp => exact h.quiet rfl rfl
  | disconnect => exact h.quiet rfl rfl
  | send o => exact h.send o
  | withstand => exact h.quiet rfl rfl
  | wait => exact h.quiet rfl rfl
  | close => exact h.congr rfl (fun hopen => by cases hopen) (fun p hp => hp) List.not_mem_nil
  | write idle flush packets =>
    refine h.congr (expectations_write idle packets) id (fun p hp => ?_) (by simp)
    rw [packets]
    exact List.mem_cons_of_mem _ hp
  | @answer _ e reply received codec reaction awaiting replied reacted =>
    -- taking the reply off the bytes received changes no request
    have hc : OnePoll trace { c with codec, received } :=
      ⟨h.turns_le, h.turns_of_accepting, h.ready_iff, h.jobRequests⟩
    have hpasses := Expectation.passesTurn_react reacted
    cases he : e.hasTurn with
    | true => exact hc.answer_of_hasTurn awaiting hpasses he
    | false => exact hc.answer_of_not_hasTurn awaiting hpasses he

end OnePoll
end Connection

/-! ## Runs -/

namespace Link

/-- However the replies of the node, the packets of the owner and its wish to end are mixed, a
    connection has no poll before its login is accepted. From then on it has exactly one as
    long as its queue is open, and never more. All its polls are requests for a header or for a
    method. -/
theorem run_keeps_one_poll {settings : NetworkSettings} {cipher : TransportCipher}
    {certificate : Bytes} {last : Option String} {actions : List Connection.Action}
    {c : Connection} {effects : List Effect}
    (h : (Link.up (.start settings cipher certificate last)).run actions = (.up c, effects)) :
    (.emitted .ready ∉ effects → c.polls = 0) ∧
      (.emitted .ready ∈ effects → c.queue.accepting = true → c.polls = 1) ∧
      c.polls ≤ 1 ∧
      ∀ p ∈ c.queue.packets, SessionPacket.isPoll p = true → SessionPacket.IsJobRequest p := by
  have hinv := run_induction (fun hc hstep => Connection.OnePoll.step hc hstep)
    (Connection.onePoll_start settings cipher certificate last) h
  rw [List.nil_append] at hinv
  have hturns := hinv.turns_le
  have hopen := hinv.turns_of_accepting
  have hlogins := hinv.ready_iff
  -- a turn is that of a poll or of the login, and the login is under way just until it is accepted
  rw [countP_hasTurn, c.countP_isPoll_expectations] at hturns hopen
  refine ⟨fun hready => ?_, fun hready haccepting => ?_, by omega, hinv.jobRequests⟩
  · -- the login request still has the turn
    rw [hlogins] at hready
    omega
  · rw [hlogins] at hready
    have hone := hopen haccepting
    omega

/-- The run that ends with an accepted login. -/
theorem run_keeps_one_poll_small :
    ∃ c effects,
      (Link.up (.start ⟨⟨"", 0⟩, "", "", 0⟩ ⟨id, .zero⟩ [] none)).run
          [.occur (.arrive (PacketCodec.frameOf ⟨id, .zero⟩ Expectation.loginAccepted)),
            .occur (.proceed .zero), .occur (.proceed .zero), .occur (.proceed .zero)] =
        (.up c, effects) ∧
      .emitted .ready ∈ effects ∧ c.queue.accepting = true ∧ c.polls = 1 := by
  generalize hrun : Link.run _ _ = outcome
  have hfacts : outcome.1.isOpen = true ∧ .ready ∈ outcome.2.filterMap Effect.event? := by
    rw [← hrun]
    decide +kernel
  obtain ⟨hopen, hevents⟩ := hfacts
  rcases outcome with ⟨last | c, effects⟩
  · cases hopen
  · obtain ⟨effect, hmem, hevent⟩ := List.mem_filterMap.mp hevents
    have hready : .emitted .ready ∈ effects := by
      cases effect <;> cases hevent
      exact hmem
    exact ⟨c, effects, rfl, hready, hopen, (run_keeps_one_poll hrun).2.1 hready hopen⟩

end Link
end SoloMiner
