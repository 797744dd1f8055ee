import Mathlib.Logic.Basic
import SoloMiner.Session.Connection

/-! # Steps of a connection

    All that an action can do to a connection, with the conditions under which it does it.
    Whoever proves something of a run proves it of each of these outcomes, and has no need to
    look into the step itself. -/

namespace SoloMiner

/-! ## Replies -/

namespace Expectation

/-- `ReactsTo last reply roundTrip e reaction`: the reply to `e` may bring about this reaction. -/
inductive ReactsTo (last : Option String) (reply : Bytes) (roundTrip : Duration) :
    Expectation → Reaction → Prop where
  | login (accepted : reply = loginAccepted) :
      ReactsTo last reply roundTrip .login ⟨none, [.ready], last, some .headerRequest⟩
  | noHeader {fault : TemplateError} (refused : BlockHeader.parse reply = .error fault) :
      ReactsTo last reply roundTrip .header (.send last .headerRequest)
  | oldHeader {h : BlockHeader} (parsed : BlockHeader.parse reply = .ok h)
      (old : last = some h.indication) :
      ReactsTo last reply roundTrip .header (.send last .headerRequest)
  | newHeader {h : BlockHeader} (parsed : BlockHeader.parse reply = .ok h)
      (new : last ≠ some h.indication) :
      ReactsTo last reply roundTrip .header (.send last (.methodRequest h))
  | noJob {h : BlockHeader} {fault : TemplateError}
      (refused : (BlockMethod.parse reply).bind (JobTemplate.build h) = .error fault) :
      ReactsTo last reply roundTrip (.method h) ⟨some fault, [], last, some .headerRequest⟩
  | job {h : BlockHeader} {m : BlockMethod} {job : JobTemplate}
      (parsed : BlockMethod.parse reply = .ok m) (built : JobTemplate.build h m = .ok job) :
      ReactsTo last reply roundTrip (.method h)
        ⟨none, [.newJob job], some job.indication, some .headerRequest⟩
  | noVerdict {height : Int64} {jobType : JobType} (none : ShareStatus.ofReply? reply = none) :
      ReactsTo last reply roundTrip (.verdict height jobType) (.quiet last)
  | verdict {height : Int64} {jobType : JobType} {status : ShareStatus}
      (passed : ShareStatus.ofReply? reply = some status) :
      ReactsTo last reply roundTrip (.verdict height jobType)
        ⟨none, [.shareResult height jobType status roundTrip], last, none⟩
  | custom {judge : Bytes → Except NetworkError Unit} (accepted : judge reply = .ok ()) :
      ReactsTo last reply roundTrip (.custom judge) (.quiet last)

/-- A header is of no use, is that of the last job, or is new. Only a new one makes the
    connection ask for its method. -/
theorem reactsTo_header (last : Option String) (reply : Bytes) (roundTrip : Duration) :
    ReactsTo last reply roundTrip .header (reactToHeader last reply) := by
  unfold reactToHeader
  cases hparse : BlockHeader.parse reply with
  | error fault => exact .noHeader hparse
  | ok h =>
    show ReactsTo last reply roundTrip .header (if last = some h.indication then _ else _)
    by_cases hold : last = some h.indication
    · rw [if_pos hold]
      exact .oldHeader hparse hold
    · rw [if_neg hold]
      exact .newHeader hparse hold

/-- A method makes a job of the header it was asked for, or the two do not fit. Whichever of the
    steps to a job fails, the reaction is the same. -/
theorem reactsTo_method (h : BlockHeader) (last : Option String) (reply : Bytes)
    (roundTrip : Duration) :
    ReactsTo last reply roundTrip (.method h) (reactToMethod h last reply) := by
  unfold reactToMethod
  cases hjob : (BlockMethod.parse reply).bind (JobTemplate.build h) with
  | error fault => exact .noJob hjob
  | ok job =>
    -- the job was built, so the method was read before
    cases hparse : BlockMethod.parse reply with
    | error fault =>
      rw [hparse] at hjob
      cases hjob
    | ok m =>
      rw [hparse] at hjob
      exact .job hparse hjob

/-- A reply that does not end the connection brings about one of these reactions: one or two for
    each kind of request, and nothing else. -/
theorem reactsTo_react {e : Expectation} {last : Option String} {reply : Bytes}
    {roundTrip : Duration} {reaction : Reaction}
    (h : e.react last reply roundTrip = .ok reaction) :
    ReactsTo last reply roundTrip e reaction := by
  -- only a rejected login and an owner's judge can end the connection, and then there is no
  -- reaction
  cases e with
  | login =>
    simp only [react, reactToLogin] at h
    by_cases hreply : reply = loginAccepted
    · rw [if_pos hreply] at h
      cases h
      exact .login hreply
    · rw [if_neg hreply] at h
      cases h
  | header =>
    cases h
    exact reactsTo_header last reply roundTrip
  | method h' =>
    cases h
    exact reactsTo_method h' last reply roundTrip
  | verdict height jobType =>
    cases h
    unfold reactToVerdict
    cases hstatus : ShareStatus.ofReply? reply with
    | none => exact .noVerdict hstatus
    | some status => exact .verdict hstatus
  | custom judge =>
    simp only [react] at h
    cases hjudge : judge reply with
    | error fault =>
      rw [hjudge] at h
      cases h
    | ok u =>
      rw [hjudge] at h
      cases h
      exact .custom hjudge

end Expectation

namespace Connection

/-! ## Offers -/

theorem offer_fst (c : Connection) (p : SessionPacket) : (c.offer p).1 = c.queue.accepting := by
  show (c.queue.send p).1 = c.queue.accepting
  unfold PacketQueue.send
  cases c.queue.accepting with
  | true => rfl
  | false => rfl

theorem offer_of_accepting {c : Connection} (h : c.queue.accepting = true) (p : SessionPacket) :
    (c.offer p).2 = { c with queue := ⟨c.queue.packets ++ [p], true⟩ } := by
  show { c with queue := (c.queue.send p).2 } = _
  rw [PacketQueue.send, if_pos h, h]

theorem offer_of_closed {c : Connection} (h : c.queue.accepting = false) (p : SessionPacket) :
    (c.offer p).2 = c := by
  show { c with queue := (c.queue.send p).2 } = _
  rw [PacketQueue.send, h, if_neg Bool.false_ne_true]

/-- Only the queue can change, and it stays as open as it is. -/
@[simp] theorem accepting_offer (c : Connection) (p : SessionPacket) :
    (c.offer p).2.queue.accepting = c.queue.accepting := by
  cases h : c.queue.accepting with
  | true => rw [offer_of_accepting h]
  | false => rw [offer_of_closed h, h]

theorem packets_offer (c : Connection) (p : SessionPacket) :
    (c.offer p).2.queue.packets = c.queue.packets ++ if c.queue.accepting then [p] else [] := by
  cases h : c.queue.accepting with
  | true => rw [offer_of_accepting h, if_pos rfl]
  | false => rw [offer_of_closed h, if_neg Bool.false_ne_true, List.append_nil]

theorem mem_packets_offer {c : Connection} {p q : SessionPacket}
    (h : q ∈ (c.offer p).2.queue.packets) : q ∈ c.queue.packets ∨ q = p := by
  rw [packets_offer] at h
  rcases List.mem_append.mp h with h | h
  · exact Or.inl h
  · split at h
    · exact Or.inr (List.mem_singleton.mp h)
    · cases h

/-! ## Reactions -/

/-- The connection after a reply with this reaction. -/
def follow (c : Connection) (reaction : Reaction) : Connection :=
  let c := { c with awaiting := none, lastIndication := reaction.lastIndication }
  match reaction.followUp with
  | none => c
  | some p => (c.offer p).2

/-- A reply ends the waiting; but for the queue and the last indication that is all. -/
theorem follow_eq (c : Connection) (reaction : Reaction) :
    c.follow reaction =
      { c with
        awaiting := none
        lastIndication := reaction.lastIndication
        queue := (c.follow reaction).queue } := by
  unfold follow
  split
  · rfl
  · rfl

@[simp] theorem accepting_follow (c : Connection) (reaction : Reaction) :
    (c.follow reaction).queue.accepting = c.queue.accepting := by
  unfold follow
  split
  · rfl
  · rw [accepting_offer]

theorem packets_follow (c : Connection) (reaction : Reaction) :
    (c.follow reaction).queue.packets =
      c.queue.packets ++ if c.queue.accepting then reaction.followUp.toList else [] := by
  unfold follow
  cases reaction.followUp with
  | none => simp
  | some p =>
    exact packets_offer { c with awaiting := none, lastIndication := reaction.lastIndication } p

theorem mem_packets_follow {c : Connection} {reaction : Reaction} {p : SessionPacket}
    (h : p ∈ (c.follow reaction).queue.packets) :
    p ∈ c.queue.packets ∨ reaction.followUp = some p := by
  rw [packets_follow] at h
  rcases List.mem_append.mp h with h | h
  · exact Or.inl h
  · split at h
    · exact Or.inr (Option.mem_toList.mp h)
    · cases h

/-- What a reply with this reaction is seen to do. -/
def followEffects (c : Connection) (reaction : Reaction) : List Effect :=
  reaction.rejected.toList.map .rejected ++ reaction.events.map .emitted ++
    reaction.followUp.toList.map (.ofOffer c.queue.accepting)

theorem answer_of_react {c : Connection} {e : Expectation} {reply : Bytes} {roundTrip : Duration}
    {reaction : Reaction} (h : e.react c.lastIndication reply roundTrip = .ok reaction) :
    c.answer e reply roundTrip =
      (.up (c.follow reaction), .answered e reply :: c.followEffects reaction) := by
  unfold answer follow followEffects
  rw [h]
  cases hfollow : reaction.followUp with
  | none => simp [hfollow]
  | some p => simp [hfollow, offer_fst]

/-! ## Outcomes -/

/-- `c.StepsTo a link effects`: the action `a` may turn `c` into `link`, with these effects. -/
inductive StepsTo (c : Connection) : Action → Link → List Effect → Prop where
  | arrive (bytes : Bytes) :
      StepsTo c (.occur (.arrive bytes))
        (.up (if c.hungUp then c else { c with received := c.received ++ bytes })) []
  | hangUp : StepsTo c (.occur .hangUp) (.up { c with hungUp := true }) []
  | disconnect : StepsTo c .disconnect (.up { c with ending := true }) []
  | send (o : Offer) :
      StepsTo c (.send o) (.up (c.offer o.packet).2) [.ofOffer c.queue.accepting o.packet]
  /-- Nothing is under way that a fault from outside could end. -/
  | withstand {o : Occurrence} (fault : o = .expire ∨ o = .breakDown) :
      StepsTo c (.occur o) (.up c) []
  | wait {roundTrip : Duration} (stuck : c.proceed? roundTrip = none) :
      StepsTo c (.occur (.proceed roundTrip)) (.up c) []
  | close {roundTrip : Duration} (idle : c.awaiting = none) (flush : c.beginsFlush = true) :
      StepsTo c (.occur (.proceed roundTrip)) (.up { c with queue := c.queue.close }) []
  | write {roundTrip : Duration} {p : SessionPacket} {ps : List SessionPacket}
      (idle : c.awaiting = none) (flush : c.beginsFlush = false)
      (packets : c.queue.packets = p :: ps) :
      StepsTo c (.occur (.proceed roundTrip))
        (.up { c with queue := { c.queue with packets := ps }, awaiting := p.handler })
        [.wrote p (c.codec.encode p.frame)]
  | answer {roundTrip : Duration} {e : Expectation} {reply received : Bytes}
      {codec : PacketCodec} {reaction : Reaction} (awaiting : c.awaiting = some e)
      (replied : c.nextReply? = some (.ok reply, codec, received))
      (reacted : e.react c.lastIndication reply roundTrip = .ok reaction) :
      StepsTo c (.occur (.proceed roundTrip)) (.up ({ c with codec, received }.follow reaction))
        (.answered e reply :: c.followEffects reaction)
  /-- The handler of the reply fails. -/
  | reject {roundTrip : Duration} {e : Expectation} {reply received : Bytes}
      {codec : PacketCodec} {fault : NetworkError} (awaiting : c.awaiting = some e)
      (replied : c.nextReply? = some (.ok reply, codec, received))
      (reacted : e.react c.lastIndication reply roundTrip = .error fault) :
      StepsTo c (.occur (.proceed roundTrip)) (c.fail fault).1
        (.answered e reply :: (c.fail fault).2)
  | fail {o : Occurrence} (fault : NetworkError) :
      StepsTo c (.occur o) (c.fail fault).1 (c.fail fault).2
  | complete {roundTrip : Duration} (idle : c.awaiting = none)
      (closed : c.queue.accepting = false) (empty : c.queue.packets = []) :
      StepsTo c (.occur (.proceed roundTrip)) (c.finish .requested).1 (c.finish .requested).2

/-- Bytes that arrive change what was received and nothing else. -/
theorem arrive_eq (c : Connection) (bytes : Bytes) :
    (if c.hungUp then c else { c with received := c.received ++ bytes }) =
      { c with received := if c.hungUp then c.received else c.received ++ bytes } := by
  by_cases h : c.hungUp = true
  · rw [if_pos h, if_pos h]
  · rw [if_neg h, if_neg h]

theorem interrupt_eq (c : Connection) (fault : NetworkError) :
    c.interrupt fault = c.fail fault ∨ c.interrupt fault = (.up c, []) := by
  unfold interrupt
  exact ite_eq_or_eq _ _ _

theorem stepsTo_interrupt (c : Connection) {o : Occurrence} (ho : o = .expire ∨ o = .breakDown)
    (fault : NetworkError) :
    c.StepsTo (.occur o) (c.interrupt fault).1 (c.interrupt fault).2 := by
  rcases c.interrupt_eq fault with h | h
  · rw [h]
    exact .fail fault
  · rw [h]
    exact .withstand ho

/-- A reply is followed up, or its handler ends the connection. -/
theorem stepsTo_answer {c : Connection} {e : Expectation} {reply received : Bytes}
    {codec : PacketCodec} (roundTrip : Duration) (hawaiting : c.awaiting = some e)
    (hreply : c.nextReply? = some (.ok reply, codec, received)) :
    c.StepsTo (.occur (.proceed roundTrip))
      ({ c with codec, received }.answer e reply roundTrip).1
      ({ c with codec, received }.answer e reply roundTrip).2 := by
  cases hreact : e.react c.lastIndication reply roundTrip with
  | error fault =>
    unfold answer
    rw [hreact]
    exact .reject hawaiting hreply hreact
  | ok reaction =>
    have hanswer := answer_of_react (c := { c with codec, received }) (e := e) hreact
    rw [hanswer]
    exact .answer hawaiting hreply hreact

/-- Between two packets a connection closes its queue, writes the next packet, or ends behind the
    last one. -/
theorem stepsTo_takePacket {c : Connection} (roundTrip : Duration) (hidle : c.awaiting = none)
    {link : Link} {effects : List Effect} (h : c.takePacket? = some (link, effects)) :
    c.StepsTo (.occur (.proceed roundTrip)) link effects := by
  unfold takePacket? at h
  -- closing the queue comes before the next packet
  by_cases hflush : c.beginsFlush = true
  · rw [if_pos hflush] at h
    cases h
    exact .close hidle hflush
  · rw [if_neg hflush] at h
    unfold PacketQueue.receive at h
    cases hpackets : c.queue.packets with
    | cons p ps =>
      simp only [hpackets] at h
      cases h
      exact .write hidle (by simpa using hflush) hpackets
    | nil =>
      cases haccepting : c.queue.accepting with
      | true => simp [hpackets, haccepting] at h
      | false =>
        simp only [hpackets, haccepting, Bool.false_eq_true, if_false] at h
        cases h
        exact .complete hidle haccepting hpackets

/-- What a connection does by itself: between two packets it takes the next one, and otherwise it
    waits for a reply, meets a fault in its place, or hands it over. -/
theorem stepsTo_proceed (c : Connection) (roundTrip : Duration) :
    c.StepsTo (.occur (.proceed roundTrip)) ((c.proceed? roundTrip).getD (.up c, [])).1
      ((c.proceed? roundTrip).getD (.up c, [])).2 := by
  cases hnext : c.proceed? roundTrip with
  | none => exact .wait hnext
  | some outcome =>
    obtain ⟨link, effects⟩ := outcome
    show c.StepsTo _ link effects
    unfold proceed? at hnext
    -- a connection is between two packets or waits for a reply
    cases hawaiting : c.awaiting with
    | none =>
      simp only [hawaiting] at hnext
      exact stepsTo_takePacket roundTrip hawaiting hnext
    | some e =>
      simp only [hawaiting] at hnext
      rcases hreply : c.nextReply? with _ | ⟨fault | reply, codec, received⟩
      · simp [hreply] at hnext
      · simp only [hreply] at hnext
        cases hnext
        exact .fail fault
      · simp only [hreply, Option.some.injEq] at hnext
        have h := stepsTo_answer roundTrip hawaiting hreply
        rw [hawaiting, hnext] at h
        exact h

/-- A step has one of these outcomes. All invariants of a connection are proved over them, and
    never over the definition of a step. -/
theorem stepsTo_step (c : Connection) (a : Action) : c.StepsTo a (c.step a).1 (c.step a).2 := by
  cases a with
  | send o =>
    have h := StepsTo.send (c := c) o
    rw [← offer_fst c o.packet] at h
    exact h
  | disconnect => exact .disconnect
  | occur o =>
    cases o with
    | arrive bytes => exact .arrive bytes
    | hangUp => exact .hangUp
    | expire => exact stepsTo_interrupt c (Or.inl rfl) .timeout
    | breakDown => exact stepsTo_interrupt c (Or.inr rfl) .io
    | proceed roundTrip => exact stepsTo_proceed c roundTrip

/-! ## Requests under way -/

/-- The requests whose replies are still to come, in the order in which they come. The first of
    them may be waiting for its reply, and the others are not written yet. -/
def expectations (c : Connection) : List Expectation :=
  c.awaiting.toList ++ c.queue.packets.filterMap (·.handler)

theorem expectations_of_awaiting {c : Connection} {e : Expectation} (h : c.awaiting = some e) :
    c.expectations = e :: c.queue.packets.filterMap (·.handler) := by
  rw [expectations, h]
  rfl

/-- Writing a packet keeps the place of its request. -/
theorem expectations_write {c : Connection} {p : SessionPacket} {ps : List SessionPacket}
    (hidle : c.awaiting = none) (hpackets : c.queue.packets = p :: ps) :
    expectations { c with queue := { c.queue with packets := ps }, awaiting := p.handler } =
      c.expectations := by
  show p.handler.toList ++ ps.filterMap (·.handler) = c.expectations
  rw [expectations, hidle, hpackets, List.filterMap_cons]
  cases p.handler with
  | none => rfl
  | some e => rfl

/-- A packet that the queue takes puts its request behind all others; one that it turns away puts
    none. -/
theorem expectations_offer (c : Connection) (p : SessionPacket) :
    (c.offer p).2.expectations =
      c.expectations ++ (if c.queue.accepting then p.handler.toList else []) := by
  cases h : c.queue.accepting with
  | true =>
    rw [offer_of_accepting h, if_pos rfl]
    show c.awaiting.toList ++ (c.queue.packets ++ [p]).filterMap (·.handler) = _
    rw [List.filterMap_append, ← List.append_assoc]
    cases hp : p.handler with
    | none => simp [expectations, hp]
    | some e => simp [expectations, hp]
  | false => rw [offer_of_closed h, if_neg Bool.false_ne_true, List.append_nil]

/-- A reply answers the first request, and the next one goes to the end. -/
theorem expectations_follow (c : Connection) (reaction : Reaction) :
    (c.follow reaction).expectations =
      c.queue.packets.filterMap (·.handler) ++
        (if c.queue.accepting then (reaction.followUp.bind (·.handler)).toList else []) := by
  unfold follow
  cases reaction.followUp with
  | none => simp [expectations]
  | some p =>
    exact expectations_offer
      { c with awaiting := none, lastIndication := reaction.lastIndication } p

end Connection

/-! ## Runs -/

namespace Link

/-- A connection that has ended stays so. -/
theorem fst_run_down (last : Option String) (actions : List Connection.Action) :
    ((Link.down last).run actions).1 = .down last := by
  induction actions with
  | nil => rfl
  | cons a rest ih =>
    rw [run]
    cases a with
    | send o => exact ih
    | disconnect => exact ih
    | occur o => exact ih

/-- What every step keeps, of a connection and all the effects so far, a run keeps as long as
    the connection is up. -/
theorem run_induction {P : List Effect → Connection → Prop}
    (hstep : ∀ {trace : List Effect} {c c' : Connection} {a : Connection.Action}
      {effects : List Effect}, P trace c → c.StepsTo a (.up c') effects → P (trace ++ effects) c')
    {actions : List Connection.Action} {trace effects : List Effect} {c c' : Connection}
    (h : P trace c) (hrun : (Link.up c).run actions = (.up c', effects)) :
    P (trace ++ effects) c' := by
  induction actions generalizing trace effects c with
  | nil =>
    cases hrun
    rwa [List.append_nil]
  | cons a rest ih =>
    have houtcome := c.stepsTo_step a
    rw [run] at hrun
    -- the first step, whose effects come in front of those of the rest
    rcases hfirst : c.step a with ⟨last | c₁, first⟩
    · -- the connection has ended already, but the run leaves it up
      have hdown := fst_run_down last rest
      simp only [step, hfirst] at hrun
      rw [Prod.mk.injEq] at hrun
      rw [hdown] at hrun
      exact absurd hrun.1 (by simp)
    · simp only [step, hfirst] at hrun houtcome
      rw [Prod.mk.injEq] at hrun
      obtain ⟨hlink, rfl⟩ := hrun
      rw [← List.append_assoc]
      exact ih (hstep h houtcome) (Prod.ext hlink rfl)

end Link
end SoloMiner
