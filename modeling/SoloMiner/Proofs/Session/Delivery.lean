import SoloMiner.Proofs.Session.Correlation
import SoloMiner.Proofs.Session.Lifetimes

/-! # Delivery

    Packets are written in the order in which they were accepted, behind the certificate and
    the login. If the owner asks for the end of a connection and no exchange fails, all of them
    are written before it ends. A connection that flushes turns all further packets away, and
    writes at most those that are queued. -/

namespace SoloMiner

/-! ## Offers -/

def Effect.refused? : Effect → Option SessionPacket
  | .refused p => some p
  | _ => none

/-- The packets that were turned away. -/
def Trace.refused (trace : List Effect) : List SessionPacket := trace.filterMap Effect.refused?

@[simp] theorem Trace.refused_append (trace more : List Effect) :
    refused (trace ++ more) = refused trace ++ refused more :=
  List.filterMap_append

/-- Packets that are offered are turned away by a closed queue alone. -/
theorem Trace.refused_offers (isOpen : Bool) (ps : List SessionPacket) :
    refused (ps.map (.ofOffer isOpen)) = if isOpen then [] else ps := by
  induction ps with
  | nil => cases isOpen <;> rfl
  | cons p ps ih =>
    cases isOpen with
    | true => exact ih
    | false => exact congrArg (p :: ·) ih

/-- Of all that follows a reply, only the next packet can be turned away. -/
theorem Trace.refused_followEffects (c : Connection) (reaction : Reaction) :
    refused (c.followEffects reaction) =
      if c.queue.accepting then [] else reaction.followUp.toList := by
  have hevents : refused (reaction.events.map .emitted) = [] := by
    induction reaction.events with
    | nil => rfl
    | cons event events ih => exact ih
  have hrejected : refused (reaction.rejected.toList.map .rejected) = [] := by
    cases reaction.rejected <;> rfl
  unfold Connection.followEffects
  rw [refused_append, refused_append, hrejected, hevents, refused_offers]
  rfl

namespace Connection

/-- What becomes of the exchange under way, if its reply is there or a fault is found in the
    place of the reply. -/
def outcome? (c : Connection) (roundTrip : Duration) : Option (Except NetworkError Reaction) :=
  match c.awaiting, c.nextReply? with
  | some e, some (.ok reply, _, _) => some (e.react c.lastIndication reply roundTrip)
  | some _, some (.error fault, _, _) => some (.error fault)
  | _, _ => none

variable {c : Connection}

theorem outcome_of_react {e : Expectation} {reply received : Bytes} {codec : PacketCodec}
    (roundTrip : Duration) (awaiting : c.awaiting = some e)
    (replied : c.nextReply? = some (.ok reply, codec, received)) :
    c.outcome? roundTrip = some (e.react c.lastIndication reply roundTrip) := by
  rw [outcome?, awaiting, replied]

/-- The exchange comes to a good end: the reply is handed over. -/
theorem step_of_outcome {roundTrip : Duration} {reaction : Reaction}
    (h : c.outcome? roundTrip = some (.ok reaction)) :
    ∃ e reply codec received, c.step (.occur (.proceed roundTrip)) =
      (.up ({ c with codec, received }.follow reaction),
        .answered e reply :: c.followEffects reaction) := by
  unfold outcome? at h
  cases hawaiting : c.awaiting with
  | none => simp [hawaiting] at h
  | some e =>
    -- without a reply nothing comes of the exchange yet, and a fault is another outcome
    rcases hreply : c.nextReply? with _ | ⟨fault | reply, codec, received⟩
    · simp [hawaiting, hreply] at h
    · simp [hawaiting, hreply] at h
    · simp only [hawaiting, hreply, Option.some.injEq] at h
      refine ⟨e, reply, codec, received, ?_⟩
      have hanswer := answer_of_react (c := { c with codec, received }) (e := e) h
      show (c.proceed? roundTrip).getD (.up c, []) = _
      simp only [proceed?, hawaiting, hreply]
      exact hanswer

/-- If no handler runs, or one that fails, nothing is offered but by the owner. -/
theorem StepsTo.views_of_outcome {o : Occurrence} {link : Link} {effects : List Effect}
    (h : c.StepsTo (.occur o) link effects) (hquiet : ∀ roundTrip reaction,
      o = .proceed roundTrip → c.outcome? roundTrip ≠ some (.ok reaction)) :
    Trace.accepted effects = [] ∧ Trace.refused effects = [] := by
  cases h with
  | @answer roundTrip e reply received codec reaction awaiting replied reacted =>
    have houtcome := outcome_of_react roundTrip awaiting replied
    rw [reacted] at houtcome
    exact absurd houtcome (hquiet roundTrip reaction rfl)
  | arrive | hangUp | withstand | wait | close | write | reject | fail | complete =>
    exact ⟨rfl, rfl⟩

/-- The packets that are offered in a step, by the owner or by the handler of a reply. -/
def offers (c : Connection) : Action → List SessionPacket
  | .send o => [o.packet]
  | .occur (.proceed roundTrip) =>
    match c.outcome? roundTrip with
    | some (.ok reaction) => reaction.followUp.toList
    | _ => []
  | _ => []

/-- Every packet offered is accepted or turned away, by the state of the queue. -/
theorem views_step (c : Connection) (a : Action) :
    Trace.accepted (c.step a).2 = (if c.queue.accepting then c.offers a else []) ∧
      Trace.refused (c.step a).2 = if c.queue.accepting then [] else c.offers a := by
  -- where nothing is offered, both sides are empty
  have hquiet (heffects : Trace.accepted (c.step a).2 = [] ∧ Trace.refused (c.step a).2 = [])
      (hoffers : c.offers a = []) :
      Trace.accepted (c.step a).2 = (if c.queue.accepting then c.offers a else []) ∧
        Trace.refused (c.step a).2 = if c.queue.accepting then [] else c.offers a := by
    rw [heffects.1, heffects.2, hoffers, ite_self]
    exact ⟨rfl, rfl⟩
  have hstep := c.stepsTo_step a
  cases a with
  | send o =>
    have heffects : (c.step (.send o)).2 = [.ofOffer c.queue.accepting o.packet] := by
      rw [← c.offer_fst o.packet]
      rfl
    rw [heffects]
    exact ⟨Trace.accepted_offer _ _, Trace.refused_offers _ [o.packet]⟩
  | disconnect => exact hquiet ⟨rfl, rfl⟩ rfl
  | occur o =>
    cases o with
    | arrive | hangUp | expire | breakDown =>
      refine hquiet (hstep.views_of_outcome ?_) rfl
      intro roundTrip reaction ho
      cases ho
    | proceed roundTrip =>
      -- only a handler that succeeds offers anything
      by_cases hruns : ∃ reaction, c.outcome? roundTrip = some (.ok reaction)
      · obtain ⟨reaction, houtcome⟩ := hruns
        obtain ⟨e, reply, codec, received, hreply⟩ := step_of_outcome houtcome
        simp only [hreply, offers, houtcome]
        exact ⟨Trace.accepted_answer c e reply reaction, Trace.refused_followEffects c reaction⟩
      · rw [not_exists] at hruns
        refine hquiet (hstep.views_of_outcome ?_) ?_
        · rintro _ reaction ⟨⟩
          exact hruns reaction
        · show (match c.outcome? roundTrip with
            | some (.ok reaction) => reaction.followUp.toList
            | _ => []) = []
          split
          next reaction houtcome => exact absurd houtcome (hruns reaction)
          next => rfl

end Connection

namespace Link

/-- The packets that are offered in a step. -/
def offers : Link → Connection.Action → List SessionPacket
  | .up c, a => c.offers a
  | .down _, .send o => [o.packet]
  | .down _, _ => []

/-- The packets that are offered in a run. -/
def offered : Link → List Connection.Action → List SessionPacket
  | _, [] => []
  | l, a :: rest => l.offers a ++ (l.step a).1.offered rest

/-- Those of them that are offered while the link takes packets. From the time it begins to
    close, what is offered is turned away. -/
def offeredOpen : Link → List Connection.Action → List SessionPacket
  | _, [] => []
  | l, a :: rest => (if l.isOpen then l.offers a else []) ++ (l.step a).1.offeredOpen rest

theorem views_step (l : Link) (a : Connection.Action) :
    Trace.accepted (l.step a).2 = (if l.isOpen then l.offers a else []) ∧
      Trace.refused (l.step a).2 = if l.isOpen then [] else l.offers a := by
  cases l with
  | up c => exact c.views_step a
  | down last =>
    cases a with
    | send | disconnect | occur => exact ⟨rfl, rfl⟩

theorem accepted_run (l : Link) (actions : List Connection.Action) :
    Trace.accepted (l.run actions).2 = l.offeredOpen actions := by
  induction actions generalizing l with
  | nil => rfl
  | cons a rest ih =>
    have hfirst := (l.views_step a).1
    have hrest := ih (l.step a).1
    rw [run, Trace.accepted_append, hfirst, hrest, offeredOpen]

/-- A link that takes no packets goes on taking none: a queue that is closed is never opened
    again. -/
theorem StepsTo.closed {l l' : Link} {a : Connection.Action} {effects : List Effect}
    (h : l.StepsTo a l' effects) (hclosed : l.isOpen = false) : l'.isOpen = false := by
  cases h with
  | refuse | rest => rfl
  | @act c a link effects step =>
    have hqueue : c.queue.accepting = false := hclosed
    cases step with
    | arrive bytes =>
      rw [Connection.arrive_eq]
      exact hqueue
    | hangUp | disconnect | withstand | wait | write => exact hqueue
    | close | reject | fail | complete => rfl
    | send o =>
      rw [Connection.offer_of_closed hqueue]
      exact hqueue
    | answer => exact (Connection.accepting_follow _ _).trans hqueue

/-- So from then on a run accepts nothing, and turns away all that is offered. -/
theorem run_of_closed {l : Link} (h : l.isOpen = false) (actions : List Connection.Action) :
    (l.run actions).1.isOpen = false ∧ Trace.accepted (l.run actions).2 = [] ∧
      Trace.refused (l.run actions).2 = l.offered actions := by
  induction actions generalizing l with
  | nil => exact ⟨h, rfl, rfl⟩
  | cons a rest ih =>
    obtain ⟨haccepted, hrefused⟩ := l.views_step a
    simp only [h, Bool.false_eq_true, if_false] at haccepted hrefused
    obtain ⟨hopen, haccepted', hrefused'⟩ := ih ((l.stepsTo_step a).closed h)
    refine ⟨hopen, ?_, ?_⟩
    · rw [run, Trace.accepted_append, haccepted, haccepted']
      rfl
    · rw [run, Trace.refused_append, hrefused, hrefused', offered]

end Link

/-! ## Ends -/

namespace Connection

/-- Its owner has not asked for the end, and it takes packets. It closes only if an exchange
    fails or the node closes its side. -/
structure IsKept (c : Connection) : Prop where
  accepting : c.queue.accepting = true
  ending : c.ending = false

theorem isKept_start (settings : NetworkSettings) (cipher : TransportCipher)
    (certificate : Bytes) (last : Option String) :
    (Connection.start settings cipher certificate last).IsKept :=
  ⟨rfl, rfl⟩

variable {c : Connection}

/-- Only its owner brings a connection to close its queue: a flush begins because the end was
    asked for, and nothing else closes it. -/
theorem IsKept.step {c' : Connection} {a : Action} {effects : List Effect} (h : c.IsKept)
    (hstep : c.StepsTo a (.up c') effects) (ha : a ≠ .disconnect) : c'.IsKept := by
  cases hstep with
  | arrive bytes =>
    rw [arrive_eq]
    exact ⟨h.accepting, h.ending⟩
  | hangUp | withstand | wait | write => exact ⟨h.accepting, h.ending⟩
  | disconnect => exact absurd rfl ha
  | send o =>
    rw [offer_of_accepting h.accepting]
    exact ⟨rfl, h.ending⟩
  | close idle flush =>
    rw [beginsFlush, h.ending] at flush
    cases flush
  | answer awaiting replied reacted =>
    refine ⟨?_, ?_⟩
    · rw [accepting_follow]
      exact h.accepting
    · rw [follow_eq]
      exact h.ending

/-- Does an exchange fail in the step? Its reply may be a fault or be turned down by the handler,
    and until the reply is there a fault may come from outside. -/
def fails (c : Connection) : Action → Bool
  | .occur (.proceed roundTrip) =>
    match c.outcome? roundTrip with
    | some (.error _) => true
    | _ => false
  | .occur .expire | .occur .breakDown =>
    match c.awaiting with
    | some _ => c.nextReply?.isNone
    | none => !c.beginsFlush && !c.queue.packets.isEmpty
  | _ => false

/-- Between two packets a connection ends only when there are no more and there will be none. -/
theorem queue_of_takePacket {last : Option String} {effects : List Effect}
    (h : c.takePacket? = some (.down last, effects)) :
    c.queue.accepting = false ∧ c.queue.packets = [] := by
  unfold takePacket? at h
  by_cases hflush : c.beginsFlush = true
  · rw [if_pos hflush] at h
    cases h
  · rw [if_neg hflush] at h
    unfold PacketQueue.receive at h
    -- a packet would be written, and an open queue would be waited for
    cases hpackets : c.queue.packets with
    | cons p ps =>
      rw [hpackets] at h
      cases h
    | nil =>
      cases haccepting : c.queue.accepting with
      | true => simp [hpackets, haccepting] at h
      | false => exact ⟨rfl, rfl⟩

/-- Without a fault a connection ends once its queue is closed and empty. -/
theorem queue_of_down {a : Action} {last : Option String} (h : (c.step a).1 = .down last)
    (hfails : c.fails a = false) : c.queue.accepting = false ∧ c.queue.packets = [] := by
  -- a fault from outside ends nothing but an exchange
  have hinterrupt (fault : NetworkError) (hbusy : c.fails (.occur .expire) = false) :
      (c.interrupt fault).1 = .up c := by
    have hcases : c.interrupt fault =
        if c.fails (.occur .expire) then c.fail fault else (.up c, []) := rfl
    rw [hcases, hbusy]
    rfl
  cases a with
  | send | disconnect => cases h
  | occur o =>
    cases o with
    | arrive | hangUp => cases h
    | expire =>
      have hup := hinterrupt .timeout hfails
      cases h.symm.trans hup
    | breakDown =>
      have hup := hinterrupt .io hfails
      cases h.symm.trans hup
    | proceed roundTrip =>
      have hnext : ((c.proceed? roundTrip).getD (.up c, [])).1 = .down last := h
      rcases houtcome : c.outcome? roundTrip with _ | ⟨fault | reaction⟩
      · -- the connection is between two packets, or goes on waiting
        cases hawaiting : c.awaiting with
        | none =>
          simp only [proceed?, hawaiting] at hnext
          rcases htake : c.takePacket? with _ | ⟨link, effects⟩
          · rw [htake] at hnext
            cases hnext
          · rw [htake] at hnext
            have hlink : link = .down last := hnext
            rw [hlink] at htake
            exact queue_of_takePacket htake
        | some e =>
          have hreply : c.nextReply? = none := by
            rcases hreply : c.nextReply? with _ | ⟨fault | reply, codec, received⟩
            · rfl
            · simp [outcome?, hawaiting, hreply] at houtcome
            · simp [outcome?, hawaiting, hreply] at houtcome
          simp only [proceed?, hawaiting, hreply] at hnext
          cases hnext
      · -- the exchange fails, which was ruled out
        simp [fails, houtcome] at hfails
      · -- a reply is handed over, and the connection stays up
        obtain ⟨e, reply, codec, received, hstep⟩ := step_of_outcome houtcome
        rw [hstep] at h
        cases h

end Connection

namespace Link

/-- Does an exchange fail in the step? -/
def fails : Link → Connection.Action → Bool
  | .up c, a => c.fails a
  | .down _, _ => false

/-- Does no exchange fail in the run? Then, when the connection has ended, all that was accepted
    has been delivered. -/
def isFaultless : Link → List Connection.Action → Bool
  | _, [] => true
  | l, a :: rest => !l.fails a && (l.step a).1.isFaultless rest

theorem isFaultless_concat (l : Link) (actions : List Connection.Action)
    (a : Connection.Action) :
    l.isFaultless (actions ++ [a]) = (l.isFaultless actions && !(l.run actions).1.fails a) := by
  induction actions generalizing l with
  | nil => simp [isFaultless, run]
  | cons first rest ih => simp [isFaultless, run, ih, Bool.and_assoc]

end Link

/-! ## Flushes -/

theorem Connection.isFlushing_iff {c : Connection} :
    c.isFlushing = true ↔ c.queue.accepting = false := by
  simp [isFlushing]

/-- A connection that flushes takes its next step, unless it waits for a reply. Then the wait
    may run out. -/
theorem Connection.proceeds_or_expires {c : Connection} (h : c.isFlushing = true)
    (roundTrip : Duration) : (c.proceed? roundTrip).isSome = true ∨
      (Link.up c).step (.occur .expire) = (.down c.lastIndication,
        [.emitted (.disconnected .requested)]) := by
  have hclosed : c.queue.accepting = false := isFlushing_iff.mp h
  cases hawaiting : c.awaiting with
  | none =>
    -- between two packets of a closed queue there is always a step
    refine Or.inl ?_
    have hflush : c.beginsFlush = false := by rw [beginsFlush, hclosed, Bool.and_false]
    simp only [proceed?, hawaiting, takePacket?, hflush, Bool.false_eq_true, if_false,
      PacketQueue.receive]
    cases hpackets : c.queue.packets with
    | nil => simp [hclosed]
    | cons p ps => rfl
  | some e =>
    -- in an exchange the reply is there, or the wait for it can run out
    rcases hreply : c.nextReply? with _ | ⟨fault | reply, codec, received⟩
    · refine Or.inr ?_
      show c.interrupt .timeout = _
      simp [interrupt, hawaiting, hreply, fail, h, finish]
    · exact Or.inl (by simp [proceed?, hawaiting, hreply])
    · exact Or.inl (by simp [proceed?, hawaiting, hreply])

namespace Link

/-- Does the connection take a step of its own? -/
def isMove : Link → Connection.Action → Bool
  | .up c, .occur (.proceed roundTrip) => (c.proceed? roundTrip).isSome
  | _, _ => false

/-- Number of steps of its own that the connection takes in a run. -/
def moves : Link → List Connection.Action → Nat
  | _, [] => 0
  | l, a :: rest => (l.isMove a).toNat + (l.step a).1.moves rest

/-- Number of steps that a connection that flushes has still to take at most: two for each
    packet, one for the reply that it waits for, and one to end. -/
def stepsLeft : Link → Nat
  | .up c => 2 * c.queue.packets.length + c.awaiting.toList.length + 1
  | .down _ => 0

/-- With a closed queue each step that the connection takes by itself uses up one of those left.
    Other actions use up none and bring no more, for nothing is accepted any more. -/
theorem StepsTo.stepsLeft {l l' : Link} {a : Connection.Action} {effects : List Effect}
    (h : l.StepsTo a l' effects) (hclosed : l.isOpen = false) :
    (l.isMove a).toNat + l'.stepsLeft ≤ l.stepsLeft := by
  have hmove := (l.isMove a).toNat_le
  cases h with
  | refuse | rest => simp [isMove, Link.stepsLeft]
  | @act c a link effects step =>
    have hqueue : c.queue.accepting = false := hclosed
    cases step with
    | arrive bytes =>
      rw [Connection.arrive_eq]
      simp [isMove, Link.stepsLeft]
    | hangUp | disconnect => simp [isMove, Link.stepsLeft]
    | withstand fault =>
      rcases fault with rfl | rfl
      · simp [isMove]
      · simp [isMove]
    | wait stuck => simp [isMove, stuck]
    | send o =>
      rw [Connection.offer_of_closed hqueue]
      simp [isMove]
    | close idle flush =>
      rw [Connection.beginsFlush, hqueue, Bool.and_false] at flush
      cases flush
    | @write _ p ps idle flush packets =>
      -- one packet less, and perhaps one reply more to come
      have hhandler : p.handler.toList.length ≤ 1 := by
        cases p.handler <;> simp
      simp only [Link.stepsLeft, packets, List.length_cons]
      omega
    | @answer _ e reply received codec reaction awaiting replied reacted =>
      -- the follow-up is turned away
      let taken : Connection := { c with codec, received }
      have hpackets : (taken.follow reaction).queue.packets = c.queue.packets := by
        rw [Connection.packets_follow]
        simp [taken, hqueue]
      have hawaiting : (taken.follow reaction).awaiting = none := by
        rw [Connection.follow_eq]
      simp only [Link.stepsLeft]
      rw [hpackets, hawaiting, awaiting]
      simp only [Option.toList_none, Option.toList_some, List.length_nil, List.length_singleton]
      omega
    | reject | fail | complete =>
      simp only [Link.stepsLeft, Connection.fail, Connection.finish]
      omega

/-- So the steps taken in a run, and those that are left at its end, are at most those that were
    left at its start. -/
theorem moves_le {l : Link} (h : l.isOpen = false) (actions : List Connection.Action) :
    l.moves actions + (l.run actions).1.stepsLeft ≤ l.stepsLeft := by
  induction actions generalizing l with
  | nil => simp [moves, run]
  | cons a rest ih =>
    have hstep := l.stepsTo_step a
    have hfirst := hstep.stepsLeft h
    have hrest := ih (hstep.closed h)
    simp only [moves, run]
    omega

/-! ## Runs -/

variable (settings : NetworkSettings) (cipher : TransportCipher) (certificate : Bytes)
  (last : Option String)

/-- What is written was accepted, in this order. -/
theorem written_prefix (actions : List Connection.Action) :
    let trace := ((Link.up (.start settings cipher certificate last)).run actions).2
    Trace.written trace <+: Connection.handshake settings certificate ++ Trace.accepted trace := by
  refine run_concat_induction (P := fun _ trace _ => Trace.written trace <+:
    Connection.handshake settings certificate ++ Trace.accepted trace) (List.nil_prefix) ?_ actions
  intro actions trace effects l₁ l₂ a hrun h hstep
  rw [Trace.written_append, Trace.accepted_append]
  -- while the connection is up its queue makes up the difference; when it ends, nothing more is
  -- written
  cases l₂ with
  | down last₂ =>
    obtain ⟨haccepted, hwritten⟩ := hstep.views_of_down
    rw [haccepted, hwritten, List.append_nil, List.append_nil]
    exact h
  | up c' =>
    cases hstep with
    | @act c a link effects step =>
      have hserves := (run_correlates settings cipher certificate last actions).2 c
      rw [hrun] at hserves
      have hqueue := ((hserves rfl).2.step step).accepted_eq
      rw [Trace.written_append, Trace.accepted_append] at hqueue
      rw [hqueue]
      exact List.prefix_append _ _

/-- As long as its owner does not ask for the end, a connection takes packets. -/
theorem isKept_of_notMem {actions : List Connection.Action} (h : .disconnect ∉ actions)
    {c : Connection}
    (hlink : ((Link.up (.start settings cipher certificate last)).run actions).1 = .up c) :
    c.IsKept := by
  refine run_concat_induction (P := fun actions _ link => .disconnect ∉ actions →
    ∀ c, link = .up c → c.IsKept) ?_ ?_ actions h c hlink
  · rintro - c ⟨⟩
    exact Connection.isKept_start settings cipher certificate last
  · rintro actions trace effects l₁ l₂ a - ih hstep hnot c' rfl
    rw [List.mem_append, not_or] at hnot
    cases hstep with
    | @act c a link effects step =>
      -- the last action is not the wish to end either
      refine (ih hnot.1 c rfl).step step ?_
      rintro rfl
      exact hnot.2 List.mem_cons_self

/-- If no exchange fails, a connection ends because its owner asks for that, and with all its
    packets written. -/
theorem written_of_faultless {actions : List Connection.Action} {last' : Option String}
    (hfaultless : (Link.up (.start settings cipher certificate last)).isFaultless actions = true)
    (hdown : ((Link.up (.start settings cipher certificate last)).run actions).1 = .down last') :
    let trace := ((Link.up (.start settings cipher certificate last)).run actions).2
    .disconnect ∈ actions ∧
      Trace.written trace = Connection.handshake settings certificate ++ Trace.accepted trace := by
  induction actions using List.reverseRecOn generalizing last' with
  | nil => cases hdown
  | append_singleton actions a ih =>
    rw [isFaultless_concat, Bool.and_eq_true, Bool.not_eq_true'] at hfaultless
    rw [run_concat] at hdown ⊢
    obtain ⟨hbefore, hlast⟩ := hfaultless
    -- the last step keeps what was written, whether it ends the connection or comes after
    have hstep := ((Link.up (.start settings cipher certificate last)).run actions).1.stepsTo_step a
    rw [hdown] at hstep
    obtain ⟨haccepted, hwritten⟩ := hstep.views_of_down
    show _ ∧ Trace.written (_ ++ _) = _ ++ Trace.accepted (_ ++ _)
    rw [Trace.written_append, Trace.accepted_append, haccepted, hwritten, List.append_nil,
      List.append_nil, List.mem_append]
    cases hlink : ((Link.up (.start settings cipher certificate last)).run actions).1 with
    | down last₁ =>
      -- it had ended before
      obtain ⟨hasked, hall⟩ := ih hbefore hlink
      exact ⟨Or.inl hasked, hall⟩
    | up c =>
      rw [hlink] at hdown hlast
      obtain ⟨hclosed, hempty⟩ := Connection.queue_of_down hdown hlast
      have hserves := ((run_correlates settings cipher certificate last actions).2 c hlink).2
      refine ⟨Or.inl ?_, ?_⟩
      · -- the queue is closed, so the owner must have asked for it
        by_contra hnot
        have hkept := isKept_of_notMem settings cipher certificate last hnot hlink
        rw [hkept.accepting] at hclosed
        cases hclosed
      · rw [hserves.accepted_eq, hempty, List.append_nil]

/-- The packets accepted are those offered while the queue is open, and the packets written are
    always the first of them, the certificate and the login in front. When a connection ends
    though no exchange failed, its owner asked for the end, and every packet accepted was
    written. From the moment a connection flushes, every packet offered to it is turned away,
    those of handlers too, and only packets that are queued already are written; each of its
    steps brings the end closer, and there is always a next step unless it waits for a reply,
    which ends it when it does not come in time. -/
theorem run_delivers_in_order (actions : List Connection.Action) :
    let l := Link.up (.start settings cipher certificate last)
    let trace := (l.run actions).2
    let handshake := Connection.handshake settings certificate
    Trace.accepted trace = l.offeredOpen actions ∧
      Trace.written trace <+: handshake ++ Trace.accepted trace ∧
      (∀ last', (l.run actions).1 = .down last' → l.isFaultless actions = true →
        .disconnect ∈ actions ∧ Trace.written trace = handshake ++ Trace.accepted trace) ∧
      ∀ before after c, actions = before ++ after → (l.run before).1 = .up c →
        c.isFlushing = true →
          let flush := (Link.up c).run after
          trace = (l.run before).2 ++ flush.2 ∧
            Trace.accepted flush.2 = [] ∧ Trace.refused flush.2 = (Link.up c).offered after ∧
            Trace.written flush.2 <+: c.queue.packets ∧
            (Link.up c).moves after ≤ 2 * c.queue.packets.length + 2 ∧
            ∀ c' roundTrip, flush.1 = .up c' → (c'.proceed? roundTrip).isSome = true ∨
              ((Link.up c').step (.occur .expire)).1.isUp = false := by
  intro l trace handshake
  have hordered := written_prefix settings cipher certificate last actions
  refine ⟨accepted_run l actions, hordered, ?_, ?_⟩
  · intro last' hdown hfaultless
    exact written_of_faultless settings cipher certificate last hfaultless hdown
  · rintro before after c rfl hlink hflushing flush
    have hclosed : (Link.up c).isOpen = false := Connection.isFlushing_iff.mp hflushing
    have htrace : trace = (l.run before).2 ++ flush.2 := by
      show (l.run (before ++ after)).2 = _
      rw [run_append, hlink]
    obtain ⟨hopen, haccepted, hrefused⟩ := run_of_closed hclosed after
    have hmoves := moves_le hclosed after
    refine ⟨htrace, haccepted, hrefused, ?_, ?_, ?_⟩
    · -- what was written before the flush is all that was accepted but for the queue
      have hserves := ((run_correlates settings cipher certificate last before).2 c hlink).2
      have hall : Trace.written (l.run before).2 ++ Trace.written flush.2 <+:
          Trace.written (l.run before).2 ++ c.queue.packets := by
        rw [← Trace.written_append, ← hserves.accepted_eq, ← htrace]
        have haccepted' : Trace.accepted trace = Trace.accepted (l.run before).2 := by
          rw [htrace, Trace.accepted_append, haccepted, List.append_nil]
        rw [← haccepted']
        exact hordered
      exact (List.prefix_append_right_inj _).mp hall
    · -- a flush begins with at most one exchange under way
      have hawaiting : c.awaiting.toList.length ≤ 1 := by
        cases c.awaiting <;> simp
      have hleft : (Link.up c).stepsLeft =
          2 * c.queue.packets.length + c.awaiting.toList.length + 1 := rfl
      omega
    · intro c' roundTrip hlink'
      have hopen' : flush.1.isOpen = false := hopen
      rw [hlink'] at hopen'
      have hflushing' : c'.isFlushing = true := Connection.isFlushing_iff.mpr hopen'
      rcases Connection.proceeds_or_expires hflushing' roundTrip with hmove | hexpire
      · exact Or.inl hmove
      · exact Or.inr (by rw [hexpire]; rfl)

/-- The owner asks for the end while the login is under way and a share is queued. Of what is
    offered later only the follow-up of the login is accepted. -/
theorem run_delivers_in_order_small :
    let cipher : TransportCipher := ⟨id, .zero⟩
    let l := Link.up (.start ⟨⟨"", 0⟩, "", "", 0⟩ cipher [] none)
    let share := Offer.share ⟨5, .random, 1, .add, 2, 3, "", ""⟩ ""
    let arrive (reply : Bytes) :=
      Connection.Action.occur (.arrive (PacketCodec.frameOf cipher reply))
    let proceed := Connection.Action.occur (.proceed .zero)
    let before := [proceed, proceed, .send share, .disconnect, arrive Expectation.loginAccepted,
      proceed, proceed]
    let after := [.send share, proceed, arrive (Bytes.ofString "SEND-JOB-STATUS|UNLOCK"), proceed,
      proceed, arrive [], proceed, proceed]
    let trace := (l.run (before ++ after)).2
    ∃ c, (l.run before).1 = .up c ∧ c.isFlushing = true ∧ c.queue.packets.length = 2 ∧
      Trace.written trace = Connection.handshake ⟨⟨"", 0⟩, "", "", 0⟩ [] ++ Trace.accepted trace ∧
      (Trace.written trace).length = 4 ∧
      (Trace.refused ((Link.up c).run after).2).length = 2 := by
  intro cipher l share arrive proceed before after trace
  have hfacts : (l.run before).1.isUp = true ∧ (l.run before).1.isOpen = false ∧
      (l.run before).1.stepsLeft = 5 ∧ ((l.run before).1.offered after).length = 2 ∧
      (l.run (before ++ after)).1.isUp = false ∧ l.isFaultless (before ++ after) = true ∧
      (Trace.written trace).length = 4 := by
    decide +kernel
  obtain ⟨hup, hclosed, hleft, hoffered, hdown, hfaultless, hwritten⟩ := hfacts
  obtain ⟨-, -, hends, hflushes⟩ :=
    run_delivers_in_order ⟨⟨"", 0⟩, "", "", 0⟩ cipher [] none (before ++ after)
  cases hlink : (l.run before).1 with
  | down last =>
    rw [hlink] at hup
    cases hup
  | up c =>
    rw [hlink] at hclosed hleft hoffered
    have hflushing : c.isFlushing = true := Connection.isFlushing_iff.mpr hclosed
    have hpackets : 2 * c.queue.packets.length + c.awaiting.toList.length + 1 = 5 := hleft
    have hawaiting : c.awaiting.toList.length ≤ 1 := by
      cases c.awaiting <;> simp
    obtain ⟨-, -, hrefused, -, -, -⟩ := hflushes before after c rfl hlink hflushing
    cases hend : (l.run (before ++ after)).1 with
    | up c' =>
      rw [hend] at hdown
      cases hdown
    | down last =>
      obtain ⟨-, hall⟩ := hends last hend hfaultless
      refine ⟨c, rfl, hflushing, by omega, hall, hwritten, ?_⟩
      rw [hrefused]
      exact hoffered

end Link
end SoloMiner
