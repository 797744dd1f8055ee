import SoloMiner.Proofs.Session.Calls
import SoloMiner.Proofs.Session.Polling

/-! # Lifetimes of connections

    The events of a network come in blocks, one for each attempt to connect. A block tells of
    the login, then of jobs and verdicts, and at last of the end of the connection; a
    connection that fails before its login tells of its end alone. Between one end and the next
    connection nothing can be sent. -/

namespace SoloMiner

/-! ## Blocks -/

namespace NetworkEvent

/-- Does the event tell of a job or of a verdict? -/
def IsNews : NetworkEvent → Prop
  | .newJob _ | .shareResult .. => True
  | .ready | .disconnected _ => False

/-- The events of a connection that is up: nothing before the login, and behind it news of jobs
    and shares. -/
inductive Unfinished : List NetworkEvent → Prop where
  | beforeLogin : Unfinished []
  | afterLogin {news : List NetworkEvent} (isNews : ∀ event ∈ news, event.IsNews) :
      Unfinished (.ready :: news)

/-- The events of an attempt that is over: those of a connection, if there was one, and its end
    as the last one. -/
inductive Finished : List NetworkEvent → Prop where
  | disconnected {block : List NetworkEvent} (unfinished : Unfinished block)
      (reason : DisconnectReason) : Finished (block ++ [.disconnected reason])

/-- Blocks of which the last is unfinished if a connection is up, and no other ever is. Each
    attempt to connect has one block. -/
def AreBlocks (isUp : Bool) : List (List NetworkEvent) → Prop
  | [] => isUp = false
  | [block] => if isUp then Unfinished block else Finished block
  | block :: blocks => Finished block ∧ AreBlocks isUp blocks

theorem AreBlocks.cons {isUp : Bool} {block : List NetworkEvent} {blocks : List (List NetworkEvent)}
    (hblock : Finished block) (hblocks : AreBlocks isUp blocks) :
    AreBlocks isUp (block :: blocks) := by
  cases blocks with
  | nil =>
    have hdown : isUp = false := hblocks
    subst hdown
    exact hblock
  | cons next blocks => exact ⟨hblock, hblocks⟩

end NetworkEvent

open NetworkEvent

/-! ## Reactions -/

namespace Expectation

/-- Only the login makes a connection ready, and all else that is emitted is news. -/
theorem events_of_react {e : Expectation} {last : Option String} {reply : Bytes}
    {roundTrip : Duration} {reaction : Reaction}
    (h : e.react last reply roundTrip = .ok reaction) :
    (e = .login ∧ reaction.events = [.ready]) ∨
      e ≠ .login ∧ ∀ event ∈ reaction.events, event.IsNews := by
  cases reactsTo_react h with
  | login => exact Or.inl ⟨rfl, rfl⟩
  | noHeader | oldHeader | newHeader | noJob | noVerdict | custom =>
    exact Or.inr ⟨nofun, nofun⟩
  | job | verdict =>
    refine Or.inr ⟨nofun, ?_⟩
    intro event hmem
    rw [List.mem_singleton.mp hmem]
    trivial

/-- Nothing that follows a reply asks for a login. -/
theorem login_notMem_followUp {e : Expectation} {last : Option String} {reply : Bytes}
    {roundTrip : Duration} {reaction : Reaction}
    (h : e.react last reply roundTrip = .ok reaction) :
    .login ∉ (reaction.followUp.bind (·.handler)).toList := by
  cases reactsTo_react h with
  | login | noHeader | oldHeader | newHeader | noJob | job => exact nofun
  | noVerdict | verdict | custom => exact List.not_mem_nil

end Expectation

/-! ## Phases of a connection -/

namespace Connection

/-- How far a connection is, and the events that it has emitted so far. Its first reply answers
    the login. -/
inductive Phase (c : Connection) : List NetworkEvent → Prop where
  | loggingIn {others : List Expectation} (requests : c.expectations = .login :: others)
      (once : .login ∉ others) : Phase c []
  | loggedIn {news : List NetworkEvent} (requests : .login ∉ c.expectations)
      (isNews : ∀ event ∈ news, event.IsNews) : Phase c (.ready :: news)

namespace Phase

variable {c c' : Connection} {block : List NetworkEvent} {effects : List Effect}

theorem start (settings : NetworkSettings) (cipher : TransportCipher) (certificate : Bytes)
    (last : Option String) : Phase (Connection.start settings cipher certificate last) [] :=
  .loggingIn rfl nofun

theorem unfinished (h : Phase c block) : Unfinished block := by
  cases h with
  | loggingIn requests once => exact .beforeLogin
  | loggedIn requests isNews => exact .afterLogin isNews

/-- Requests behind those under way, none of them a login, and no events: the phase stays what it
    is. -/
theorem extend (h : Phase c block) {more : List Expectation}
    (hexpectations : c'.expectations = c.expectations ++ more) (hmore : .login ∉ more)
    (hevents : Trace.events effects = []) : Phase c' (block ++ Trace.events effects) := by
  rw [hevents, List.append_nil]
  cases h with
  | loggingIn requests once =>
    rw [requests, List.cons_append] at hexpectations
    refine .loggingIn hexpectations ?_
    rw [List.mem_append, not_or]
    exact ⟨once, hmore⟩
  | loggedIn requests isNews =>
    refine .loggedIn ?_ isNews
    rw [hexpectations, List.mem_append, not_or]
    exact ⟨requests, hmore⟩

/-- Only the requests under way matter. -/
theorem quiet (h : Phase c block) (hexpectations : c'.expectations = c.expectations)
    (hevents : Trace.events effects = []) : Phase c' (block ++ Trace.events effects) :=
  h.extend (hexpectations.trans (List.append_nil _).symm) List.not_mem_nil hevents

/-- An offer of the owner is no login, so it does not change the phase, whether it is taken or
    not. -/
theorem send (h : Phase c block) (o : Offer) :
    Phase (c.offer o.packet).2
      (block ++ Trace.events [.ofOffer c.queue.accepting o.packet]) := by
  refine h.extend (expectations_offer c o.packet) ?_ (Trace.events_offer _ _)
  intro hlogin
  split at hlogin
  · have hturn := hasTurn_offer (Option.mem_toList.mp hlogin)
    cases hturn
  · cases hlogin

/-- A reply moves the phase on: the first one answers the login, and every later one tells of
    news. -/
theorem answer (h : Phase c block) {e : Expectation} {reply : Bytes} {roundTrip : Duration}
    {reaction : Reaction} (hawaiting : c.awaiting = some e)
    (hreact : e.react c.lastIndication reply roundTrip = .ok reaction) :
    Phase (c.follow reaction)
      (block ++ Trace.events (.answered e reply :: c.followEffects reaction)) := by
  have hfollowUp := Expectation.login_notMem_followUp hreact
  have hnext := expectations_follow c reaction
  -- the requests behind the one that is answered
  have hothers {rest : List Expectation} (hrest : .login ∉ rest)
      (heq : c.queue.packets.filterMap (·.handler) = rest) :
      .login ∉ (c.follow reaction).expectations := by
    rw [hnext, List.mem_append, not_or, heq]
    refine ⟨hrest, ?_⟩
    split
    · exact hfollowUp
    · exact List.not_mem_nil
  rw [Trace.events_answer]
  cases h with
  | loggingIn requests once =>
    -- the first request is the login, so this is its reply
    rw [expectations_of_awaiting hawaiting, List.cons.injEq] at requests
    obtain ⟨rfl, hrest⟩ := requests
    rcases Expectation.events_of_react hreact with ⟨-, hready⟩ | ⟨hne, -⟩
    · rw [hready]
      exact .loggedIn (hothers once hrest) nofun
    · exact absurd rfl hne
  | loggedIn requests isNews =>
    rw [expectations_of_awaiting hawaiting, List.mem_cons, not_or] at requests
    rcases Expectation.events_of_react hreact with ⟨rfl, -⟩ | ⟨-, hnews⟩
    · exact absurd rfl requests.1
    · refine .loggedIn (hothers requests.2 rfl) ?_
      intro event hmem
      rcases List.mem_append.mp hmem with hold | hnew
      · exact isNews event hold
      · exact hnews event hnew

/-- A connection that stays up goes on with its block. -/
theorem step (h : Phase c block) {a : Action} (hstep : c.StepsTo a (.up c') effects) :
    Phase c' (block ++ Trace.events effects) := by
  cases hstep with
  | arrive bytes =>
    rw [arrive_eq]
    exact h.quiet rfl rfl
  | hangUp | disconnect | withstand | wait | close => exact h.quiet rfl rfl
  | send o => exact h.send o
  | write idle flush packets => exact h.quiet (expectations_write idle packets) rfl
  | @answer roundTrip e reply received codec reaction awaiting replied reacted =>
    -- taking the reply off the bytes received changes no request
    have hc : Phase { c with codec, received } block := by
      cases h with
      | loggingIn requests once => exact .loggingIn requests once
      | loggedIn requests isNews => exact .loggedIn requests isNews
    exact hc.answer awaiting reacted

/-- A connection that ends finishes its block. -/
theorem finish (h : Phase c block) {a : Action} {last : Option String}
    (hstep : c.StepsTo a (.down last) effects) : Finished (block ++ Trace.events effects) := by
  -- in whatever way it ends, it reports that once and as the last thing
  cases hstep with
  | reject | fail | complete => exact .disconnected h.unfinished _

end Phase

/-- A connection that stays up does not report its end. Its events are those of a reply, and no
    reaction tells of an end. -/
theorem StepsTo.not_disconnected {c c' : Connection} {a : Action} {effects : List Effect}
    (h : c.StepsTo a (.up c') effects) (reason : DisconnectReason) :
    .emitted (.disconnected reason) ∉ effects := by
  intro hmem
  have hevent : .disconnected reason ∈ Trace.events effects :=
    List.mem_filterMap.mpr ⟨_, hmem, rfl⟩
  cases h with
  | arrive | hangUp | disconnect | withstand | wait | close | write => cases hevent
  | send o =>
    rw [Trace.events_offer] at hevent
    cases hevent
  | @answer roundTrip e reply received codec reaction awaiting replied reacted =>
    rw [Trace.events_answer] at hevent
    rcases Expectation.events_of_react reacted with ⟨-, hready⟩ | ⟨-, hnews⟩
    · rw [hready] at hevent
      cases List.mem_singleton.mp hevent
    · exact hnews _ hevent

end Connection

/-! ## Attempts -/

namespace Network

/-- Events in front of a run that is cut into blocks. With an attempt they begin a block. -/
def begin (isAttempt : Bool) (events : List NetworkEvent)
    (later : List NetworkEvent × List (List NetworkEvent)) :
    List NetworkEvent × List (List NetworkEvent) :=
  if isAttempt then ([], (events ++ later.1) :: later.2) else (events ++ later.1, later.2)

/-- The events of a run, cut at each attempt to connect: first those before any attempt, then
    those of each attempt. -/
def blocks (n : Network) : List Action → List NetworkEvent × List (List NetworkEvent)
  | [] => ([], [])
  | a :: rest => begin (n.attempts a) (Trace.events (n.step a).2) ((n.step a).1.blocks rest)

/-- Cutting loses no event and moves none. -/
theorem events_run (n : Network) (actions : List Action) :
    Trace.events (n.run actions).2 = (n.blocks actions).1 ++ (n.blocks actions).2.flatten := by
  induction actions generalizing n with
  | nil => rfl
  | cons a rest ih =>
    show Trace.events ((n.step a).2 ++ ((n.step a).1.run rest).2) = _
    rw [Trace.events_append, ih, blocks, begin]
    split
    · simp
    · simp

/-- What comes next from a link: a connection goes on with its block; without one nothing comes
    before the next attempt. -/
def Continues (isUp : Bool) (later : List NetworkEvent × List (List NetworkEvent)) : Link → Prop
  | .down _ => later.1 = [] ∧ AreBlocks isUp later.2
  | .up c => ∀ block, c.Phase block → AreBlocks isUp ((block ++ later.1) :: later.2)

/-- The run is taken apart from its front: whatever comes after a step, that step puts its events
    into the block of the connection there is, or begins a block of its own. -/
theorem Continues.step {isUp : Bool} {later : List NetworkEvent × List (List NetworkEvent)}
    {n : Network} {a : Action} {link : Link} {effects : List Effect}
    (h : Continues isUp later link) (hstep : n.StepsTo a link effects) :
    Continues isUp (begin (n.attempts a) (Trace.events effects) later) n.link := by
  cases hstep with
  | keep unattempted =>
    rw [unattempted]
    exact h
  | fail turn down failed =>
    rw [attempts_of_turn turn, down]
    obtain ⟨hfirst, hblocks⟩ := h
    refine ⟨rfl, hblocks.cons ?_⟩
    rw [hfirst]
    exact .disconnected .beforeLogin _
  | connect turn down made =>
    rw [attempts_of_turn turn, down]
    exact ⟨rfl, h [] (.start _ _ _ _)⟩
  | pass unattempted step =>
    rw [unattempted]
    show Continues isUp (Trace.events effects ++ later.1, later.2) n.link
    generalize n.link = l at step ⊢
    cases step with
    | refuse | rest => exact h
    | @act c a link effects step =>
      intro block hphase
      rw [← List.append_assoc]
      -- the step may end the connection, and with it the block
      cases link with
      | up c' => exact h _ (hphase.step step)
      | down last =>
        obtain ⟨hfirst, hblocks⟩ := h
        rw [hfirst, List.append_nil]
        exact hblocks.cons (hphase.finish step)

/-- By induction on the run, with what comes next from the link as the invariant. At its end
    nothing comes any more, so a block is unfinished just if a connection is up. -/
theorem continues_run (n : Network) (actions : List Action) :
    Continues (n.run actions).1.link.isUp (n.blocks actions) n.link := by
  -- every step puts its events in front of what the rest of the run emits
  induction actions generalizing n with
  | nil =>
    show Continues n.link.isUp ([], []) n.link
    cases n.link with
    | down last => exact ⟨rfl, rfl⟩
    | up c =>
      intro block hphase
      rw [List.append_nil]
      exact hphase.unfinished
  | cons a rest ih => exact (ih (n.step a).1).step (n.stepsTo_step a)

/-! ## Between two connections -/

/-- What a step that leaves no connection can still do. -/
theorem StepsTo.views_of_down {n : Network} {a : Action} {last : Option String}
    {effects : List Effect} (h : n.StepsTo a (.down last) effects) :
    Trace.accepted effects = [] ∧ Trace.written effects = [] := by
  generalize hlink : Link.down last = link at h
  cases h with
  | keep | fail => exact ⟨rfl, rfl⟩
  | connect => cases hlink
  | pass unattempted step =>
    rw [← hlink] at step
    exact step.views_of_down

/-- The end of a connection, or of an attempt, leaves none. No other step reports one. -/
theorem StepsTo.down_of_disconnected {n : Network} {a : Action} {link : Link}
    {effects : List Effect} (h : n.StepsTo a link effects) {reason : DisconnectReason}
    (hmem : .emitted (.disconnected reason) ∈ effects) : ∃ last, link = .down last := by
  cases hlink : link with
  | down last => exact ⟨last, rfl⟩
  | up c =>
    -- a step that leaves a connection up has opened it, or is a step of that connection
    cases h with
    | keep => cases hmem
    | fail => cases hlink
    | connect => simp [Connection.handshake] at hmem
    | pass unattempted step =>
      rw [hlink] at step
      generalize n.link = l at step
      cases step with
      | act step => exact absurd hmem (step.not_disconnected reason)

/-- Without a connection there is none until one is opened. -/
theorem StepsTo.down_of_down {n : Network} {a : Action} {link : Link} {effects : List Effect}
    (h : n.StepsTo a link effects) {last : Option String} (hlink : n.link = .down last)
    (hopened : .opened ∉ effects) : ∃ last, link = .down last := by
  cases h with
  | keep => exact ⟨last, hlink⟩
  | fail => exact ⟨_, rfl⟩
  | connect => exact absurd List.mem_cons_self hopened
  | pass unattempted step =>
    rw [hlink] at step
    cases step with
    | refuse | rest => exact ⟨_, rfl⟩

/-- Nor is anything accepted or written until then. The induction is on the last action, as the
    link before it is known to be down. -/
theorem run_of_down {n : Network} {last : Option String} (hlink : n.link = .down last)
    (actions : List Action) (hopened : .opened ∉ (n.run actions).2) :
    (∃ last, (n.run actions).1.link = .down last) ∧
      Trace.accepted (n.run actions).2 = [] ∧ Trace.written (n.run actions).2 = [] := by
  induction actions using List.reverseRecOn with
  | nil => exact ⟨⟨last, hlink⟩, rfl, rfl⟩
  | append_singleton actions a ih =>
    rw [run_concat] at hopened ⊢
    rw [List.mem_append, not_or] at hopened
    obtain ⟨⟨last', hlast⟩, haccepted, hwritten⟩ := ih hopened.1
    -- the step after that does not open a connection either
    have hstep := (n.run actions).1.stepsTo_step a
    obtain ⟨last'', hlast'⟩ := hstep.down_of_down hlast hopened.2
    rw [hlast'] at hstep
    obtain ⟨haccepted', hwritten'⟩ := hstep.views_of_down
    refine ⟨⟨last'', hlast'⟩, ?_, ?_⟩
    · rw [Trace.accepted_append, haccepted, haccepted', List.nil_append]
    · rw [Trace.written_append, hwritten, hwritten', List.nil_append]

/-- From the report of an end until a connection is opened, nothing is accepted or written. -/
theorem run_of_disconnected {n : Network} {actions : List Action} {before after : List Effect}
    {reason : DisconnectReason}
    (h : (n.run actions).2 = before ++ .emitted (.disconnected reason) :: after)
    (hopened : .opened ∉ after) :
    (∃ last, (n.run actions).1.link = .down last) ∧ Trace.accepted after = [] ∧
      Trace.written after = [] := by
  -- the step that the report comes from leaves no connection
  obtain ⟨first, a, rest, left, right, rfl, heffects, -, rfl⟩ := exists_step_of_run h
  have hstep := (n.run first).1.stepsTo_step a
  rw [heffects] at hstep
  obtain ⟨last, hlast⟩ := hstep.down_of_disconnected (List.mem_append_right _ List.mem_cons_self)
  rw [hlast] at hstep
  obtain ⟨haccepted, hwritten⟩ := hstep.views_of_down
  rw [List.mem_append, not_or] at hopened
  obtain ⟨hlink, haccepted', hwritten'⟩ := run_of_down hlast rest hopened.2
  rw [List.append_cons, Trace.accepted_append] at haccepted
  rw [List.append_cons, Trace.written_append] at hwritten
  refine ⟨?_, ?_, ?_⟩
  · rw [run_append]
    exact hlink
  · rw [Trace.accepted_append, haccepted', (List.append_eq_nil_iff.mp haccepted).2]
    rfl
  · rw [Trace.written_append, hwritten', (List.append_eq_nil_iff.mp hwritten).2]
    rfl

/-! ## Runs -/

/-- Whatever the owner does and however the node behaves, the events of a network are one block
    for each attempt to connect, each finished before the next begins. After the end of a
    connection nothing is accepted or written until the next one is opened.

    Calls are carried out in the order in which they were made, and only while no connection is
    being ended. To connect is then to make an attempt, and does nothing while connected; to
    disconnect while not connected does nothing either. Until its turn comes a call waits. -/
theorem run_emits_blocks (settings : NetworkSettings) (actions : List Action) :
    let n := ((Network.start settings).run actions).1
    let trace := ((Network.start settings).run actions).2
    let blocks := (Network.start settings).blocks actions
    (blocks.1 = [] ∧ Trace.events trace = blocks.2.flatten ∧
        AreBlocks n.link.isUp blocks.2) ∧
      (∀ before reason after, trace = before ++ .emitted (.disconnected reason) :: after →
        .opened ∉ after →
          n.isConnected = false ∧ (∀ o, n.send o = (false, n)) ∧
            (∀ share, n.submit share = (false, n)) ∧
            Trace.accepted after = [] ∧ Trace.written after = []) ∧
      calls actions = (Network.start settings).carriedOut actions ++ n.waiting ∧
      (∀ a c, n.turn? a = some c → n.link.isEnding = false ∧ n.isConnected = n.link.isUp) ∧
      (∀ a attempt, n.turn? a = some (.connect attempt) →
        (n.isConnected = true → (n.step a).1.link = n.link ∧ (n.step a).2 = []) ∧
        (n.isConnected = false → n.Attempted attempt (n.step a))) ∧
      (∀ a, n.turn? a = some .disconnect → n.isConnected = false →
        (n.step a).1.link = n.link ∧ (n.step a).2 = []) ∧
      (n.isFree = true →
        (n.isConnected = true → ∀ attempt, n.connect attempt = (some (.ok ()), n, [])) ∧
          (n.isConnected = false → n.disconnect = (false, n))) ∧
      (n.isFree = false →
        (∀ attempt, n.connect attempt = (none, n.defer (.connect attempt), [])) ∧
          n.disconnect = (true, n.defer .disconnect) ∧
          (n.link.isEnding = true ∨
            ∃ c, n.turn? .resume = some c ∧ n.waiting.head? = some c)) := by
  intro n trace blocks
  obtain ⟨hfirst, hblocks⟩ : blocks.1 = [] ∧ AreBlocks n.link.isUp blocks.2 :=
    continues_run (Network.start settings) actions
  have hevents : Trace.events trace = blocks.1 ++ blocks.2.flatten :=
    events_run (Network.start settings) actions
  rw [hfirst, List.nil_append] at hevents
  have hcalls : calls actions = (Network.start settings).carriedOut actions ++ n.waiting :=
    waiting_run (Network.start settings) actions
  have hready : n.link.TakesPackets := takesPackets_run settings actions
  refine ⟨⟨hfirst, hevents, hblocks⟩, ?_, hcalls, ?_, ?_, ?_, ?_, ?_⟩
  · intro before reason after htrace hopened
    obtain ⟨⟨last, hlast⟩, haccepted, hwritten⟩ := run_of_disconnected htrace hopened
    -- without a connection an offer changes nothing at all
    have hn : n = ⟨n.settings, .down last, n.waiting⟩ := by
      rw [← hlast]
    rw [hn]
    exact ⟨rfl, fun o => rfl, fun share => rfl, haccepted, hwritten⟩
  · intro a c hturn
    have hending := (cases_of_turn hturn).1
    exact ⟨hending, hready hending⟩
  · -- where a call has its turn, to be connected and to have a connection are the same
    intro a attempt hturn
    have hconnected := hready (cases_of_turn hturn).1
    refine ⟨?_, ?_⟩
    · intro h
      obtain ⟨c, hlink⟩ := Link.exists_of_isUp (hconnected.symm.trans h)
      exact step_connect_of_up hturn hlink
    · intro h
      obtain ⟨last, hlink⟩ := Link.exists_of_not_isUp (hconnected.symm.trans h)
      exact attempted_of_turn hturn hlink
  · intro a hturn h
    have hconnected := hready (cases_of_turn hturn).1
    obtain ⟨last, hlink⟩ := Link.exists_of_not_isUp (hconnected.symm.trans h)
    exact step_disconnect_of_down hturn hlink
  · intro hfree
    have hconnected := hready (isFree_iff.mp hfree).2
    refine ⟨?_, ?_⟩
    · intro h attempt
      exact connect_of_connected hfree h attempt
    · intro h
      obtain ⟨last, hlink⟩ := Link.exists_of_not_isUp (hconnected.symm.trans h)
      exact disconnect_of_down hfree hlink
  · intro hbusy
    refine ⟨?_, disconnect_of_not_free hbusy, exists_turn_of_not_free hbusy⟩
    intro attempt
    exact connect_of_not_free hbusy attempt

/-- A node that cannot be reached, then a connection that its owner ends. To connect before it
    has ended waits for that, and is then a second attempt to open one. -/
theorem run_emits_blocks_small :
    let n := start ⟨⟨"", 0⟩, "", "", 0⟩
    let opening := [.call (.connect (.error .connect)), .call (.connect (.ok [1]))]
    let ending := opening ++ [.call .disconnect]
    let ended := ending ++
      [.call (.connect (.error .io)), .occur (.proceed .zero), .occur .breakDown]
    let up := (n.run opening).1
    let leaving := (n.run ending).1
    let down := (n.run ended).1
    (up.isConnected = true ∧ up.connect (.error .io) = (some (.ok ()), up, [])) ∧
      (leaving.isConnected = true ∧ leaving.connect (.error .io) =
        (none, leaving.defer (.connect (.error .io)), [])) ∧
      (∀ o, down.send o = (false, down)) ∧
      down.turn? .resume = some (.connect (.error .io)) ∧
      (down.step .resume).2 = [.emitted (.disconnected .packetHandlerError)] ∧
      (n.blocks (ended ++ [.resume])).2 =
        [[.disconnected .connectionFailed], [.disconnected .requested],
          [.disconnected .packetHandlerError]] ∧
      Trace.events (n.run (ended ++ [.resume])).2 =
        [.disconnected .connectionFailed, .disconnected .requested,
          .disconnected .packetHandlerError] := by
  intro n opening ending ended up leaving down
  have hfacts : (up.isFree = true ∧ up.isConnected = true) ∧
      (leaving.isFree = false ∧ leaving.isConnected = true) ∧
      (down.isConnected = false ∧
        (n.run ended).2.getLast?.bind Effect.event? = some (.disconnected .requested)) ∧
      (n.blocks (ended ++ [.resume])).2 =
        [[.disconnected .connectionFailed], [.disconnected .requested],
          [.disconnected .packetHandlerError]] := by
    decide +kernel
  have hturn : down.turn? .resume = some (.connect (.error .io)) := rfl
  obtain ⟨⟨hfree, hconnected⟩, ⟨hbusy, hstill⟩, ⟨hdown, hlast⟩, hthree⟩ := hfacts
  obtain ⟨effect, heffect, hevent⟩ := Option.bind_eq_some_iff.mp hlast
  obtain ⟨before, hbefore⟩ := List.getLast?_eq_some_iff.mp heffect
  have hend : (n.run ended).2 = before ++ [.emitted (.disconnected .requested)] := by
    rw [hbefore]
    cases effect <;> cases hevent
    rfl
  obtain ⟨-, -, -, -, -, -, hopened, -⟩ := run_emits_blocks ⟨⟨"", 0⟩, "", "", 0⟩ opening
  obtain ⟨-, -, -, -, -, -, -, hwaits⟩ := run_emits_blocks ⟨⟨"", 0⟩, "", "", 0⟩ ending
  obtain ⟨-, hclosed, -, -, hturns, -⟩ := run_emits_blocks ⟨⟨"", 0⟩, "", "", 0⟩ ended
  obtain ⟨⟨-, hblocks, -⟩, -⟩ := run_emits_blocks ⟨⟨"", 0⟩, "", "", 0⟩ (ended ++ [.resume])
  refine ⟨⟨hconnected, (hopened hfree).1 hconnected _⟩, ⟨hstill, (hwaits hbusy).1 _⟩, ?_, hturn,
    ?_, hthree, ?_⟩
  · exact (hclosed before _ [] hend List.not_mem_nil).2.1
  · exact ((hturns .resume _ hturn).2 hdown).2
  · rw [hblocks, hthree]
    rfl

end Network
end SoloMiner
