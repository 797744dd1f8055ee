import SoloMiner.Daemon.Loop
import SoloMiner.Proofs.Session.Calls
import SoloMiner.Proofs.Session.Delivery

/-! # Reconnection

    A daemon that runs always has one reason to go on, and never two: an attempt to connect is
    scheduled, a connection is up, or a failure waits to be taken up. Each of them leads to the
    next. A connection that ends leaves one failure, a failure schedules an attempt or ends the
    daemon, and an attempt makes a connection or fails. -/

namespace SoloMiner

/-! ## Failures -/

/-- Does the event tell of an end that the owner did not ask for? Each of them makes the daemon
    count, and try again or give up. -/
def NetworkEvent.isFailure : NetworkEvent → Bool
  | .disconnected .requested => false
  | .disconnected _ => true
  | _ => false

/-- No fault is given out as a wish of the owner. -/
theorem NetworkError.isFailure_reason (e : NetworkError) :
    NetworkEvent.isFailure (.disconnected e.reason) = true := by
  cases e <;> rfl

/-- Without its owner's doing a connection ends by a fault. -/
theorem Connection.IsKept.events_of_down {c : Connection} {a : Connection.Action}
    {effects : List Effect} (h : c.IsKept) {last : Option String}
    (hstep : c.StepsTo a (.down last) effects) :
    ∃ e : NetworkError, Trace.events effects = [.disconnected e.reason] := by
  have hfail (e : NetworkError) : (c.fail e).2 = [.emitted (.disconnected e.reason)] := by
    rw [fail, isFlushing, h.accepting]
    rfl
  -- it ends by a fault of a handler or of the exchange; to complete takes a closed queue
  cases hstep with
  | @reject _ _ _ _ _ fault awaiting replied reacted =>
    refine ⟨fault, ?_⟩
    rw [hfail]
    rfl
  | fail fault =>
    refine ⟨fault, ?_⟩
    rw [hfail]
    rfl
  | complete idle closed empty =>
    rw [h.accepting] at closed
    cases closed

/-! ## Connections -/

theorem Network.closed_of_down {n : Network} {last : Option String} (h : n.link = .down last) :
    n.link.isUp = false ∧ n.isConnected = false := by
  rw [isConnected, h]
  exact ⟨rfl, rfl⟩

theorem Network.open_of_kept {n : Network} {c : Connection} (h : n.link = .up c)
    (hkept : c.IsKept) : n.link.isUp = true ∧ n.isConnected = true := by
  rw [isConnected, h]
  exact ⟨rfl, hkept.accepting⟩

/-! ## States -/

namespace Daemon

/-- Number of failures not taken up yet. While a daemon is running there is at most one, since
    nothing is tried as long as one waits. -/
def failures (d : Daemon) : Nat := d.pending.countP NetworkEvent.isFailure

/-- What a daemon goes on by. As it never ends its own connection while it runs, none of its
    calls to connect has to wait. -/
inductive GoesOn (d : Daemon) : Prop where
  | scheduled {last : Option String} (down : d.network.link = .down last)
      (idle : d.network.waiting = []) (due : d.reconnectAt.isSome = true)
      (unfailed : d.failures = 0)
  | connected {c : Connection} (up : d.network.link = .up c) (kept : c.IsKept)
      (idle : d.network.waiting = []) (undue : d.reconnectAt = none) (unfailed : d.failures = 0)
  | failed {last : Option String} (down : d.network.link = .down last)
      (idle : d.network.waiting = []) (undue : d.reconnectAt = none) (failed : d.failures = 1)

variable {d : Daemon}

/-! ## Steps of the network -/

/-- The daemon behind a step of its network. The events of the step join those that are not taken
    up yet. -/
def noted (d : Daemon) (outcome : Network × List Effect) : Daemon :=
  { d with network := outcome.1, pending := d.pending ++ Trace.events outcome.2 }

theorem conclude_of_running (h : d.isRunning = true) : d.conclude = (d, []) := by
  have hphase : d.phase = .running := by simpa [isRunning] using h
  rw [conclude, hphase]

theorem absorb_of_running (h : d.isRunning = true) (outcome : Network × List Effect) :
    (d.absorb outcome).1 = d.noted outcome := by
  have hconclude := conclude_of_running (d := d.noted outcome) h
  show (d.noted outcome).conclude.1 = d.noted outcome
  rw [hconclude]

theorem failures_noted (d : Daemon) (outcome : Network × List Effect) :
    (d.noted outcome).failures =
      d.failures + (Trace.events outcome.2).countP NetworkEvent.isFailure :=
  List.countP_append

/-- A connection that ends leaves one failure behind, and nothing else ends or fails. -/
theorem GoesOn.pass (h : d.GoesOn) {a : Connection.Action} (ha : a ≠ .disconnect) :
    (d.noted (d.network.pass a)).GoesOn := by
  have hstep := d.network.link.stepsTo_step a
  have hlink : (d.noted (d.network.pass a)).network.link = (d.network.link.step a).1 := rfl
  have hfailures : (d.noted (d.network.pass a)).failures =
      d.failures + (Trace.events (d.network.link.step a).2).countP NetworkEvent.isFailure :=
    failures_noted d (d.network.pass a)
  generalize (d.network.link.step a).1 = link at hstep hlink
  generalize (d.network.link.step a).2 = effects at hstep hfailures
  -- without a connection nothing comes of the action
  cases h with
  | scheduled down idle due unfailed =>
    rw [down] at hstep
    cases hstep with
    | refuse | rest => exact .scheduled hlink idle due (hfailures.trans unfailed)
  | failed down idle undue failed =>
    rw [down] at hstep
    cases hstep with
    | refuse | rest => exact .failed hlink idle undue (hfailures.trans failed)
  | @connected c up kept idle undue unfailed =>
    rw [up] at hstep
    cases hstep with
    | act step =>
      rw [unfailed, Nat.zero_add] at hfailures
      -- a connection goes on, or ends and leaves its failure
      cases link with
      | up c' =>
        refine .connected hlink (kept.step step ha) idle undue (hfailures.trans ?_)
        rw [List.countP_eq_zero]
        intro event hmem hfailure
        -- an event that tells of an end would have ended the connection
        cases event with
        | disconnected reason =>
          obtain ⟨effect, heffect, hevent⟩ := List.mem_filterMap.mp hmem
          cases effect <;> cases hevent
          exact step.not_disconnected reason heffect
        | ready | newJob | shareResult => cases hfailure
      | down last =>
        obtain ⟨e, hevents⟩ := kept.events_of_down step
        refine .failed hlink idle undue ?_
        rw [hfailures, hevents, List.countP_cons, e.isFailure_reason]
        rfl

/-! ## Attempts -/

/-- What comes of an attempt: a connection, or a failure. In the first case nothing is waiting to
    be taken up that was not before, in the second the failure is. -/
def Attempted (d d' : Daemon) (attempt : Except NetworkError Bytes) : Prop :=
  match Network.cipherOf attempt with
  | .ok (cipher, certificate) =>
    d'.network.link =
        .up (.start d.network.settings cipher certificate d.network.lastIndication) ∧
      d'.pending = d.pending
  | .error e =>
    d'.network.link = d.network.link ∧ d'.pending = d.pending ++ [.disconnected e.reason]

/-- Without a connection, and with no call before it, a call to connect is carried out. -/
theorem connect_of_idle {last : Option String} (down : d.network.link = .down last)
    (idle : d.network.waiting = []) (attempt : Except NetworkError Bytes) :
    (d.network.connect attempt).2 = (d.network.openLink attempt).2 := by
  have hfree : d.network.isFree = true := Network.isFree_iff.mpr ⟨idle, by rw [down]; rfl⟩
  rw [Network.connect_of_free hfree]

/-- So it is an attempt. -/
theorem attempted_of_down {last : Option String} (down : d.network.link = .down last)
    (idle : d.network.waiting = []) (attempt : Except NetworkError Bytes) :
    d.Attempted ({ d with reconnectAt := none }.noted (d.network.connect attempt).2) attempt := by
  have hattempted := Network.attempted_openLink down attempt
  rw [connect_of_idle down idle]
  unfold Attempted
  unfold Network.Attempted at hattempted
  -- the events of the attempt are put behind those that wait
  cases hcipher : Network.cipherOf attempt with
  | error e =>
    rw [hcipher] at hattempted
    obtain ⟨hlink, heffects⟩ := hattempted
    refine ⟨hlink, ?_⟩
    simp [noted, heffects, Trace.events, Effect.event?]
  | ok made =>
    rw [hcipher] at hattempted
    obtain ⟨hlink, heffects⟩ := hattempted
    refine ⟨hlink, ?_⟩
    simp [noted, heffects, Trace.events, Effect.event?, Connection.handshake]

/-- When the attempt is due, it is made. -/
theorem step_reconnect (hrunning : d.isRunning = true) {time : Duration}
    (hdue : d.reconnectAt = some time) (htime : time ≤ d.now) (attempt : Except NetworkError Bytes) :
    (d.step (.reconnect attempt)).1 =
      { d with reconnectAt := none }.noted (d.network.connect attempt).2 := by
  have habsorb := absorb_of_running (d := { d with reconnectAt := none }) hrunning
    (d.network.connect attempt).2
  simp only [step, hrunning, if_true, act, reconnect, hdue, if_pos htime]
  exact habsorb

/-- An attempt that is due brings a connection, or a failure that waits to be taken up. One that
    is not due changes nothing. -/
theorem GoesOn.reconnect (h : d.GoesOn) (hrunning : d.isRunning = true)
    (attempt : Except NetworkError Bytes) : (d.step (.reconnect attempt)).1.GoesOn := by
  cases hdue : d.reconnectAt with
  | none =>
    simp only [step, hrunning, if_true, act, Daemon.reconnect, hdue]
    exact h
  | some time =>
    by_cases htime : time ≤ d.now
    · rw [step_reconnect hrunning hdue htime]
      -- that an attempt is due tells which of the three it is
      cases h with
      | connected up kept idle undue unfailed | failed down idle undue failed =>
        rw [undue] at hdue
        cases hdue
      | scheduled down idle due unfailed =>
        have hattempted := attempted_of_down down idle attempt
        have hidle : (d.network.connect attempt).2.1.waiting = [] := by
          rw [connect_of_idle down idle]
          exact (d.network.waiting_carryOut (.connect attempt)).trans idle
        -- made or not, the attempt is no longer scheduled
        unfold Attempted at hattempted
        cases hcipher : Network.cipherOf attempt with
        | error e =>
          rw [hcipher] at hattempted
          obtain ⟨hlink, hpending⟩ := hattempted
          refine .failed (hlink.trans down) hidle rfl ?_
          rw [failures, hpending, List.countP_append, List.countP_cons, e.isFailure_reason]
          exact congrArg (· + 1) unfailed
        | ok made =>
          rw [hcipher] at hattempted
          obtain ⟨hlink, hpending⟩ := hattempted
          refine .connected hlink (Connection.isKept_start _ _ _ _) hidle rfl ?_
          rw [failures, hpending]
          exact unfailed
    · simp only [step, hrunning, if_true, act, Daemon.reconnect, hdue, if_neg htime]
      exact h

/-! ## Events -/

theorem not_running_conclude (h : d.isRunning = false) : d.conclude.1.isRunning = false := by
  unfold conclude
  split
  · rfl
  · exact h

theorem not_running_leave (d : Daemon) (failure : Option Unreachable) :
    (d.leave failure).1.isRunning = false :=
  not_running_conclude rfl

/-- Of all that a daemon keeps, only the network, the time of the next attempt and the failures
    that wait matter here. -/
theorem GoesOn.congr (h : d.GoesOn) {d' : Daemon} (hnetwork : d'.network = d.network)
    (hdue : d'.reconnectAt = d.reconnectAt) (hfailures : d'.failures = d.failures) : d'.GoesOn := by
  cases h with
  | scheduled down idle due unfailed =>
    rw [← hnetwork] at down idle
    exact .scheduled down idle (hdue ▸ due) (hfailures.trans unfailed)
  | connected up kept idle undue unfailed =>
    rw [← hnetwork] at up idle
    exact .connected up kept idle (hdue.trans undue) (hfailures.trans unfailed)
  | failed down idle undue failed =>
    rw [← hnetwork] at down idle
    exact .failed down idle (hdue.trans undue) (hfailures.trans failed)

/-- A failure that is taken up schedules the next attempt, or ends the daemon. -/
theorem GoesOn.onDisconnected (h : d.GoesOn) {reason : DisconnectReason} {rest : List NetworkEvent}
    (hpending : d.pending = .disconnected reason :: rest)
    (hfailure : NetworkEvent.isFailure (.disconnected reason) = true) :
    let d' := ({ d with pending := rest }.onDisconnected reason).1
    d'.isRunning = true → d'.GoesOn := by
  intro d' hrunning
  have hcount : d.failures = rest.countP NetworkEvent.isFailure + 1 := by
    rw [failures, hpending, List.countP_cons, hfailure]
    rfl
  -- a failure that waits is the only thing there is
  cases h with
  | scheduled down idle due unfailed | connected up kept idle undue unfailed => omega
  | failed down idle undue failed =>
    unfold d' Daemon.onDisconnected at hrunning ⊢
    cases hdelay : d.retry.onFailure with
    | mk delay retry =>
      simp only [hdelay] at hrunning ⊢
      cases delay with
      | none =>
        simp only [not_running_leave] at hrunning
        cases hrunning
      | some delay =>
        exact .scheduled down idle rfl (by simpa [failures] using hcount.symm.trans failed)

/-- Any event may be taken up next. -/
theorem GoesOn.deliver (h : d.GoesOn) (hrunning : d.deliver.1.isRunning = true) :
    d.deliver.1.GoesOn := by
  unfold Daemon.deliver at hrunning ⊢
  cases hpending : d.pending with
  | nil =>
    simp only [hpending] at hrunning ⊢
    exact h
  | cons event rest =>
    simp only [hpending] at hrunning ⊢
    have hcount : d.failures =
        rest.countP NetworkEvent.isFailure + if event.isFailure then 1 else 0 := by
      rw [failures, hpending, List.countP_cons]
    -- only an event that tells of a failure matters
    cases event with
    | ready | newJob | shareResult => exact h.congr rfl rfl hcount.symm
    | disconnected reason =>
      cases hfailure : NetworkEvent.isFailure (.disconnected reason) with
      | false =>
        -- the owner's wish is no failure, and nothing follows it
        cases reason <;> cases hfailure
        exact h.congr rfl rfl hcount.symm
      | true =>
        have hhandle : { d with pending := rest }.handle (.disconnected reason) =
            { d with pending := rest }.onDisconnected reason := by
          cases reason <;> first | rfl | cases hfailure
        rw [hhandle] at hrunning ⊢
        exact h.onDisconnected hpending hfailure hrunning

/-! ## Steps -/

/-- As long as it runs, the daemon goes on: each kind of action has its own lemma, or touches
    nothing that matters here. -/
theorem GoesOn.step (h : d.GoesOn) (hrunning : d.isRunning = true) (a : Action)
    (hrunning' : (d.step a).1.isRunning = true) : (d.step a).1.GoesOn := by
  cases a with
  | network o =>
    show (d.absorb (d.network.pass (.occur o))).1.GoesOn
    rw [absorb_of_running hrunning]
    exact h.pass nofun
  | submit share =>
    show (d.absorb (d.network.pass (.send (.share share d.network.settings.userAgent)))).1.GoesOn
    rw [absorb_of_running hrunning]
    exact h.pass nofun
  | count worker hashes => exact h.congr rfl rfl rfl
  | wait time => exact h.congr rfl rfl rfl
  | reconnect attempt => exact h.reconnect hrunning attempt
  | deliver =>
    simp only [Daemon.step, hrunning, if_true, act] at hrunning' ⊢
    exact h.deliver hrunning'
  | tick overhead =>
    simp only [Daemon.step, hrunning, if_true, act, tick]
    split
    · exact h.congr rfl rfl rfl
    · exact h
  | print =>
    simp only [Daemon.step, hrunning, if_true, act, print]
    split
    · exact h
    · split
      · exact h.congr rfl rfl rfl
      · exact h
  -- the last two end the loop
  | signal s =>
    simp only [Daemon.step, hrunning, if_true, act, not_running_leave] at hrunning'
    cases hrunning'
  | shutdown =>
    simp only [Daemon.step, hrunning, if_true, act, not_running_leave] at hrunning'
    cases hrunning'

/-- A daemon that has left its loop does not come back. -/
theorem not_running_step (h : d.isRunning = false) (a : Action) :
    (d.step a).1.isRunning = false := by
  have habsorb (outcome : Network × List Effect) : (d.absorb outcome).1.isRunning = false :=
    not_running_conclude (d := d.noted outcome) h
  cases a with
  | network o => exact habsorb _
  | submit share => exact habsorb _
  | count | wait => exact h
  | deliver | reconnect | tick | print | signal | shutdown =>
    simp only [Daemon.step, h, Bool.false_eq_true, if_false]

theorem goesOn_fresh (s : MinerSettings) (network : NetworkSettings) :
    (fresh s network).GoesOn :=
  .scheduled rfl rfl rfl rfl

/-- Whatever happens, a daemon that still runs goes on. The induction asks this only of a daemon
    that runs, since one that has left its loop owes nothing any more. -/
theorem goesOn_run (actions : List Action) :
    ∀ d : Daemon, (d.isRunning = true → d.GoesOn) →
      (d.run actions).1.isRunning = true → (d.run actions).1.GoesOn := by
  induction actions with
  | nil => exact fun d hd => hd
  | cons a rest ih =>
    intro d hd
    -- a daemon that runs after the step ran before it
    have hstep : (d.step a).1.isRunning = true → (d.step a).1.GoesOn := by
      intro hlater
      cases hnow : d.isRunning with
      | true => exact (hd hnow).step hnow a hlater
      | false =>
        rw [not_running_step hnow a] at hlater
        cases hlater
    exact ih (d.step a).1 hstep

/-- A daemon that runs has an attempt to connect scheduled, or a connection, or a failure still
    to be taken up: one of the three, and never two failures. So whenever an attempt is due it
    is a real one. -/
theorem run_goes_on (s : MinerSettings) (network : NetworkSettings) (actions : List Action)
    (hrunning : ((fresh s network).run actions).1.isRunning = true) :
    let d := ((fresh s network).run actions).1
    ((d.reconnectAt.isSome = true ∧ d.network.isConnected = false ∧ d.failures = 0) ∨
        (d.reconnectAt = none ∧ d.network.isConnected = true ∧ d.failures = 0) ∨
        (d.reconnectAt = none ∧ d.network.isConnected = false ∧ d.failures = 1)) ∧
      d.network.link.isUp = d.network.isConnected ∧
      ∀ time attempt, d.reconnectAt = some time → time ≤ d.now →
        d.Attempted (d.step (.reconnect attempt)).1 attempt := by
  intro d
  have hgoes : d.GoesOn := goesOn_run actions (fresh s network) (fun _ => goesOn_fresh s network)
    hrunning
  refine ⟨?_, ?_, ?_⟩
  · cases hgoes with
    | scheduled down idle due unfailed =>
      exact .inl ⟨due, (Network.closed_of_down down).2, unfailed⟩
    | connected up kept idle undue unfailed =>
      exact .inr (.inl ⟨undue, (Network.open_of_kept up kept).2, unfailed⟩)
    | failed down idle undue failed =>
      exact .inr (.inr ⟨undue, (Network.closed_of_down down).2, failed⟩)
  · cases hgoes with
    | scheduled down | failed down =>
      obtain ⟨hup, hconnected⟩ := Network.closed_of_down down
      rw [hup, hconnected]
    | connected up kept =>
      obtain ⟨hup, hconnected⟩ := Network.open_of_kept up kept
      rw [hup, hconnected]
  · -- an attempt that is due is the first of the three cases
    intro time attempt hdue htime
    rw [step_reconnect hrunning hdue htime]
    cases hgoes with
    | scheduled down idle => exact attempted_of_down down idle attempt
    | connected up kept idle undue | failed down idle undue =>
      rw [undue] at hdue
      cases hdue

/-- The node cannot be reached; a second later the next attempt is due. -/
theorem run_goes_on_small :
    let d := ((fresh (.standard 1) ⟨⟨"", 0⟩, "", "", 0⟩).run
      [.reconnect (.error .connect), .deliver, .wait (.ofSeconds 1)]).1
    d.isRunning = true ∧ d.reconnectAt = some (.ofSeconds 1) ∧ d.failures = 0 ∧
      (d.step (.reconnect (.error .connect))).1.pending =
        [.disconnected .connectionFailed] := by
  intro d
  have hfacts : d.isRunning = true ∧ d.reconnectAt = some (.ofSeconds 1) ∧
      Duration.ofSeconds 1 ≤ d.now ∧ d.pending = [] := by
    decide +kernel
  obtain ⟨hrunning, hdue, htime, hpending⟩ := hfacts
  obtain ⟨hone, -, hattempts⟩ := run_goes_on _ _ _ hrunning
  have hunfailed : d.failures = 0 := by
    rcases hone with ⟨-, -, h⟩ | ⟨hundue, -⟩ | ⟨hundue, -⟩
    · exact h
    · rw [hdue] at hundue
      cases hundue
    · rw [hdue] at hundue
      cases hundue
  have hattempted := hattempts _ (.error .connect) hdue htime
  refine ⟨hrunning, hdue, hunfailed, ?_⟩
  rw [hattempted.2, hpending]
  rfl

end Daemon
end SoloMiner
