import Mathlib.Algebra.Ring.Nat
import SoloMiner.Proofs.Daemon.Reconnection

/-! # Retries

    What the daemon does about a failure depends on nothing but the failures since the last
    login. The `k`-th of them in a row is answered by an attempt `k` seconds later, or, if no
    more are allowed, by the end of the daemon. No other event makes or unmakes an attempt.

    That holds of any events in any order, whether a network can emit them or not. So a run here
    may have events arrive from anywhere, between the steps of the daemon. -/

namespace SoloMiner

/-! ## Failures in a row -/

/-- Does the event tell of a login? -/
def NetworkEvent.isReady : NetworkEvent → Bool
  | .ready => true
  | _ => false

/-- Number of failures since the last login of a history. Jobs and verdicts in between do not
    matter. -/
def NetworkEvent.failuresInRow (history : List NetworkEvent) : Nat :=
  (history.reverse.takeWhile fun event => !event.isReady).countP isFailure

open NetworkEvent in
/-- The failures in a row are counted from the end: a login ends the row, a failure makes it
    longer, and other events leave it as it is. -/
theorem NetworkEvent.failuresInRow_concat (history : List NetworkEvent) (event : NetworkEvent) :
    failuresInRow (history ++ [event]) =
      if event.isReady then 0
      else if event.isFailure then failuresInRow history + 1 else failuresInRow history := by
  unfold failuresInRow
  rw [List.reverse_concat, List.takeWhile_cons]
  cases event.isReady with
  | true => rfl
  | false =>
    show List.countP isFailure (event :: history.reverse.takeWhile _) = _
    rw [List.countP_cons]
    cases event.isFailure <;> rfl

/-- The count of failures goes up by one as long as there is room for it. -/
theorem RetryPolicy.toNat_count (r : RetryPolicy) :
    r.count.failures.toNat = min (r.failures.toNat + 1) (2 ^ 32 - 1) := by
  have hlt := r.failures.toNat_lt
  have hsize : UInt32.size = 2 ^ 32 := rfl
  unfold count
  -- the count stops at the largest number that its width can hold
  split
  · next hroom =>
    show (r.failures + 1).toNat = _
    rw [UInt32.toNat_add, UInt32.toNat_one]
    omega
  · omega

theorem RetryPolicy.maxFailures_count (r : RetryPolicy) :
    r.count.maxFailures = r.maxFailures := by
  unfold count
  split <;> rfl

namespace Daemon

variable {d : Daemon} {event : NetworkEvent} {history : List NetworkEvent}

/-! ## Histories -/

/-- What may happen to a daemon whose events come from anywhere. This is more than can happen to
    one with a network of its own, so what is shown of all moves holds of that as well. -/
inductive Move where
  | act (a : Action)
  /-- An event arrives. -/
  | arrive (event : NetworkEvent)

def move (d : Daemon) : Move → Daemon
  | .act a => (d.step a).1
  | .arrive event => { d with pending := d.pending ++ [event] }

def moveAll (d : Daemon) (moves : List Move) : Daemon := moves.foldl move d

/-- The event that a move takes up. A daemon that is not running leaves its events where they
    are. -/
def takenUp? (d : Daemon) : Move → Option NetworkEvent
  | .act .deliver => if d.isRunning then d.pending.head? else none
  | _ => none

/-- The events taken up in the course of some moves, the earliest first. -/
def takenUp (d : Daemon) : List Move → List NetworkEvent
  | [] => []
  | m :: rest => (d.takenUp? m).toList ++ (d.move m).takenUp rest

/-! ## What a step leaves alone -/

/-- `d'` counts the same failures as `d`, and of the same node. This is what every move but
    taking up an event preserves. -/
structure CountsAs (d d' : Daemon) : Prop where
  retry : d'.retry = d.retry
  endpoint : d'.endpoint = d.endpoint

theorem countsAs_conclude (d : Daemon) : d.CountsAs d.conclude.1 := by
  unfold conclude
  split <;> exact ⟨rfl, rfl⟩

theorem countsAs_leave (d : Daemon) (failure : Option Unreachable) :
    d.CountsAs (d.leave failure).1 := by
  have h := countsAs_conclude
    { d with phase := .leaving failure, network := d.network.disconnect.2 }
  exact ⟨h.retry, h.endpoint⟩

theorem countsAs_absorb (d : Daemon) (outcome : Network × List Effect) :
    d.CountsAs (d.absorb outcome).1 := by
  have h := countsAs_conclude (d.noted outcome)
  exact ⟨h.retry, h.endpoint⟩

theorem countsAs_reconnect (d : Daemon) (attempt : Except NetworkError Bytes) :
    d.CountsAs (d.reconnect attempt).1 := by
  unfold reconnect
  split
  · exact ⟨rfl, rfl⟩
  · split
    · have h := countsAs_absorb { d with reconnectAt := none } (d.network.connect attempt).2
      exact ⟨h.retry, h.endpoint⟩
    · exact ⟨rfl, rfl⟩

theorem countsAs_tick (d : Daemon) (overhead : Nat) : d.CountsAs (d.tick overhead) := by
  unfold tick
  split <;> exact ⟨rfl, rfl⟩

theorem countsAs_print (d : Daemon) : d.CountsAs d.print.1 := by
  unfold print
  split
  · exact ⟨rfl, rfl⟩
  · split <;> exact ⟨rfl, rfl⟩

theorem countsAs_act {a : Action} (ha : a ≠ .deliver) : d.CountsAs (d.act a).1 := by
  cases a with
  | deliver => exact absurd rfl ha
  | network | submit | count | wait => exact ⟨rfl, rfl⟩
  | reconnect attempt => exact countsAs_reconnect d attempt
  | tick overhead => exact countsAs_tick d overhead
  | print => exact countsAs_print d
  | signal s => exact countsAs_leave d none
  | shutdown => exact countsAs_leave d none

/-- Only an event that is taken up changes the count. -/
theorem countsAs_step {a : Action} (ha : a ≠ .deliver) : d.CountsAs (d.step a).1 := by
  cases a with
  | network o => exact countsAs_absorb d _
  | submit share => exact countsAs_absorb d _
  | count | wait => exact ⟨rfl, rfl⟩
  | deliver | reconnect | tick | print | signal | shutdown =>
    show d.CountsAs (if d.isRunning then d.act _ else (d, [])).1
    split
    · exact countsAs_act ha
    · exact ⟨rfl, rfl⟩

/-! ## What is done about an event -/

theorem handle_of_isFailure (hfailure : event.isFailure = true) :
    ∃ reason, event = .disconnected reason ∧ d.handle event = d.onDisconnected reason := by
  cases event with
  | ready | newJob | shareResult => cases hfailure
  | disconnected reason =>
    refine ⟨reason, rfl, ?_⟩
    cases reason with
    | requested => cases hfailure
    | _ => rfl

/-- A failure that is not the last one allowed schedules an attempt. -/
theorem onDisconnected_of_delay {delay : Duration} (h : d.retry.count.delay? = some delay)
    (reason : DisconnectReason) :
    (d.onDisconnected reason).1 =
      { d with retry := d.retry.count, reconnectAt := some (d.now + delay) } := by
  simp only [onDisconnected, RetryPolicy.onFailure, h]

/-- The last one makes the daemon leave its loop. -/
theorem onDisconnected_of_none (h : d.retry.count.delay? = none) (reason : DisconnectReason) :
    (d.onDisconnected reason).1 =
      ({ d with retry := d.retry.count }.leave
        (some ⟨d.endpoint, d.retry.count.failures⟩)).1 := by
  simp only [onDisconnected, RetryPolicy.onFailure, h]

/-- An event that is no failure leaves the attempts, the connection and the loop alone. -/
theorem handle_of_not_isFailure (hfailure : event.isFailure = false) :
    (d.handle event).1.reconnectAt = d.reconnectAt ∧ (d.handle event).1.network = d.network ∧
      (d.handle event).1.phase = d.phase ∧ (d.handle event).1.endpoint = d.endpoint ∧
      (d.handle event).1.retry = if event.isReady then d.retry.reset else d.retry := by
  cases event with
  | ready | newJob | shareResult => exact ⟨rfl, rfl, rfl, rfl, rfl⟩
  | disconnected reason =>
    cases reason with
    | requested => exact ⟨rfl, rfl, rfl, rfl, rfl⟩
    | _ => cases hfailure

/-! ## Counting -/

/-- The daemon that has taken up `history` knows the failures since the last login, as long as
    it runs, and there are fewer of them than are allowed. -/
structure HasCounted (d : Daemon) (s : MinerSettings) (network : NetworkSettings)
    (history : List NetworkEvent) : Prop where
  endpoint : d.endpoint = network.endpoint
  limit : d.retry.maxFailures = s.maxRetries
  failures : d.retry.failures.toNat = min (NetworkEvent.failuresInRow history) (2 ^ 32 - 1)
  allowed : s.maxRetries = 0 ∨ d.retry.failures.toNat < s.maxRetries.toNat

variable {s : MinerSettings} {network : NetworkSettings}

theorem hasCounted_fresh (s : MinerSettings) (network : NetworkSettings) :
    (fresh s network).HasCounted s network [] := by
  refine ⟨rfl, rfl, (Nat.zero_min _).symm, ?_⟩
  by_cases hzero : s.maxRetries = 0
  · exact Or.inl hzero
  · refine Or.inr (Nat.pos_of_ne_zero fun hnone => hzero ?_)
    exact UInt32.toNat.inj hnone

/-- A failure that is taken up is counted. -/
theorem HasCounted.failures_count (h : d.HasCounted s network history)
    (hfailure : event.isFailure = true) :
    d.retry.count.failures.toNat =
      min (NetworkEvent.failuresInRow (history ++ [event])) (2 ^ 32 - 1) := by
  -- a failure is no login, so the row goes on
  have hready : event.isReady = false := by
    cases event with
    | ready => cases hfailure
    | disconnected | newJob | shareResult => rfl
  rw [NetworkEvent.failuresInRow_concat, hready, if_neg Bool.false_ne_true, if_pos hfailure,
    RetryPolicy.toNat_count, h.failures]
  omega

theorem HasCounted.of_countsAs {d' : Daemon} (h : d.HasCounted s network history)
    (hsame : d.CountsAs d') : d'.HasCounted s network history := by
  obtain ⟨hendpoint, hlimit, hfailures, hallowed⟩ := h
  refine ⟨hsame.endpoint.trans hendpoint, ?_, ?_, ?_⟩
  · rw [hsame.retry, hlimit]
  · rw [hsame.retry, hfailures]
  · rw [hsame.retry]
    exact hallowed

/-- As long as failures are allowed, the one that is taken up schedules an attempt. -/
theorem HasCounted.delay_of_allowed (h : d.HasCounted s network history)
    (hallowed : s.maxRetries = 0 ∨ d.retry.count.failures.toNat < s.maxRetries.toNat) :
    d.retry.count.delay? = some (.ofSeconds d.retry.count.failures.toNat) := by
  rw [RetryPolicy.delay?, RetryPolicy.maxFailures_count, h.limit, if_neg]
  rintro ⟨hsome, hreached⟩
  rcases hallowed with hnone | hless
  · exact hsome hnone
  · exact absurd (UInt32.le_iff_toNat_le.mp hreached) (Nat.not_le_of_lt hless)

/-- The first failure that is not allowed is the last one, so it is as many as are allowed. -/
theorem HasCounted.delay_of_refused (h : d.HasCounted s network history)
    (hrefused : ¬(s.maxRetries = 0 ∨ d.retry.count.failures.toNat < s.maxRetries.toNat)) :
    d.retry.count.delay? = none ∧ d.retry.count.failures = s.maxRetries := by
  obtain ⟨hsome, hreached⟩ := not_or.mp hrefused
  constructor
  · rw [RetryPolicy.delay?, RetryPolicy.maxFailures_count, h.limit, if_pos]
    exact ⟨hsome, UInt32.le_iff_toNat_le.mpr (Nat.le_of_not_lt hreached)⟩
  · have hbefore := h.allowed.resolve_left hsome
    have hcount := d.retry.toNat_count
    exact UInt32.toNat.inj (by omega)

/-- What is taken up while the daemon runs on is counted: a login sets the count to zero, a
    failure that is allowed adds one, and nothing else changes it. -/
theorem HasCounted.handle (h : d.HasCounted s network history) (event : NetworkEvent)
    (hrunning : (d.handle event).1.isRunning = true) :
    (d.handle event).1.HasCounted s network (history ++ [event]) := by
  cases hfailure : event.isFailure with
  | false =>
    obtain ⟨-, -, -, hendpoint, hretry⟩ := handle_of_not_isFailure (d := d) hfailure
    -- of the other events only a login matters
    cases hready : event.isReady with
    | true =>
      rw [hready, if_pos rfl] at hretry
      have hfresh := hasCounted_fresh s network
      refine ⟨hendpoint.trans h.endpoint, ?_, ?_, ?_⟩
      · rw [hretry]
        exact h.limit
      · rw [hretry, NetworkEvent.failuresInRow_concat, hready]
        rfl
      · rw [hretry]
        exact hfresh.allowed
    | false =>
      rw [hready, if_neg Bool.false_ne_true] at hretry
      refine ⟨hendpoint.trans h.endpoint, ?_, ?_, ?_⟩
      · rw [hretry, h.limit]
      · rw [hretry, NetworkEvent.failuresInRow_concat, hready, hfailure]
        exact h.failures
      · rw [hretry]
        exact h.allowed
  | true =>
    have hcount := h.failures_count hfailure
    obtain ⟨reason, -, hhandle⟩ := handle_of_isFailure (d := d) hfailure
    rw [hhandle] at hrunning ⊢
    -- a failure that is not allowed ends the loop, so the daemon would not run on
    by_cases hallowed : s.maxRetries = 0 ∨ d.retry.count.failures.toNat < s.maxRetries.toNat
    · rw [onDisconnected_of_delay (h.delay_of_allowed hallowed)]
      exact ⟨h.endpoint, d.retry.maxFailures_count.trans h.limit, hcount, hallowed⟩
    · rw [onDisconnected_of_none (h.delay_of_refused hallowed).1, not_running_leave] at hrunning
      cases hrunning

/-! ## Runs -/

theorem deliver_of_pending {rest : List NetworkEvent} (h : d.pending = event :: rest) :
    d.deliver = { d with pending := rest }.handle event := by
  rw [deliver, h]

theorem not_running_move (h : d.isRunning = false) (m : Move) : (d.move m).isRunning = false := by
  cases m with
  | act a => exact not_running_step h a
  | arrive event => exact h

/-- A move adds to the history what it takes up, and nothing else changes the count. -/
theorem HasCounted.move (h : d.HasCounted s network history) (m : Move)
    (hrunning : d.isRunning = true) (hrunning' : (d.move m).isRunning = true) :
    (d.move m).HasCounted s network (history ++ (d.takenUp? m).toList) := by
  cases m with
  | arrive event =>
    show HasCounted _ s network (history ++ [])
    rw [List.append_nil]
    exact h.of_countsAs ⟨rfl, rfl⟩
  | act a =>
    -- only a delivery takes anything up
    by_cases ha : a = .deliver
    · subst ha
      have hstep : (d.step .deliver).1 = d.deliver.1 := by simp only [step, hrunning, if_true, act]
      simp only [Daemon.move, hstep] at hrunning' ⊢
      rw [takenUp?, if_pos hrunning]
      -- and only if there is an event that waits
      cases hpending : d.pending with
      | nil =>
        rw [deliver, hpending, List.head?_nil, Option.toList_none, List.append_nil]
        exact h
      | cons event rest =>
        rw [deliver_of_pending hpending] at hrunning' ⊢
        have hbehind : { d with pending := rest }.HasCounted s network history :=
          h.of_countsAs ⟨rfl, rfl⟩
        exact hbehind.handle event hrunning'
    · have hnone : d.takenUp? (.act a) = none := by
        cases a with
        | deliver => exact absurd rfl ha
        | _ => rfl
      rw [hnone, Option.toList_none, List.append_nil]
      exact h.of_countsAs (countsAs_step ha)

/-- Along any moves the count is that of the whole history, for as long as the daemon runs. -/
theorem hasCounted_moveAll (moves : List Move) :
    ∀ (d : Daemon) (history : List NetworkEvent),
      (d.isRunning = true → d.HasCounted s network history) →
      (d.moveAll moves).isRunning = true →
      (d.moveAll moves).HasCounted s network (history ++ d.takenUp moves) := by
  induction moves with
  | nil =>
    intro d history h hrunning
    rw [takenUp, List.append_nil]
    exact h hrunning
  | cons m rest ih =>
    intro d history h hrunning
    rw [takenUp, ← List.append_assoc]
    refine ih (d.move m) _ ?_ hrunning
    -- a daemon that runs after the move ran before it
    intro hlater
    cases hnow : d.isRunning with
    | true => exact (h hnow).move m hnow hlater
    | false =>
      rw [not_running_move hnow m] at hlater
      cases hlater

/-- A daemon whose events all come from its own network goes on like any other. -/
theorem goesOn_moveAll (moves : List Move) :
    ∀ d : Daemon, (∀ event, .arrive event ∉ moves) → (d.isRunning = true → d.GoesOn) →
      (d.moveAll moves).isRunning = true → (d.moveAll moves).GoesOn := by
  induction moves with
  | nil => exact fun d _ hd => hd
  | cons m rest ih =>
    intro d hown hd
    refine ih (d.move m) (fun event hmem => hown event (List.mem_cons_of_mem m hmem)) ?_
    intro hlater
    cases m with
    | arrive event => exact absurd List.mem_cons_self (hown event)
    | act a =>
      cases hnow : d.isRunning with
      | true => exact (hd hnow).step hnow a hlater
      | false =>
        rw [not_running_move hnow] at hlater
        cases hlater

/-! ## Ends -/

/-- The daemon has left its loop with this outcome, whether it is still shutting down or has
    ended. -/
def HasLeft (d : Daemon) (failure : Option Unreachable) : Prop :=
  d.phase = .leaving failure ∨ d.phase = .ended failure

variable {failure : Option Unreachable}

theorem HasLeft.conclude (h : d.HasLeft failure) : d.conclude.1.HasLeft failure := by
  unfold Daemon.conclude
  split
  · next hphase _ =>
    rcases h with h | h
    · rw [hphase] at h
      exact Or.inr (congrArg DaemonPhase.ended (DaemonPhase.leaving.inj h))
    · rw [hphase] at h
      cases h
  · exact h

theorem HasLeft.not_running (h : d.HasLeft failure) : d.isRunning = false := by
  rcases h with h | h
  · rw [isRunning, h]
    rfl
  · rw [isRunning, h]
    rfl

/-- A daemon that has left its loop keeps its outcome. -/
theorem HasLeft.move (h : d.HasLeft failure) (m : Move) : (d.move m).HasLeft failure := by
  have habsorb (outcome : Network × List Effect) : (d.absorb outcome).1.HasLeft failure :=
    HasLeft.conclude (d := d.noted outcome) h
  cases m with
  | arrive event => exact h
  | act a =>
    -- the loop takes no more actions, and what the connection does is only told
    cases a with
    | network o => exact habsorb _
    | submit share => exact habsorb _
    | count | wait => exact h
    | deliver | reconnect | tick | print | signal | shutdown =>
      simp only [Daemon.move, step, h.not_running, Bool.false_eq_true, if_false]
      exact h

theorem HasLeft.moveAll (h : d.HasLeft failure) (moves : List Move) :
    (d.moveAll moves).HasLeft failure := by
  induction moves generalizing d with
  | nil => exact h
  | cons m rest ih => exact ih (h.move m)

theorem HasLeft.result (h : d.HasLeft failure) : d.result? = none ∨ d.result? = some failure := by
  rcases h with h | h
  · rw [result?, h]
    exact Or.inl rfl
  · rw [result?, h]
    exact Or.inr rfl

theorem hasLeft_leave (d : Daemon) (failure : Option Unreachable) :
    (d.leave failure).1.HasLeft failure :=
  HasLeft.conclude (d := { d with phase := .leaving failure, network := d.network.disconnect.2 })
    (Or.inl rfl)

/-- Without a connection there is nothing to wait for. -/
theorem result_leave (hdown : d.network.link.isUp = false) (failure : Option Unreachable) :
    (d.leave failure).1.result? = some failure := by
  obtain ⟨last, hlink⟩ := Link.exists_of_not_isUp hdown
  have hdisconnect : d.network.disconnect.2.link = .down last :=
    Network.link_disconnect_of_down hlink
  rw [leave, Daemon.conclude, hdisconnect]
  rfl

/-! ## Events that are taken up -/

theorem move_deliver {rest : List NetworkEvent} (hrunning : d.isRunning = true)
    (hpending : d.pending = event :: rest) :
    d.move (.act .deliver) = ({ d with pending := rest }.handle event).1 := by
  rw [← deliver_of_pending hpending]
  simp only [move, step, hrunning, if_true, act]

/-- The number that the next failure has in its row. It is kept in 32 bits, and stays at the
    greatest number that these hold. -/
def nextInRow (history : List NetworkEvent) (event : NetworkEvent) : Nat :=
  min (NetworkEvent.failuresInRow (history ++ [event])) (2 ^ 32 - 1)

/-- A failure that is allowed has the next attempt made so many seconds later. -/
theorem HasCounted.retries {rest : List NetworkEvent} (h : d.HasCounted s network history)
    (hrunning : d.isRunning = true) (hpending : d.pending = event :: rest)
    (hfailure : event.isFailure = true)
    (hallowed : s.maxRetries = 0 ∨ nextInRow history event < s.maxRetries.toNat) :
    (d.move (.act .deliver)).isRunning = true ∧
      (d.move (.act .deliver)).reconnectAt =
        some (d.now + .ofSeconds (nextInRow history event)) := by
  have hbehind : { d with pending := rest }.HasCounted s network history :=
    h.of_countsAs ⟨rfl, rfl⟩
  have hcount := hbehind.failures_count hfailure
  obtain ⟨reason, -, hhandle⟩ := handle_of_isFailure (d := { d with pending := rest }) hfailure
  -- the event is taken off the queue before it is handled, which the count does not see
  have hdelay := hbehind.delay_of_allowed (by rwa [hcount])
  rw [move_deliver hrunning hpending, hhandle, onDisconnected_of_delay hdelay, hcount]
  exact ⟨hrunning, rfl⟩

/-- A failure that is not allowed makes the daemon leave its loop, and end at once if no
    connection is up. -/
theorem HasCounted.gives_up {rest : List NetworkEvent} (h : d.HasCounted s network history)
    (hrunning : d.isRunning = true) (hpending : d.pending = event :: rest)
    (hfailure : event.isFailure = true)
    (hrefused : ¬(s.maxRetries = 0 ∨ nextInRow history event < s.maxRetries.toNat)) :
    let failure := some ⟨network.endpoint, s.maxRetries⟩
    nextInRow history event = s.maxRetries.toNat ∧
      (d.move (.act .deliver)).HasLeft failure ∧
      (d.network.link.isUp = false → (d.move (.act .deliver)).result? = some failure) := by
  intro failure
  let behind := { d with pending := rest }
  have hbehind : behind.HasCounted s network history := h.of_countsAs ⟨rfl, rfl⟩
  have hcount := hbehind.failures_count hfailure
  obtain ⟨reason, -, hhandle⟩ := handle_of_isFailure (d := behind) hfailure
  obtain ⟨hdelay, hlimit⟩ := hbehind.delay_of_refused (by rwa [hcount])
  -- the error tells of the limit, which the failures have just reached
  have hleave : d.move (.act .deliver) = ({ behind with retry := behind.retry.count }.leave
      failure).1 := by
    rw [move_deliver hrunning hpending, hhandle, onDisconnected_of_none hdelay, hlimit,
      hbehind.endpoint]
  refine ⟨?_, ?_, ?_⟩
  · rw [← hlimit]
    exact hcount.symm
  · rw [hleave]
    exact hasLeft_leave _ _
  · intro hdown
    rw [hleave]
    exact result_leave (d := { behind with retry := behind.retry.count }) hdown failure

/-- An event that is no failure leaves the attempts, the connection and the loop alone. -/
theorem move_of_not_isFailure {rest : List NetworkEvent} (hrunning : d.isRunning = true)
    (hpending : d.pending = event :: rest) (hfailure : event.isFailure = false) :
    (d.move (.act .deliver)).isRunning = true ∧
      (d.move (.act .deliver)).reconnectAt = d.reconnectAt ∧
      (d.move (.act .deliver)).network = d.network := by
  obtain ⟨hat, hnetwork, hphase, -, -⟩ :=
    handle_of_not_isFailure (d := { d with pending := rest }) hfailure
  rw [move_deliver hrunning hpending]
  refine ⟨?_, hat, hnetwork⟩
  rw [isRunning, hphase]
  exact hrunning

/-- A failure that waits is that of a connection that is gone. -/
theorem GoesOn.down_of_failure {rest : List NetworkEvent} (h : d.GoesOn)
    (hpending : d.pending = event :: rest) (hfailure : event.isFailure = true) :
    d.network.link.isUp = false := by
  have hwaits : 0 < d.failures := by
    rw [failures, hpending, List.countP_cons, hfailure]
    exact Nat.succ_pos _
  cases h with
  | scheduled down idle due unfailed | connected up kept idle undue unfailed => omega
  | failed down => exact (Network.closed_of_down down).1

/-- When the `k`-th failure since the last login is taken up, the next attempt is due `k` seconds
    later, if failures are not limited or `k` is below the limit. Otherwise `k` is the limit and
    the daemon leaves its loop with an error that tells of `k` attempts, which stays its outcome
    whatever comes after; it ends at once if no connection is up, as is the case if all events
    came from its own network. Any other event leaves the attempts, the connection and the loop
    alone. -/
theorem moves_retry (s : MinerSettings) (network : NetworkSettings) (moves : List Move)
    (event : NetworkEvent) (rest : List NetworkEvent)
    (hrunning : ((fresh s network).moveAll moves).isRunning = true)
    (hpending : ((fresh s network).moveAll moves).pending = event :: rest) :
    let d := (fresh s network).moveAll moves
    let d' := d.move (.act .deliver)
    let k := min (NetworkEvent.failuresInRow ((fresh s network).takenUp moves ++ [event]))
      (2 ^ 32 - 1)
    let m := s.maxRetries.toNat
    (event.isFailure = true → m = 0 ∨ k < m →
      d'.isRunning = true ∧ d'.reconnectAt = some (d.now + .ofSeconds k)) ∧
    (event.isFailure = true → ¬(m = 0 ∨ k < m) → k = m ∧
      ∃ u : Unreachable,
        u.message =
          network.endpoint.text ++ " unreachable after " ++ Decimal.text k ++ " attempts" ∧
        (∀ more, (d'.moveAll more).isRunning = false ∧
          ((d'.moveAll more).result? = none ∨ (d'.moveAll more).result? = some (some u))) ∧
        (d.network.link.isUp = false ∨ (∀ e, .arrive e ∉ moves) →
          d'.result? = some (some u))) ∧
    (event.isFailure = false →
      d'.isRunning = true ∧ d'.reconnectAt = d.reconnectAt ∧ d'.network = d.network) := by
  intro d d' k m
  have hcounted : d.HasCounted s network ((fresh s network).takenUp moves) :=
    hasCounted_moveAll moves (fresh s network) [] (fun _ => hasCounted_fresh s network) hrunning
  have hzero : m = 0 ↔ s.maxRetries = 0 :=
    ⟨fun h => UInt32.toNat.inj h, fun h => congrArg UInt32.toNat h⟩
  rw [hzero]
  refine ⟨?_, ?_, ?_⟩
  · exact hcounted.retries hrunning hpending
  · intro hfailure hrefused
    obtain ⟨hk, hleft, hends⟩ := hcounted.gives_up hrunning hpending hfailure hrefused
    refine ⟨hk, ⟨network.endpoint, s.maxRetries⟩, ?_, ?_, ?_⟩
    · rw [show k = s.maxRetries.toNat from hk]
      rfl
    · intro more
      have hmore := hleft.moveAll more
      exact ⟨hmore.not_running, hmore.result⟩
    · -- without a connection it ends at once, and a failure of its own network is that of a
      -- connection that is gone
      rintro (hdown | hown)
      · exact hends hdown
      · have hgoes : d.GoesOn :=
          goesOn_moveAll moves (fresh s network) hown (fun _ => goesOn_fresh s network) hrunning
        exact hends (hgoes.down_of_failure hpending hfailure)
  · exact move_of_not_isFailure hrunning hpending

/-- With two failures allowed, the first one since a login is answered by an attempt a second
    later, and the second one by the end. -/
theorem moves_retry_small :
    let s := { MinerSettings.standard 1 with maxRetries := 2 }
    let failure := NetworkEvent.disconnected .connectionFailed
    let moves := [.arrive failure, .act .deliver, .arrive .ready, .act .deliver, .arrive failure]
    let d := (fresh s ⟨⟨"", 0⟩, "", "", 0⟩).moveAll moves
    let later := (fresh s ⟨⟨"", 0⟩, "", "", 0⟩).moveAll
      (moves ++ [.act .deliver, .arrive failure])
    d.isRunning = true ∧ d.pending = [failure] ∧
      (d.move (.act .deliver)).reconnectAt = some (.ofSeconds 1) ∧
      later.isRunning = true ∧ later.pending = [failure] ∧
      ∃ u : Unreachable, (later.move (.act .deliver)).result? = some (some u) := by
  intro s failure moves d later
  have hnow : d.isRunning = true ∧ d.pending = [failure] := ⟨rfl, rfl⟩
  have hlater : later.isRunning = true ∧ later.pending = [failure] := ⟨rfl, rfl⟩
  have hhistory : (fresh s ⟨⟨"", 0⟩, "", "", 0⟩).takenUp moves = [failure, .ready] := rfl
  have hnext : nextInRow [failure, .ready] failure = 1 := by decide
  obtain ⟨hretries, -, -⟩ := moves_retry s _ moves failure [] hnow.1 hnow.2
  obtain ⟨-, hends, -⟩ := moves_retry s _ _ failure [] hlater.1 hlater.2
  rw [hhistory] at hretries
  have hdue := (hretries rfl (Or.inr (by decide))).2
  rw [show min _ _ = 1 from hnext] at hdue
  obtain ⟨-, u, -, -, hresult⟩ := hends rfl (by decide)
  exact ⟨hnow.1, hnow.2, hdue, hlater.1, hlater.2, u, hresult (Or.inl rfl)⟩

end Daemon
end SoloMiner
