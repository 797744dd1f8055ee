import SoloMiner.Daemon.Report
import SoloMiner.Daemon.Retry
import SoloMiner.Session.Network

/-! # Daemon

    The daemon keeps a connection up, hands new jobs to the workers, keeps the tallies and
    prints the speed. It runs until it is told to stop or the node stays unreachable, and then
    waits for its connection to end.

    Network events wait in the order they were emitted until the daemon takes them up. Between
    any two steps the connection may take steps of its own. -/

namespace SoloMiner

/-- Why the daemon stopped by itself: so many attempts in a row failed. -/
structure Unreachable where
  endpoint : Endpoint
  attempts : UInt32
  deriving DecidableEq, Repr

def Unreachable.message (u : Unreachable) : String :=
  u.endpoint.text ++ " unreachable after " ++ Decimal.text u.attempts.toNat ++ " attempts"

/-- How far the daemon has come. It leaves its loop for a request or because it gives up, and
    ends when its connection has. -/
inductive DaemonPhase where
  | running
  /-- It waits for its connection to end. -/
  | leaving (failure : Option Unreachable)
  | ended (failure : Option Unreachable)
  deriving DecidableEq, Repr

structure Daemon where
  settings : MinerSettings
  endpoint : Endpoint
  network : Network
  /-- Events not taken up yet, the oldest first. -/
  pending : List NetworkEvent
  retry : RetryPolicy
  /-- When to connect, if an attempt is due. -/
  reconnectAt : Option Duration
  stats : ShareStats
  /-- The job that the workers search. -/
  job : Option JobTemplate
  counters : HashCounters
  tracker : HashrateTracker
  report : HashrateReport
  /-- Time since the start. -/
  now : Duration
  /-- When to read the counters next. -/
  tickAt : Duration
  /-- When to print the speed next. -/
  printAt : Duration
  phase : DaemonPhase

/-- Signals that end the daemon. -/
inductive Signal where
  | interrupt
  | terminate
  deriving DecidableEq, Repr

def Signal.name : Signal → String
  | .interrupt => "SIGINT"
  | .terminate => "SIGTERM"

namespace Daemon

/-! ## Start and end -/

def tickInterval : Duration := .ofSeconds HashrateTracker.tickSeconds

def printInterval (d : Daemon) : Duration := .ofSeconds d.settings.printInterval.toNat

/-- A daemon about to connect for the first time. The attempt is due at once, like one after a
    failure is when its delay is over. -/
def fresh (s : MinerSettings) (network : NetworkSettings) : Daemon :=
  let workers := s.pool.threadCount
  { settings := s
    endpoint := network.endpoint
    network := .start network
    pending := []
    retry := .start s.maxRetries
    reconnectAt := some .zero
    stats := .empty
    job := none
    counters := .zero workers
    tracker := .start workers
    report := .none
    now := .zero
    tickAt := tickInterval
    printAt := .ofSeconds s.printInterval.toNat
    phase := .running }

def start (s : MinerSettings) : Except SettingsError (Daemon × List LogRecord) :=
  s.network.map fun network =>
    (fresh s network, Report.poolStarted s :: Report.workersStarted s ++ Report.started)

def isRunning (d : Daemon) : Bool := d.phase == .running

/-- How the daemon ended, if it has. -/
def result? (d : Daemon) : Option (Option Unreachable) :=
  match d.phase with
  | .ended failure => some failure
  | _ => none

/-- Ends once there is no connection to wait for. A daemon that is leaving has asked for the end
    of its connection, and goes on passing on what happens to it. -/
def conclude (d : Daemon) : Daemon × List LogRecord :=
  match d.phase, d.network.link with
  | .leaving failure, .down _ =>
    ({ d with phase := .ended failure }, Report.workersStopped d.settings ++ [Report.exiting])
  | _, _ => (d, [])

/-- Stops running and asks for the end of the connection. -/
def leave (d : Daemon) (failure : Option Unreachable) : Daemon × List LogRecord :=
  conclude { d with phase := .leaving failure, network := d.network.disconnect.2 }

/-! ## Network -/

/-- The record of an effect, if it has one. -/
def recordOf? : Effect → Option LogRecord
  | .rejected e => some (Report.methodRejected e)
  | _ => none

/-- Takes note of a step of the network. Its events join those not taken up yet, and what it
    tells is recorded. -/
def absorb (d : Daemon) (outcome : Network × List Effect) : Daemon × List LogRecord :=
  let (network, effects) := outcome
  let (d, records) :=
    conclude { d with network, pending := d.pending ++ effects.filterMap Effect.event? }
  (d, effects.filterMap recordOf? ++ records)

/-- The record of an attempt to connect; there is none while a connection is up. -/
def opening (d : Daemon) : List LogRecord :=
  match d.network.link with
  | .up _ => []
  | .down _ => [Report.opening d.endpoint]

/-- Connects, if it is time. An attempt that fails leaves an event, and is not repeated before
    that is taken up. -/
def reconnect (d : Daemon) (attempt : Except NetworkError Bytes) : Daemon × List LogRecord :=
  match d.reconnectAt with
  | none => (d, [])
  | some time =>
    if time ≤ d.now then
      let first := Report.connecting d.endpoint :: d.opening
      let (d, records) := absorb { d with reconnectAt := none } (d.network.connect attempt).2
      (d, first ++ records)
    else (d, [])

/-! ## Events -/

/-- A connection failed or ended: tries again later, or gives up. The next attempt is delayed by
    a second for each failure in a row. -/
def onDisconnected (d : Daemon) (reason : DisconnectReason) : Daemon × List LogRecord :=
  let (delay, retry) := d.retry.onFailure
  let d := { d with retry }
  let first := Report.disconnected d.endpoint reason
  match delay with
  | some delay =>
    ({ d with reconnectAt := some (d.now + delay) },
      [first, Report.reconnecting delay retry.failures])
  | none =>
    let (d, records) := d.leave (some ⟨d.endpoint, retry.failures⟩)
    (d, first :: Report.givingUp d.endpoint retry.failures :: records)

def onShareResult (d : Daemon) (height : Int64) (jobType : JobType) (status : ShareStatus)
    (roundTrip : Duration) : Daemon × List LogRecord :=
  let (counts, stats) := d.stats.record height jobType status
  let record :=
    if counts then Report.shareResult height jobType status roundTrip stats.total
    else Report.repeatedResult height
  ({ d with stats }, [record])

/-- Takes up an event. Only a login makes the count of failures start over, and an end that was
    asked for is no failure. -/
def handle (d : Daemon) : NetworkEvent → Daemon × List LogRecord
  | .ready => ({ d with retry := d.retry.reset }, [Report.loggedIn d.endpoint])
  | .disconnected .requested => (d, [])
  | .disconnected reason => d.onDisconnected reason
  | .newJob job => ({ d with job := some job }, [Report.newJob job])
  | .shareResult height jobType status roundTrip =>
    d.onShareResult height jobType status roundTrip

/-- Takes up the oldest event. -/
def deliver (d : Daemon) : Daemon × List LogRecord :=
  match d.pending with
  | [] => (d, [])
  | event :: rest => { d with pending := rest }.handle event

/-! ## Speed -/

/-- Reads the counters, if it is time. What is late does not move the next tick, so that ticks do
    not drift. -/
def tick (d : Daemon) (overhead : Nat) : Daemon :=
  if d.tickAt ≤ d.now then
    let (tracker, counters) := d.tracker.tick d.counters overhead
    { d with tracker, counters, report := tracker.report, tickAt := d.tickAt + tickInterval }
  else d

/-- When the speed is printed next. Without an interval it never is. -/
def nextPrint? (d : Daemon) : Option Duration :=
  if d.printInterval = .zero then none else some d.printAt

/-- Prints the speed, if it is time. What is printed are the rates of the last tick. -/
def print (d : Daemon) : Daemon × List LogRecord :=
  match d.nextPrint? with
  | none => (d, [])
  | some time =>
    if time ≤ d.now then
      ({ d with printAt := time + d.printInterval }, Report.speed d.report)
    else (d, [])

/-! ## Actions -/

/-- What may happen to a daemon. -/
inductive Action where
  /-- It takes up an event. -/
  | deliver
  /-- It connects, if it is time. `attempt` is how that turns out. -/
  | reconnect (attempt : Except NetworkError Bytes)
  | network (o : Connection.Occurrence)
  /-- A worker found a share. -/
  | submit (share : FoundShare)
  /-- A worker counted hashes. -/
  | count (worker : Nat) (hashes : UInt64)
  | tick (overhead : Nat)
  | print
  | wait (time : Duration)
  | signal (s : Signal)
  | shutdown

/-- A step of the event loop. It is taken by a daemon that is running only. -/
def act (d : Daemon) : Action → Daemon × List LogRecord
  | .deliver => d.deliver
  | .reconnect attempt => d.reconnect attempt
  | .tick overhead => (d.tick overhead, [])
  | .print => d.print
  | .signal s =>
    let (d, records) := d.leave none
    (d, Report.signalled s.name :: records)
  | .shutdown => d.leave none
  | _ => (d, [])

/-- The network, the workers and the clock go on after the event loop has been left. What they do
    then is noted, and nothing new is begun. -/
def step (d : Daemon) (a : Action) : Daemon × List LogRecord :=
  match a with
  | .network o => d.absorb (d.network.pass (.occur o))
  | .submit share =>
    d.absorb (d.network.pass (.send (.share share d.network.settings.userAgent)))
  | .count worker hashes => ({ d with counters := d.counters.record worker hashes }, [])
  | .wait time => ({ d with now := d.now + time }, [])
  | a => if d.isRunning then d.act a else (d, [])

/-- Actions one after the other. -/
def run : Daemon → List Action → Daemon × List LogRecord
  | d, [] => (d, [])
  | d, a :: rest =>
    let (d, records) := d.step a
    let (d, more) := d.run rest
    (d, records ++ more)

end Daemon
end SoloMiner
