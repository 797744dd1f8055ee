import SoloMiner.CommandLine.Run
import SoloMiner.Search.Shift
import SoloMiner.Wire.Certificate
import Std.Async.DNS
import Std.Async.Signal
import Std.Async.System
import Std.Async.TCP
import Std.Time

/-! # Program

    Runs the daemon on real time, a real node and real threads. Everything that happens comes
    to the daemon as an action, in one loop; the loop looks at the socket, the workers, the
    signals and the clock in turn. -/

namespace SoloMiner.Program

open Std.Async

/-! ## Output -/

/-- Prints the records that the filter shows, each behind the time of day. -/
def print (filter : LogFilter) (records : List LogRecord) : IO Unit := do
  let out ← IO.getStdout
  for r in records.filter filter.shows do
    let time ← Std.Time.PlainTime.now
    out.putStr (time.format "HH:mm:ss" ++ r.text)
    out.flush

/-! ## Waiting -/

/-- Nanoseconds between two rounds of the loop. -/
def roundMilliseconds : UInt32 := 5

/-- Waits for a task, but not beyond a point in time. -/
partial def await {α : Type} (task : AsyncTask α) (deadline : Nat) : IO (Option α) := do
  if ← IO.hasFinished task then
    return some (← task.block)
  else if deadline ≤ (← IO.monoNanosNow) then
    return none
  else
    IO.sleep roundMilliseconds
    await task deadline

def randomWords (count : Nat) : IO Words := do
  let bytes ← IO.getRandomBytes (USize.ofNat (8 * count))
  return Random.wordsOf bytes.toList

/-! ## Node -/

/-- An open connection: what it will receive next, and when it last wrote. -/
structure Socket where
  client : TCP.Socket.Client
  incoming : AsyncTask (Option ByteArray)
  writtenAt : Nat

def socketAddress (number : UInt16) : Std.Net.IPAddr → Std.Net.SocketAddress
  | .v4 addr => .v4 ⟨addr, number⟩
  | .v6 addr => .v6 ⟨addr, number⟩

/-- Connects to the first address of the node that answers. -/
def openSocket (e : Endpoint) (timeout : Duration) : IO (Except NetworkError Socket) := do
  let deadline := (← IO.monoNanosNow) + timeout.nanoseconds
  try
    let lookup ← (DNS.getAddrInfo e.host (Decimal.text e.portNumber.toNat)).asTask
    let some addresses ← await lookup deadline | return .error .connectTimeout
    for address in addresses do
      let client ← TCP.Socket.Client.mk
      try
        let attempt ← (client.connect (socketAddress e.portNumber address)).asTask
        let some () ← await attempt deadline | return .error .connectTimeout
        client.noDelay
        let incoming ← (client.recv? 65536).asTask
        return .ok ⟨client, incoming, ← IO.monoNanosNow⟩
      catch _ => continue
    return .error .connect
  catch _ => return .error .connect

/-! ## Workers -/

/-- A worker, the job it searches, and the shift it is in. -/
structure Miner where
  settings : WorkerSettings
  job : Option JobTemplate
  station : Station
  shift : Option (Task ShiftReport)

/-- Looks in a shift. -/
def shiftLooks : Nat := 4

/-- Words for a shift. -/
def shiftWords : Nat := 8192

/-- Begins a shift in the job that is searched now, if there is anything to search. -/
def Miner.begin (m : Miner) (job : Option JobTemplate) : IO Miner := do
  let m := if m.job = job then m
    else { m with job, station := (job.map (Station.first m.settings)).getD .done }
  match m.job, m.station with
  | none, _ | _, .done => return m
  | some job, station =>
    let words ← randomWords shiftWords
    let shift := Task.spawn (fun () => station.shift m.settings job words shiftLooks) .dedicated
    return { m with shift := some shift }

/-! ## Machine -/

/-- The daemon with everything around it. -/
structure Machine where
  daemon : Daemon
  filter : LogFilter
  startedAt : Nat
  socket : Option Socket
  miners : List Miner
  signals : List (Signal × AsyncTask Int)

namespace Machine

/-- Takes over what an action has made of the daemon. -/
def adopt (m : Machine) (outcome : Daemon × List LogRecord) : IO Machine := do
  print m.filter outcome.2
  return { m with daemon := outcome.1 }

def step (m : Machine) (a : Daemon.Action) : IO Machine := m.adopt (m.daemon.step a)

def clock (m : Machine) : IO Machine := do
  let now : Duration := ⟨(← IO.monoNanosNow) - m.startedAt⟩
  return { m with daemon := { m.daemon with now } }

/-- Passes an occurrence to the connection and writes what it wants written. -/
def pass (m : Machine) (o : Connection.Occurrence) : IO Machine := do
  let outcome := m.daemon.network.pass (.occur o)
  let bytes := outcome.2.flatMap fun e => match e with
    | .wrote _ bytes => bytes
    | _ => []
  let m ← m.adopt (m.daemon.absorb outcome)
  match m.socket with
  | none => return m
  | some s =>
    if bytes.isEmpty then return m
    try
      (s.client.send ⟨bytes.toArray⟩).block
      return { m with socket := some { s with writtenAt := ← IO.monoNanosNow } }
    catch _ =>
      m.adopt (m.daemon.absorb (m.daemon.network.pass (.occur .breakDown)))

/-- Time since the connection last wrote. -/
def sinceWrite (m : Machine) : IO Duration := do
  match m.socket with
  | some s => return ⟨(← IO.monoNanosNow) - s.writtenAt⟩
  | none => return .zero

/-- Hands over what the socket has received. -/
def receive (m : Machine) : IO Machine := do
  let some s := m.socket | return m
  unless ← IO.hasFinished s.incoming do return m
  try
    match ← s.incoming.block with
    | some data =>
      let incoming ← (s.client.recv? 65536).asTask
      pass { m with socket := some { s with incoming } } (.arrive data.toList)
    | none => pass { m with socket := some { s with incoming := .pure none } } .hangUp
  catch _ => m.pass .breakDown

/-- Lets the connection go on until it has to wait, and ends an exchange that takes too long. -/
partial def converse (m : Machine) : IO Machine := do
  if m.daemon.network.isWaiting then
    let isAwaiting := match m.daemon.network.link with
      | .up c => c.awaiting.isSome
      | .down _ => false
    let limit := Duration.ofSeconds m.daemon.network.settings.timeout.toNat
    if isAwaiting && decide (limit ≤ (← m.sinceWrite)) then m.pass .expire else return m
  else
    (← m.pass (.proceed (← m.sinceWrite))).converse

/-- Connects, if it is time. -/
def reconnect (m : Machine) : IO Machine := do
  let isDue := match m.daemon.reconnectAt with
    | some time => decide (time ≤ m.daemon.now)
    | none => false
  unless m.daemon.isRunning && isDue do return m
  let attempt ← openSocket m.daemon.endpoint
    (.ofSeconds m.daemon.network.settings.timeout.toNat)
  let words ← randomWords 4096
  let certificate := ((Certificate.generate words).map (·.1)).getD []
  let m := { m with socket := attempt.toOption }
  m.step (.reconnect (attempt.map fun _ => certificate))

/-- Collects the report of a worker whose shift is over, and sends the worker back to work. -/
def relieve (m : Machine) (worker : Miner) : IO (Machine × Miner) := do
  match worker.shift with
  | some shift =>
    unless ← IO.hasFinished shift do return (m, worker)
    let report := shift.get
    let m ← m.step (.count worker.settings.id (UInt64.ofNat report.hashes))
    let m ← match report.share with
      | some share => m.step (.submit share)
      | none => pure m
    return (m, { worker with station := report.station, shift := none })
  | none =>
    if m.daemon.isRunning then return (m, ← worker.begin m.daemon.job) else return (m, worker)

def relieveAll (m : Machine) : IO Machine := do
  let mut m := m
  let mut miners := []
  for worker in m.miners do
    let (next, worker) ← m.relieve worker
    m := next
    miners := worker :: miners
  return { m with miners := miners.reverse }

def heed (m : Machine) : IO Machine := do
  let mut m := m
  for (signal, task) in m.signals do
    if m.daemon.isRunning && (← IO.hasFinished task) then m ← m.step (.signal signal)
  return m

/-- One round of the loop after the other, until the daemon has ended. -/
partial def run (m : Machine) : IO Ending := do
  match m.daemon.result? with
  | some failure => return Run.endingOf failure [] []
  | none =>
    let m ← m.clock
    let m ← m.heed
    let m ← m.reconnect
    let m ← m.receive
    let m ← m.converse
    let m := match m.daemon.network.link with
      | .up _ => m
      | .down _ => { m with socket := none }
    let m ← m.adopt m.daemon.settle
    let m ← m.step (.tick 0)
    let m ← m.step .print
    let m ← m.relieveAll
    IO.sleep roundMilliseconds
    m.run

end Machine

/-! ## Start -/

def waitFor (signal : Std.Async.Signal) : IO (AsyncTask Int) := do
  (← Signal.Waiter.mk signal false).wait

/-- Variables that the program reads. -/
def variableNames : List String := ["XENOPHYTE_CONFIG", "XENOPHYTE_POOL_URL", "XENOPHYTE_WALLET",
  "XENOPHYTE_USER_AGENT", "XENOPHYTE_NETWORK_TIMEOUT", "XENOPHYTE_PRINT_SPEED_DURATION",
  "XENOPHYTE_THREADS", "RUST_LOG", "JOURNAL_STREAM"]

def environment : IO MinerSettings.Environment := do
  variableNames.filterMapM fun name => do
    return (← IO.getEnv name).map fun value => (name, value)

/-- Reads the settings file. Gives also why it cannot be read or used. -/
def readSettings : Option String → IO (Startup.SettingsFile × String)
  | none => return (.unasked, "")
  | some path =>
    try
      return (.content (← IO.FS.readBinFile path).toList, "not the expected text")
    catch
      | .permissionDenied .. => return (.missing, "Permission denied (os error 13)")
      | .inappropriateType .. => return (.missing, "Is a directory (os error 21)")
      | _ => return (.missing, Startup.absent)

/-- Prints what a run has told. -/
def tell (filter : LogFilter) (e : Ending) : IO Unit := do
  for line in e.errors do
    (← IO.getStderr).putStrLn line
  for line in e.lines do
    IO.println line
  print filter e.records

/-- Lets the daemon run on this machine. -/
def runDaemon (d : Daemon) (filter : LogFilter) : IO Ending := do
  let s := d.settings
  let miners := (s.pool.workers s.digest).map fun w => ⟨w, none, .done, none⟩
  let signals := [(.interrupt, ← waitFor .sigint), (.terminate, ← waitFor .sigterm)]
  Machine.run ⟨d, filter, ← IO.monoNanosNow, none, miners, signals⟩

/-- Runs the program. -/
def run (args : List String) : IO UInt32 := do
  let env ← environment
  let (file, cause) ← readSettings (Run.settingsPath? args env)
  let cpus := (← System.getCPUInfo).size
  let filter := Startup.logFilter env
  let ending ← match Run.start cpus args env file cause with
    | .over e => pure e
    | .started d filter records errors =>
      tell filter ⟨Startup.success, [], records, errors⟩
      runDaemon d filter
  tell filter ending
  return ending.code

end SoloMiner.Program

def main (args : List String) : IO UInt32 := SoloMiner.Program.run args
