import SoloMiner.Clock.Duration
import SoloMiner.Job.Template
import SoloMiner.Log.Line
import SoloMiner.Rate.Tracker
import SoloMiner.Settings.Miner
import SoloMiner.Share.Tally

/-! # Reports

    What the miner tells its user, event by event. -/

namespace SoloMiner.Report

/-! ## Targets -/

/-- The target of a part of the program. -/
def targetOf (part : String) : String := LogRecord.ownLead ++ part

def ofDaemon (level : LogLevel) (message : String) (fields : List (String × String)) :
    LogRecord :=
  ⟨level, targetOf "daemon", some message, fields⟩

def number (n : Int) : String := Decimal.text n

/-! ## Start and end -/

/-- The system's journal cannot be reached. -/
def noJournal (cause : String) : LogRecord :=
  ⟨.error, targetOf "tracing", some "Journald unavailable, logging to stdout.", [("error", cause)]⟩

/-- The first record of a run. -/
def program (s : MinerSettings) : LogRecord :=
  ⟨.info, "xenophyte_miner", some programName, [("version", programVersion),
    ("pool", s.node.url), ("threads", number s.pool.threadCount)]⟩

def poolStarted (s : MinerSettings) : LogRecord :=
  ⟨.info, targetOf "cpu_miner", some "CPU miner started", [
    ("threads", number s.pool.threadCount), ("priority", s.pool.priority.name),
    ("easy_block_only", LogRecord.boolText s.pool.easyBlockOnly), ("digest", s.digest.name)]⟩

/-- What a worker says of itself. -/
def ofWorker (message : String) (id : Nat) : LogRecord :=
  ⟨.debug, targetOf "cpu_miner::search", some message, [("thread", number id)]⟩

def workersStarted (s : MinerSettings) : List LogRecord :=
  (List.range s.pool.threadCount).map (ofWorker "Worker started")

def workersStopped (s : MinerSettings) : List LogRecord :=
  (List.range s.pool.threadCount).map (ofWorker "Worker stopped")

def started : List LogRecord := [
  ofDaemon .info "Started." [],
  ofDaemon .info "For debugging, set RUST_LOG=xenophyte_miner=debug or trace." []]

def signalled (name : String) : LogRecord := ofDaemon .info ("Received " ++ name ++ ".") []

def exiting : LogRecord := ofDaemon .info "Exiting." []

/-! ## Connections -/

def connecting (e : Endpoint) : LogRecord := ofDaemon .info "Connecting" [("endpoint", e.text)]

/-- An attempt to reach the node. -/
def opening (e : Endpoint) : LogRecord :=
  ⟨.debug, targetOf "network::connection", some "Connecting", [("endpoint", e.text)]⟩

def loggedIn (e : Endpoint) : LogRecord :=
  ofDaemon .info "Logged in, mining" [("endpoint", e.text)]

def disconnected (e : Endpoint) (reason : DisconnectReason) : LogRecord :=
  ofDaemon .warn "Disconnected" [("endpoint", e.text), ("reason", reason.text)]

def reconnecting (delay : Duration) (failures : UInt32) : LogRecord :=
  ofDaemon .debug "Reconnecting" [("delay", delay.text), ("failures", number failures.toNat)]

def givingUp (e : Endpoint) (failures : UInt32) : LogRecord :=
  ofDaemon .error "Node unreachable, giving up" [
    ("endpoint", e.text), ("failures", number failures.toNat)]

/-! ## Jobs and shares -/

def newJob (job : JobTemplate) : LogRecord :=
  ofDaemon .info "New job" [("height", number job.height.toInt),
    ("difficulty", number job.difficulty.toInt), ("method", job.method),
    ("range", number job.minRange.toInt ++ "..=" ++ number job.maxRange.toInt)]

def methodRejected (e : TemplateError) : LogRecord :=
  ⟨.warn, targetOf "network::session", some "Rejected block method", [("error", e.message)]⟩

def repeatedResult (height : Int64) : LogRecord :=
  ofDaemon .debug "Duplicate share result ignored" [("height", number height.toInt)]

/-- The verdict on a share, with the tally that includes it. -/
def shareResult (height : Int64) (jobType : JobType) (status : ShareStatus)
    (roundTrip : Duration) (total : ShareTally) : LogRecord :=
  let fields := [("height", number height.toInt), ("job_type", jobType.name),
    ("round_trip", roundTrip.text), ("good", number total.good), ("bad", number total.bad)]
  match status.reason? with
  | none => ofDaemon .info "Share accepted" fields
  | some reason => ofDaemon .warn "Share rejected" (fields ++ [("reason", reason)])

/-! ## Speed -/

def windows (ten sixty fifteen : HashRate) : List (String × String) := [
  ("ten_seconds", ten.text), ("sixty_seconds", sixty.text), ("fifteen_minutes", fifteen.text)]

/-- The speed of thread `id`. -/
def threadSpeed (r : HashrateReport) (id : Nat) : LogRecord :=
  ofDaemon .debug "Thread speed" (("thread", number id) :: windows (r.tenSeconds.getD id .zero)
    (r.sixtySeconds.getD id .zero) (r.fifteenMinutes.getD id .zero))

/-- The speed in total and of each thread. -/
def speed (r : HashrateReport) : List LogRecord :=
  ofDaemon .info "Speed" (windows r.totalTenSeconds r.totalSixtySeconds r.totalFifteenMinutes ++
    [("max", r.max.text)]) :: (List.range r.tenSeconds.length).map (threadSpeed r)

end SoloMiner.Report
