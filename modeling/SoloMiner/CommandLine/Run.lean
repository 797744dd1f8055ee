import SoloMiner.CommandLine.Startup

/-! # Runs

    A run either ends before the daemon starts, or it is the daemon's. What it tells its user
    is the same on a real machine and on one where every attempt to connect turns out the same. -/

namespace SoloMiner

/-- What is left of a run that is over. -/
structure Ending where
  /-- The exit code. -/
  code : UInt32
  /-- What it has printed that is no record. -/
  lines : List String
  /-- The records shown. -/
  records : List LogRecord
  /-- What it has told of faults. -/
  errors : List String

/-- How a run begins. -/
inductive Run where
  | over (e : Ending)
  /-- The daemon is about to take its first step. `records` are those shown so far. -/
  | started (d : Daemon) (filter : LogFilter) (records : List LogRecord) (errors : List String)

namespace Run

/-- The settings file that a run asks for. -/
def settingsPath? (args : List String) (env : MinerSettings.Environment) : Option String :=
  match Options.parse args env with
  | .run o => o.config
  | _ => none

/-- Begins a run with checked settings. -/
def ofSettings (s : MinerSettings) (filter : LogFilter) (before : List LogRecord)
    (errors : List String) : Run :=
  let first := before ++ [Report.program s]
  let failure (code : UInt32) (error : String) : Run :=
    .over ⟨code, [], first.filter filter.shows, errors ++ [error]⟩
  if !Startup.canStart s then failure Startup.breakdown (Startup.breakdownText "too many threads")
  else
    match Daemon.start s with
    | .error e => failure Startup.failure (Startup.errorLine e.message)
    | .ok (d, records) =>
      let broken := if Startup.canPrintSpeed s then [] else [Startup.breakdownText "speed"]
      .started d filter ((first ++ records).filter filter.shows) (errors ++ broken)

/-- Begins a run. `cause` is why the settings file cannot be read, if it cannot. -/
def ofOptions (cpus : Nat) (o : Options) (env : MinerSettings.Environment)
    (file : Startup.SettingsFile) (cause : String) : Run :=
  let errors := Startup.notices env
  let filter := Startup.logFilter env
  let before := Startup.journalRecords env
  if !Startup.canLog env then
    .over ⟨Startup.breakdown, [], [],
      errors ++ [Startup.breakdownText DirectiveError.dividedCharacter.message]⟩
  else
    match Startup.settings cpus file env o with
    | .error e =>
      let line := Startup.errorLine (Startup.settingsFault (o.config.getD "") cause e)
      .over ⟨Startup.failure, [], before.filter filter.shows, errors ++ [line]⟩
    | .ok s => ofSettings s filter before errors

/-- Begins what the command line asks for. -/
def start (cpus : Nat) (args : List String) (env : MinerSettings.Environment)
    (file : Startup.SettingsFile) (cause : String) : Run :=
  match Options.parse args env with
  | .misuse => .over ⟨Startup.misuse, [], [], [Startup.misuseText]⟩
  | .showVersion => .over ⟨Startup.success, [Startup.versionLine], [], []⟩
  | .showHelp => .over ⟨Startup.success, [Startup.helpText], [], []⟩
  | .run o => ofOptions cpus o env file cause

/-- What a daemon that has ended leaves. -/
def endingOf (failure : Option Unreachable) (records : List LogRecord) (errors : List String) :
    Ending :=
  match failure with
  | none => ⟨Startup.success, [], records, errors⟩
  | some u => ⟨Startup.failure, [], records, errors ++ [Startup.errorLine u.message]⟩

/-- What a run leaves if every attempt to connect turns out the same, within some time. -/
def ending (attempt : Except NetworkError Bytes) (time : Duration) : Run → Ending
  | .over e => e
  | .started d filter records errors =>
    let (d, more) := d.pass attempt time
    endingOf d.result?.join (records ++ more.filter filter.shows) errors

end Run
end SoloMiner
