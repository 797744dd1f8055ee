import SoloMiner.CommandLine.Options
import SoloMiner.Daemon.Schedule
import SoloMiner.Log.Filter

/-! # Startup

    The settings of a run come from the settings file, the environment and the options, in
    that order, and are checked last. -/

namespace SoloMiner.Startup

/-! ## Settings -/

/-- Applies the options. -/
def withOptions (s : MinerSettings) (o : Options) : MinerSettings :=
  { s with
    node := { s.node with
      url := o.url.getD s.node.url
      wallet := o.wallet.getD s.node.wallet }
    pool := { s.pool with threads := o.threads.getD s.pool.threads } }

/-- A settings file: not asked for, or its content if it can be read. -/
inductive SettingsFile where
  | unasked
  | missing
  | content (bytes : Bytes)

def load (cpus : Nat) : SettingsFile → Except SettingsError MinerSettings
  | .unasked => .ok (.standard cpus)
  | .missing => .error .unreadable
  | .content bytes => MinerSettings.ofFile cpus bytes

/-- The settings of a run, checked. -/
def settings (cpus : Nat) (file : SettingsFile) (env : MinerSettings.Environment)
    (o : Options) : Except SettingsError MinerSettings := do
  let s := withOptions ((← load cpus file).withEnvironment env) o
  s.validate
  pure s

/-! ## Texts -/

/-- Exit codes. -/
def success : UInt32 := 0
def failure : UInt32 := 1
def misuse : UInt32 := 2
def breakdown : UInt32 := 101

def versionLine : String := programName ++ " " ++ programVersion

def helpText : String := String.intercalate "\n" [
  "Solo CPU miner for the Xenophyte network", "",
  "Usage: " ++ programName ++ " [OPTIONS]", "",
  "Options:",
  "  -c, --config <CONFIG>    JSON configuration file [env: XENOPHYTE_CONFIG=]",
  "      --url <URL>          Seed node, `host[:port]`",
  "      --wallet <WALLET>    Wallet address to mine to",
  "  -t, --threads <THREADS>  Number of mining threads",
  "  -h, --help               Print help",
  "  -V, --version            Print version"]

def misuseText : String :=
  "Usage: " ++ programName ++ " [OPTIONS]\n\nFor more information, try '--help'."

/-- Why a file that does not exist cannot be read. -/
def absent : String := "No such file or directory (os error 2)"

/-- The line that tells of a failure. -/
def errorLine (message : String) : String := "Error: " ++ message

/-- What a breakdown of a part of the program is told with, behind an empty line. -/
def breakdownText (cause : String) : String := "\nbroke down: " ++ cause

/-- What is wrong with the settings. A fault of the settings file at `path` is told with its
    name and its `cause`. -/
def settingsFault (path cause : String) (e : SettingsError) : String :=
  match e with
  | .unreadable | .malformed => e.message ++ " " ++ path ++ ": " ++ cause
  | _ => e.message

/-! ## Logging -/

/-- What the environment says about the records the user sees. -/
def logText (env : MinerSettings.Environment) : String := (env.lookup "RUST_LOG").getD ""

/-- Which records the user sees. -/
def logFilter (env : MinerSettings.Environment) : LogFilter := .ofText (logText env)

/-- Can the program tell which records the user sees? It breaks down if not. -/
def canLog (env : MinerSettings.Environment) : Bool := LogFilter.isReadable (logText env)

/-- Lines told before everything else. -/
def notices (env : MinerSettings.Environment) : List String := LogFilter.notices (logText env)

/-- Where the environment names a stream of the system's journal, the user is told that records
    do not go there. -/
def journalRecords (env : MinerSettings.Environment) : List LogRecord :=
  if (env.lookup "JOURNAL_STREAM").isSome then [Report.noJournal absent] else []

/-! ## Bounds -/

/-- The longest list of workers, and a number of seconds by which the clock cannot be set ahead. -/
def bound : Nat := UInt64.size / 2 - 1

/-- Can the workers be counted out? The program breaks down if not. -/
def canStart (s : MinerSettings) : Bool := decide (s.pool.threadCount ≤ bound)

/-- Can the next time to print the speed be told? The speed is never printed if not. -/
def canPrintSpeed (s : MinerSettings) : Bool := decide (s.printInterval.toNat < bound)

end SoloMiner.Startup
