import SoloMiner.Settings.Threads
import SoloMiner.Wire.Endpoint

/-! # Settings of the miner

    Settings come from a file, environment variables and the command line, each over the
    ones before. They are checked once all are applied. -/

namespace SoloMiner

/-- Name and version of the program. -/
def programName : String := "xenophyte-miner"

def programVersion : String := "0.1.0"

/-- The node, and how the miner presents itself. -/
structure NodeSettings where
  url : String := ""
  wallet : String := ""
  userAgent : String := programName ++ "/" ++ programVersion
  deriving DecidableEq, Repr

namespace NodeSettings

def fields : List (JsonValue.FieldReader NodeSettings) := [
  .of "url" JsonValue.text? fun x s => { s with url := x },
  .of "wallet" JsonValue.text? fun x s => { s with wallet := x },
  .of "user_agent" JsonValue.text? fun x s => { s with userAgent := x }]

def ofJson? (v : JsonValue) : Option NodeSettings := v.record? fields {}

end NodeSettings

structure MinerSettings where
  node : NodeSettings := {}
  /-- Seconds a request may take. -/
  networkTimeout : UInt64 := 5
  /-- Seconds between two speed lines. -/
  printInterval : UInt64 := 10
  /-- Failed connections in a row before the miner gives up; zero for never. -/
  maxRetries : UInt32 := 5
  digest : ShareDigest := .standard
  pool : PoolSettings
  deriving DecidableEq, Repr

/-- Why settings were refused. -/
inductive SettingsError where
  | unreadable
  | malformed
  | missing (field : String)
  | zero (field : String)
  | invalidUrl (url : String)
  deriving DecidableEq, Repr

def SettingsError.message : SettingsError → String
  | .unreadable => "failed to read"
  | .malformed => "failed to parse"
  | .missing field => field ++ " must be set"
  | .zero field => field ++ " must be greater than zero"
  | .invalidUrl url => "invalid pool url: " ++ url

/-- What a connection needs to log in. -/
structure NetworkSettings where
  endpoint : Endpoint
  wallet : String
  userAgent : String
  /-- Seconds a request may take. -/
  timeout : UInt64
  deriving DecidableEq, Repr

namespace MinerSettings

/-! ## Sources -/

/-- The settings when nothing is given, on a machine with `cpus` processors. -/
def standard (cpus : Nat) : MinerSettings := { pool := { threads := cpus } }

def fields (cpus : Nat) : List (JsonValue.FieldReader MinerSettings) := [
  .of "pool" NodeSettings.ofJson? fun x s => { s with node := x },
  .of "network_timeout" (fun v => v.size?.map UInt64.ofNat)
    fun x s => { s with networkTimeout := x },
  .of "print_speed_duration" (fun v => v.size?.map UInt64.ofNat)
    fun x s => { s with printInterval := x },
  .of "max_retry_count" (fun v => (v.natBelow? UInt32.size).map UInt32.ofNat)
    fun x s => { s with maxRetries := x },
  .of "share_digest" (·.choice? ShareDigest.ofName?) fun x s => { s with digest := x },
  .of "cpu_miner" (PoolSettings.ofJson? cpus) fun x s => { s with pool := x }]

/-- Reads a settings file. -/
def ofFile (cpus : Nat) (content : Bytes) : Except SettingsError MinerSettings :=
  match content.text? with
  | none => .error .unreadable
  | some text =>
    match (JsonValue.parse? text).bind fun v => v.record? (fields cpus) (standard cpus) with
    | some s => .ok s
    | none => .error .malformed

/-- Environment variables with their values. -/
abbrev Environment : Type := List (String × String)

/-- A variable that holds a number below `2 ^ 64`; anything else is as if it were not set. -/
def number? (env : Environment) (name : String) : Option UInt64 :=
  (env.lookup name).bind fun s => Decimal.uint64? s.toList

/-- Applies environment variables. -/
def withEnvironment (s : MinerSettings) (env : Environment) : MinerSettings :=
  { s with
    node := {
      url := (env.lookup "XENOPHYTE_POOL_URL").getD s.node.url
      wallet := (env.lookup "XENOPHYTE_WALLET").getD s.node.wallet
      userAgent := (env.lookup "XENOPHYTE_USER_AGENT").getD s.node.userAgent }
    networkTimeout := (number? env "XENOPHYTE_NETWORK_TIMEOUT").getD s.networkTimeout
    printInterval := (number? env "XENOPHYTE_PRINT_SPEED_DURATION").getD s.printInterval
    pool := { s.pool with
      threads := ((number? env "XENOPHYTE_THREADS").map UInt64.toNat).getD s.pool.threads } }

/-! ## Checks -/

def endpoint (s : MinerSettings) : Except SettingsError Endpoint :=
  (Endpoint.parse s.node.url).mapError fun _ => .invalidUrl s.node.url

def isBlankText (s : String) : Bool := s.toList.all Text.isBlank

/-- Refuses settings the miner cannot run with. -/
def validate (s : MinerSettings) : Except SettingsError Unit :=
  if isBlankText s.node.url then .error (.missing "pool.url")
  else if isBlankText s.node.wallet then .error (.missing "pool.wallet")
  else if s.pool.threadCount = 0 then .error (.zero "cpu_miner.threads")
  else if s.networkTimeout = 0 then .error (.zero "network_timeout")
  else if s.printInterval = 0 then .error (.zero "print_speed_duration")
  else s.endpoint.map fun _ => ()

def network (s : MinerSettings) : Except SettingsError NetworkSettings :=
  s.endpoint.map fun endpoint =>
    ⟨endpoint, s.node.wallet, s.node.userAgent, s.networkTimeout⟩

end MinerSettings
end SoloMiner
