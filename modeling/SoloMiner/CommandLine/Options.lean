import SoloMiner.Settings.Miner

/-! # Command-line options

    Options are read from left to right, and the first thing that settles the outcome does.
    An option has a long and perhaps a short spelling; its value is attached, with or without
    an equals sign after a short one, or is the next argument. An option may be given once. -/

namespace SoloMiner

/-- What the options say. -/
structure Options where
  config : Option String := none
  url : Option String := none
  wallet : Option String := none
  threads : Option Nat := none
  deriving DecidableEq, Repr

/-- What a command line asks for. -/
inductive Invocation where
  | run (o : Options)
  | showVersion
  | showHelp
  /-- It makes no sense. -/
  | misuse
  deriving DecidableEq, Repr

/-- An option that takes a value. -/
inductive OptionName where
  | config
  | url
  | wallet
  | threads
  deriving DecidableEq, Repr

namespace OptionName

def ofLong? : String → Option OptionName
  | "config" => some .config
  | "url" => some .url
  | "wallet" => some .wallet
  | "threads" => some .threads
  | _ => none

def ofShort? : Char → Option OptionName
  | 'c' => some .config
  | 't' => some .threads
  | _ => none

end OptionName

namespace Options

/-- A path is any text but the empty one. -/
def path? (s : String) : Option String := if s.isEmpty then none else some s

/-- Takes a value unless there is one. -/
def setOnce? {α : Type} (present value : Option α) : Option (Option α) :=
  match present, value with
  | none, some v => some (some v)
  | _, _ => none

/-- Gives an option its value. -/
def set? (o : Options) (name : OptionName) (value : String) : Option Options :=
  match name with
  | .config => (setOnce? o.config (path? value)).map fun v => { o with config := v }
  | .url => (setOnce? o.url (some value)).map fun v => { o with url := v }
  | .wallet => (setOnce? o.wallet (some value)).map fun v => { o with wallet := v }
  | .threads =>
    (setOnce? o.threads ((Decimal.uint64? value.toList).map UInt64.toNat)).map fun v =>
      { o with threads := v }

/-! ## Arguments -/

/-- What one argument is. -/
inductive Argument where
  /-- An option with its value. -/
  | full (name : OptionName) (value : String)
  /-- An option whose value is the next argument. -/
  | open (name : OptionName)
  | version
  | help
  /-- What follows is no option. -/
  | endMark
  | unknown
  deriving DecidableEq, Repr

/-- An argument after two dashes. -/
def Argument.ofLong (cs : List Char) : Argument :=
  match Text.cutFirst '=' cs with
  | some (name, value) =>
    match OptionName.ofLong? (String.ofList name) with
    | some name => .full name (String.ofList value)
    | none => .unknown
  | none =>
    if cs.isEmpty then .endMark
    else if String.ofList cs = "version" then .version
    else if String.ofList cs = "help" then .help
    else
      match OptionName.ofLong? (String.ofList cs) with
      | some name => .open name
      | none => .unknown

/-- An argument after one dash: its first character, and what is attached. -/
def Argument.ofShort (c : Char) (attached : List Char) : Argument :=
  if c = 'V' then .version
  else if c = 'h' then .help
  else
    match OptionName.ofShort? c, attached with
    | none, _ => .unknown
    | some name, [] => .open name
    | some name, '=' :: value => .full name (String.ofList value)
    | some name, value => .full name (String.ofList value)

def Argument.ofText (s : String) : Argument :=
  match s.toList with
  | '-' :: '-' :: cs => .ofLong cs
  | '-' :: c :: attached => .ofShort c attached
  | _ => .unknown

/-- Can an argument be the value of the option before it? A dash alone can. -/
def isValue (s : String) : Bool :=
  match s.toList with
  | '-' :: _ :: _ => false
  | _ => true

/-- Reads arguments behind the options `o`. -/
def parseFrom (o : Options) : List String → Invocation
  | [] => .run o
  | arg :: rest =>
    match Argument.ofText arg with
    | .version => .showVersion
    | .help => .showHelp
    | .unknown => .misuse
    | .endMark => if rest.isEmpty then .run o else .misuse
    | .full name value =>
      match o.set? name value with
      | some o => parseFrom o rest
      | none => .misuse
    | .open name =>
      match rest with
      | [] => .misuse
      | value :: rest =>
        if isValue value then
          match o.set? name value with
          | some o => parseFrom o rest
          | none => .misuse
        else .misuse

/-- Gives the settings file that the environment names, unless there is one. -/
def withEnvironment (o : Options) (env : MinerSettings.Environment) : Invocation :=
  match o.config, env.lookup "XENOPHYTE_CONFIG" with
  | none, some path =>
    match path? path with
    | some path => .run { o with config := some path }
    | none => .misuse
  | _, _ => .run o

/-- Reads a command line. -/
def parse (args : List String) (env : MinerSettings.Environment) : Invocation :=
  match parseFrom {} args with
  | .run o => o.withEnvironment env
  | outcome => outcome

end Options
end SoloMiner
