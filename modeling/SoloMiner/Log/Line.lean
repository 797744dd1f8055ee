import SoloMiner.Text.Cut
import SoloMiner.Text.Decimal
import SoloMiner.Text.Quoted

/-! # Log lines

    An event has a level, a target, a message and named fields. On a terminal it takes one
    line, or two if it has fields to show:

    `14:02:11 INFO  daemon: New job`
    `               height=1050878, difficulty=10107`

    The target loses the program's own name in front. A field is shown without the wrapping
    of an optional value and without quotes around it; fields about the origin of an event
    are not shown. -/

namespace SoloMiner

inductive LogLevel where
  | error
  | warn
  | info
  | debug
  | trace
  deriving DecidableEq, Repr

namespace LogLevel

def all : List LogLevel := [.error, .warn, .info, .debug, .trace]

/-- The name, five characters wide. -/
def label : LogLevel → String
  | .error => "ERROR"
  | .warn => "WARN "
  | .info => "INFO "
  | .debug => "DEBUG"
  | .trace => "TRACE"

/-- Switches a terminal to the colour of the level. -/
def color : LogLevel → String
  | .error => "\x1b[31m"
  | .warn => "\x1b[33m"
  | .info => "\x1b[32m"
  | .debug => "\x1b[34m"
  | .trace => "\x1b[35m"

/-- Is a level shown when events up to `least` are? -/
def isShown (level least : LogLevel) : Bool :=
  (all.takeWhile (· != least)).contains level || level == least

end LogLevel

/-- An event, with its fields as recorded. -/
structure LogRecord where
  level : LogLevel
  target : String
  message : Option String
  fields : List (String × String)
  deriving DecidableEq, Repr

namespace LogRecord

/-- What the program's own targets start with. -/
def ownLead : String := "xenophyte_miner::"

/-- The field that names the origin of an event taken over from elsewhere. -/
def originField : String := "log.target"

/-- The names of all fields; a message is one of them. -/
def fieldNames (r : LogRecord) : List String :=
  r.message.toList.map (fun _ => "message") ++ r.fields.map (·.1)

/-! ## Recorded values -/

/-- An optional value as a debug print shows it. -/
def optionText : Option String → String
  | some s => "Some(" ++ s ++ ")"
  | none => "None"

def boolText (b : Bool) : String := if b then "true" else "false"

/-! ## Shown values -/

def trimQuotes (cs : List Char) : List Char :=
  Text.trimEndWhile (· == '"') (cs.dropWhile (· == '"'))

/-- What stands between `Some(` and a closing bracket at the end. -/
def unwrapped? (cs : List Char) : Option (List Char) :=
  match "Some(".toList.isPrefixOf? cs with
  | none => none
  | some inner => if inner.getLast? = some ')' then some inner.dropLast else none

/-- A value without the wrapping of an optional value and without quotes around it. -/
def cleanValue (s : String) : String :=
  let cs := s.toList
  String.ofList (trimQuotes ((unwrapped? cs).getD cs))

/-- The target shown. -/
def shownTarget (r : LogRecord) : String :=
  match ownLead.toList.isPrefixOf? r.target.toList with
  | some rest => String.ofList rest
  | none =>
    if r.target = "log" then ((r.fields.lookup originField).map cleanValue).getD r.target
    else r.target

/-- The fields shown, with their values. -/
def shownFields (r : LogRecord) : List (String × String) :=
  (r.fields.filter fun f => !("log.".toList.isPrefixOf f.1.toList)).map fun f =>
    (f.1, cleanValue f.2)

/-- The message shown. -/
def shownMessage (r : LogRecord) : String :=
  (r.message.map fun m => String.ofList (trimQuotes m.toList)).getD ""

/-- Fields in one line. -/
def fieldLine (fields : List (String × String)) : String :=
  String.intercalate ", " (fields.map fun (name, value) => name ++ "=" ++ value)

/-! ## Lines -/

/-- Puts the fields under the target. -/
def indent : String := "               "

/-- The line or lines of an event, without the time of day in front. -/
def text (r : LogRecord) : String :=
  let fields := r.shownFields
  let second :=
    if fields.isEmpty then "" else "\n\x1b[90m" ++ indent ++ fieldLine fields ++ "\x1b[0m"
  " " ++ r.level.color ++ r.level.label ++ "\x1b[0m " ++ r.shownTarget ++ ": " ++
    r.shownMessage ++ second ++ "\n"

end LogRecord
end SoloMiner
