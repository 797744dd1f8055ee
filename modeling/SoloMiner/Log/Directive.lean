import SoloMiner.Log.Line
import SoloMiner.Pattern.Reader

/-! # Directives

    A directive of a log filter gives a least level to some events. Written out it is

    `target[span{field=value}]=level`

    for events whose target starts with `target` and that have a field `field`. Every part may be
    missing: a level alone is for all events, and a directive without a level shows everything it
    is for. A value is true, false, a number, or else a pattern. -/

namespace SoloMiner

/-- A field that an event has to have, and the value asked for if there is one. -/
structure FieldDemand where
  name : String
  value : Option String
  deriving DecidableEq, Repr

/-- The least level shown of some events; `none` if none of them is shown. -/
structure LogDirective where
  /-- What the target has to start with. -/
  lead : String
  /-- The span that the event has to be in. -/
  span : Option String
  field : Option FieldDemand
  least : Option LogLevel
  deriving DecidableEq, Repr

/-- What is wrong with the text of a directive. -/
inductive DirectiveError where
  | malformed
  | unknownLevel
  | unusableValue (fault : PatternFault)
  /-- A part starts or ends inside a character. -/
  | dividedCharacter
  deriving DecidableEq, Repr

def DirectiveError.message : DirectiveError → String
  | .malformed => "invalid filter directive"
  | .unknownLevel => "error parsing level filter: expected one of \"off\", \"error\", \"warn\", " ++
      "\"info\", \"debug\", \"trace\", or a number 0-5"
  | .unusableValue fault => "invalid field filter: " ++ fault.message
  | .dividedCharacter => "character divided"

/-- The text of a field: a name and perhaps a value. What follows a second equals sign is not read. -/
def FieldDemand.ofText (cs : List Char) : Except DirectiveError FieldDemand :=
  match cs, Text.fields '=' cs with
  | _ :: _, [name] => .ok ⟨String.ofList name, none⟩
  | _ :: _, name :: value :: _ =>
    match if Decimal.isReal value then none else Pattern.fault? value with
    | none => .ok ⟨String.ofList name, some (String.ofList value)⟩
    | some fault => .error (.unusableValue fault)
  | _, _ => .error .malformed

namespace LogDirective

/-- Shows every event. -/
def everything : LogDirective := ⟨"", none, none, some .trace⟩

/-! ## Parts -/

def lowerName : LogLevel → String
  | .error => "error"
  | .warn => "warn"
  | .info => "info"
  | .debug => "debug"
  | .trace => "trace"

/-- A level by its number, or by its name in letters of any case. -/
def level? (s : String) : Option (Option LogLevel) :=
  match Decimal.uint64? s.toList with
  | some n => (none :: LogLevel.all.map some)[n.toNat]?
  | none =>
    if s.toLower = "off" then some none
    else (LogLevel.all.find? fun l => lowerName l == s.toLower).map some

/-- Can a directive start with `c`, other than with a bracket? -/
def isFirst (c : Char) : Bool := c = '-' || c = ':' || c = '_' || Text.isAlphanumeric c

/-! ## Reading

    The characters read are those of `item` without the blanks around it, and `place` is the
    number of bytes before the next one. A part is what stands in `item` itself between two
    such places: blanks in front move every part but one that goes from end to end. -/

abbrev Reading := Except DirectiveError LogDirective

/-- The part of an item between two places. -/
def part (item : List Char) (first last : Nat) : Except DirectiveError (List Char) :=
  match Text.betweenBytes? item first last with
  | some cs => .ok cs
  | none => .error .dividedCharacter

/-- The level is all that is left. -/
def readLevel (item : List Char) (d : LogDirective) (place : Nat) : Reading := do
  let cs ← part item place (Text.byteLength item)
  if cs.isEmpty then .ok { d with least := some .trace }
  else
    match level? (String.ofList cs) with
    | some least => .ok { d with least }
    | none => .error .unknownLevel

/-- Reads what stands behind the brackets. -/
def readBehind (item : List Char) (d : LogDirective) (place : Nat) : List Char → Reading
  | [] => .ok d
  | c :: _ => if c = '=' then readLevel item d (place + 1) else .error .malformed

/-- Reads the bracket behind a field. -/
def readEndOfBrackets (item : List Char) (d : LogDirective) (place : Nat) : List Char → Reading
  | [] => .error .malformed
  | c :: cs => if c = ']' then readBehind item d (place + 1) cs else .error .malformed

/-- Reads a field that starts at `first`. -/
def readField (item : List Char) (d : LogDirective) (first place : Nat) : List Char → Reading
  | [] => .error .malformed
  | c :: cs => do
    if c = '\x7d' then
      let field ← FieldDemand.ofText (← part item first place)
      readEndOfBrackets item { d with field } (place + 1) cs
    else readField item d first (place + c.utf8Size) cs

/-- Reads a span that starts at `first`. -/
def readSpan (item : List Char) (d : LogDirective) (first place : Nat) : List Char → Reading
  | [] => .error .malformed
  | c :: cs => do
    let next := place + c.utf8Size
    if c = ']' then
      let span ← part item first place
      readBehind item { d with span := some (String.ofList span) } next cs
    else if c = '\x7b' then
      let span ← part item first place
      let span := if span.isEmpty then none else some (String.ofList span)
      readField item { d with span } next next cs
    else readSpan item d first next cs

/-- Reads a target, or a level if there is nothing else. -/
def readLead (item : List Char) (place : Nat) : List Char → Reading
  | [] =>
    match level? (String.ofList item) with
    | some least => .ok { everything with least }
    | none => .ok { everything with lead := String.ofList item }
  | c :: cs => do
    let next := place + c.utf8Size
    if c = '=' then
      let lead ← part item 0 place
      readLevel item { everything with lead := String.ofList lead } next
    else if c = '[' then
      let lead ← part item 0 place
      readSpan item { everything with lead := String.ofList lead } next next cs
    else readLead item next cs

/-- Reads a directive. -/
def ofText (item : List Char) : Reading :=
  match Text.trim item with
  | [] => .error .malformed
  | c :: cs =>
    if c = '[' then readSpan item everything 1 1 cs
    else if isFirst c then readLead item c.utf8Size cs
    else .error .malformed

/-! ## Use -/

/-- Is a directive for an event? No event is in a span, and what value a field has is not looked
    at, so that no event satisfies a demand for either. -/
def isFor (d : LogDirective) (r : LogRecord) : Bool :=
  d.span.isNone && d.field.all (fun f => f.value.isNone && r.fieldNames.contains f.name) &&
    d.lead.toList.isPrefixOf r.target.toList

/-- Does `d` say as much as `e` about the events that both are for? A longer target says more,
    then having a field; of two fields the one with the later name counts. -/
def isAsSpecific (d e : LogDirective) : Bool :=
  if d.lead.length ≠ e.lead.length then decide (e.lead.length < d.lead.length)
  else
    match d.field, e.field with
    | some f, some g => !decide (f.name < g.name)
    | none, some _ => false
    | _, none => true

end LogDirective
end SoloMiner
