import SoloMiner.Job.Fault
import SoloMiner.Text.Bytes
import SoloMiner.Text.Cut
import SoloMiner.Text.Decimal

/-! # Block header packets

    The first half of a job. The body is a sequence of `key=value` pairs separated by
    ampersands. A pair counts if it has an equals sign, a key of letters and underscores, and
    a value that starts with at least one value character; only the leading value characters
    are read. Of pairs with one key the last counts. -/

namespace SoloMiner

/-- The header of a block to be mined. -/
structure BlockHeader where
  height : Int64
  timestamp : Int64
  method : String
  /-- The digest a winning share must have. -/
  indication : String
  difficulty : Int64
  minRange : Int64
  maxRange : Int64
  /-- The password that the share keys are derived from. -/
  password : Bytes
  deriving DecidableEq, Repr

namespace BlockHeader

/-- What a header packet starts with. -/
def lead : String := "SEND-CURRENT-BLOCK-MINING"

/-! ## Pairs -/

def isLetter (c : Char) : Bool := ('a' ≤ c && c ≤ 'z') || ('A' ≤ c && c ≤ 'Z')

def isKeyChar (c : Char) : Bool := isLetter c || c == '_'

def isValueChar (c : Char) : Bool :=
  isLetter c || ('0' ≤ c && c ≤ '9') || c == '.' || c == ';'

/-- The key and value of a pair that counts. The value ends at the first character that no value
    has, and what stands behind it is not read. -/
def pair? (text : List Char) : Option (List Char × List Char) :=
  match Text.cutFirst '=' text with
  | none => none
  | some (key, rest) =>
    let value := rest.takeWhile isValueChar
    if key.isEmpty || !key.all isKeyChar || value.isEmpty then none else some (key, value)

/-- The pairs of a body that count, in order. -/
def pairs (body : List Char) : List (List Char × List Char) :=
  (Text.fields '&' (Text.trimEnd body)).filterMap pair?

/-! ## Fields -/

/-- What has been read so far. A field is `none` as long as no pair of its key was taken. -/
structure Draft where
  height : Option Int64 := none
  timestamp : Option Int64 := none
  method : Option String := none
  indication : Option String := none
  difficulty : Option Int64 := none
  range : Option (Int64 × Int64) := none
  password : Option Bytes := none
  deriving DecidableEq, Repr

def invalid {α : Type} (field : String) (value : List Char) : Except TemplateError α :=
  .error (.invalidField field (String.ofList value))

def number (field : String) (value : List Char) : Except TemplateError Int64 :=
  match Decimal.int64? value with
  | some n => .ok n
  | none => invalid field value

/-- A range `min;max`. Both ends must be numbers, and the first must not exceed the second. -/
def range (value : List Char) : Except TemplateError (Int64 × Int64) :=
  match Text.cutFirst ';' value with
  | none => invalid "JOB" value
  | some (low, high) => do
    let low ← number "JOB" low
    let high ← number "JOB" high
    if high < low then invalid "JOB" value else pure (low, high)

/-- Takes one pair into the draft. It replaces what an earlier pair of its key has said, and a
    key that no header is read from is passed over. -/
def Draft.take (d : Draft) (key value : List Char) : Except TemplateError Draft :=
  match String.ofList key with
  | "ID" => do pure { d with height := some (← number "ID" value) }
  | "TIMESTAMP" => do pure { d with timestamp := some (← number "TIMESTAMP" value) }
  | "METHOD" => .ok { d with method := some (String.ofList value) }
  | "INDICATION" => .ok { d with indication := some (String.ofList value) }
  | "DIFFICULTY" => do pure { d with difficulty := some (← number "DIFFICULTY" value) }
  | "JOB" => do pure { d with range := some (← BlockHeader.range value) }
  | "KEY" => .ok { d with password := some (Bytes.ofString (String.ofList value)) }
  | _ => .ok d

/-- Takes pairs in order until one is refused. Then the whole packet is, even if a later pair
    would have replaced it. -/
def Draft.takeAll (d : Draft) : List (List Char × List Char) → Except TemplateError Draft
  | [] => .ok d
  | (key, value) :: rest =>
    match d.take key value with
    | .ok d => d.takeAll rest
    | .error e => .error e

def require {α : Type} (field : String) : Option α → Except TemplateError α
  | some x => .ok x
  | none => .error (.missingField field)

/-- The header, if no required field is missing. The missing ones are told one at a time, the
    range first. -/
def Draft.finish (d : Draft) : Except TemplateError BlockHeader := do
  let (minRange, maxRange) ← require "JOB" d.range
  let height ← require "ID" d.height
  let method ← require "METHOD" d.method
  let indication ← require "INDICATION" d.indication
  let password ← require "KEY" d.password
  pure {
    height, method, indication, minRange, maxRange, password
    timestamp := d.timestamp.getD 0
    difficulty := d.difficulty.getD 0 }

/-! ## Packets -/

/-- The text behind `lead` and a bar. Bytes that are no text have no lead either. -/
def body? (lead : String) (packet : Bytes) : Except TemplateError (List Char) :=
  match packet.text? with
  | none => .error (.wrongLead lead)
  | some text =>
    match (lead.toList ++ ['|']).isPrefixOf? text.toList with
    | none => .error (.wrongLead lead)
    | some body => .ok body

/-- Reads a decrypted header packet. -/
def parse (packet : Bytes) : Except TemplateError BlockHeader := do
  let body ← body? lead packet
  let draft ← Draft.takeAll {} (pairs body)
  draft.finish

/-- What a debug print shows: nothing of the password. -/
def debugText (h : BlockHeader) : String :=
  s!"BlockHeader \x7b height: {Decimal.text h.height.toInt}, method: " ++ Text.quoted h.method ++
    s!", difficulty: {Decimal.text h.difficulty.toInt}, " ++
    s!"range: {Decimal.text h.minRange.toInt}..={Decimal.text h.maxRange.toInt}, .. \x7d"

end BlockHeader
end SoloMiner
