import SoloMiner.Text.Decimal
import SoloMiner.Text.Hexadecimal

/-! # JSON documents

    Reads the text of a settings file. Numbers are kept as written, and the members of an
    object in order, repeated names included: what they mean is decided by the reader of the
    value. A string may spell half a surrogate pair; it is then kept as a string without
    text, which only a reader that skips it accepts. -/

namespace SoloMiner

/-- A JSON value. -/
inductive JsonValue where
  | null
  | bool (b : Bool)
  /-- A number in the characters of the document. -/
  | number (numeral : List Char)
  /-- A string, or `none` if its escapes make no text. -/
  | string (text : Option String)
  | array (items : List JsonValue)
  | object (members : List (Option String × JsonValue))

namespace JsonValue

/-! ## Tokens -/

def isSpace (c : Char) : Bool := c == ' ' || c == '\n' || c == '\t' || c == '\r'

def skipSpace (cs : List Char) : List Char := cs.dropWhile isSpace

def isDigit (c : Char) : Bool := '0' ≤ c && c ≤ '9'

/-- Takes `word` off the front. -/
def literal? (word : String) (cs : List Char) : Option (List Char) :=
  word.toList.isPrefixOf? cs

/-- One or more digits. -/
def digits? (cs : List Char) : Option (List Char × List Char) :=
  let ds := cs.takeWhile isDigit
  if ds.isEmpty then none else some (ds, cs.dropWhile isDigit)

/-- The digits in front of a point: no zero leads another digit. -/
def whole? : List Char → Option (List Char × List Char)
  | '0' :: cs => if (cs.head?.map isDigit).getD false then none else some (['0'], cs)
  | cs => digits? cs

/-- A point and digits, or nothing. -/
def fraction? : List Char → Option (List Char × List Char)
  | '.' :: cs => (digits? cs).map fun (ds, rest) => ('.' :: ds, rest)
  | cs => some ([], cs)

/-- The mark of an exponent, a sign and digits, or nothing. -/
def exponent? (cs : List Char) : Option (List Char × List Char) :=
  match cs with
  | e :: rest =>
    if e = 'e' ∨ e = 'E' then
      match rest with
      | s :: ds =>
        if s = '+' ∨ s = '-' then (digits? ds).map fun (ds, rest) => (e :: s :: ds, rest)
        else (digits? rest).map fun (ds, rest) => (e :: ds, rest)
      | [] => none
    else some ([], cs)
  | [] => some ([], cs)

/-- A number. -/
def number? (cs : List Char) : Option (List Char × List Char) := do
  let (sign, cs) := match cs with
    | '-' :: rest => (['-'], rest)
    | rest => ([], rest)
  let (w, cs) ← whole? cs
  let (f, cs) ← fraction? cs
  let (e, cs) ← exponent? cs
  pure (sign ++ w ++ f ++ e, cs)

/-! ## Strings -/

/-- The code unit of four hexadecimal digits. -/
def codeUnit? : List Char → Option (Nat × List Char)
  | a :: b :: c :: d :: rest => do
    let a ← Hexadecimal.digit? a
    let b ← Hexadecimal.digit? b
    let c ← Hexadecimal.digit? c
    let d ← Hexadecimal.digit? d
    pure (((a * 16 + b) * 16 + c) * 16 + d, rest)
  | _ => none

/-- The character behind a backslash, as a code unit. -/
def escape? : List Char → Option (Nat × List Char)
  | '"' :: cs => some (34, cs)
  | '\\' :: cs => some (92, cs)
  | '/' :: cs => some (47, cs)
  | 'b' :: cs => some (8, cs)
  | 'f' :: cs => some (12, cs)
  | 'n' :: cs => some (10, cs)
  | 'r' :: cs => some (13, cs)
  | 't' :: cs => some (9, cs)
  | 'u' :: cs => codeUnit? cs
  | _ => none

/-- Reads up to the closing quote, at most `fuel` characters, behind the units `acc`, the
    latest first. -/
def unitsFrom? : Nat → List Nat → List Char → Option (List Nat × List Char)
  | 0, _, _ => none
  | _, _, [] => none
  | n + 1, acc, c :: cs =>
    if c = '"' then some (acc.reverse, cs)
    else if c = '\\' then
      match escape? cs with
      | some (u, rest) => unitsFrom? n (u :: acc) rest
      | none => none
    else if c.toNat < 32 then none
    else unitsFrom? n (c.toNat :: acc) cs

def isHighSurrogate (u : Nat) : Bool := 0xD800 ≤ u && u ≤ 0xDBFF
def isLowSurrogate (u : Nat) : Bool := 0xDC00 ≤ u && u ≤ 0xDFFF

/-- Joins surrogate pairs; `none` if a half stands alone. -/
def joinFrom? (acc : List Char) : List Nat → Option (List Char)
  | [] => some acc.reverse
  | [u] =>
    if isHighSurrogate u || isLowSurrogate u then none else some (Char.ofNat u :: acc).reverse
  | u :: v :: rest =>
    if isHighSurrogate u then
      if isLowSurrogate v then
        joinFrom? (Char.ofNat (0x10000 + (u - 0xD800) * 0x400 + (v - 0xDC00)) :: acc) rest
      else none
    else if isLowSurrogate u then none
    else joinFrom? (Char.ofNat u :: acc) (v :: rest)

/-- The rest of a string of at most `fuel` characters behind its opening quote. -/
def string? (fuel : Nat) (cs : List Char) : Option (Option String × List Char) :=
  (unitsFrom? fuel [] cs).map fun (units, rest) =>
    ((joinFrom? [] units).map String.ofList, rest)

/-! ## Values

    Each two calls consume a character, so that twice the length of the text is fuel enough, for
    strings too. -/

mutual

/-- A value and the text behind it. -/
def value? : Nat → List Char → Option (JsonValue × List Char)
  | 0, _ => none
  | n + 1, cs =>
    match skipSpace cs with
    | 'n' :: rest => (literal? "ull" rest).map fun rest => (.null, rest)
    | 't' :: rest => (literal? "rue" rest).map fun rest => (.bool true, rest)
    | 'f' :: rest => (literal? "alse" rest).map fun rest => (.bool false, rest)
    | '"' :: rest => (string? n rest).map fun (s, rest) => (.string s, rest)
    | '[' :: rest =>
      match skipSpace rest with
      | ']' :: rest => some (.array [], rest)
      | rest => (items? n [] rest).map fun (xs, rest) => (.array xs, rest)
    | '\x7b' :: rest =>
      match skipSpace rest with
      | '\x7d' :: rest => some (.object [], rest)
      | rest => (members? n [] rest).map fun (ms, rest) => (.object ms, rest)
    | rest => (number? rest).map fun (ds, rest) => (.number ds, rest)

/-- One or more items up to the closing bracket. -/
def items? : Nat → List JsonValue → List Char → Option (List JsonValue × List Char)
  | 0, _, _ => none
  | n + 1, acc, cs =>
    match value? n cs with
    | none => none
    | some (v, rest) =>
      match skipSpace rest with
      | ',' :: rest => items? n (v :: acc) rest
      | ']' :: rest => some ((v :: acc).reverse, rest)
      | _ => none

/-- One or more members up to the closing brace. -/
def members? : Nat → List (Option String × JsonValue) → List Char →
    Option (List (Option String × JsonValue) × List Char)
  | 0, _, _ => none
  | n + 1, acc, cs =>
    match skipSpace cs with
    | '"' :: rest =>
      match string? n rest with
      | none => none
      | some (name, rest) =>
        match skipSpace rest with
        | ':' :: rest =>
          match value? n rest with
          | none => none
          | some (v, rest) =>
            match skipSpace rest with
            | ',' :: rest => members? n ((name, v) :: acc) rest
            | '\x7d' :: rest => some (((name, v) :: acc).reverse, rest)
            | _ => none
        | _ => none
    | _ => none

end

/-- The value that a text consists of, white space around it apart. -/
def parse? (text : String) : Option JsonValue :=
  match value? (2 * text.length + 2) text.toList with
  | some (v, rest) => if (skipSpace rest).isEmpty then some v else none
  | none => none

/-! ## Typed readings -/

def bool? : JsonValue → Option Bool
  | .bool b => some b
  | _ => none

def text? : JsonValue → Option String
  | .string s => s
  | _ => none

/-- A number of at most 64 bits written as digits, perhaps behind a minus sign. A zero behind
    one is no integer. -/
def int? : JsonValue → Option Int
  | .number ('-' :: ds) =>
    if ds = ['0'] then none
    else (Decimal.digitsBelow? (UInt64.size / 2 + 1) ds).map fun n => -(n : Int)
  | .number ds => (Decimal.digitsBelow? UInt64.size ds).map fun n => (n : Int)
  | _ => none

/-- A number written as digits alone, below `bound`. -/
def natBelow? (bound : Nat) (v : JsonValue) : Option Nat :=
  (v.int?.bind Int.toNat?).filter (· < bound)

/-- A value that may be null. -/
def nullable? {α : Type} (read : JsonValue → Option α) : JsonValue → Option (Option α)
  | .null => some none
  | v => (read v).map some

def list? {α : Type} (read : JsonValue → Option α) : JsonValue → Option (List α)
  | .array xs => xs.mapM read
  | _ => none

/-- One of several names: a string, or an object whose only member has that name and is
    null. -/
def choice? {α : Type} (ofName? : String → Option α) : JsonValue → Option α
  | .string (some s) => ofName? s
  | .object [(some s, .null)] => ofName? s
  | _ => none

/-- Reads a value into one field of a record. -/
structure FieldReader (α : Type) where
  name : String
  read : JsonValue → α → Option α

/-- The reader of the field that `set` replaces. -/
def FieldReader.of {α β : Type} (name : String) (read : JsonValue → Option β)
    (set : β → α → α) : FieldReader α :=
  ⟨name, fun v record => (read v).map fun x => set x record⟩

/-- Reads a record given as an object: members with unknown names are skipped, a known name
    may stand once. `seen` holds the known names met so far. -/
def membersInto? {α : Type} (fields : List (FieldReader α)) (seen : List String) (record : α) :
    List (Option String × JsonValue) → Option α
  | [] => some record
  | (none, _) :: _ => none
  | (some name, v) :: rest =>
    match fields.find? (·.name == name) with
    | none => membersInto? fields seen record rest
    | some field =>
      if seen.contains name then none
      else
        match field.read v record with
        | some record => membersInto? fields (name :: seen) record rest
        | none => none

/-- Reads a record given as an array of its fields in order. It may stop early. -/
def itemsInto? {α : Type} : List (FieldReader α) → α → List JsonValue → Option α
  | _, record, [] => some record
  | [], _, _ :: _ => none
  | field :: fields, record, v :: rest =>
    match field.read v record with
    | some record => itemsInto? fields record rest
    | none => none

/-- Reads a record over the values it has when nothing is given. -/
def record? {α : Type} (fields : List (FieldReader α)) (standard : α) : JsonValue → Option α
  | .object members => membersInto? fields [] standard members
  | .array items => itemsInto? fields standard items
  | _ => none

end JsonValue
end SoloMiner
