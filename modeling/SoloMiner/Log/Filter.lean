import SoloMiner.Log.Directive

/-! # Log filters

    A filter is a list of directives, written between commas. Of those that are for an event the
    most specific one says whether it is shown; an event that none is for is not shown. An item
    that divides a character ends the program. -/

namespace SoloMiner

structure LogFilter where
  directives : List LogDirective
  deriving DecidableEq, Repr

namespace LogFilter

/-- Shows what a user wants to know. -/
def standard : LogFilter := ⟨[{ LogDirective.everything with least := some .info }]⟩

/-! ## Reading -/

/-- The texts between the commas that are not empty. -/
def items (s : String) : List (List Char) := (Text.fields ',' s.toList).filter (!·.isEmpty)

/-- Tells that an item is skipped. -/
def notice (item : List Char) (e : DirectiveError) : String :=
  "ignoring `" ++ String.ofList item ++ "`: " ++ e.message

/-- Reads a filter. What is no directive is skipped, and no directive is the standard. -/
def ofText (s : String) : LogFilter :=
  match (items s).filterMap fun item => (LogDirective.ofText item).toOption with
  | [] => standard
  | directives => ⟨directives⟩

/-- Does an item divide a character? -/
def isBroken (item : List Char) : Bool :=
  match LogDirective.ofText item with
  | .error .dividedCharacter => true
  | _ => false

/-- Can a filter be read to its end? -/
def isReadable (s : String) : Bool := (items s).all (!isBroken ·)

/-- What a reader of a filter is told about it, up to where reading ends. -/
def notices (s : String) : List String :=
  ((items s).takeWhile (!isBroken ·)).filterMap fun item =>
    match LogDirective.ofText item with
    | .ok _ => none
    | .error e => some (notice item e)

/-! ## Use -/

/-- The directive that counts for an event: of those as specific as each other the last. -/
def forRecord? (f : LogFilter) (r : LogRecord) : Option LogDirective :=
  (f.directives.filter (·.isFor r)).foldl
    (fun best d =>
      match best with
      | none => some d
      | some b => if d.isAsSpecific b then some d else best)
    none

def shows (f : LogFilter) (r : LogRecord) : Bool :=
  match (f.forRecord? r).bind (·.least) with
  | some least => r.level.isShown least
  | none => false

end LogFilter
end SoloMiner
