import SoloMiner.Pattern.Basic
import SoloMiner.Pattern.Brackets
import SoloMiner.Text.Alphanumeric

/-! # Reading patterns

    A pattern is read from left to right, and what stands between round brackets is read by
    the same rules. No group has the name of another one. -/

namespace SoloMiner.Pattern

/-! ## Openings -/

/-- What an opening bracket begins. -/
inductive Opening where
  /-- Other flags for the rest of the group around. -/
  | setting (flags : PatternFlags)
  /-- A group. `names` are all names up to here. -/
  | group (flags : PatternFlags) (names : List (List Char))

/-- Can a group have the name `cs`? -/
def isGroupName : List Char → Bool
  | [] => false
  | c :: cs =>
    let isLater (c : Char) : Bool := ['_', '.', '[', ']'].contains c || Text.isAlphanumeric c
    (c = '_' || Text.isAlphabetic c) && cs.all isLater

/-- Reads the name of a group up to its closing bracket. -/
def groupName? (f : PatternFlags) (names : List (List Char)) (cs : List Char) :
    Option (Opening × List Char) :=
  match cs.span (· ≠ '>') with
  | (name, '>' :: rest) =>
    if isGroupName name && !names.contains name then some (.group f (name :: names), rest)
    else none
  | _ => none

/-- Reads what follows an opening bracket. -/
def opening? (f : PatternFlags) (names : List (List Char)) (cs : List Char) :
    Option (Opening × List Char) :=
  match f.skip cs with
  | '?' :: 'P' :: '<' :: rest => groupName? f names rest
  | '?' :: '<' :: rest => groupName? f names rest
  | '?' :: rest =>
    let letters := rest.takeWhile fun c => c ≠ ':' && c ≠ ')'
    match f.set? letters, rest.drop letters.length with
    | some inner, ':' :: rest => some (.group inner names, rest)
    | some inner, ')' :: rest => if letters.isEmpty then none else some (.setting inner, rest)
    | _, _ => none
  | rest => some (.group f names, rest)

/-! ## Patterns

    Each call consumes a character, so the length of the text is fuel enough. -/

def isRepetition (c : Char) : Bool := c = '?' || c = '*' || c = '+'

/-- Marks the latest part as repeated. Flags are no part that can be. -/
def repeated? : List Pattern → Option (List Pattern)
  | [] => none
  | .setting :: _ => none
  | p :: parts => some (.repetition p :: parts)

/-- Behind the mark of a repetition, another one says that it is short. -/
def withoutShort : List Char → List Char
  | '?' :: cs => cs
  | cs => cs

/-- Reads an atom that is no set. -/
def atom? (f : PatternFlags) : List Char → Option (PatternAtom × List Char)
  | [] => none
  | c :: cs =>
    if c = '\\' then escape? f cs
    else if c = '.' then some (.any, cs)
    else if c = '^' || c = '$' then some (.edge, cs)
    else some (.char ⟨c, false⟩, cs)

/-- The choices in front of the bars and the parts behind the last one, the latest first. -/
def finished (choices parts : List Pattern) : Pattern :=
  choiceOf (sequenceOf parts.reverse :: choices).reverse

/-- Reads up to the bracket that closes the group, or to the end. Gives the pattern, all names
    up to there, and the rest. -/
def group? : Nat → PatternFlags → List (List Char) → List Pattern → List Pattern →
    List Char → Option (Pattern × List (List Char) × List Char)
  | 0, _, _, _, _, _ => none
  | n + 1, f, names, choices, parts, cs =>
    match f.skip cs with
    | [] => some (finished choices parts, names, [])
    | ')' :: rest => some (finished choices parts, names, ')' :: rest)
    | '|' :: rest => group? n f names (sequenceOf parts.reverse :: choices) [] rest
    | '(' :: rest =>
      match opening? f names rest with
      | none => none
      | some (.setting f, rest) => group? n f names choices (.setting :: parts) rest
      | some (.group inner names, rest) =>
        match group? n inner names [] [] rest with
        | some (p, names, ')' :: rest) => group? n f names choices (.group p :: parts) rest
        | _ => none
    | '[' :: rest =>
      match set? f rest with
      | none => none
      | some (set, rest) => group? n f names choices (.atom f (.set set) :: parts) rest
    | '\x7b' :: _ => none
    | c :: rest =>
      if isRepetition c then
        match repeated? parts with
        | none => none
        | some parts => group? n f names choices parts (withoutShort rest)
      else
        match atom? f (c :: rest) with
        | none => none
        | some (a, rest) => group? n f names choices (.atom f a :: parts) rest

/-- Reads a pattern. No brace closes a count, since what is read stands in braces. -/
def ofText? (cs : List Char) : Option Pattern :=
  match group? (cs.length + 1) .standard [] [] [] cs with
  | some (p, _, []) => some p
  | _ => none

/-- Why a text cannot be used as a pattern. -/
def fault? (cs : List Char) : Option PatternFault :=
  match ofText? cs with
  | none => some .unusable
  | some p =>
    if !p.isUsable then some .unusable
    else if p.asksWordEdge then some .wordEdge
    else none

end SoloMiner.Pattern
