import SoloMiner.Pattern.Escape

/-! # Sets in brackets

    Between brackets stand characters, ranges, classes and further sets. The operators `&&`,
    `--` and `~~` have the set of everything in front of them on their left. -/

namespace SoloMiner.Pattern

/-! ## Items -/

/-- Reads a character or an escape. -/
def setAtom? (f : PatternFlags) : List Char → Option (PatternAtom × List Char)
  | [] => none
  | '\\' :: cs => escape? f cs
  | c :: cs => some (.char ⟨c, false⟩, cs)

/-- An atom as an item of a set: a place is none. -/
def itemOf? : PatternAtom → Option PatternSet
  | .char c => some (.char c)
  | .kind isNegated => some (.kind isNegated)
  | _ => none

/-- The range between two atoms, which are characters in ascending order. -/
def rangeOf? : PatternAtom → PatternAtom → Option PatternSet
  | .char c, .char d => if c.char ≤ d.char then some (.range c d) else none
  | _, _ => none

/-- Reads an item or a range. A hyphen in front of another one or of the closing bracket makes
    no range. -/
def item? (f : PatternFlags) (cs : List Char) : Option (PatternSet × List Char) := do
  let (first, rest) ← setAtom? f cs
  match f.skip rest with
  | '-' :: behind =>
    if f.peek? behind = some ']' ∨ f.peek? behind = some '-' then
      pure (← itemOf? first, '-' :: behind)
    else
      let (last, rest) ← setAtom? f (f.skip behind)
      pure (← rangeOf? first last, rest)
  | rest => pure (← itemOf? first, rest)

/-- The names of the classes of ASCII characters. -/
def classNames : List String := ["alnum", "alpha", "ascii", "blank", "cntrl", "digit", "graph",
  "lower", "print", "punct", "space", "upper", "word", "xdigit"]

/-- Reads a class behind its opening bracket: a name between colons, perhaps behind a
    circumflex. -/
def namedClass? : List Char → Option (PatternSet × List Char)
  | ':' :: cs =>
    let (isNegated, cs) := match cs with
      | '^' :: rest => (true, rest)
      | rest => (false, rest)
    match cs.span (· ≠ ':') with
    | (name, ':' :: ']' :: rest) =>
      if classNames.contains (String.ofList name) then some (.named isNegated, rest) else none
    | _ => none
  | _ => none

/-- Passes over at most `limit` hyphens and counts them. -/
def hyphens (f : PatternFlags) : Nat → List Char → Nat × List Char
  | 0, cs => (0, cs)
  | limit + 1, cs =>
    match f.skip cs with
    | '-' :: rest =>
      let (count, rest) := hyphens f limit rest
      (count + 1, rest)
    | rest => (0, rest)

/-! ## Sets

    Each two calls consume a character, so twice the length of the text is fuel enough. -/

def isOperator (c : Char) : Bool := c = '&' || c = '-' || c = '~'

/-- The set of the items behind an operator, the latest first, with what is on its left. -/
def combined (left : Option PatternSet) (items : List PatternSet) : PatternSet :=
  let right := PatternSet.unionOf items.reverse
  match left with
  | none => right
  | some set => .combination set right

mutual

/-- Reads a set behind its opening bracket. It starts with hyphens that are meant, or with a
    closing bracket that is. -/
def brackets? (f : PatternFlags) : Nat → List Char → Option (PatternSet × List Char)
  | 0, _ => none
  | n + 1, cs =>
    let (isNegated, cs) := match f.skip cs with
      | '^' :: rest => (true, rest)
      | rest => (false, rest)
    let inner := match hyphens f (cs.length + 1) cs with
      | (0, ']' :: rest) => items? f n none [.char ⟨']', false⟩] rest
      | (count, rest) => items? f n none (List.replicate count (.char ⟨'-', false⟩)) rest
    inner.map fun (set, rest) => (.brackets isNegated set, rest)

/-- Reads further items up to the closing bracket. -/
def items? (f : PatternFlags) : Nat → Option PatternSet → List PatternSet → List Char →
    Option (PatternSet × List Char)
  | 0, _, _, _ => none
  | n + 1, left, items, cs =>
    match f.skip cs with
    | [] => none
    | ']' :: rest => some (combined left items, rest)
    | '[' :: rest =>
      match namedClass? rest with
      | some (set, rest) => items? f n left (set :: items) rest
      | none =>
        match brackets? f n rest with
        | some (set, rest) => items? f n left (set :: items) rest
        | none => none
    | c :: rest =>
      if isOperator c && rest.head? = some c then
        items? f n (some (combined left items)) [] (rest.drop 1)
      else
        match item? f (c :: rest) with
        | some (set, rest) => items? f n left (set :: items) rest
        | none => none

end

/-- Reads a set behind its opening bracket. -/
def set? (f : PatternFlags) (cs : List Char) : Option (PatternSet × List Char) :=
  brackets? f (2 * cs.length + 2) cs

end SoloMiner.Pattern
