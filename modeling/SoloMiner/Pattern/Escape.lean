import SoloMiner.Pattern.Atom
import SoloMiner.Text.Hexadecimal

/-! # Escapes in patterns

    A backslash gives a sign its plain meaning and a letter a special one. -/

namespace SoloMiner.Pattern

/-- Reads so many hexadecimal digits behind those of `n`. -/
def hexValue? (f : PatternFlags) : Nat → Nat → List Char → Option (Nat × List Char)
  | 0, n, cs => some (n, cs)
  | count + 1, n, cs =>
    match f.skip cs with
    | [] => none
    | c :: rest => (Hexadecimal.digit? c).bind fun d => hexValue? f count (16 * n + d) rest

/-- The letters in front of a hexadecimal number, and how many digits it has. -/
def hexLetters : List (Char × Nat) := [('x', 2), ('u', 4), ('U', 8)]

/-- The letters of control characters. -/
def controlLetters : List (Char × Char) := [('a', '\x07'), ('f', '\x0c'), ('t', '\t'),
  ('n', '\n'), ('r', '\r'), ('v', '\x0b')]

/-- Does a sign mean itself behind a backslash? -/
def isSign (c : Char) : Bool := c.toNat < 128 && !c.isAlphanum && c ≠ '<' && c ≠ '>'

/-- A letter or sign behind a backslash. Properties of characters are not known, and a number
    does not stand for a group. -/
def meaning? (c : Char) : Option PatternAtom :=
  if ['d', 's', 'w'].contains c then some (.kind false)
  else if ['D', 'S', 'W'].contains c then some (.kind true)
  else if ['A', 'z'].contains c then some .edge
  else if ['b', 'B', '<', '>'].contains c then some .wordEdge
  else if isSign c then some (.char ⟨c, false⟩)
  else (controlLetters.lookup c).map fun control => .char ⟨control, false⟩

/-- Reads what stands behind a backslash. -/
def escape? (f : PatternFlags) : List Char → Option (PatternAtom × List Char)
  | [] => none
  | c :: rest =>
    match hexLetters.lookup c with
    | none => (meaning? c).map fun atom => (atom, rest)
    | some count =>
      match hexValue? f count 0 rest with
      | none => none
      | some (n, rest) =>
        if n.isValidChar then some (.char ⟨Char.ofNat n, count = 2⟩, rest) else none

end SoloMiner.Pattern
