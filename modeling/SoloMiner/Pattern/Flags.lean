import SoloMiner.Text.Cut

/-! # Flags of patterns

    Flags say how a pattern is read and what its characters mean. They are set with letters,
    those behind a hyphen are cleared, and they count up to the end of the group. -/

namespace SoloMiner

/-- The flags that make a difference to whether a pattern can be used. -/
structure PatternFlags where
  /-- Does a letter stand for its upper and its lower case? -/
  ignoresCase : Bool
  /-- Are characters matched, and not bytes? -/
  isUnicode : Bool
  /-- Do white space and comments not count? -/
  isSpaced : Bool
  deriving DecidableEq, Repr

namespace PatternFlags

/-- The flags in front of a pattern. -/
def standard : PatternFlags := ⟨false, true, false⟩

/-! ## Setting -/

/-- The letters of all flags. -/
def letters : List Char := ['i', 'm', 's', 'U', 'u', 'R', 'x']

/-- Sets the flags in front of the hyphen and clears those behind it. No letter and no hyphen
    may be repeated, and a hyphen may not be the last. -/
def set? (f : PatternFlags) (cs : List Char) : Option PatternFlags :=
  let isOn := (cs.takeWhile (· ≠ '-')).contains
  let choose (letter : Char) (before : Bool) :=
    if isOn letter then true else if cs.contains letter then false else before
  if cs.all (fun c => c = '-' || letters.contains c) && cs.Nodup && cs.getLast? ≠ some '-' then
    some ⟨choose 'i' f.ignoresCase, choose 'u' f.isUnicode, choose 'x' f.isSpaced⟩
  else none

/-! ## Space -/

/-- Passes over white space and comments. A comment goes from a number sign to the end of the
    line. -/
def skipSpace (inComment : Bool) : List Char → List Char
  | [] => []
  | c :: cs =>
    if inComment then skipSpace (c ≠ '\n') cs
    else if Text.isBlank c then skipSpace false cs
    else if c = '#' then skipSpace true cs
    else c :: cs

/-- Passes over what does not count. -/
def skip (f : PatternFlags) (cs : List Char) : List Char :=
  if f.isSpaced then skipSpace false cs else cs

/-- The next character that counts, where a comment is taken for its number sign alone. -/
def peek? (f : PatternFlags) (cs : List Char) : Option Char :=
  if f.isSpaced then
    match cs.dropWhile Text.isBlank with
    | '#' :: rest => (rest.dropWhile Text.isBlank).head?
    | rest => rest.head?
  else cs.head?

end PatternFlags
end SoloMiner
