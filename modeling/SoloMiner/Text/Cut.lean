/-! # Cutting text

    Packets and configuration values are cut at separator characters and trimmed of white
    space. All functions work on lists of characters. -/

namespace SoloMiner.Text

/-! ## White space -/

/-- Does `c` have the Unicode property `White_Space`? -/
def isBlank (c : Char) : Bool :=
  let n := c.toNat
  (9 ≤ n && n ≤ 13) || n == 0x20 || n == 0x85 || n == 0xA0 || n == 0x1680 ||
    (0x2000 ≤ n && n ≤ 0x200A) || n == 0x2028 || n == 0x2029 || n == 0x202F ||
    n == 0x205F || n == 0x3000

def trimStart (cs : List Char) : List Char := cs.dropWhile isBlank

/-- `cs` without the longest run of characters at its end that satisfy `p`. -/
def trimEndWhile (p : Char → Bool) (cs : List Char) : List Char :=
  (cs.reverse.dropWhile p).reverse

def trimEnd (cs : List Char) : List Char := trimEndWhile isBlank cs

def trim (cs : List Char) : List Char := trimEnd (trimStart cs)

/-! ## Separators -/

/-- What stands before and after the first `sep`. A text without one is not cut at all. -/
def cutFirst (sep : Char) : List Char → Option (List Char × List Char)
  | [] => none
  | c :: cs =>
    if c = sep then some ([], cs)
    else (cutFirst sep cs).map fun (before, after) => (c :: before, after)

/-- What stands before and after the last `sep`. -/
def cutLast (sep : Char) (cs : List Char) : Option (List Char × List Char) :=
  (cutFirst sep cs.reverse).map fun (after, before) => (before.reverse, after.reverse)

/-- What stands after the first occurrence of `mark`. Further ones are not looked for. -/
def afterFirst (mark : List Char) : List Char → Option (List Char)
  | [] => if mark.isEmpty then some [] else none
  | c :: cs =>
    match mark.isPrefixOf? (c :: cs) with
    | some rest => some rest
    | none => afterFirst mark cs

/-- The fields between the separators, at least one. Two separators side by side have an empty
    field between them. -/
def fields (sep : Char) : List Char → List (List Char)
  | [] => [[]]
  | c :: cs =>
    match fields sep cs with
    | [] => [[c]]
    | f :: fs => if c = sep then [] :: f :: fs else (c :: f) :: fs

/-! ## Places -/

/-- Length in bytes. -/
def byteLength (cs : List Char) : Nat := cs.foldr (fun c n => c.utf8Size + n) 0

/-- What is left behind `n` bytes, if a character starts there. -/
def afterBytes? : Nat → List Char → Option (List Char)
  | 0, cs => some cs
  | _, [] => none
  | n, c :: cs => if c.utf8Size ≤ n then afterBytes? (n - c.utf8Size) cs else none

/-- What stands before byte `n`, if a character ends there. -/
def beforeBytes? : Nat → List Char → Option (List Char)
  | 0, _ => some []
  | _, [] => none
  | n, c :: cs =>
    if c.utf8Size ≤ n then (beforeBytes? (n - c.utf8Size) cs).map (c :: ·) else none

/-- What stands from byte `first` to before byte `last`. -/
def betweenBytes? (cs : List Char) (first last : Nat) : Option (List Char) :=
  (afterBytes? first cs).bind (beforeBytes? (last - first))

end SoloMiner.Text
