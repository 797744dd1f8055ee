import SoloMiner.Pattern.Flags

/-! # Atoms of patterns

    An atom matches one character or a place between two. What is matched is text, so that an
    atom of bytes may not match part of a character. Which characters are the two cases of a
    letter, and which are digits, blanks and letters, is known of ASCII only. -/

namespace SoloMiner

/-- A character that stands for itself. -/
structure PatternChar where
  char : Char
  /-- Is it written as the value of a byte? -/
  isByte : Bool
  deriving DecidableEq, Repr

def PatternChar.isAscii (c : PatternChar) : Bool := c.char.toNat < 128

/-- A set of characters. -/
inductive PatternSet where
  | empty
  | char (c : PatternChar)
  | range (first last : PatternChar)
  /-- A class of ASCII characters by its name. -/
  | named (isNegated : Bool)
  /-- The digits, the blanks, or the letters. -/
  | kind (isNegated : Bool)
  | brackets (isNegated : Bool) (set : PatternSet)
  | union (sets : List PatternSet)
  /-- What is in both sets, in the first only, or in one of them. -/
  | combination (left right : PatternSet)

/-- What a pattern matches at one place. -/
inductive PatternAtom where
  | char (c : PatternChar)
  /-- Any character. -/
  | any
  /-- The digits, the blanks, or the letters. -/
  | kind (isNegated : Bool)
  | set (s : PatternSet)
  /-- The start or the end of a line or of the text. -/
  | edge
  /-- The start or the end of a word, or the lack of one. -/
  | wordEdge

namespace PatternSet

/-- The union of sets. -/
def unionOf : List PatternSet → PatternSet
  | [] => .empty
  | [s] => s
  | ss => .union ss

mutual

/-- How deeply sets are nested. -/
def depth : PatternSet → Nat
  | .brackets _ s => s.depth + 1
  | .union ss => depthOfAll ss + 1
  | .combination s t => max s.depth t.depth + 1
  | _ => 0

def depthOfAll : List PatternSet → Nat
  | [] => 0
  | s :: ss => max s.depth (depthOfAll ss)

end

/-- Are the characters known? A complement of bytes has parts of characters. -/
def knows (f : PatternFlags) : PatternSet → Bool
  | .char c => if f.isUnicode then !f.ignoresCase else c.isAscii
  | .range c d => if f.isUnicode then !f.ignoresCase else c.isAscii && d.isAscii
  | .named isNegated => if f.isUnicode then !f.ignoresCase else !isNegated
  | .kind isNegated => !f.isUnicode && !isNegated
  | .brackets isNegated _ => f.isUnicode || !isNegated
  | _ => true

mutual

/-- Can a set be used? -/
def isUsable (f : PatternFlags) (s : PatternSet) : Bool :=
  s.knows f && match s with
    | .brackets _ t => isUsable f t
    | .union ts => areUsable f ts
    | .combination t u => isUsable f t && isUsable f u
    | _ => true

def areUsable (f : PatternFlags) : List PatternSet → Bool
  | [] => true
  | s :: ss => isUsable f s && areUsable f ss

end
end PatternSet

namespace PatternAtom

def depth : PatternAtom → Nat
  | .set s => s.depth
  | _ => 0

/-- Can an atom be used? -/
def isUsable (f : PatternFlags) : PatternAtom → Bool
  | .char c => if f.isUnicode then !f.ignoresCase else c.isAscii || !c.isByte
  | .any => f.isUnicode
  | .kind isNegated => !f.isUnicode && !isNegated
  | .set s => s.isUsable f
  | .edge => true
  | .wordEdge => true

end PatternAtom
end SoloMiner
