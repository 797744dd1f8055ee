import SoloMiner.Pattern.Atom

/-! # Patterns

    A pattern is a regular expression for the value of a field. -/

namespace SoloMiner

/-- A pattern. -/
inductive Pattern where
  | empty
  /-- An atom under the flags that count for it. -/
  | atom (flags : PatternFlags) (a : PatternAtom)
  /-- Flags are set for what is behind. -/
  | setting
  | repetition (p : Pattern)
  | group (p : Pattern)
  | sequence (ps : List Pattern)
  | choice (ps : List Pattern)

/-- Why a pattern cannot be used. -/
inductive PatternFault where
  /-- It is no pattern, nests too deeply, or has an atom that cannot be used. -/
  | unusable
  /-- It asks for the edge of a word of any script. -/
  | wordEdge
  deriving DecidableEq, Repr

def PatternFault.message : PatternFault → String
  | .unusable => "error building NFA"
  | .wordEdge => "unsupported regex feature for DFAs: cannot build DFAs for regexes with " ++
      "Unicode word boundaries; switch to ASCII word boundaries, or heuristically enable " ++
      "Unicode word boundaries or use a different regex engine"

namespace Pattern

/-- The pattern of parts that follow each other. -/
def sequenceOf : List Pattern → Pattern
  | [] => .empty
  | [p] => p
  | ps => .sequence ps

/-- The pattern of choices, at least one. -/
def choiceOf : List Pattern → Pattern
  | [p] => p
  | ps => .choice ps

mutual

/-- How deeply parts are nested. -/
def depth : Pattern → Nat
  | .empty => 0
  | .atom _ a => a.depth
  | .setting => 0
  | .repetition p => p.depth + 1
  | .group p => p.depth + 1
  | .sequence ps => depthOfAll ps + 1
  | .choice ps => depthOfAll ps + 1

def depthOfAll : List Pattern → Nat
  | [] => 0
  | p :: ps => max p.depth (depthOfAll ps)

end

mutual

/-- The atoms with the flags that count for them. -/
def atoms : Pattern → List (PatternFlags × PatternAtom)
  | .empty => []
  | .atom f a => [(f, a)]
  | .setting => []
  | .repetition p => p.atoms
  | .group p => p.atoms
  | .sequence ps => atomsOfAll ps
  | .choice ps => atomsOfAll ps

def atomsOfAll : List Pattern → List (PatternFlags × PatternAtom)
  | [] => []
  | p :: ps => p.atoms ++ atomsOfAll ps

end

/-- How deeply parts may be nested. -/
def maxDepth : Nat := 250

def isUsable (p : Pattern) : Bool :=
  decide (p.depth ≤ maxDepth) && p.atoms.all fun (f, a) => a.isUsable f

/-- Does a pattern ask for the edge of a word of any script? -/
def asksWordEdge (p : Pattern) : Bool :=
  p.atoms.any fun
    | (f, .wordEdge) => f.isUnicode
    | _ => false

end Pattern
end SoloMiner
