import SoloMiner.Text.Decimal

/-! # Calculations

    A share states a calculation: two operands, an operator and the exact result, which must
    lie in the range of the job. -/

namespace SoloMiner

/-- The operator between the two operands. -/
inductive Operator where
  | add
  | sub
  | mul
  | div
  | mod
  deriving DecidableEq, Repr

namespace Operator

def all : List Operator := [.add, .sub, .mul, .div, .mod]

def symbol : Operator → Char
  | .add => '+'
  | .sub => '-'
  | .mul => '*'
  | .div => '/'
  | .mod => '%'

def ofSymbol? (s : String) : Option Operator := all.find? fun o => String.singleton o.symbol == s

/-- The operators tried for a pair of operands, in order. -/
def rulesFor (a b : Int64) : List Operator :=
  if b < a then [.sub, .div, .mod, .add, .mul] else [.mod, .add, .mul]

/-- The 64-bit integer with value `n`. -/
def int64Of? (n : Int) : Option Int64 :=
  if Int64.minValue.toInt ≤ n ∧ n ≤ Int64.maxValue.toInt then some (Int64.ofInt n) else none

/-- The remainder with the sign of the dividend. There is none for a zero divisor, nor for
    the one dividend whose quotient by `-1` has no 64-bit value. -/
def remainder? (a b : Int64) : Option Int64 :=
  if b = 0 then none
  else if a = Int64.minValue ∧ b = -1 then none
  else some (a % b)

/-- The result of `a o b`. Sums, differences and products must fit 64 bits; a division must
    come out even. -/
def evaluate (o : Operator) (a b : Int64) : Option Int64 :=
  match o with
  | .add => int64Of? (a.toInt + b.toInt)
  | .sub => int64Of? (a.toInt - b.toInt)
  | .mul => int64Of? (a.toInt * b.toInt)
  | .div =>
    match remainder? a b with
    | some r => if r = 0 then some (a / b) else none
    | none => none
  | .mod => remainder? a b

end Operator

/-- A calculation with its result. The range restricts the result, which is no part of the text
    that is encrypted. -/
structure Candidate where
  first : Int64
  operator : Operator
  second : Int64
  solution : Int64
  deriving DecidableEq, Repr

namespace Candidate

/-- The candidate of one operator, if its result exists and lies in `[min, max]`. A result that
    64 bits do not hold counts as none. -/
def ofOperator? (a b min max : Int64) (o : Operator) : Option Candidate :=
  match o.evaluate a b with
  | some solution =>
    if solution < min ∨ max < solution then none else some ⟨a, o, b, solution⟩
  | none => none

/-- The candidates of a pair of operands, in the order of the rules. -/
def ofPair (a b min max : Int64) : List Candidate :=
  (Operator.rulesFor a b).filterMap (ofOperator? a b min max)

/-- The calculation as the node reads it. -/
def calculationText (c : Candidate) : String :=
  Decimal.text c.first.toInt ++ " " ++ String.singleton c.operator.symbol ++ " " ++
    Decimal.text c.second.toInt

end Candidate
end SoloMiner
