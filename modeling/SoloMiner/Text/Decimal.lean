/-! # Decimal numerals

    Reading and writing whole numbers. A numeral is one optional sign and at least one
    digit; nothing may follow it, and a number outside the width asked for is refused. Of
    numbers with a fraction only the form is known. -/

namespace SoloMiner.Decimal

/-! ## Writing -/

/-- The character of a digit below ten. -/
def digitChar (d : Nat) : Char := Char.ofNat (48 + d)

/-- The shortest numeral of `n`. -/
def ofNat (n : Nat) : List Char :=
  if n < 10 then [digitChar n] else ofNat (n / 10) ++ [digitChar (n % 10)]
termination_by n

/-- The shortest numeral of `n`, with a minus sign in front if it is negative. -/
def ofInt (n : Int) : List Char :=
  if n < 0 then '-' :: ofNat n.natAbs else ofNat n.natAbs

def text (n : Int) : String := String.ofList (ofInt n)

/-! ## Reading -/

/-- The value of an ASCII digit. -/
def digit? (c : Char) : Option Nat :=
  if 48 ≤ c.toNat ∧ c.toNat ≤ 57 then some (c.toNat - 48) else none

/-- Reads on from the value `n` of the digits already read. What reaches `bound` stays there, so
    that a long numeral makes no large number. -/
def digitsFrom? (bound n : Nat) : List Char → Option Nat
  | [] => some n
  | c :: cs =>
    match digit? c with
    | some d => digitsFrom? bound (min bound (n * 10 + d)) cs
    | none => none

/-- The number written by one or more digits, below `bound`. -/
def digitsBelow? (bound : Nat) (cs : List Char) : Option Nat :=
  if cs.isEmpty then none else (digitsFrom? bound 0 cs).filter (· < bound)

/-- A numeral with an optional plus sign, of a number below `bound`. A plus sign alone is none. -/
def natBelow? (bound : Nat) (cs : List Char) : Option Nat :=
  let unsigned := match cs with
    | '+' :: ds => ds
    | ds => ds
  digitsBelow? bound unsigned

def uint16? (cs : List Char) : Option UInt16 := (natBelow? UInt16.size cs).map UInt16.ofNat
def uint32? (cs : List Char) : Option UInt32 := (natBelow? UInt32.size cs).map UInt32.ofNat
def uint64? (cs : List Char) : Option UInt64 := (natBelow? UInt64.size cs).map UInt64.ofNat

/-- A numeral with an optional sign, of a number that fits 64 bits. -/
def int64? : List Char → Option Int64
  | '-' :: ds => (digitsBelow? (UInt64.size / 2 + 1) ds).map fun n => Int64.ofInt (-n)
  | cs => (natBelow? (UInt64.size / 2) cs).map fun n => Int64.ofInt n

/-! ## Form -/

def isDigit (c : Char) : Bool := (digit? c).isSome

def withoutSign : List Char → List Char
  | '+' :: cs => cs
  | '-' :: cs => cs
  | cs => cs

/-- Is `cs` nothing, or the mark of an exponent and a numeral? -/
def isExponent : List Char → Bool
  | [] => true
  | e :: cs =>
    let ds := withoutSign cs
    (e = 'e' || e = 'E') && !ds.isEmpty && ds.all isDigit

/-- Are there digits in front of a point or behind it, and then an exponent or nothing? -/
def isUnsignedReal (cs : List Char) : Bool :=
  let rest := cs.dropWhile isDigit
  match rest with
  | '.' :: behind =>
    (cs.head?.any isDigit || behind.head?.any isDigit) && isExponent (behind.dropWhile isDigit)
  | _ => cs.head?.any isDigit && isExponent rest

/-- Is `cs` a number, whole or not, or the word for an infinite one or for none? -/
def isReal (cs : List Char) : Bool :=
  let cs := withoutSign cs
  ["inf", "infinity", "nan"].contains (String.ofList cs).toLower || isUnsignedReal cs

end SoloMiner.Decimal
